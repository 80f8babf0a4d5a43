import Stakebook.Form.Record

/-!
# Forms of sums

A value of a sum is written as the number of its variant, in four bytes, and then its content. Its
document names the variant: a variant without content is a string, or a member with `null`; a
variant with content is an object with one member.
-/

namespace Stakebook

namespace Form

/-- A variant of a sum: its name, whether it has content, and how the content is written and
read. -/
structure Variant (α : Type) where
  name : String
  hasContent : Bool
  encode? : α → Option Bytes
  decode : Bytes → Option (α × Bytes)
  toJson? : α → Option (Option Json)
  ofJson : Json → Option α

namespace Variant

variable {α β : Type}

/-- A variant without content: one value. -/
def unit [DecidableEq α] (name : String) (value : α) : Variant α where
  name := name
  hasContent := false
  encode? a := if a = value then some [] else none
  decode bs := some (value, bs)
  toJson? a := if a = value then some (some .null) else none
  ofJson
    | .null => some value
    | _ => none

/-- A variant with content. -/
def content (name : String) (form : Form β) (wrap : β → α) (unwrap? : α → Option β) :
    Variant α where
  name := name
  hasContent := true
  encode? a := (unwrap? a).map form.encode
  decode bs := (form.decode bs).map fun (b, rest) => (wrap b, rest)
  toJson? a := (unwrap? a).map form.toJson
  ofJson j := (form.ofJson j).map wrap

/-- A variant whose content is a record. -/
def fields (name : String) (fields : Fields β) (wrap : β → α) (unwrap? : α → Option β) :
    Variant α := content name (record fields id id) wrap unwrap?

end Variant

variable {α : Type}

/-- The bytes of a value: the number of the first variant that it is of, and its content. -/
def encodeVariant (a : α) : Nat → List (Variant α) → Bytes
  | _, [] => []
  | i, v :: vs =>
    match v.encode? a with
    | some content => Bytes.littleEndian 4 i ++ content
    | none => encodeVariant a (i + 1) vs

/-- The document of a value, by the first variant that it is of. -/
def variantToJson (a : α) : List (Variant α) → Option Json
  | [] => none
  | v :: vs =>
    match v.toJson? a with
    | some content =>
      if v.hasContent then content.map fun j => .object [(Json.escape v.name, j)]
      else some (Json.ofString v.name)
    | none => variantToJson a vs

/-- The form of a sum with these variants. -/
def sum (variants : List (Variant α)) : Form α where
  encode a := encodeVariant a 0 variants
  decode bs := do
    let (i, rest) ← decodeNat 4 bs
    (← variants[i]?).decode rest
  toJson a := variantToJson a variants
  ofJson
    | .string written => do
      let name ← Json.unescape written
      let v ← variants.find? fun v => v.name = name
      if v.hasContent then none else v.ofJson .null
    | .object [(written, content)] => do
      let name ← Json.unescape written
      let v ← variants.find? fun v => v.name = name
      v.ofJson content
    | _ => none

end Form

end Stakebook
