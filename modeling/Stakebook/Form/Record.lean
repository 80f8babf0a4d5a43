import Stakebook.Form.Basic

/-!
# Forms of records

A record is written field after field. Its document is an object with a member for each field; an
array of the fields in their order is read as well. Members with unknown names are passed over,
whatever they hold, and a name that stands twice is refused. Some fields may be missing, and get a
value then.

`Fields α` describes the fields of a record whose values are nested pairs, and `Form.record` makes
it the form of a type with those fields.
-/

namespace Stakebook

namespace Form

/-- A field of a record: its name and form, the value it has if an object lacks it, the value it has
if an array ends before it, and the values that are left out when it is written. -/
structure Field (α : Type) where
  name : String
  form : Form α
  absent : Option α
  cut : Option α
  omits : α → Bool

namespace Field

variable {α : Type}

/-- A field that is known by its place alone. -/
def unnamed (form : Form α) : Field α := ⟨"", form, none, none, fun _ => false⟩

/-- A field that must be there. -/
def required (name : String) (form : Form α) : Field α := ⟨name, form, none, none, fun _ => false⟩

/-- A field that has a default value. -/
def withDefault (name : String) (form : Form α) (value : α) : Field α :=
  ⟨name, form, some value, some value, fun _ => false⟩

/-- A field whose value may be missing; an array has to hold it all the same. -/
def optional (name : String) (form : Form α) : Field (Option α) :=
  ⟨name, form.option, some none, none, fun _ => false⟩

/-- A field whose value may be missing, and which is left out when it is. -/
def omitted (name : String) (form : Form α) : Field (Option α) :=
  ⟨name, form.option, some none, some none, Option.isNone⟩

end Field

/-- A member of an object, with its name read. -/
def readName (m : List Char × Json) : Option (String × Json) :=
  (Json.unescape m.1).map fun name => (name, m.2)

/-- A member of an object, with its name written. -/
def writeName (m : String × Json) : List Char × Json := (Json.escape m.1, m.2)

/-- The fields of a record. The members of an object come with their names read. -/
structure Fields (α : Type) where
  names : List String
  encode : α → Bytes
  decode : Bytes → Option (α × Bytes)
  toMembers : α → Option (List (List Char × Json))
  ofMembers : List (String × Json) → Option α
  ofItems : List Json → Option α

namespace Fields

variable {α β : Type}

/-- No field. -/
def nil : Fields Unit where
  names := []
  encode _ := []
  decode bs := some ((), bs)
  toMembers _ := some []
  ofMembers _ := some ()
  ofItems
    | [] => some ()
    | _ => none

/-- One more field, in front. -/
def cons (f : Field α) (rest : Fields β) : Fields (α × β) where
  names := f.name :: rest.names
  encode x := (if f.omits x.1 then [] else f.form.encode x.1) ++ rest.encode x.2
  decode bs := do
    let (a, bs) ← f.form.decode bs
    let (b, bs) ← rest.decode bs
    return ((a, b), bs)
  toMembers x := do
    let members ← rest.toMembers x.2
    if f.omits x.1 then return members
    return writeName (f.name, ← f.form.toJson x.1) :: members
  ofMembers members := do
    let a ← match members.filter fun m => m.1 = f.name with
      | [] => f.absent
      | [m] => f.form.ofJson m.2
      | _ => none
    return (a, ← rest.ofMembers members)
  ofItems
    | [] => do return (← f.cut, ← rest.ofItems [])
    | item :: items => do return (← f.form.ofJson item, ← rest.ofItems items)

end Fields

variable {α β : Type}

/-- The form of a record with these fields. -/
def record (fields : Fields α) (wrap : α → β) (unwrap : β → α) : Form β where
  encode b := fields.encode (unwrap b)
  decode bs := (fields.decode bs).map fun (a, rest) => (wrap a, rest)
  toJson b := (fields.toMembers (unwrap b)).map Json.object
  ofJson
    | .object members => ((members.mapM readName).bind fields.ofMembers).map wrap
    | .array items => (fields.ofItems items).map wrap
    | _ => none

/-- The form of a tuple of these fields. Its document is an array. -/
def tuple (fields : Fields α) (wrap : α → β) (unwrap : β → α) : Form β where
  encode b := fields.encode (unwrap b)
  decode bs := (fields.decode bs).map fun (a, rest) => (wrap a, rest)
  toJson b := (fields.toMembers (unwrap b)).map fun members => .array (members.map Prod.snd)
  ofJson j := ((items? j).bind fields.ofItems).map wrap

end Form

end Stakebook
