import Stakebook.Batch
import Stakebook.Json.Parser
import Stakebook.Json.Text
import Stakebook.OrdMap.Basic
import Stakebook.Quantity

/-!
# Written forms

A `Form` says how the values of a type are written, in two ways: as bytes, one value after the
other, and as a document. Not every value has a document, since the keys of an object are strings.

In the binary form numbers have a fixed width and begin with the low byte, and whatever varies in
length begins with its length in eight bytes. A form of a composite type is put together from the
forms of its parts: lists and maps here, records and sums in modules of their own.
-/

namespace Stakebook

/-- How the values of a type are written: as bytes, and as a document. Reading bytes returns what
follows the value. -/
structure Form (α : Type) where
  encode : α → Bytes
  decode : Bytes → Option (α × Bytes)
  toJson : α → Option Json
  ofJson : Json → Option α

namespace Form

variable {α β κ ν : Type}

/-- The value of bytes, if they begin with one. -/
def decode? (f : Form α) (bs : Bytes) : Option α := (f.decode bs).map Prod.fst

/-- The value of the text of a document. -/
def parse? (f : Form α) (text : String) : Option α := (Json.parse? text).bind f.ofJson

/-- The text of the document of a value. -/
def compact? (f : Form α) (a : α) : Option String := (f.toJson a).map Json.compact

/-- The text of the document of a value, with line breaks. -/
def pretty? (f : Form α) (a : α) : Option String := (f.toJson a).map Json.pretty

/-- A form of a type that another one represents. -/
def imap (f : Form α) (wrap : α → β) (unwrap : β → α) : Form β where
  encode b := f.encode (unwrap b)
  decode bs := (f.decode bs).map fun (a, rest) => (wrap a, rest)
  toJson b := f.toJson (unwrap b)
  ofJson j := (f.ofJson j).map wrap

/-- A form of a type whose values are some of those of another. -/
def refine (f : Form α) (wrap? : α → Option β) (unwrap : β → α) : Form β where
  encode b := f.encode (unwrap b)
  decode bs := (f.decode bs).bind fun (a, rest) => (wrap? a).map fun b => (b, rest)
  toJson b := f.toJson (unwrap b)
  ofJson j := (f.ofJson j).bind wrap?

/-! ## Numbers -/

/-- Takes bytes from the front, if there are enough. -/
def takeBytes (n : Nat) (bs : Bytes) : Option (Bytes × Bytes) :=
  let front := bs.take n
  if front.length = n then some (front, bs.drop n) else none

/-- Reads a number of a fixed width. -/
def decodeNat (width : Nat) (bs : Bytes) : Option (Nat × Bytes) :=
  (takeBytes width bs).map fun (front, rest) => (Bytes.value front, rest)

/-- The natural number that a document is. -/
def natural? : Json → Option Nat
  | .number written => Json.natural? written
  | _ => none

/-- A word of as many bytes. -/
def word (bytes : Nat) : Form (Word (8 * bytes)) where
  encode a := Bytes.littleEndian bytes a.toNat
  decode bs := do
    let (n, rest) ← decodeNat bytes bs
    return (← Word.ofNat? n, rest)
  toJson a := some (Json.ofNat a.toNat)
  ofJson j := (natural? j).bind Word.ofNat?

/-- Words of one, four, eight and sixteen bytes. -/
def word8 : Form (Word 8) := word 1
@[inherit_doc word8] def word32 : Form (Word 32) := word 4
@[inherit_doc word8] def word64 : Form (Word 64) := word 8
@[inherit_doc word8] def word128 : Form (Word 128) := word 16

/-- A count or a place in a list, written like a word of eight bytes. -/
def nat64 : Form Nat where
  encode n := Bytes.littleEndian 8 n
  decode bs := decodeNat 8 bs
  toJson n := some (Json.ofNat n)
  ofJson j := (natural? j).bind fun n => if n < 2 ^ 64 then some n else none

/-- A byte. -/
def byte : Form UInt8 := word8.imap (fun w => UInt8.ofNat w.toNat) fun b => ⟨b.toNat, b.toNat_lt⟩

/-! ## Text -/

/-- Reads what has its length before it. -/
def decodeSized (bs : Bytes) : Option (Bytes × Bytes) := do
  let (n, rest) ← decodeNat 8 bs
  takeBytes n rest

/-- Writes bytes with their length before them. -/
def encodeSized (bs : Bytes) : Bytes := Bytes.littleEndian 8 bs.length ++ bs

/-- The text that a document is. -/
def string? : Json → Option String
  | .string written => Json.unescape written
  | _ => none

/-- A text. -/
def text : Form String where
  encode s := encodeSized (Bytes.utf8 s)
  decode bs := do
    let (front, rest) ← decodeSized bs
    return (← Bytes.ofUtf8? front, rest)
  toJson s := some (Json.ofString s)
  ofJson := string?

/-- Thirty-two bytes, written as text. -/
def octets : Form Octets where
  encode o := encodeSized o.written
  decode bs := do
    let (front, rest) ← decodeSized bs
    return (← (Octets.parseBytes front).toOption, rest)
  toJson o := some (Json.ofString o.hex)
  ofJson j := (string? j).bind fun s => (Octets.parse s).toOption

/-- A digest. -/
def digest : Form Digest := octets

/-- An account. -/
def account : Form AccountId := octets.imap AccountId.mk AccountId.octets

/-! ## Lists -/

/-- Reads as many values. -/
def decodeMany (f : Form α) : Nat → Bytes → Option (List α × Bytes)
  | 0, bs => some ([], bs)
  | n + 1, bs => do
    let (a, rest) ← f.decode bs
    let (as, rest) ← decodeMany f n rest
    return (a :: as, rest)

/-- The items of a document. -/
def items? : Json → Option (List Json)
  | .array items => some items
  | _ => none

/-- A list. -/
def list (f : Form α) : Form (List α) where
  encode as := Bytes.littleEndian 8 as.length ++ as.flatMap f.encode
  decode bs := do
    let (n, rest) ← decodeNat 8 bs
    decodeMany f n rest
  toJson as := (as.mapM f.toJson).map Json.array
  ofJson j := (items? j).bind fun items => items.mapM f.ofJson

/-- A list whose length is a word. -/
def batch (f : Form α) : Form (Batch α) := (list f).refine Batch.ofList? Batch.items

/-- Thirty-two bytes, written as bytes. -/
def rawOctets : Form Octets where
  encode o := o.bytes
  decode bs := do
    let (front, rest) ← takeBytes 32 bs
    return (← Octets.ofBytes? front, rest)
  toJson o := (list byte).toJson o.bytes
  ofJson j := ((list byte).ofJson j).bind Octets.ofBytes?

/-- A value that may be missing. -/
def option (f : Form α) : Form (Option α) where
  encode
    | none => [0]
    | some a => 1 :: f.encode a
  decode
    | 0 :: rest => some (none, rest)
    | 1 :: rest => (f.decode rest).map fun (a, rest) => (some a, rest)
    | _ => none
  toJson
    | none => some .null
    | some a => f.toJson a
  ofJson
    | .null => some none
    | j => (f.ofJson j).map some

/-! ## Maps -/

/-- How keys are written before the colon of a member, if they can be. -/
structure KeyText (κ : Type) where
  write : κ → Option (List Char)
  read : List Char → Option κ

/-- No key can be written. -/
def KeyText.none : KeyText κ := ⟨fun _ => Option.none, fun _ => Option.none⟩

/-- A number as a key: its digits, as they stand between the quotes. -/
def KeyText.word {w : Nat} : KeyText (Word w) where
  write a := some (Json.digits a.toNat)
  read written := (Json.natural? written).bind Word.ofNat?

/-- An account as a key. -/
def KeyText.account : KeyText AccountId where
  write a := some (Json.escape a.hex)
  read written := (Json.unescape written).bind fun s => (AccountId.parse s).toOption

/-- The members of a document. -/
def members? : Json → Option (List (List Char × Json))
  | .object members => some members
  | _ => none

/-- A key and its value. -/
def entry (key : Form κ) (value : Form ν) : Form (κ × ν) where
  encode e := key.encode e.1 ++ value.encode e.2
  decode bs := do
    let (k, rest) ← key.decode bs
    let (v, rest) ← value.decode rest
    return ((k, v), rest)
  toJson e := do return .array [← key.toJson e.1, ← value.toJson e.2]
  ofJson
    | .array [k, v] => do return (← key.ofJson k, ← value.ofJson v)
    | _ => none

/-- The member of an object that an entry is. -/
def toMember (names : KeyText κ) (value : Form ν) (e : κ × ν) : Option (List Char × Json) := do
  return (← names.write e.1, ← value.toJson e.2)

/-- The entry that a member of an object is. -/
def ofMember (names : KeyText κ) (value : Form ν) (m : List Char × Json) : Option (κ × ν) := do
  return (← names.read m.1, ← value.ofJson m.2)

/-- A map. In a document it is an object, and of members with one key the last one counts; a map
whose keys cannot be written has a document only if it is empty. -/
def map [KeyOrder κ] (key : Form κ) (names : KeyText κ) (value : Form ν) : Form (OrdMap κ ν) where
  encode m := (list (entry key value)).encode m.toList
  decode bs := ((list (entry key value)).decode bs).map fun (es, rest) => (OrdMap.ofList es, rest)
  toJson m := (m.toList.mapM (toMember names value)).map Json.object
  ofJson j := ((members? j).bind fun ms => ms.mapM (ofMember names value)).map OrdMap.ofList

/-- A set, written as the list of its members. -/
def set [KeyOrder κ] (key : Form κ) : Form (OrdSet κ) :=
  (list key).imap (fun ks => OrdMap.ofList (ks.map fun k => (k, ()))) OrdMap.keys

end Form

end Stakebook
