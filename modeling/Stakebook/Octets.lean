import Stakebook.Hex
import Stakebook.KeyOrder

/-!
# Thirty-two bytes

Digests and accounts are strings of thirty-two bytes. They are written as `0x` and 64 lower-case
digits, and read from 64 digits of either case, with or without the `0x`.
-/

namespace Stakebook

/-- A string of thirty-two bytes. -/
@[ext] structure Octets where
  bytes : Bytes
  length_bytes : bytes.length = 32
deriving DecidableEq

namespace Octets

/-- Why a text names no thirty-two bytes. -/
inductive ParseError
  | malformed (error : Hex.Error)
  | wrongLength (length : Nat)
deriving DecidableEq, Repr

/-- The message of an error. -/
def ParseError.message : ParseError → String
  | .malformed error => "invalid hex: " ++ error.message
  | .wrongLength length => "expected 32 bytes, got " ++ toString length

instance : KeyOrder Octets := KeyOrder.comap Octets.bytes Octets.ext

/-- These bytes, if there are thirty-two of them. -/
def ofBytes? (bs : Bytes) : Option Octets := if h : bs.length = 32 then some ⟨bs, h⟩ else none

/-- The same byte thirty-two times. -/
def repeated (b : UInt8) : Octets := ⟨List.replicate 32 b, List.length_replicate⟩

/-- Thirty-two zero bytes. -/
def zero : Octets := repeated 0

instance : Inhabited Octets := ⟨zero⟩

/-- Two strings side by side determine each of them. -/
theorem append_bytes_inj {a b a' b' : Octets} (h : a.bytes ++ b.bytes = a'.bytes ++ b'.bytes) :
    a = a' ∧ b = b' := by
  obtain ⟨ha, hb⟩ := List.append_inj h (a.length_bytes.trans a'.length_bytes.symm)
  exact ⟨Octets.ext ha, Octets.ext hb⟩

/-- The written form, as bytes of text. -/
def written (o : Octets) : Bytes := 48 :: 120 :: Hex.encode o.bytes

/-- The written form. -/
def hex (o : Octets) : String := "0x" ++ Hex.text o.bytes

/-- The first sixteen digits, as a short name. -/
def short (o : Octets) : String := Hex.text (o.bytes.take 8)

/-- Reads the bytes of a text. -/
def parseBytes (text : Bytes) : Except ParseError Octets :=
  match Hex.decode (Hex.strip text) with
  | .error e => .error (.malformed e)
  | .ok bs => if h : bs.length = 32 then .ok ⟨bs, h⟩ else .error (.wrongLength bs.length)

/-- Reads a text. -/
def parse (text : String) : Except ParseError Octets := parseBytes (Bytes.utf8 text)

theorem parseBytes_written (o : Octets) : parseBytes o.written = .ok o := by
  rw [parseBytes, written, Hex.strip, Hex.decode_encode]
  exact dif_pos o.length_bytes

@[simp] theorem length_written (o : Octets) : o.written.length = 66 := by
  simp [written, o.length_bytes]

theorem utf8_hex (o : Octets) : Bytes.utf8 o.hex = o.written := by
  have h : o.hex = Bytes.latin o.written := by
    apply String.toList_inj.1
    simp only [hex, Hex.text, Bytes.latin, String.toList_append, String.toList_ofList, written,
      List.map_cons]
    rfl
  rw [h, Bytes.utf8_latin]
  intro c hc
  simp only [written, List.mem_cons] at hc
  rcases hc with rfl | rfl | hc
  · decide
  · decide
  · exact Hex.ascii_encode c hc

theorem parse_hex (o : Octets) : parse o.hex = .ok o := by
  rw [parse, utf8_hex, parseBytes_written]

end Octets

/-- The digest of a byte string. -/
abbrev Digest := Octets

/-- An account, named by thirty-two bytes that mean nothing to the ledger. -/
@[ext] structure AccountId where
  octets : Octets
deriving DecidableEq, Inhabited

namespace AccountId

instance : KeyOrder AccountId := KeyOrder.comap AccountId.octets AccountId.ext

/-- The account of thirty-two equal bytes, for development. -/
def dev (b : UInt8) : AccountId := ⟨.repeated b⟩

/-- The written form. -/
def hex (a : AccountId) : String := a.octets.hex

/-- A short name. -/
def short (a : AccountId) : String := "0x" ++ a.octets.short

/-- Reads a text. -/
def parse (text : String) : Except Octets.ParseError AccountId :=
  (Octets.parse text).map AccountId.mk

end AccountId

end Stakebook
