import Stakebook.Word

/-!
# Byte strings

A byte string is a list of bytes. Numbers are written with the low byte first, and
`value_littleEndian` reads them back. Text is written in UTF-8, and `ofUtf8?_utf8` reads it back.
-/

namespace Stakebook

/-- A string of bytes. -/
abbrev Bytes := List UInt8

namespace Bytes

/-! ## Numbers -/

/-- The `n` low bytes of a number, the lowest first. -/
def littleEndian : Nat → Nat → Bytes
  | 0, _ => []
  | n + 1, x => UInt8.ofNat x :: littleEndian n (x / 256)

/-- The number whose bytes these are, the lowest first. -/
def value : Bytes → Nat
  | [] => 0
  | b :: bs => b.toNat + 256 * value bs

@[simp] theorem length_littleEndian (n x : Nat) : (littleEndian n x).length = n := by
  induction n generalizing x with
  | zero => rfl
  | succ n ih => simp [littleEndian, ih]

theorem value_littleEndian (n x : Nat) : value (littleEndian n x) = x % 256 ^ n := by
  induction n generalizing x with
  | zero => simp [littleEndian, value, Nat.mod_one]
  | succ n ih =>
    rw [littleEndian, value, ih, UInt8.toNat_ofNat', Nat.pow_succ' (m := 256)]
    exact Nat.mod_mul.symm

/-! ## Text -/

/-- The UTF-8 form of a text. -/
def utf8 (s : String) : Bytes := s.toList.flatMap String.utf8EncodeChar

/-- The text whose UTF-8 form these bytes are, if they are one. -/
def ofUtf8? (bs : Bytes) : Option String := String.fromUTF8? bs.toByteArray

theorem ofUtf8?_utf8 (s : String) : ofUtf8? (utf8 s) = some s := by
  have h : (utf8 s).toByteArray = s.toByteArray := String.utf8Encode_toList
  unfold ofUtf8? String.fromUTF8?
  rw [h, dif_pos s.isValidUTF8]
  rfl

/-- The text whose characters have these codes. -/
def latin (bs : Bytes) : String := String.ofList (bs.map fun b => Char.ofNat b.toNat)

theorem utf8EncodeChar_ofNat {n : Nat} (h : n < 128) :
    String.utf8EncodeChar (Char.ofNat n) = [UInt8.ofNat n] := by
  have : ∀ n : Fin 128, String.utf8EncodeChar (Char.ofNat n) = [UInt8.ofNat n] := by decide
  exact this ⟨n, h⟩

/-- A text of ASCII characters has one byte for each. -/
theorem utf8_latin {bs : Bytes} (h : ∀ b ∈ bs, b.toNat < 128) : utf8 (latin bs) = bs := by
  rw [utf8, latin, String.toList_ofList]
  induction bs with
  | nil => rfl
  | cons b bs ih =>
    rw [List.map_cons, List.flatMap_cons, ih fun c hc => h c (List.mem_cons_of_mem _ hc),
      utf8EncodeChar_ofNat (h b List.mem_cons_self), UInt8.ofNat_toNat]
    rfl

end Bytes

end Stakebook
