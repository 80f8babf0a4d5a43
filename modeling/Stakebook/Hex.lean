import Stakebook.Bytes

/-!
# Hexadecimal text

Two digits a byte, the high half first. `encode` writes lower-case digits; `decode` reads digits of
either case and refuses all else. Text is taken as its bytes, so a position counts bytes, and a byte
that is no digit is named by the character of that code.

`decode_encode` says that what is written reads back.
-/

namespace Stakebook.Hex

/-- Why a text is not hexadecimal. -/
inductive Error
  | oddLength
  | badDigit (code : UInt8) (position : Nat)
deriving DecidableEq, Repr

/-- The digit of a number below sixteen. -/
def digit (n : Nat) : UInt8 := UInt8.ofNat (if n < 10 then 48 + n else 87 + n)

/-- The number that a digit stands for. -/
def digitValue? (c : UInt8) : Option Nat :=
  if 48 ≤ c.toNat ∧ c.toNat ≤ 57 then some (c.toNat - 48)
  else if 97 ≤ c.toNat ∧ c.toNat ≤ 102 then some (c.toNat - 87)
  else if 65 ≤ c.toNat ∧ c.toNat ≤ 70 then some (c.toNat - 55)
  else none

/-- The digits of a byte string. -/
def encode (bs : Bytes) : Bytes :=
  bs.flatMap fun b => [digit (b.toNat / 16), digit (b.toNat % 16)]

/-- The digits of a byte string, as text. -/
def text (bs : Bytes) : String := Bytes.latin (encode bs)

/-- Reads pairs of digits from a position on, after bytes that are read already; those come last one
first. -/
def decodeFrom (position : Nat) (done : Bytes) : Bytes → Except Error Bytes
  | [] => .ok done.reverse
  | [_] => .error .oddLength
  | a :: b :: rest =>
    match digitValue? a, digitValue? b with
    | none, _ => .error (.badDigit a position)
    | some _, none => .error (.badDigit b (position + 1))
    | some x, some y => decodeFrom (position + 2) (UInt8.ofNat (16 * x + y) :: done) rest

/-- Reads hexadecimal text. An odd length is found before any bad digit, and of the bad digits the
first is named. -/
def decode (digits : Bytes) : Except Error Bytes :=
  if digits.length % 2 = 1 then .error .oddLength else decodeFrom 0 [] digits

/-- Takes away one leading `0x`. -/
def strip : Bytes → Bytes
  | 48 :: 120 :: rest => rest
  | t => t

/-! ## Messages -/

/-- The number in lower-case hexadecimal, without leading zeros. -/
def ofNat (n : Nat) : String := String.ofList (Nat.toDigits 16 n)

/-- The character of a code between single quotes, with an escape where it has no shape of its
own. -/
def quoted (code : UInt8) : String :=
  let n := code.toNat
  if n = 0 then "'\\0'"
  else if n = 9 then "'\\t'"
  else if n = 10 then "'\\n'"
  else if n = 13 then "'\\r'"
  else if n = 39 then "'\\''"
  else if n = 92 then "'\\\\'"
  else if n < 32 ∨ 127 ≤ n ∧ n ≤ 160 ∨ n = 173 then "'\\u\x7b" ++ ofNat n ++ "\x7d'"
  else "'" ++ Bytes.latin [code] ++ "'"

/-- The message of an error. -/
def Error.message : Error → String
  | .oddLength => "Odd number of digits"
  | .badDigit code position => "Invalid character " ++ quoted code ++ " at position " ++
      toString position

/-! ## Reading what is written -/

theorem digitValue?_digit {n : Nat} (h : n < 16) : digitValue? (digit n) = some n := by
  have : ∀ n : Fin 16, digitValue? (digit n) = some n.val := by decide
  exact this ⟨n, h⟩

theorem digit_lt {n : Nat} (h : n < 16) : (digit n).toNat < 128 := by
  have : ∀ n : Fin 16, (digit n).toNat < 128 := by decide
  exact this ⟨n, h⟩

@[simp] theorem length_encode (bs : Bytes) : (encode bs).length = 2 * bs.length := by
  induction bs with
  | nil => rfl
  | cons b bs ih =>
    simp only [encode, List.flatMap_cons, List.length_append, List.length_cons] at *
    simp only [ih, List.length_nil]
    omega

theorem decodeFrom_encode (position : Nat) (done bs : Bytes) :
    decodeFrom position done (encode bs) = .ok (done.reverse ++ bs) := by
  induction bs generalizing position done with
  | nil => simp [encode, decodeFrom]
  | cons b bs ih =>
    have hb := b.toNat_lt
    have h : 16 * (b.toNat / 16) + b.toNat % 16 = b.toNat := by omega
    rw [show encode (b :: bs) = digit (b.toNat / 16) :: digit (b.toNat % 16) :: encode bs from rfl,
      decodeFrom, digitValue?_digit (by omega), digitValue?_digit (by omega)]
    simp only [h, UInt8.ofNat_toNat, ih, List.reverse_cons, List.append_assoc, List.cons_append,
      List.nil_append]

theorem decode_encode (bs : Bytes) : decode (encode bs) = .ok bs := by
  rw [decode, if_neg (by rw [length_encode]; omega), decodeFrom_encode]
  rfl

theorem ascii_encode {bs : Bytes} : ∀ c ∈ encode bs, c.toNat < 128 := by
  intro c hc
  obtain ⟨b, _, hc⟩ := List.mem_flatMap.1 hc
  have hb := b.toNat_lt
  simp only [List.mem_cons, List.not_mem_nil, or_false] at hc
  rcases hc with rfl | rfl <;> exact digit_lt (by omega)

end Stakebook.Hex
