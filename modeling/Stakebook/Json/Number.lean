import Stakebook.Json.Basic

/-!
# Numbers in documents

`isNumber` is the grammar of a number: an optional sign, digits without a leading zero, and perhaps
a fraction and an exponent. The numbers that a ledger reads are narrower: `natural?` takes digits
alone, without a leading zero, and `natural?_digits` says that it reads what `digits` writes.
-/

namespace Stakebook.Json

/-- Whether the characters are one digit or more. -/
def isDigits (cs : List Char) : Bool := !cs.isEmpty && cs.all Char.isDigit

/-- Whether the characters are digits without a leading zero. -/
def isWhole : List Char → Bool
  | ['0'] => true
  | '0' :: _ => false
  | cs => isDigits cs

/-- Whether the characters are an exponent, with its letter, or nothing. -/
def isExponent : List Char → Bool
  | [] => true
  | e :: cs =>
    (e = 'e' || e = 'E') && match cs with
      | '+' :: ds => isDigits ds
      | '-' :: ds => isDigits ds
      | ds => isDigits ds

/-- Whether the characters are a fraction, with its point, and an exponent, each of which may be
missing. -/
def isTail : List Char → Bool
  | '.' :: cs => isDigits (cs.takeWhile Char.isDigit) && isExponent (cs.dropWhile Char.isDigit)
  | cs => isExponent cs

/-- Whether the characters are a number without a sign. -/
def isUnsigned (cs : List Char) : Bool :=
  isWhole (cs.takeWhile Char.isDigit) && isTail (cs.dropWhile Char.isDigit)

/-- Whether the characters are a number. -/
def isNumber : List Char → Bool
  | '-' :: cs => isUnsigned cs
  | cs => isUnsigned cs

/-- The digits of a natural number. -/
def digits (n : Nat) : List Char := Nat.toDigits 10 n

/-- The natural number that digits without a leading zero write. -/
def natural? (cs : List Char) : Option Nat :=
  if isWhole cs then some (Nat.ofDigitChars 10 cs 0) else none

/-- A natural number as a document. -/
def ofNat (n : Nat) : Json := .number (digits n)

theorem isDigits_digits (n : Nat) : isDigits (digits n) = true := by
  unfold isDigits digits
  rw [Bool.and_eq_true, List.all_eq_true]
  exact ⟨by simp [Nat.toDigits_ne_nil],
    fun c hc => Nat.isDigit_of_mem_toDigits (by decide) (by decide) hc⟩

theorem head_digits (n : Nat) (h : 0 < n) : ∀ cs, digits n ≠ '0' :: cs := by
  induction n using Nat.strongRecOn with
  | _ n ih =>
    intro cs hcs
    unfold digits at *
    by_cases hn : n < 10
    · rw [Nat.toDigits_of_lt_base hn] at hcs
      have : ∀ m : Fin 10, 0 < m.val → m.val.digitChar ≠ '0' := by decide
      exact this ⟨n, hn⟩ h (List.cons.inj hcs).1
    · rw [Nat.toDigits_of_base_le (by decide) (by omega)] at hcs
      match hd : Nat.toDigits 10 (n / 10) with
      | [] => exact Nat.toDigits_ne_nil hd
      | c :: ds =>
        rw [hd] at hcs
        have hc : c = '0' := (List.cons.inj hcs).1
        exact ih (n / 10) (by omega) (by omega) ds (hc ▸ hd)

theorem isWhole_digits (n : Nat) : isWhole (digits n) = true := by
  by_cases h : n = 0
  · subst h
    decide
  · unfold isWhole
    split
    · rfl
    · next cs _ hcs => exact absurd hcs (head_digits n (by omega) cs)
    · exact isDigits_digits n

theorem natural?_digits (n : Nat) : natural? (digits n) = some n := by
  rw [natural?, if_pos (isWhole_digits n), digits,
    Nat.ofDigitChars_toDigits (by decide) (by decide)]

end Stakebook.Json
