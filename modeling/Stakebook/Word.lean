/-!
# Unsigned integers of a fixed width

`Word w` is a natural number below `2 ^ w`. Amounts, shares and weights are 128-bit words, blocks,
epochs and swap numbers 64-bit words, names of subnets and nodes 32-bit words.

An operation that can leave the range says in its name what happens then: `add?` refuses,
`satAdd`, `satSub` and `satMul` stop at the bound, and `+` and `-` go round. Each has one lemma on
`toNat`, and with them every question about words becomes one about natural numbers.
-/

namespace Stakebook

/-- Powers of numbers, before those that a module may import together with an algebra: so a power is
the same term wherever it stands. -/
@[default_instance 20000]
instance (priority := 2000) instPowNumber : Pow Nat Nat := instPowNat

/-- A natural number below `2 ^ w`. -/
@[ext] structure Word (w : Nat) where
  toNat : Nat
  toNat_lt : toNat < 2 ^ w
deriving DecidableEq

namespace Word

variable {w : Nat}

/-- The number modulo `2 ^ w`. -/
def wrap (n : Nat) : Word w := ⟨n % 2 ^ w, Nat.mod_lt _ (Nat.two_pow_pos w)⟩

/-- The number, if it is in range. -/
def ofNat? (n : Nat) : Option (Word w) := if h : n < 2 ^ w then some ⟨n, h⟩ else none

/-- The largest word. -/
def max : Word w := ⟨2 ^ w - 1, Nat.sub_lt (Nat.two_pow_pos w) Nat.one_pos⟩

/-- The number, or the largest word if it is out of range. -/
def clamp (n : Nat) : Word w := if h : n < 2 ^ w then ⟨n, h⟩ else max

instance : OfNat (Word w) n := ⟨wrap n⟩
instance : Inhabited (Word w) := ⟨0⟩
instance : LT (Word w) := ⟨fun a b => a.toNat < b.toNat⟩
instance : LE (Word w) := ⟨fun a b => a.toNat ≤ b.toNat⟩
instance (a b : Word w) : Decidable (a < b) := inferInstanceAs (Decidable (a.toNat < b.toNat))
instance (a b : Word w) : Decidable (a ≤ b) := inferInstanceAs (Decidable (a.toNat ≤ b.toNat))

/-- The sum, if it is in range. -/
def add? (a b : Word w) : Option (Word w) := ofNat? (a.toNat + b.toNat)

/-- The sum, or the largest word if the sum is out of range. -/
def satAdd (a b : Word w) : Word w := clamp (a.toNat + b.toNat)

/-- The difference, or zero if `b` is the larger. -/
def satSub (a b : Word w) : Word w :=
  ⟨a.toNat - b.toNat, Nat.lt_of_le_of_lt (Nat.sub_le _ _) a.toNat_lt⟩

/-- The product, or the largest word if the product is out of range. -/
def satMul (a b : Word w) : Word w := clamp (a.toNat * b.toNat)

/-- Addition and subtraction that go round at the bound. -/
instance : Add (Word w) := ⟨fun a b => wrap (a.toNat + b.toNat)⟩
instance : Sub (Word w) := ⟨fun a b => wrap (a.toNat + (2 ^ w - b.toNat))⟩

/-- The quotient, rounded down; zero if `b` is zero. -/
instance : Div (Word w) :=
  ⟨fun a b => ⟨a.toNat / b.toNat, Nat.lt_of_le_of_lt (Nat.div_le_self _ _) a.toNat_lt⟩⟩

/-- The same number in more bits. -/
def widen {v : Nat} (h : w ≤ v) (a : Word w) : Word v :=
  ⟨a.toNat, Nat.lt_of_lt_of_le a.toNat_lt (Nat.pow_le_pow_right Nat.two_pos h)⟩

/-- The number in decimal digits. -/
def text (a : Word w) : String := toString a.toNat

instance : ToString (Word w) := ⟨text⟩

/-! ## What the operations do to the number -/

theorem eq_iff {a b : Word w} : a = b ↔ a.toNat = b.toNat := Word.ext_iff

theorem lt_def {a b : Word w} : a < b ↔ a.toNat < b.toNat := Iff.rfl

theorem le_def {a b : Word w} : a ≤ b ↔ a.toNat ≤ b.toNat := Iff.rfl

protected theorem not_lt {a b : Word w} : ¬a < b ↔ b ≤ a := Nat.not_lt

protected theorem ne_of_lt {a b : Word w} (h : a < b) : a ≠ b := fun he =>
  Nat.ne_of_lt h (congrArg toNat he)

@[simp] theorem toNat_wrap (n : Nat) : (wrap n : Word w).toNat = n % 2 ^ w := rfl

@[simp] theorem toNat_zero : (0 : Word w).toNat = 0 := Nat.zero_mod _

theorem toNat_one (hw : 0 < w) : (1 : Word w).toNat = 1 :=
  Nat.mod_eq_of_lt (Nat.one_lt_two_pow (Nat.ne_of_gt hw))

@[simp] theorem toNat_max : (max : Word w).toNat = 2 ^ w - 1 := rfl

@[simp] theorem toNat_satSub (a b : Word w) : (a.satSub b).toNat = a.toNat - b.toNat := rfl

@[simp] theorem toNat_div (a b : Word w) : (a / b).toNat = a.toNat / b.toNat := rfl

theorem toNat_clamp (n : Nat) : (clamp n : Word w).toNat = min n (2 ^ w - 1) := by
  unfold clamp
  split <;> simp <;> omega

theorem toNat_satAdd (a b : Word w) :
    (a.satAdd b).toNat = min (a.toNat + b.toNat) (2 ^ w - 1) := toNat_clamp _

/-- An addition that saturates takes nothing away. -/
theorem le_satAdd (a b : Word w) : a ≤ a.satAdd b := by
  have := a.toNat_lt
  rw [le_def, toNat_satAdd]
  omega

theorem toNat_satMul (a b : Word w) :
    (a.satMul b).toNat = min (a.toNat * b.toNat) (2 ^ w - 1) := toNat_clamp _

theorem ofNat?_eq_some_iff {n : Nat} {a : Word w} : ofNat? n = some a ↔ a.toNat = n := by
  unfold ofNat?
  split
  · simp only [Option.some.injEq, eq_iff]
    exact eq_comm
  · have := a.toNat_lt
    simp only [reduceCtorEq, false_iff]
    omega

theorem ofNat?_eq_none_iff {n : Nat} : (ofNat? n : Option (Word w)) = none ↔ 2 ^ w ≤ n := by
  unfold ofNat?
  split <;> simp <;> omega

@[simp] theorem ofNat?_toNat (a : Word w) : ofNat? a.toNat = some a := ofNat?_eq_some_iff.2 rfl

theorem add?_eq_some_iff {a b c : Word w} : a.add? b = some c ↔ c.toNat = a.toNat + b.toNat :=
  ofNat?_eq_some_iff

theorem add?_eq_none_iff {a b : Word w} : a.add? b = none ↔ 2 ^ w ≤ a.toNat + b.toNat :=
  ofNat?_eq_none_iff

theorem isNone_add?_iff {a b : Word w} : (a.add? b).isNone = true ↔ 2 ^ w ≤ a.toNat + b.toNat := by
  rw [Option.isNone_iff_eq_none, add?_eq_none_iff]

theorem toNat_add (a b : Word w) : (a + b).toNat = (a.toNat + b.toNat) % 2 ^ w := rfl

theorem toNat_sub (a b : Word w) : (a - b).toNat = (a.toNat + (2 ^ w - b.toNat)) % 2 ^ w := rfl

/-- A sum that stays in range is exact. -/
theorem toNat_add_of_lt {a b : Word w} (h : a.toNat + b.toNat < 2 ^ w) :
    (a + b).toNat = a.toNat + b.toNat := Nat.mod_eq_of_lt h

/-- A difference that stays in range is exact. -/
theorem toNat_sub_of_le {a b : Word w} (h : b ≤ a) : (a - b).toNat = a.toNat - b.toNat := by
  have ha := a.toNat_lt
  rw [le_def] at h
  rw [toNat_sub, show a.toNat + (2 ^ w - b.toNat) = (a.toNat - b.toNat) + 2 ^ w by omega,
    Nat.add_mod_right, Nat.mod_eq_of_lt (by omega)]

theorem sub_self (a : Word w) : a - a = 0 := by
  rw [eq_iff, toNat_sub_of_le (Nat.le_refl _), toNat_zero, Nat.sub_self]

/-- A difference takes back what a sum has added, also where the sum went round. -/
theorem add_sub_cancel_right (a b : Word w) : a + b - b = a := by
  have ha := a.toNat_lt
  have hb := b.toNat_lt
  rw [eq_iff, toNat_sub, toNat_add, Nat.mod_add_mod,
    show a.toNat + b.toNat + (2 ^ w - b.toNat) = a.toNat + 2 ^ w by omega, Nat.add_mod_right,
    Nat.mod_eq_of_lt ha]

theorem eq_of_sub_eq_zero {a b : Word w} (h : b ≤ a) (hz : a - b = 0) : b = a := by
  have hsub := toNat_sub_of_le h
  rw [hz, toNat_zero] at hsub
  rw [le_def] at h
  rw [eq_iff]
  omega

theorem ne_zero_iff {a : Word w} : a ≠ 0 ↔ 0 < a.toNat := by
  rw [Ne, eq_iff, toNat_zero]
  omega

end Word

end Stakebook
