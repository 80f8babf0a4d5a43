import Stakebook.Word

/-!
# The order of keys

A `KeyOrder` is a decidable strict linear order. Every map of the ledger is kept in the order of its
keys, and that order shows in the state root, in documents and in the binary form: numbers by size,
pairs by the first component and then by the second, byte strings like words in a dictionary.
-/

namespace Stakebook

/-- A strict linear order that can be tested. -/
class KeyOrder (κ : Type) where
  before : κ → κ → Bool
  irrefl : ∀ a, before a a = false
  trans : ∀ {a b c}, before a b = true → before b c = true → before a c = true
  connex : ∀ {a b}, before a b = false → before b a = false → a = b

namespace KeyOrder

variable {α β κ : Type}

theorem asymm [KeyOrder κ] {a b : κ} (h : before a b = true) : before b a = false := by
  cases hb : before b a with
  | false => rfl
  | true => exact absurd (trans h hb) (by simp [irrefl])

theorem ne_of_before [KeyOrder κ] {a b : κ} (h : before a b = true) : a ≠ b := by
  rintro rfl
  simp [irrefl] at h

/-- The order that an injective function pulls back. -/
@[reducible] def comap [KeyOrder β] (f : α → β) (inj : ∀ {a b}, f a = f b → a = b) :
    KeyOrder α where
  before a b := before (f a) (f b)
  irrefl a := irrefl (f a)
  trans := trans
  connex h₁ h₂ := inj (connex h₁ h₂)

instance : KeyOrder Nat where
  before a b := decide (a < b)
  irrefl a := by simp
  trans := by simp only [decide_eq_true_eq]; omega
  connex := by simp only [decide_eq_false_iff_not]; omega

instance {w : Nat} : KeyOrder (Word w) := comap Word.toNat Word.ext

instance : KeyOrder UInt8 := comap UInt8.toNat UInt8.toNat_inj.1

/-- By the first component, and by the second where the first agree. -/
instance [KeyOrder α] [KeyOrder β] : KeyOrder (α × β) where
  before a b := before a.1 b.1 || !before b.1 a.1 && before a.2 b.2
  irrefl a := by simp [irrefl]
  trans {a b c} h₁ h₂ := by
    simp only [Bool.or_eq_true, Bool.and_eq_true, Bool.not_eq_true'] at *
    rcases h₁ with h₁ | ⟨h₁, h₁'⟩ <;> rcases h₂ with h₂ | ⟨h₂, h₂'⟩
    · exact .inl (trans h₁ h₂)
    · cases hbc : before b.1 c.1 with
      | true => exact .inl (trans h₁ hbc)
      | false => exact .inl (connex hbc h₂ ▸ h₁)
    · cases hab : before a.1 b.1 with
      | true => exact .inl (trans hab h₂)
      | false => exact .inl (connex hab h₁ ▸ h₂)
    · cases hab : before a.1 b.1 with
      | true =>
        cases hbc : before b.1 c.1 with
        | true => exact .inl (trans hab hbc)
        | false => exact .inl (connex hbc h₂ ▸ hab)
      | false =>
        have := connex hab h₁
        exact .inr ⟨this ▸ h₂, trans h₁' h₂'⟩
  connex {a b} h₁ h₂ := by
    simp only [Bool.or_eq_false_iff, Bool.and_eq_false_iff, Bool.not_eq_false'] at h₁ h₂
    refine Prod.ext (connex h₁.1 h₂.1) (connex ?_ ?_)
    · rcases h₁.2 with h | h
      · simp [h₂.1] at h
      · exact h
    · rcases h₂.2 with h | h
      · simp [h₁.1] at h
      · exact h

/-- The order of a dictionary: by the first place where two lists differ, a list before its
extensions. -/
def listBefore [KeyOrder α] : List α → List α → Bool
  | [], [] => false
  | [], _ :: _ => true
  | _ :: _, [] => false
  | a :: as, b :: bs => before a b || !before b a && listBefore as bs

theorem listBefore_irrefl [KeyOrder α] (as : List α) : listBefore as as = false := by
  induction as with
  | nil => rfl
  | cons a as ih => simp [listBefore, irrefl, ih]

theorem listBefore_trans [KeyOrder α] {as bs cs : List α} (h₁ : listBefore as bs = true)
    (h₂ : listBefore bs cs = true) : listBefore as cs = true := by
  induction as generalizing bs cs with
  | nil => cases bs <;> cases cs <;> simp_all [listBefore]
  | cons a as ih =>
    cases bs with
    | nil => simp [listBefore] at h₁
    | cons b bs =>
      cases cs with
      | nil => simp [listBefore] at h₂
      | cons c cs =>
        simp only [listBefore, Bool.or_eq_true, Bool.and_eq_true, Bool.not_eq_true'] at *
        rcases h₁ with h₁ | ⟨h₁, h₁'⟩ <;> rcases h₂ with h₂ | ⟨h₂, h₂'⟩
        · exact .inl (trans h₁ h₂)
        · cases hbc : before b c with
          | true => exact .inl (trans h₁ hbc)
          | false => exact .inl (connex hbc h₂ ▸ h₁)
        · cases hab : before a b with
          | true => exact .inl (trans hab h₂)
          | false => exact .inl (connex hab h₁ ▸ h₂)
        · cases hab : before a b with
          | true =>
            cases hbc : before b c with
            | true => exact .inl (trans hab hbc)
            | false => exact .inl (connex hbc h₂ ▸ hab)
          | false => exact .inr ⟨connex hab h₁ ▸ h₂, ih h₁' h₂'⟩

theorem listBefore_connex [KeyOrder α] {as bs : List α} (h₁ : listBefore as bs = false)
    (h₂ : listBefore bs as = false) : as = bs := by
  induction as generalizing bs with
  | nil => cases bs <;> simp_all [listBefore]
  | cons a as ih =>
    cases bs with
    | nil => simp [listBefore] at h₂
    | cons b bs =>
      simp only [listBefore, Bool.or_eq_false_iff, Bool.and_eq_false_iff,
        Bool.not_eq_false'] at h₁ h₂
      rw [connex h₁.1 h₂.1, ih (h₁.2.resolve_left (by simp [h₂.1]))
        (h₂.2.resolve_left (by simp [h₁.1]))]

instance [KeyOrder α] : KeyOrder (List α) where
  before := listBefore
  irrefl := listBefore_irrefl
  trans := listBefore_trans
  connex := listBefore_connex

end KeyOrder

end Stakebook
