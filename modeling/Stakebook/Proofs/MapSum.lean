import Mathlib.Algebra.GroupWithZero.Nat
import Stakebook.OrdMap.Lemmas

/-!
# Sums over maps

`m.sum f` adds up `f key value` over the entries of a map, as a natural number, so that no bound of
a word gets in the way. `m.weight f k` is what the entry at one key contributes.

Headlines:
* **`sum_insert`**, **`sum_erase`**: a write changes the sum by the new value less the old one, and a
  removal by the old one.
* **`weight_le_sum`**: one entry contributes no more than all of them.
* **`sum_mono`**: where each entry counts for less, so do all of them.
* **`exists_of_sum_pos`**: a sum that is not zero has an entry that counts for something.
-/

namespace Stakebook.OrdMap

open KeyOrder (before)

variable {κ ν : Type} [KeyOrder κ]

/-- The sum of `f key value` over the entries. -/
def sum (f : κ → ν → Nat) (m : OrdMap κ ν) : Nat := (m.toList.map fun e => f e.1 e.2).sum

/-- What the entry at a key contributes to the sum. -/
def weight (f : κ → ν → Nat) (m : OrdMap κ ν) (k : κ) : Nat :=
  match m.get? k with
  | some v => f k v
  | none => 0

variable {f : κ → ν → Nat} {m : OrdMap κ ν}

theorem weight_of_some {k : κ} {v : ν} (h : m.get? k = some v) : m.weight f k = f k v := by
  unfold weight
  rw [h]

theorem weight_of_none {k : κ} (h : m.get? k = none) : m.weight f k = 0 := by
  unfold weight
  rw [h]

/-- Where a default counts for nothing, a missing entry contributes what the default does. -/
theorem weight_eq_getD {k : κ} {d : ν} (hd : f k d = 0) : m.weight f k = f k (m.getD k d) := by
  cases h : m.get? k with
  | some v => rw [weight_of_some h, getD_of_some h]
  | none => rw [weight_of_none h, getD_of_none h, hd]

/-! ## One write -/

/-- In an ascending list nothing stands at a key before the first. -/
theorem lookup_of_before {k : κ} {e : κ × ν} {l : List (κ × ν)} (h : before k e.1 = true) :
    lookup k (e :: l) = none := by
  unfold lookup
  rw [if_pos h]

theorem sum_place (k : κ) (v : ν) (l : List (κ × ν)) :
    ((place k v l).map fun e => f e.1 e.2).sum + (lookup k l).elim 0 (f k) =
      (l.map fun e => f e.1 e.2).sum + f k v := by
  fun_induction place k v l with
  | case1 => simp [lookup]
  | case2 a u rest hka =>
    rw [lookup_of_before hka]
    simp only [List.map_cons, List.sum_cons, Option.elim_none]
    omega
  | case3 a u rest hka hak ih =>
    unfold lookup
    rw [if_neg hka, if_pos hak]
    simp only [List.map_cons, List.sum_cons]
    omega
  | case4 a u rest hka hak =>
    obtain rfl := eq_of_not_before hka hak
    unfold lookup
    rw [if_neg hka, if_neg hka]
    simp only [List.map_cons, List.sum_cons, Option.elim_some]
    omega

theorem sum_drop (k : κ) (l : List (κ × ν)) :
    ((drop k l).map fun e => f e.1 e.2).sum + (lookup k l).elim 0 (f k) =
      (l.map fun e => f e.1 e.2).sum := by
  fun_induction drop k l with
  | case1 => simp [lookup]
  | case2 a u rest hka =>
    rw [lookup_of_before hka]
    rfl
  | case3 a u rest hka hak ih =>
    unfold lookup
    rw [if_neg hka, if_pos hak]
    simp only [List.map_cons, List.sum_cons]
    omega
  | case4 a u rest hka hak =>
    obtain rfl := eq_of_not_before hka hak
    unfold lookup
    rw [if_neg hka, if_neg hka]
    simp only [List.map_cons, List.sum_cons, Option.elim_some]
    omega

theorem weight_eq_elim (f : κ → ν → Nat) (m : OrdMap κ ν) (k : κ) :
    m.weight f k = (lookup k m.toList).elim 0 (f k) := by
  unfold weight get?
  cases lookup k m.toList <;> rfl

/-- **A write changes the sum by the new value less the old one.** -/
theorem sum_insert (f : κ → ν → Nat) (m : OrdMap κ ν) (k : κ) (v : ν) :
    (m.insert k v).sum f + m.weight f k = m.sum f + f k v := by
  rw [weight_eq_elim]
  exact sum_place k v m.toList

/-- **A removal takes the old value from the sum.** -/
theorem sum_erase (f : κ → ν → Nat) (m : OrdMap κ ν) (k : κ) :
    (m.erase k).sum f + m.weight f k = m.sum f := by
  rw [weight_eq_elim]
  exact sum_drop k m.toList

/-- **One entry contributes no more than all of them.** -/
theorem weight_le_sum (f : κ → ν → Nat) (m : OrdMap κ ν) (k : κ) : m.weight f k ≤ m.sum f := by
  have := sum_erase f m k
  omega

/-- **Where each entry counts for less, so do all of them.** -/
theorem sum_mono {g : κ → ν → Nat} (h : ∀ k v, f k v ≤ g k v) (m : OrdMap κ ν) :
    m.sum f ≤ m.sum g := by
  unfold sum
  induction m.toList with
  | nil => exact Nat.le_refl _
  | cons e es ih => exact Nat.add_le_add (h e.1 e.2) ih

/-- **A sum that is not zero has an entry that counts for something.** -/
theorem exists_of_sum_pos (h : 0 < m.sum f) : ∃ k v, m.get? k = some v ∧ 0 < f k v := by
  obtain ⟨n, hn, hpos⟩ := List.sum_pos_iff_exists_pos_nat.mp h
  obtain ⟨e, he, rfl⟩ := List.mem_map.mp hn
  exact ⟨e.1, e.2, mem_toList_iff.mp he, hpos⟩

end Stakebook.OrdMap
