import Stakebook.Proofs.Checks
import Stakebook.Proofs.MapSum

/-!
# The accounts of unbonding

`Unbonding.Entered` says how an amount enters the list of an account: merged with an entry that
unlocks at the same block, added to a list that has room, or added to a full list whose matured
entries are released. `Unbonding.waiting` adds up the entries of all lists.

Headlines:
* **`enqueue_eq_ok_iff`**: whatever is accepted has `Entered`, in one of the three ways.
* **`error_of_checkEnqueue`**: what an amount is refused for.
* **`waiting_enqueue`**: what is entered is added, and what is released to make room is taken.
* **`waiting_claim`**: what is claimed is taken.
* **`get?_enqueue_of_ne`**, **`get?_claim_of_ne`**: the lists of other accounts stay as they are.
* **`WithinCapacity.enqueue`**, **`WithinCapacity.claim`**: no list grows past the capacity.
* **`checkEnqueue_of_matured`**: a list whose entries have all unlocked has room.
-/

namespace Stakebook

namespace Pending

/-- The sum of amounts, without a bound. -/
def sum (es : List Pending) : Nat := (es.map fun e => e.amount.toNat).sum

theorem sum_cons (e : Pending) (es : List Pending) : sum (e :: es) = e.amount.toNat + sum es := by
  unfold sum
  rw [List.map_cons, List.sum_cons]

theorem sum_append (es fs : List Pending) : sum (es ++ fs) = sum es + sum fs := by
  unfold sum
  rw [List.map_append, List.sum_append]

/-- One entry is part of the sum. -/
theorem amount_le_sum {e : Pending} {es : List Pending} (h : e ∈ es) :
    e.amount.toNat ≤ sum es := by
  induction es with
  | nil => cases h
  | cons d es ih =>
    rw [sum_cons]
    rcases List.mem_cons.mp h with rfl | h
    · exact Nat.le_add_right ..
    · exact Nat.le_trans (ih h) (Nat.le_add_left ..)

/-- An addition that saturates has the smaller of the exact sum and the largest word. -/
theorem toNat_foldl_satAdd (es : List Pending) (start : Amount) :
    (es.foldl (fun sum e => sum.satAdd e.amount) start).toNat =
      min (start.toNat + sum es) (2 ^ 128 - 1) := by
  induction es generalizing start with
  | nil =>
    have := start.toNat_lt
    show start.toNat = min (start.toNat + 0) (2 ^ 128 - 1)
    omega
  | cons e es ih =>
    rw [List.foldl_cons, ih, Word.toNat_satAdd, sum_cons]
    omega

/-- **A total in range is the sum.** -/
theorem toNat_total_of_lt {es : List Pending} (h : sum es < 2 ^ 128) :
    (total es).toNat = sum es := by
  unfold total
  rw [toNat_foldl_satAdd, Word.toNat_zero]
  omega

/-- What passes a test and what fails it add up to the whole. -/
theorem sum_filter_add_sum_filter_not (p : Pending → Bool) (es : List Pending) :
    sum (es.filter p) + sum (es.filter fun e => !p e) = sum es := by
  induction es with
  | nil => rfl
  | cons e es ih =>
    rw [List.filter_cons, List.filter_cons, sum_cons]
    cases p e with
    | true =>
      simp only [if_true, Bool.not_true, Bool.false_eq_true, if_false]
      rw [sum_cons]
      omega
    | false =>
      simp only [Bool.false_eq_true, if_false, Bool.not_false, if_true]
      rw [sum_cons]
      omega

/-- Merging adds its amount to the sum, where the entry that takes it stays in range. -/
theorem sum_merge {amount : Amount} {unlock : Block} {es : List Pending} {e : Pending}
    (h : (es.find? fun e => e.unlockBlock = unlock) = some e)
    (hfit : e.amount.toNat + amount.toNat < 2 ^ 128) :
    sum (merge amount unlock es) = sum es + amount.toNat := by
  induction es with
  | nil => cases h
  | cons d es ih =>
    unfold merge
    rw [List.find?_cons] at h
    by_cases hd : d.unlockBlock = unlock
    · rw [decide_eq_true hd] at h
      cases h
      rw [if_pos hd, sum_cons, sum_cons, Word.toNat_add_of_lt hfit]
      omega
    · rw [decide_eq_false hd] at h
      rw [if_neg hd, sum_cons, sum_cons, ih h]
      omega

end Pending

namespace Unbonding

variable {u u' : Unbonding} {who : AccountId} {amount released claimed : Amount}
  {unlock block : Block}

/-! ## The list of an account -/

theorem pending_congr (h : u'.entries.get? who = u.entries.get? who) :
    u'.pending who = u.pending who := by
  unfold pending OrdMap.getD
  rw [h]

theorem pending_insert (u : Unbonding) (who : AccountId) (es : List Pending) :
    ({ u with entries := u.entries.insert who es } : Unbonding).pending who = es :=
  OrdMap.getD_of_some (OrdMap.get?_insert_self ..) []

/-- The list of an account without what has unlocked. -/
def locked (u : Unbonding) (who : AccountId) (block : Block) : List Pending :=
  (u.pending who).filter fun e => !e.isMatured block

theorem length_locked_le (u : Unbonding) (who : AccountId) (block : Block) :
    (u.locked who block).length ≤ (u.pending who).length := List.length_filter_le ..

/-- It is shorter than the list, if something has unlocked. -/
theorem length_locked_lt {e : Pending} (he : e ∈ u.pending who) (h : e.isMatured block = true) :
    (u.locked who block).length < (u.pending who).length :=
  List.length_filter_lt_length_iff_exists.mpr ⟨e, he, by rw [h]; exact Bool.false_ne_true⟩

/-! ## How an amount enters -/

/-- How an amount enters the list of an account: what is released, and the list after it. -/
inductive Entered (u : Unbonding) (who : AccountId) (amount : Amount) (unlock block : Block) :
    Amount → List Pending → Prop
  | merged {e : Pending}
      (found : ((u.pending who).find? fun e => e.unlockBlock = unlock) = some e)
      (fits : e.amount.toNat + amount.toNat < 2 ^ 128) :
      Entered u who amount unlock block 0 (Pending.merge amount unlock (u.pending who))
  | added (new : ((u.pending who).find? fun e => e.unlockBlock = unlock) = none)
      (room : (u.pending who).length < u.capacity.toNat) :
      Entered u who amount unlock block 0 (u.pending who ++ [⟨amount, unlock⟩])
  | replaced (new : ((u.pending who).find? fun e => e.unlockBlock = unlock) = none)
      (full : u.capacity.toNat ≤ (u.pending who).length)
      (matured : ((u.pending who).any fun e => e.isMatured block) = true) :
      Entered u who amount unlock block
        (Pending.total ((u.pending who).filter fun e => e.isMatured block))
        (((u.pending who).filter fun e => !e.isMatured block) ++ [⟨amount, unlock⟩])

theorem any_eq_isSome_find? (es : List Pending) (p : Pending → Bool) :
    es.any p = (es.find? p).isSome := by
  induction es with
  | nil => rfl
  | cons e es ih =>
    rw [List.any_cons, List.find?_cons, ih]
    cases p e <;> rfl

theorem checkEnqueue_eq_ok_iff :
    u.checkEnqueue who amount unlock block = .ok () ↔
      amount ≠ 0 ∧ ∃ released list, Entered u who amount unlock block released list := by
  unfold checkEnqueue
  rw [guard_eq_ok_iff]
  refine and_congr_right fun _ => ?_
  cases hfind : (u.pending who).find? fun e => e.unlockBlock = unlock with
  | some e =>
    simp only [guard_eq_ok_iff, Word.isNone_add?_iff, Nat.not_le, and_true]
    constructor
    · intro hfit
      exact ⟨_, _, .merged hfind hfit⟩
    · rintro ⟨_, _, h⟩
      cases h with
      | merged found fits =>
        cases found.symm.trans hfind
        exact fits
      | added new | replaced new => cases new.symm.trans hfind
  | none =>
    simp only
    constructor
    · intro h
      by_cases hroom : (u.pending who).length < u.capacity.toNat
      · exact ⟨_, _, .added hfind hroom⟩
      · rw [if_neg hroom, guard_else_eq_ok_iff] at h
        exact ⟨_, _, .replaced hfind (Nat.not_lt.mp hroom) h.1⟩
    · rintro ⟨_, _, h⟩
      cases h with
      | merged found => cases found.symm.trans hfind
      | added _ room => rw [if_pos room]
      | replaced _ full matured => rw [if_neg (Nat.not_lt.mpr full), if_pos matured]

/-- **Whatever is accepted has entered, in one of the three ways.** -/
theorem enqueue_eq_ok_iff :
    u.enqueue who amount unlock block = .ok (released, u') ↔
      amount ≠ 0 ∧ ∃ list, Entered u who amount unlock block released list ∧
        u' = { u with entries := u.entries.insert who list } := by
  unfold enqueue
  rw [bind_eq_ok_iff]
  simp only [any_eq_isSome_find?]
  constructor
  · rintro ⟨⟨⟩, hcheck, h⟩
    obtain ⟨hamount, _, _, hentered⟩ := checkEnqueue_eq_ok_iff.mp hcheck
    refine ⟨hamount, ?_⟩
    cases hentered with
    | merged found fits =>
      rw [found, Option.isSome_some, if_pos rfl] at h
      cases h
      exact ⟨_, .merged found fits, rfl⟩
    | added new room =>
      rw [new, Option.isSome_none, if_neg Bool.false_ne_true, if_pos room] at h
      cases h
      exact ⟨_, .added new room, rfl⟩
    | replaced new full matured =>
      rw [new, Option.isSome_none, if_neg Bool.false_ne_true, if_neg (Nat.not_lt.mpr full)] at h
      cases h
      exact ⟨_, .replaced new full matured, rfl⟩
  · rintro ⟨hamount, list, hentered, rfl⟩
    refine ⟨(), checkEnqueue_eq_ok_iff.mpr ⟨hamount, _, _, hentered⟩, ?_⟩
    cases hentered with
    | merged found fits =>
      rw [found, Option.isSome_some, if_pos rfl]
      rfl
    | added new room =>
      rw [new, Option.isSome_none, if_neg Bool.false_ne_true, if_pos room]
      rfl
    | replaced new full matured =>
      rw [new, Option.isSome_none, if_neg Bool.false_ne_true, if_neg (Nat.not_lt.mpr full)]
      rfl

/-- An amount that passes the check enters. -/
theorem enqueue_of_check (h : u.checkEnqueue who amount unlock block = .ok ()) :
    ∃ released u', u.enqueue who amount unlock block = .ok (released, u') := by
  obtain ⟨hamount, released, list, hentered⟩ := checkEnqueue_eq_ok_iff.mp h
  exact ⟨released, _, enqueue_eq_ok_iff.mpr ⟨hamount, list, hentered, rfl⟩⟩

/-- What entered has passed the check. -/
theorem check_of_enqueue (h : u.enqueue who amount unlock block = .ok (released, u')) :
    u.checkEnqueue who amount unlock block = .ok () := by
  obtain ⟨hamount, list, hentered, -⟩ := enqueue_eq_ok_iff.mp h
  exact checkEnqueue_eq_ok_iff.mpr ⟨hamount, released, list, hentered⟩

/-- **What is refused** is nothing, or takes an entry out of range, or finds a full list. -/
theorem error_of_checkEnqueue {e : LedgerError}
    (h : u.checkEnqueue who amount unlock block = .error e) :
    amount = 0 ∨ e = .overflow ∨ e = .ledgerFull u.capacity := by
  unfold checkEnqueue at h
  split at h
  · next hz => exact .inl hz
  · split at h
    · split at h
      · exact .inr (.inl (Except.error.inj h).symm)
      · cases h
    · split at h
      · cases h
      · split at h
        · cases h
        · exact .inr (.inr (Except.error.inj h).symm)

/-! ## What waits -/

/-- What the list of an account counts for in the sum of all. -/
def waitingIn (_ : AccountId) (es : List Pending) : Nat := Pending.sum es

/-- The entries of all lists together. -/
def waiting (u : Unbonding) : Nat := u.entries.sum waitingIn

theorem weight_waitingIn (u : Unbonding) (who : AccountId) :
    u.entries.weight waitingIn who = Pending.sum (u.pending who) :=
  OrdMap.weight_eq_getD rfl

/-- What one account waits for is part of what all wait for. -/
theorem sum_pending_le_waiting (u : Unbonding) (who : AccountId) :
    Pending.sum (u.pending who) ≤ u.waiting := by
  have h := OrdMap.weight_le_sum waitingIn u.entries who
  rw [weight_waitingIn] at h
  exact h

/-- Entering changes the sum of a list by what enters less what is released. -/
theorem Entered.sum_add {list : List Pending} (h : Entered u who amount unlock block released list)
    (hfit : Pending.sum (u.pending who) < 2 ^ 128) :
    Pending.sum list + released.toNat = Pending.sum (u.pending who) + amount.toNat := by
  cases h with
  | merged found fits => rw [Pending.sum_merge found fits, Word.toNat_zero, Nat.add_zero]
  | added =>
    rw [Pending.sum_append, Word.toNat_zero]
    rfl
  | replaced =>
    have hparts := Pending.sum_filter_add_sum_filter_not (fun e => e.isMatured block) (u.pending who)
    have hone : Pending.sum [⟨amount, unlock⟩] = amount.toNat := rfl
    rw [Pending.sum_append, Pending.toNat_total_of_lt (by omega), hone]
    omega

/-- **What enters is added to what waits, and what is released to make room is taken.** -/
theorem waiting_enqueue (h : u.enqueue who amount unlock block = .ok (released, u'))
    (hfit : u.waiting < 2 ^ 128) :
    u'.waiting + released.toNat = u.waiting + amount.toNat := by
  obtain ⟨-, list, hentered, rfl⟩ := enqueue_eq_ok_iff.mp h
  have hle := u.sum_pending_le_waiting who
  have hlist := hentered.sum_add (by omega)
  have hsum := OrdMap.sum_insert waitingIn u.entries who list
  rw [weight_waitingIn] at hsum
  have hnew : waitingIn who list = Pending.sum list := rfl
  unfold waiting
  simp only
  omega

/-- **What is claimed is taken from what waits.** -/
theorem waiting_claim (h : u.claim who block = (claimed, u')) (hfit : u.waiting < 2 ^ 128) :
    u'.waiting + claimed.toNat = u.waiting := by
  unfold claim at h
  cases hget : u.entries.get? who with
  | none =>
    rw [hget] at h
    cases h
    rw [Word.toNat_zero, Nat.add_zero]
  | some es =>
    rw [hget] at h
    simp only [Prod.mk.injEq] at h
    obtain ⟨rfl, rfl⟩ := h
    have hparts := Pending.sum_filter_add_sum_filter_not (fun e => e.isMatured block) es
    have hle := OrdMap.weight_le_sum waitingIn u.entries who
    rw [OrdMap.weight_of_some hget] at hle
    unfold waiting at hfit ⊢
    have htotal : (Pending.total (es.filter fun e => e.isMatured block)).toNat =
        Pending.sum (es.filter fun e => e.isMatured block) :=
      Pending.toNat_total_of_lt (by unfold waitingIn at hle hfit; omega)
    rw [htotal]
    simp only
    split
    · next hkept =>
      have hsum := OrdMap.sum_erase waitingIn u.entries who
      rw [OrdMap.weight_of_some hget] at hsum
      rw [List.isEmpty_iff.mp hkept] at hparts
      have hnil : Pending.sum [] = 0 := rfl
      unfold waitingIn at hsum hle ⊢
      omega
    · have hsum := OrdMap.sum_insert waitingIn u.entries who
        (es.filter fun e => !e.isMatured block)
      rw [OrdMap.weight_of_some hget] at hsum
      unfold waitingIn at hsum hle ⊢
      omega

/-! ## Other accounts -/

variable {other : AccountId}

/-- **What enters leaves the lists of other accounts as they are.** -/
theorem get?_enqueue_of_ne (h : u.enqueue who amount unlock block = .ok (released, u'))
    (hne : other ≠ who) : u'.entries.get? other = u.entries.get? other := by
  obtain ⟨-, list, -, rfl⟩ := enqueue_eq_ok_iff.mp h
  rw [OrdMap.get?_insert, if_neg hne]

/-- **A claim leaves the lists of other accounts as they are.** -/
theorem get?_claim_of_ne (h : u.claim who block = (claimed, u')) (hne : other ≠ who) :
    u'.entries.get? other = u.entries.get? other := by
  unfold claim at h
  split at h
  · cases h
    rfl
  · simp only [Prod.mk.injEq] at h
    obtain ⟨-, rfl⟩ := h
    simp only
    split
    · rw [OrdMap.get?_erase, if_neg hne]
    · rw [OrdMap.get?_insert, if_neg hne]

/-! ## The capacity -/

theorem capacity_enqueue (h : u.enqueue who amount unlock block = .ok (released, u')) :
    u'.capacity = u.capacity := by
  obtain ⟨-, list, -, rfl⟩ := enqueue_eq_ok_iff.mp h
  rfl

theorem capacity_claim (h : u.claim who block = (claimed, u')) : u'.capacity = u.capacity := by
  unfold claim at h
  split at h
  · cases h
    rfl
  · simp only [Prod.mk.injEq] at h
    obtain ⟨-, rfl⟩ := h
    rfl

/-- **A list whose entries have all unlocked has room**: an amount merges with an entry, finds the
list short enough, or takes the place of what is released. -/
theorem checkEnqueue_of_matured (hcapacity : 0 < u.capacity.toNat)
    (hmatured : ∀ e ∈ u.pending who, e.isMatured block = true) (hne : amount ≠ 0)
    (hfit : Pending.sum (u.pending who) + amount.toNat < 2 ^ 128) (unlock : Block) :
    u.checkEnqueue who amount unlock block = .ok () := by
  refine checkEnqueue_eq_ok_iff.mpr ⟨hne, ?_⟩
  cases hfind : (u.pending who).find? fun e => e.unlockBlock = unlock with
  | some e =>
    have hle := Pending.amount_le_sum (List.mem_of_find?_eq_some hfind)
    exact ⟨_, _, .merged hfind (by omega)⟩
  | none =>
    by_cases hroom : (u.pending who).length < u.capacity.toNat
    · exact ⟨_, _, .added hfind hroom⟩
    · have hfull := Nat.not_lt.mp hroom
      obtain ⟨e, he⟩ := List.exists_mem_of_length_pos (Nat.lt_of_lt_of_le hcapacity hfull)
      exact ⟨_, _, .replaced hfind hfull (List.any_eq_true.mpr ⟨e, he, hmatured e he⟩)⟩

/-- No list is longer than the capacity. -/
def WithinCapacity (u : Unbonding) : Prop :=
  ∀ who list, u.entries.get? who = some list → list.length ≤ u.capacity.toNat

theorem withinCapacity_empty (capacity : Count) : (empty capacity).WithinCapacity := by
  intro who list h
  cases h

theorem length_merge (amount : Amount) (unlock : Block) (es : List Pending) :
    (Pending.merge amount unlock es).length = es.length := by
  induction es with
  | nil => rfl
  | cons e es ih =>
    unfold Pending.merge
    split
    · rfl
    · rw [List.length_cons, List.length_cons, ih]

namespace WithinCapacity

theorem length_pending_le (hu : u.WithinCapacity) (who : AccountId) :
    (u.pending who).length ≤ u.capacity.toNat := by
  unfold pending
  cases h : u.entries.get? who with
  | none =>
    rw [OrdMap.getD_of_none h]
    exact Nat.zero_le _
  | some list =>
    rw [OrdMap.getD_of_some h]
    exact hu who list h

/-- A list takes a new entry where it has room, or in the place of those that are released. -/
theorem length_entered_le {list : List Pending} (hu : u.WithinCapacity)
    (h : Entered u who amount unlock block released list) : list.length ≤ u.capacity.toNat := by
  have hle := hu.length_pending_le who
  cases h with
  | merged =>
    rw [length_merge]
    exact hle
  | added _ room =>
    rw [List.length_append, List.length_singleton]
    exact room
  | replaced _ _ matured =>
    obtain ⟨e, he, hmatured⟩ := List.any_eq_true.mp matured
    have hlt := length_locked_lt he hmatured
    unfold locked at hlt
    rw [List.length_append, List.length_singleton]
    omega

/-- **No list grows past the capacity.** -/
theorem enqueue (hu : u.WithinCapacity)
    (h : u.enqueue who amount unlock block = .ok (released, u')) : u'.WithinCapacity := by
  obtain ⟨-, list, hentered, rfl⟩ := enqueue_eq_ok_iff.mp h
  intro x es hes
  rw [OrdMap.get?_insert] at hes
  split at hes
  · cases hes
    exact hu.length_entered_le hentered
  · exact hu x es hes

theorem claim (hu : u.WithinCapacity) (h : u.claim who block = (claimed, u')) :
    u'.WithinCapacity := by
  unfold Unbonding.claim at h
  split at h
  · cases h
    exact hu
  · next es hes =>
    simp only [Prod.mk.injEq] at h
    obtain ⟨-, rfl⟩ := h
    intro x kept hx
    simp only at hx
    split at hx
    · rw [OrdMap.get?_erase] at hx
      split at hx
      · cases hx
      · exact hu x kept hx
    · rw [OrdMap.get?_insert] at hx
      split at hx
      · cases hx
        exact Nat.le_trans (List.length_filter_le _ _) (hu who es hes)
      · exact hu x kept hx

end WithinCapacity

end Unbonding

end Stakebook
