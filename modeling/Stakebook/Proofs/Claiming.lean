import Stakebook.Proofs.Locality

/-!
# What a claim leaves

A claim pays the entries of an account that have unlocked and keeps the rest. So a claim at an
earlier block takes nothing from one at a later block but the time of the payment, and it takes
nothing from the room for what enters next: where that would have merged with an entry that had
unlocked, or would have released such entries from a full list, it now finds the list short enough.

Headlines:
* **`claim_eq`**: a claim pays what has unlocked, and `put`s back what has not.
* **`claim_claim_of_le`**, **`claim_after_of_le`**: the earlier of two claims adds nothing to the
  later one, in either order.
* **`enqueue_claim_self`**, **`enqueue_claim_of_ne`**: what enters before a claim enters as well
  after it, and a last claim leaves and pays the same.
* **`checkEnqueue_claim`**: what is refused before a claim is refused after it.
-/

namespace Stakebook

namespace Pending

variable {amount : Amount} {unlock block block' : Block} {es : List Pending} {e : Pending}

theorem isMatured_iff : e.isMatured block = true ↔ e.unlockBlock ≤ block := decide_eq_true_iff

/-- What has unlocked stays so. -/
theorem isMatured_of_le (hle : block ≤ block') (h : e.isMatured block = true) :
    e.isMatured block' = true :=
  isMatured_iff.mpr (Nat.le_trans (isMatured_iff.mp h) hle)

theorem sum_nil : sum [] = 0 := rfl

/-- A total is cut short at most. -/
theorem toNat_total_le (es : List Pending) : (total es).toNat ≤ sum es := by
  unfold total
  rw [toNat_foldl_satAdd, Word.toNat_zero]
  omega

/-- A part of a list has no larger sum. -/
theorem sum_filter_le (p : Pending → Bool) (es : List Pending) : sum (es.filter p) ≤ sum es := by
  have := sum_filter_add_sum_filter_not p es
  omega

theorem not_isMatured_iff : (!e.isMatured block) = true ↔ ¬e.unlockBlock ≤ block := by
  rw [Bool.not_eq_true', ← isMatured_iff, Bool.not_eq_true]

/-! ## A part of a list

The part holds all entries of an unlock block, or none of them. -/

variable {p : Pending → Bool}

theorem find?_filter (hp : ∀ e, e.unlockBlock = unlock → p e = true) (es : List Pending) :
    (es.filter p).find? (fun e => e.unlockBlock = unlock) =
      es.find? fun e => e.unlockBlock = unlock := by
  rw [List.find?_filter]
  refine congrArg (fun p => es.find? p) (funext fun e => ?_)
  by_cases he : e.unlockBlock = unlock
  · simp [he, hp e he]
  · simp [he]

theorem find?_filter_eq_none (hp : ∀ e, e.unlockBlock = unlock → p e = false)
    (es : List Pending) : (es.filter p).find? (fun e => e.unlockBlock = unlock) = none := by
  refine List.find?_eq_none.mpr fun e he heq => ?_
  have hin := (List.mem_filter.mp he).2
  rw [hp e (of_decide_eq_true heq)] at hin
  cases hin

theorem merge_cons (amount : Amount) (unlock : Block) (e : Pending) (es : List Pending) :
    merge amount unlock (e :: es) =
      if e.unlockBlock = unlock then ⟨e.amount + amount, unlock⟩ :: es
      else e :: merge amount unlock es := rfl

/-- Merging with an entry of the part. -/
theorem filter_merge (hp : ∀ e, e.unlockBlock = unlock → p e = true) (amount : Amount)
    (es : List Pending) :
    (merge amount unlock es).filter p = merge amount unlock (es.filter p) := by
  induction es with
  | nil => rfl
  | cons e es ih =>
    rw [merge_cons]
    by_cases he : e.unlockBlock = unlock
    · rw [if_pos he, List.filter_cons_of_pos (hp _ rfl), List.filter_cons_of_pos (hp e he),
        merge_cons, if_pos he]
    · rw [if_neg he, List.filter_cons, List.filter_cons, ih]
      split
      · rw [merge_cons, if_neg he]
      · rfl

/-- Merging with an entry outside the part. -/
theorem filter_merge_of_not (hp : ∀ e, e.unlockBlock = unlock → p e = false) (amount : Amount)
    (es : List Pending) : (merge amount unlock es).filter p = es.filter p := by
  have hneg (e : Pending) (he : e.unlockBlock = unlock) : ¬p e = true :=
    (hp e he).symm ▸ Bool.false_ne_true
  induction es with
  | nil => rfl
  | cons e es ih =>
    rw [merge_cons]
    by_cases he : e.unlockBlock = unlock
    · rw [if_pos he, List.filter_cons_of_neg (hneg _ rfl), List.filter_cons_of_neg (hneg e he)]
    · rw [if_neg he, List.filter_cons, List.filter_cons, ih]

end Pending

namespace Unbonding

variable {u u' : Unbonding} {who x : AccountId} {amount released claimed : Amount}
  {unlock block block' : Block} {es fs list : List Pending}

/-! ## A list in its place -/

/-- The lists with that of an account replaced. An empty list is not kept. -/
def put (u : Unbonding) (who : AccountId) (es : List Pending) : Unbonding :=
  { u with entries := if es.isEmpty then u.entries.erase who else u.entries.insert who es }

@[simp] theorem capacity_put (u : Unbonding) (who : AccountId) (es : List Pending) :
    (u.put who es).capacity = u.capacity := rfl

theorem get?_put (u : Unbonding) (who : AccountId) (es : List Pending) (x : AccountId) :
    (u.put who es).entries.get? x =
      if x = who then if es.isEmpty then none else some es else u.entries.get? x := by
  unfold put
  simp only
  split
  · rw [OrdMap.get?_erase]
  · rw [OrdMap.get?_insert]

@[simp] theorem pending_put (u : Unbonding) (who : AccountId) (es : List Pending) :
    (u.put who es).pending who = es := by
  unfold pending OrdMap.getD
  rw [get?_put, if_pos rfl]
  split
  · next h => exact (List.isEmpty_iff.mp h).symm
  · rfl

/-- Lists are equal where their accounts have equal lists. -/
theorem ext_entries (hentries : ∀ x, u.entries.get? x = u'.entries.get? x)
    (hcapacity : u.capacity = u'.capacity) : u = u' :=
  (Unbonding.mk.injEq ..).mpr ⟨OrdMap.ext_get? hentries, hcapacity⟩

/-- Only the lists of other accounts are kept. -/
theorem put_congr (h : ∀ x, x ≠ who → u'.entries.get? x = u.entries.get? x)
    (hcapacity : u'.capacity = u.capacity) (es : List Pending) : u'.put who es = u.put who es := by
  refine ext_entries (fun x => ?_) hcapacity
  rw [get?_put, get?_put]
  split
  · rfl
  · next hx => exact h x hx

@[simp] theorem put_put (u : Unbonding) (who : AccountId) (es fs : List Pending) :
    (u.put who es).put who fs = u.put who fs := by
  have hothers (x : AccountId) (hx : x ≠ who) :
      (u.put who es).entries.get? x = u.entries.get? x := by
    rw [get?_put, if_neg hx]
  exact put_congr hothers rfl fs

theorem put_insert (u : Unbonding) (who : AccountId) (es fs : List Pending) :
    ({ u with entries := u.entries.insert who es } : Unbonding).put who fs = u.put who fs := by
  have hothers (x : AccountId) (hx : x ≠ who) :
      ({ u with entries := u.entries.insert who es } : Unbonding).entries.get? x =
        u.entries.get? x := by
    rw [OrdMap.get?_insert, if_neg hx]
  exact put_congr hothers rfl fs

/-- **A claim pays what has unlocked and puts back what has not.** -/
theorem claim_eq (u : Unbonding) (who : AccountId) (block : Block) :
    u.claim who block =
      (Pending.total ((u.pending who).filter fun e => e.isMatured block),
        u.put who ((u.pending who).filter fun e => !e.isMatured block)) := by
  unfold claim
  cases hget : u.entries.get? who with
  | none =>
    have hpending : u.pending who = [] := OrdMap.getD_of_none hget []
    rw [hpending]
    show (0, u) = (0, u.put who [])
    refine Prod.ext rfl (ext_entries (fun x => ?_) rfl)
    rw [get?_put]
    split
    · next hx =>
      rw [hx]
      exact hget
    · rfl
  | some es =>
    have hpending : u.pending who = es := OrdMap.getD_of_some hget []
    rw [hpending]
    rfl

theorem toNat_claim_le (u : Unbonding) (who : AccountId) (block : Block) :
    (u.claim who block).1.toNat ≤ Pending.sum (u.pending who) := by
  rw [claim_eq]
  exact Nat.le_trans (Pending.toNat_total_le _) (Pending.sum_filter_le ..)

/-! ## Two claims -/

/-- A claim at a later block keeps less. -/
theorem filter_locked_locked (hle : block ≤ block') (es : List Pending) :
    ((es.filter fun e => !e.isMatured block).filter fun e => !e.isMatured block') =
      es.filter fun e => !e.isMatured block' := by
  rw [List.filter_filter]
  refine List.filter_congr fun e _ => ?_
  cases h : e.isMatured block' with
  | true => rfl
  | false =>
    cases h' : e.isMatured block with
    | false => rfl
    | true => exact absurd (Pending.isMatured_of_le hle h') (h ▸ Bool.false_ne_true)

/-- What it keeps has not unlocked at an earlier block. -/
theorem filter_locked_of_le (hle : block ≤ block') (es : List Pending) :
    ((es.filter fun e => !e.isMatured block').filter fun e => !e.isMatured block) =
      es.filter fun e => !e.isMatured block' := by
  refine List.filter_eq_self.mpr fun e he => ?_
  have hlocked := (List.mem_filter.mp he).2
  cases h : e.isMatured block with
  | false => rfl
  | true =>
    rw [Pending.isMatured_of_le hle h] at hlocked
    cases hlocked

/-- Nothing that is kept has unlocked. -/
theorem filter_matured_locked (hle : block ≤ block') (es : List Pending) :
    ((es.filter fun e => !e.isMatured block').filter fun e => e.isMatured block) = [] := by
  have h := filter_locked_of_le hle es
  rw [List.filter_eq_self] at h
  refine List.filter_eq_nil_iff.mpr fun e he hmatured => ?_
  have hlocked := h e he
  rw [hmatured] at hlocked
  cases hlocked

/-- **The earlier of two claims adds nothing to the later one**: together they pay what it pays
alone, and leave the same. -/
theorem claim_claim_of_le (hle : block ≤ block') (hfit : Pending.sum (u.pending who) < 2 ^ 128) :
    ((u.claim who block).2.claim who block').2 = (u.claim who block').2 ∧
      (u.claim who block).1.toNat + ((u.claim who block).2.claim who block').1.toNat =
        (u.claim who block').1.toNat := by
  simp only [claim_eq, pending_put, put_put, filter_locked_locked hle, true_and]
  have hfirst := Pending.sum_filter_add_sum_filter_not (fun e => e.isMatured block) (u.pending who)
  have hboth := Pending.sum_filter_add_sum_filter_not (fun e => e.isMatured block')
    ((u.pending who).filter fun e => !e.isMatured block)
  have hlater := Pending.sum_filter_add_sum_filter_not (fun e => e.isMatured block') (u.pending who)
  rw [filter_locked_locked hle] at hboth
  rw [Pending.toNat_total_of_lt (by omega), Pending.toNat_total_of_lt (by omega),
    Pending.toNat_total_of_lt (by omega)]
  omega

/-- **So it does behind it.** -/
theorem claim_after_of_le (hle : block ≤ block') (u : Unbonding) (who : AccountId) :
    (u.claim who block').2.claim who block = (0, (u.claim who block').2) := by
  simp only [claim_eq, pending_put, put_put, filter_locked_of_le hle, filter_matured_locked hle]
  rfl

/-! ## A claim before an amount enters -/

theorem locked_eq_filter (u : Unbonding) (who : AccountId) (block : Block) :
    u.locked who block = (u.pending who).filter fun e => !e.isMatured block := rfl

@[simp] theorem filter_locked (u : Unbonding) (who : AccountId) (block : Block) :
    ((u.locked who block).filter fun e => !e.isMatured block) = u.locked who block :=
  filter_locked_of_le (Nat.le_refl _) _

@[simp] theorem filter_matured_of_locked (u : Unbonding) (who : AccountId) (block : Block) :
    ((u.locked who block).filter fun e => e.isMatured block) = [] :=
  filter_matured_locked (Nat.le_refl _) _

/-- An amount is added to a list that was put in place and has room. -/
theorem Entered.added_put (hnew : (es.find? fun e => e.unlockBlock = unlock) = none)
    (hroom : es.length < u.capacity.toNat) :
    Entered (u.put who es) who amount unlock block 0 (es ++ [⟨amount, unlock⟩]) := by
  have h : Entered (u.put who es) who amount unlock block 0
      ((u.put who es).pending who ++ [⟨amount, unlock⟩]) :=
    .added (by rw [pending_put]; exact hnew) (by rw [pending_put]; exact hroom)
  rw [pending_put] at h
  exact h

/-- It merges with an entry of a list that was put in place. -/
theorem Entered.merged_put {e : Pending}
    (hfound : (es.find? fun e => e.unlockBlock = unlock) = some e)
    (hfits : e.amount.toNat + amount.toNat < 2 ^ 128) :
    Entered (u.put who es) who amount unlock block 0 (Pending.merge amount unlock es) := by
  have h : Entered (u.put who es) who amount unlock block 0
      (Pending.merge amount unlock ((u.put who es).pending who)) :=
    .merged (by rw [pending_put]; exact hfound) hfits
  rw [pending_put] at h
  exact h

/-- What enters before a claim enters as well after it, without a release, and a last claim leaves
and pays the same. -/
theorem Entered.exists_put (h : Entered u who amount unlock block released list)
    (hu : u.WithinCapacity) (hfit : Pending.sum (u.pending who) < 2 ^ 128) :
    ∃ list', Entered (u.put who (u.locked who block)) who amount unlock block 0 list' ∧
      (list'.filter fun e => !e.isMatured block) = (list.filter fun e => !e.isMatured block) ∧
      Pending.sum ((u.pending who).filter fun e => e.isMatured block) +
          Pending.sum (list'.filter fun e => e.isMatured block) =
        released.toNat + Pending.sum (list.filter fun e => e.isMatured block) := by
  have hle := hu.length_pending_le who
  have hshorter := u.length_locked_le who block
  have hnone (h : ((u.pending who).find? fun e => e.unlockBlock = unlock) = none) :
      ((u.locked who block).find? fun e => e.unlockBlock = unlock) = none :=
    List.find?_eq_none.mpr fun e he => List.find?_eq_none.mp h e (List.mem_filter.mp he).1
  cases h with
  | @merged e found fits =>
    by_cases hv : unlock ≤ block
    · -- the entry has unlocked: it is claimed, and what enters takes its place
      have hmatured (e : Pending) (he : e.unlockBlock = unlock) : e.isMatured block = true :=
        Pending.isMatured_iff.mpr (he ▸ hv)
      have hlocked (e : Pending) (he : e.unlockBlock = unlock) : (!e.isMatured block) = false := by
        rw [hmatured e he]
        rfl
      have hunlock : e.unlockBlock = unlock := by simpa using List.find?_some found
      have hlt := length_locked_lt (List.mem_of_find?_eq_some found) (hmatured e hunlock)
      refine ⟨_, .added_put (Pending.find?_filter_eq_none hlocked _) (by omega), ?_, ?_⟩
      · rw [List.filter_append, filter_locked, Pending.filter_merge_of_not hlocked,
          List.filter_cons_of_neg (by rw [hlocked _ rfl]; exact Bool.false_ne_true)]
        exact List.append_nil _
      · rw [List.filter_append, filter_matured_of_locked, Pending.filter_merge hmatured,
          Pending.sum_merge ((Pending.find?_filter hmatured _).trans found) fits,
          List.filter_eq_self.mpr fun e he => hmatured e (List.mem_singleton.mp he ▸ rfl),
          Word.toNat_zero]
        exact (Nat.zero_add _).symm
    · -- the entry stays where it is
      have hmatured (e : Pending) (he : e.unlockBlock = unlock) : e.isMatured block = false :=
        Bool.not_eq_true _ ▸ fun h => hv (he ▸ Pending.isMatured_iff.mp h)
      have hlocked (e : Pending) (he : e.unlockBlock = unlock) : (!e.isMatured block) = true :=
        Pending.not_isMatured_iff.mpr (he ▸ hv)
      refine ⟨_, .merged_put ((Pending.find?_filter hlocked _).trans found) fits, ?_, ?_⟩
      · rw [Pending.filter_merge hlocked, Pending.filter_merge hlocked, filter_locked,
          locked_eq_filter]
      · rw [Pending.filter_merge_of_not hmatured, Pending.filter_merge_of_not hmatured,
          filter_matured_of_locked, Word.toNat_zero, Pending.sum_nil]
        exact Nat.add_comm ..
  | added new room =>
    refine ⟨_, .added_put (hnone new) (by omega), ?_, ?_⟩
    · rw [List.filter_append, List.filter_append, filter_locked, locked_eq_filter]
    · rw [List.filter_append, List.filter_append, filter_matured_of_locked, Pending.sum_append,
        Pending.sum_append, Pending.sum_nil, Nat.zero_add, Word.toNat_zero, Nat.zero_add]
  | replaced new full matured =>
    obtain ⟨e, he, hmatured⟩ := List.any_eq_true.mp matured
    have hlt := length_locked_lt he hmatured
    have hpart := Pending.sum_filter_le (fun e => e.isMatured block) (u.pending who)
    refine ⟨_, .added_put (hnone new) (by omega), rfl, ?_⟩
    rw [Pending.toNat_total_of_lt (by omega)]
    rfl

/-- **What an account enters before its claim enters as well after it**, and a last claim leaves the
same and makes up what is paid. -/
theorem enqueue_claim_self (hu : u.WithinCapacity)
    (hfit : Pending.sum (u.pending who) + amount.toNat < 2 ^ 128)
    (h : u.enqueue who amount unlock block = .ok (released, u')) :
    ∃ v, (u.claim who block).2.enqueue who amount unlock block = .ok (0, v) ∧
      (v.claim who block).2 = (u'.claim who block).2 ∧
      (u.claim who block).1.toNat + (v.claim who block).1.toNat =
        released.toNat + (u'.claim who block).1.toNat := by
  obtain ⟨hne, list, hentered, rfl⟩ := enqueue_eq_ok_iff.mp h
  obtain ⟨list', hentered', hkept, hpaid⟩ := hentered.exists_put hu (by omega)
  have hsum := hentered.sum_add (by omega)
  have hlocked : Pending.sum (u.locked who block) ≤ Pending.sum (u.pending who) :=
    Pending.sum_filter_le ..
  have hsum' := hentered'.sum_add (by rw [pending_put]; omega)
  rw [pending_put, Word.toNat_zero] at hsum'
  have hpart := Pending.sum_filter_le (fun e => e.isMatured block) (u.pending who)
  have hpart' := Pending.sum_filter_le (fun e => e.isMatured block) list
  have hpart'' := Pending.sum_filter_le (fun e => e.isMatured block) list'
  refine ⟨_, enqueue_eq_ok_iff.mpr ⟨hne, list', ?_, rfl⟩, ?_, ?_⟩
  · rw [claim_eq]
    exact hentered'
  · simp only [claim_eq, pending_insert, put_insert, put_put, hkept]
  · simp only [claim_eq, pending_insert]
    rw [Pending.toNat_total_of_lt (by omega), Pending.toNat_total_of_lt (by omega),
      Pending.toNat_total_of_lt (by omega)]
    exact hpaid

/-- **So does what another account enters**, and what a claim pays and leaves is the same before and
after it. -/
theorem enqueue_claim_of_ne (hne : x ≠ who)
    (h : u.enqueue x amount unlock block = .ok (released, u')) :
    ∃ v, (u.claim who block).2.enqueue x amount unlock block = .ok (released, v) ∧
      v.claim who block = (0, (u'.claim who block).2) ∧
      (u'.claim who block).1 = (u.claim who block).1 := by
  rw [claim_eq u]
  have hlist : (u.put who (u.locked who block)).entries.get? x = u.entries.get? x := by
    rw [get?_put, if_neg hne]
  obtain ⟨v, hv, hentered⟩ := enqueue_congr h hlist rfl
  have hpending : u'.pending who = u.pending who := pending_congr (get?_enqueue_of_ne h hne.symm)
  have hlocked : v.pending who = u.locked who block := by
    rw [pending_congr (get?_enqueue_of_ne hv hne.symm), pending_put]
  have hothers (y : AccountId) (hy : y ≠ who) : v.entries.get? y = u'.entries.get? y := by
    by_cases hx : y = x
    · rw [hx, hentered]
    · rw [get?_enqueue_of_ne hv hx, get?_enqueue_of_ne h hx, get?_put, if_neg hy]
  have hcapacity : v.capacity = u'.capacity := by
    rw [capacity_enqueue hv, capacity_enqueue h, capacity_put]
  refine ⟨v, hv, ?_, ?_⟩
  · rw [claim_eq, claim_eq, hlocked, hpending, filter_locked, filter_matured_of_locked,
      put_congr hothers hcapacity, locked_eq_filter]
    rfl
  · rw [claim_eq, hpending]

/-- The check of an amount reads one list and the capacity. -/
theorem checkEnqueue_congr {v : Unbonding} (hpending : v.pending who = u.pending who)
    (hcapacity : v.capacity = u.capacity) :
    v.checkEnqueue who amount unlock block = u.checkEnqueue who amount unlock block := by
  unfold checkEnqueue
  rw [hpending, hcapacity]

/-- What an amount in range is refused for: it is zero, or the list is full and nothing in it has
unlocked. -/
theorem checkEnqueue_eq_error {e : LedgerError}
    (hfit : Pending.sum (u.pending who) + amount.toNat < 2 ^ 128)
    (h : u.checkEnqueue who amount unlock block = .error e) :
    amount = 0 ∨ ∀ d ∈ u.pending who, (!d.isMatured block) = true := by
  unfold checkEnqueue at h
  split at h
  · next hz => exact .inl hz
  · refine .inr fun d hd => ?_
    split at h
    · next e' hfound =>
      have hle := Pending.amount_le_sum (List.mem_of_find?_eq_some hfound)
      rw [if_neg (by rw [Word.isNone_add?_iff]; omega)] at h
      cases h
    · split at h
      · cases h
      · split at h
        · cases h
        · next hany =>
          cases hmatured : d.isMatured block with
          | true => exact absurd (List.any_eq_true.mpr ⟨d, hd, hmatured⟩) hany
          | false => rfl

/-- A full list in which nothing has unlocked is the same after a claim. -/
theorem checkEnqueue_put (hu : u.WithinCapacity)
    (hfit : Pending.sum (u.pending who) + amount.toNat < 2 ^ 128) (unlock block : Block) :
    (u.put who (u.locked who block)).checkEnqueue who amount unlock block =
      u.checkEnqueue who amount unlock block := by
  cases h : u.checkEnqueue who amount unlock block with
  | ok =>
    obtain ⟨hne, _, _, hentered⟩ := checkEnqueue_eq_ok_iff.mp h
    obtain ⟨list', hentered', -⟩ := hentered.exists_put hu (by omega)
    exact checkEnqueue_eq_ok_iff.mpr ⟨hne, 0, list', hentered'⟩
  | error e =>
    rw [← h]
    rcases checkEnqueue_eq_error hfit h with hz | hlocked
    · unfold checkEnqueue
      rw [if_pos hz, if_pos hz]
    · refine checkEnqueue_congr ?_ rfl
      rw [pending_put]
      exact List.filter_eq_self.mpr hlocked

/-- **What is refused before a claim is refused after it**, for the same reason, whosever list it
was for. -/
theorem checkEnqueue_claim (hu : u.WithinCapacity)
    (hfit : Pending.sum (u.pending x) + amount.toNat < 2 ^ 128) (who : AccountId)
    (unlock block : Block) :
    (u.claim who block).2.checkEnqueue x amount unlock block =
      u.checkEnqueue x amount unlock block := by
  rw [claim_eq]
  by_cases hx : x = who
  · subst hx
    exact checkEnqueue_put hu hfit unlock block
  · refine checkEnqueue_congr (pending_congr ?_) rfl
    rw [get?_put, if_neg hx]

end Unbonding

end Stakebook
