import Mathlib.Data.List.Basic
import Stakebook.Proofs.Checks
import Stakebook.Proofs.MapSum
import Stakebook.SwapQueue

/-!
# The accounts of the swap queue

`SwapQueue.Valid` says that the order of the queue lists the swaps that wait, ascending, and that
every swap stands under its own number, below the next one, and has a balance. `SwapQueue.queued`
adds up the balances that wait.

Headlines:
* **`Valid.enqueue`**, **`Valid.update`**, **`Valid.remove`**: every change keeps the queue valid.
* **`queued_enqueue`**, **`queued_update`**, **`queued_remove`**: a new number adds its balance, another
  target changes nothing, and a swap taken out takes its balance.
* **`get?_enqueue`**, **`get?_update`**, **`get?_remove`**: the swap of a number after each change.
* **`Valid.filter_toList`**: the queue lists the swap of a number once.
* **`Valid.mem_toList_iff`**, **`Valid.toList_ascending`**, **`Valid.toList_remove`**: it lists what
  waits, in the order of the numbers, and a removal takes one swap out of the list.
* **`Valid.ready_eq`**: what is ready is what comes first among the matured swaps.
-/

namespace Stakebook.SwapQueue

variable {q q' : SwapQueue} {who : AccountId} {target : PoolId} {balance : Amount} {id : SwapId}
  {block delay : Block} {s : QueuedSwap}

/-! ## When the queue is changed -/

theorem toNat_one : (1 : SwapId).toNat = 1 := Word.toNat_one (by decide)

theorem checkEnqueue_eq_ok_iff :
    q.checkEnqueue balance = .ok () ↔ balance ≠ 0 ∧ q.nextId.toNat + 1 < 2 ^ 64 := by
  unfold checkEnqueue
  simp only [guard_eq_ok_iff, Word.isNone_add?_iff, toNat_one, Nat.not_le, and_true]

theorem enqueue_eq_ok_iff :
    q.enqueue who target balance block delay = .ok (id, q') ↔
      q.checkEnqueue balance = .ok () ∧ id = q.nextId ∧
        q' = { entries := q.entries.insert q.nextId
                 ⟨q.nextId, who, target, balance, block, block.satAdd delay⟩
               order := q.order ++ [q.nextId]
               nextId := q.nextId + 1 } := by
  unfold enqueue
  simp only [bind_eq_ok_iff, pure_eq_ok_iff, Prod.mk.injEq]
  constructor
  · rintro ⟨⟨⟩, hcheck, rfl, rfl⟩
    exact ⟨hcheck, rfl, rfl⟩
  · rintro ⟨hcheck, rfl, rfl⟩
    exact ⟨(), hcheck, rfl, rfl⟩

theorem checkUpdate_eq_ok_iff :
    q.checkUpdate id who block = .ok s ↔
      q.get? id = some s ∧ s.account = who ∧ s.isMatured block = false := by
  unfold checkUpdate
  cases q.get? id with
  | none => exact ⟨nofun, nofun⟩
  | some e =>
    simp only [guard_eq_ok_iff, Decidable.not_not, Bool.not_eq_true, Except.ok.injEq,
      Option.some.injEq]
    constructor
    · rintro ⟨hwho, hopen, rfl⟩
      exact ⟨rfl, hwho, hopen⟩
    · rintro ⟨rfl, hwho, hopen⟩
      exact ⟨hwho, hopen, rfl⟩

theorem update_eq_ok_iff :
    q.update id who target block = .ok q' ↔
      ∃ s, q.checkUpdate id who block = .ok s ∧
        q' = { q with entries := q.entries.insert id { s with target } } := by
  unfold update
  simp only [bind_eq_ok_iff, pure_eq_ok_iff]
  constructor
  · rintro ⟨s, hs, rfl⟩
    exact ⟨s, hs, rfl⟩
  · rintro ⟨s, hs, rfl⟩
    exact ⟨s, hs, rfl⟩

theorem checkMatured_eq_ok_iff :
    q.checkMatured id block = .ok s ↔ q.get? id = some s ∧ s.isMatured block = true := by
  unfold checkMatured
  cases q.get? id with
  | none => exact ⟨nofun, nofun⟩
  | some e =>
    simp only [guard_else_eq_ok_iff, Except.ok.injEq, Option.some.injEq]
    constructor
    · rintro ⟨hmatured, rfl⟩
      exact ⟨rfl, hmatured⟩
    · rintro ⟨rfl, hmatured⟩
      exact ⟨hmatured, rfl⟩

theorem remove_of_some (h : q.get? id = some s) :
    q.remove id = { q with
      entries := q.entries.erase id
      order := q.order.filter fun queued => queued ≠ id } := by
  unfold remove
  rw [h]

theorem remove_of_none (h : q.get? id = none) : q.remove id = q := by
  unfold remove
  rw [h]

/-! ## The swap of a number -/

theorem nextId_update (h : q.update id who target block = .ok q') : q'.nextId = q.nextId := by
  obtain ⟨s, -, rfl⟩ := update_eq_ok_iff.mp h
  rfl

theorem nextId_remove (q : SwapQueue) (id : SwapId) : (q.remove id).nextId = q.nextId := by
  unfold remove
  split <;> rfl

/-- A new number is the next one, and raises it. -/
theorem nextId_enqueue (h : q.enqueue who target balance block delay = .ok (id, q')) :
    id = q.nextId ∧ q.nextId < q'.nextId := by
  obtain ⟨hcheck, rfl, rfl⟩ := enqueue_eq_ok_iff.mp h
  obtain ⟨-, hfit⟩ := checkEnqueue_eq_ok_iff.mp hcheck
  refine ⟨rfl, ?_⟩
  rw [Word.lt_def, Word.toNat_add_of_lt (by rw [toNat_one]; exact hfit), toNat_one]
  exact Nat.lt_succ_self _

/-- **A new swap stands under the next number.** -/
theorem get?_enqueue (h : q.enqueue who target balance block delay = .ok (id, q')) (i : SwapId) :
    q'.get? i = if i = id then
      some ⟨id, who, target, balance, block, block.satAdd delay⟩ else q.get? i := by
  obtain ⟨-, rfl, rfl⟩ := enqueue_eq_ok_iff.mp h
  exact OrdMap.get?_insert ..

/-- **An update gives one swap another target.** -/
theorem get?_update (h : q.update id who target block = .ok q') (i : SwapId) :
    q'.get? i = if i = id then (q.get? id).map fun s => { s with target } else q.get? i := by
  obtain ⟨s, hcheck, rfl⟩ := update_eq_ok_iff.mp h
  obtain ⟨hs, -, -⟩ := checkUpdate_eq_ok_iff.mp hcheck
  rw [hs]
  exact OrdMap.get?_insert ..

/-- A new swap leaves all earlier numbers as they are. -/
theorem get?_enqueue_of_lt {i : SwapId}
    (h : q.enqueue who target balance block delay = .ok (id, q')) (hi : i < q.nextId) :
    q'.get? i = q.get? i := by
  have hne : i ≠ id := fun he => by
    rw [he, (nextId_enqueue h).1] at hi
    exact Nat.lt_irrefl _ hi
  rw [get?_enqueue h, if_neg hne]

/-- Only a queued swap is given a target. -/
theorem queued_of_update (h : q.update id who target block = .ok q') :
    ∃ s, q.get? id = some s := by
  obtain ⟨s, hcheck, -⟩ := update_eq_ok_iff.mp h
  exact ⟨s, (checkUpdate_eq_ok_iff.mp hcheck).1⟩

/-- An update gives no target to a swap that is not queued. -/
theorem get?_update_of_none {i : SwapId} (h : q.update id who target block = .ok q')
    (hi : q.get? i = none) : q'.get? i = none := by
  rw [get?_update h]
  split
  · next he => rw [← he, hi, Option.map_none]
  · exact hi

/-- What is ready waits and has matured. -/
theorem exists_of_mem_ready {max : Count} (h : id ∈ q.ready block max) :
    ∃ s, q.get? id = some s ∧ s.isMatured block = true := by
  unfold ready at h
  obtain ⟨-, hany⟩ := List.mem_filter.mp (List.mem_of_mem_take h)
  exact (Option.any_eq_true _ _).mp hany

/-- **A removal takes out one swap.** -/
theorem get?_remove (q : SwapQueue) (id i : SwapId) :
    (q.remove id).get? i = if i = id then none else q.get? i := by
  cases h : q.get? id with
  | none =>
    rw [remove_of_none h]
    split
    · next hi => rw [hi, h]
    · rfl
  | some s =>
    rw [remove_of_some h]
    exact OrdMap.get?_erase ..

/-! ## A valid queue -/

/-- The swaps that may be executed at a block, in the order of the queue. -/
def matured (q : SwapQueue) (block : Block) : List QueuedSwap :=
  q.toList.filter fun s => s.isMatured block

/-- A swap that waits under its own number, has a balance, and does not mature before it was
queued. -/
structure Waits (id : SwapId) (s : QueuedSwap) : Prop where
  id_eq : s.id = id
  balance_ne_zero : s.balance ≠ 0
  queuedAt_le : s.queuedAt ≤ s.executeAfter

/-- The order lists the swaps that wait, ascending, and their numbers are below the next. -/
structure Valid (q : SwapQueue) : Prop where
  order_ascending : q.order.Pairwise (· < ·)
  mem_order_iff : ∀ id, id ∈ q.order ↔ ∃ s, q.get? id = some s
  lt_nextId : ∀ id s, q.get? id = some s → id < q.nextId
  waits : ∀ id s, q.get? id = some s → Waits id s

theorem valid_empty : Valid empty where
  order_ascending := .nil
  mem_order_iff id := by
    constructor
    · intro h
      cases h
    · rintro ⟨s, h⟩
      cases h
  lt_nextId _ _ h := by cases h
  waits _ _ h := by cases h

namespace Valid

theorem nodup_order (hv : q.Valid) : q.order.Nodup := hv.order_ascending.imp Word.ne_of_lt

/-- The next number is not in use. -/
theorem get?_nextId (hv : q.Valid) : q.get? q.nextId = none := by
  cases h : q.get? q.nextId with
  | none => rfl
  | some s => exact absurd (hv.lt_nextId _ s h) (Nat.lt_irrefl _)

theorem enqueue (hv : q.Valid) (h : q.enqueue who target balance block delay = .ok (id, q')) :
    q'.Valid := by
  obtain ⟨hcheck, -, rfl⟩ := enqueue_eq_ok_iff.mp h
  obtain ⟨hbalance, hfit⟩ := checkEnqueue_eq_ok_iff.mp hcheck
  have hnext : (q.nextId + 1).toNat = q.nextId.toNat + 1 := by
    rw [Word.toNat_add_of_lt (by rw [toNat_one]; exact hfit), toNat_one]
  refine ⟨?_, fun i => ?_, fun i s hs => ?_, fun i s hs => ?_⟩
  · rw [List.pairwise_append]
    refine ⟨hv.order_ascending, List.pairwise_singleton _ _, fun i hi j hj => ?_⟩
    obtain ⟨s, hs⟩ := (hv.mem_order_iff i).mp hi
    rw [List.mem_singleton.mp hj]
    exact hv.lt_nextId i s hs
  · rw [List.mem_append, List.mem_singleton, hv.mem_order_iff]
    unfold get?
    simp only [OrdMap.get?_insert]
    by_cases hi : i = q.nextId
    · rw [if_pos hi]
      exact ⟨fun _ => ⟨_, rfl⟩, fun _ => .inr hi⟩
    · rw [if_neg hi]
      exact or_iff_left hi
  · unfold get? at hs
    rw [OrdMap.get?_insert] at hs
    rw [Word.lt_def]
    simp only
    split at hs
    · next hi =>
      rw [hi]
      omega
    · have := hv.lt_nextId i s hs
      rw [Word.lt_def] at this
      omega
  · unfold get? at hs
    rw [OrdMap.get?_insert] at hs
    split at hs
    · next hi =>
      cases hs
      exact ⟨hi.symm, hbalance, Word.le_satAdd _ _⟩
    · exact hv.waits i s hs

theorem update (hv : q.Valid) (h : q.update id who target block = .ok q') : q'.Valid := by
  obtain ⟨s, hcheck, rfl⟩ := update_eq_ok_iff.mp h
  obtain ⟨hs, -, -⟩ := checkUpdate_eq_ok_iff.mp hcheck
  have hwaits := hv.waits id s hs
  refine ⟨hv.order_ascending, fun i => ?_, fun i e he => ?_, fun i e he => ?_⟩
  · rw [hv.mem_order_iff]
    unfold get?
    simp only [OrdMap.get?_insert]
    split
    · next hi =>
      rw [hi]
      exact ⟨fun _ => ⟨_, rfl⟩, fun _ => ⟨s, hs⟩⟩
    · exact Iff.rfl
  · unfold get? at he
    rw [OrdMap.get?_insert] at he
    split at he
    · next hi => exact hi ▸ hv.lt_nextId id s hs
    · exact hv.lt_nextId i e he
  · unfold get? at he
    rw [OrdMap.get?_insert] at he
    split at he
    · next hi =>
      cases he
      exact hi ▸ ⟨hwaits.id_eq, hwaits.balance_ne_zero, hwaits.queuedAt_le⟩
    · exact hv.waits i e he

theorem remove (hv : q.Valid) (id : SwapId) : (q.remove id).Valid := by
  cases hs : q.get? id with
  | none =>
    rw [remove_of_none hs]
    exact hv
  | some s =>
    rw [remove_of_some hs]
    refine ⟨hv.order_ascending.filter _, fun i => ?_, fun i e he => ?_, fun i e he => ?_⟩
    · rw [List.mem_filter, hv.mem_order_iff, decide_eq_true_iff]
      unfold get?
      simp only [OrdMap.get?_erase]
      by_cases hi : i = id
      · rw [if_pos hi]
        constructor
        · rintro ⟨-, hne⟩
          exact absurd hi hne
        · rintro ⟨s, h⟩
          cases h
      · rw [if_neg hi]
        exact and_iff_left hi
    · unfold get? at he
      rw [OrdMap.get?_erase] at he
      split at he
      · cases he
      · exact hv.lt_nextId i e he
    · unfold get? at he
      rw [OrdMap.get?_erase] at he
      split at he
      · cases he
      · exact hv.waits i e he

/-- **The queue lists the swap of a number once**, if it has one. -/
theorem filter_toList (hv : q.Valid) (id : SwapId) :
    (q.toList.filter fun s => s.id = id) = (q.get? id).toList := by
  have hone : (fun i => Option.filter (fun s => decide (s.id = id)) (q.get? i)) =
      fun i => if decide (i = id) = true then q.get? i else none := by
    funext i
    cases hs : q.get? i with
    | none => rw [Option.filter_none, ite_self]
    | some s => rw [Option.filter_some, (hv.waits i s hs).id_eq]
  unfold toList
  rw [List.filter_filterMap, hone, ← List.filterMap_filter, List.filter_eq, hv.nodup_order.count]
  split
  · next hid =>
    obtain ⟨s, hs⟩ := (hv.mem_order_iff id).mp hid
    rw [hs]
    exact List.filterMap_cons_some hs
  · next hid =>
    cases hs : q.get? id with
    | none => rfl
    | some s => exact absurd ((hv.mem_order_iff id).mpr ⟨s, hs⟩) hid

/-! ### The list of a valid queue -/

/-- **The queue lists the swaps that wait.** -/
theorem mem_toList_iff (hv : q.Valid) : s ∈ q.toList ↔ q.get? s.id = some s := by
  unfold toList
  rw [List.mem_filterMap]
  constructor
  · rintro ⟨i, -, hs⟩
    rw [(hv.waits i s hs).id_eq]
    exact hs
  · intro hs
    exact ⟨s.id, (hv.mem_order_iff s.id).mpr ⟨s, hs⟩, hs⟩

theorem map_id_toList (hv : q.Valid) : q.toList.map QueuedSwap.id = q.order := by
  have hid : ∀ i ∈ q.order, (q.get? i).map QueuedSwap.id = some i := by
    intro i hi
    obtain ⟨s, hs⟩ := (hv.mem_order_iff i).mp hi
    rw [hs, Option.map_some, (hv.waits i s hs).id_eq]
  unfold toList
  rw [List.map_filterMap, List.filterMap_congr hid, List.filterMap_some]

/-- **It lists them in the order of their numbers.** -/
theorem toList_ascending (hv : q.Valid) : q.toList.Pairwise fun s t => s.id < t.id := by
  rw [← List.pairwise_map (R := (· < ·)), hv.map_id_toList]
  exact hv.order_ascending

/-- **What is ready is what comes first among the matured swaps.** -/
theorem ready_eq (hv : q.Valid) (block : Block) (max : Count) :
    q.ready block max = ((q.matured block).take max.toNat).map QueuedSwap.id := by
  unfold ready matured
  rw [List.map_take, ← hv.map_id_toList, List.filter_map]
  congr 2
  refine List.filter_congr fun s hs => ?_
  show (q.get? s.id).any _ = _
  rw [hv.mem_toList_iff.mp hs]
  rfl

/-- What is ready comes in the order of the numbers. -/
theorem ready_ascending (hv : q.Valid) (block : Block) (max : Count) :
    (q.ready block max).Pairwise (· < ·) := by
  unfold ready
  exact (hv.order_ascending.filter _).take

/-- **A removal takes one swap out of the list.** -/
theorem toList_remove (hv : q.Valid) (id : SwapId) :
    (q.remove id).toList = q.toList.filter fun s => s.id ≠ id := by
  cases hid : q.get? id with
  | none =>
    have hkept : ∀ s ∈ q.toList, decide (s.id ≠ id) = true := by
      intro s hs
      refine decide_eq_true fun he => ?_
      rw [← he, hv.mem_toList_iff.mp hs] at hid
      cases hid
    rw [remove_of_none hid, List.filter_eq_self.mpr hkept]
  | some e =>
    have horder : (q.remove id).order = q.order.filter fun i => i ≠ id := by
      rw [remove_of_some hid]
    unfold toList
    rw [horder, List.filterMap_filter, List.filter_filterMap]
    refine List.filterMap_congr fun i _ => ?_
    rw [get?_remove]
    cases hi : q.get? i with
    | none => rw [Option.filter_none, ite_self, ite_self]
    | some s =>
      rw [Option.filter_some, (hv.waits i s hi).id_eq]
      by_cases hne : i = id <;> simp [hne]

end Valid

/-! ## What is queued -/

/-- What a swap counts for in the sum of the balances. -/
def queuedIn (_ : SwapId) (s : QueuedSwap) : Nat := s.balance.toNat

/-- The balances of all swaps together. -/
def queued (q : SwapQueue) : Nat := q.entries.sum queuedIn

/-- **A new number adds its balance to what is queued.** -/
theorem queued_enqueue (hv : q.Valid)
    (h : q.enqueue who target balance block delay = .ok (id, q')) :
    q'.queued = q.queued + balance.toNat := by
  obtain ⟨-, -, rfl⟩ := enqueue_eq_ok_iff.mp h
  have hsum := OrdMap.sum_insert queuedIn q.entries q.nextId
    ⟨q.nextId, who, target, balance, block, block.satAdd delay⟩
  rw [OrdMap.weight_of_none hv.get?_nextId] at hsum
  exact hsum

/-- **Another target leaves what is queued as it is.** -/
theorem queued_update (h : q.update id who target block = .ok q') : q'.queued = q.queued := by
  obtain ⟨s, hcheck, rfl⟩ := update_eq_ok_iff.mp h
  obtain ⟨hs, -, -⟩ := checkUpdate_eq_ok_iff.mp hcheck
  have hsum := OrdMap.sum_insert queuedIn q.entries id { s with target }
  rw [OrdMap.weight_of_some hs] at hsum
  exact Nat.add_right_cancel hsum

/-- **A swap that is taken out takes its balance from what is queued.** -/
theorem queued_remove (h : q.get? id = some s) :
    (q.remove id).queued + s.balance.toNat = q.queued := by
  have hsum := OrdMap.sum_erase queuedIn q.entries id
  rw [OrdMap.weight_of_some h] at hsum
  rw [remove_of_some h]
  exact hsum

end Stakebook.SwapQueue
