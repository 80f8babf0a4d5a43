import Stakebook.Proofs.SwapQueue

/-!
# Runs of the swap queue

`SwapQueue.run` is the queue after any calls on no swaps, whether accepted or refused. `Change` says
what a call can do to it, and `Valid.order_eq_keys` that the order of a valid queue lists the
numbers of the swaps that wait, each once.

Headlines:
* **`Valid.change`**, **`valid_run`**: the queue is valid after every run.
* **`nextId_le_run`**: the next number never falls.
* **`Valid.toList_eq_values`**: the queue lists all swaps that wait, and no other.
* **`run_in_order`**: order, entries and numbers agree after every run, so the swaps are listed in
  the order of their numbers and those that are ready come first among the matured ones.
-/

namespace Stakebook.SwapQueue

/-! ## Calls and runs -/

/-- A call that may change the queue. -/
inductive Call
  | enqueue (who : AccountId) (target : PoolId) (balance : Amount) (block delay : Block)
  | update (id : SwapId) (who : AccountId) (target : PoolId) (block : Block)
  | remove (id : SwapId)

/-- The queue after a call; a refused call leaves it as it is. -/
def Call.apply (q : SwapQueue) : Call → SwapQueue
  | .enqueue who target balance block delay =>
    match q.enqueue who target balance block delay with
    | .ok (_, q') => q'
    | .error _ => q
  | .update id who target block =>
    match q.update id who target block with
    | .ok q' => q'
    | .error _ => q
  | .remove id => q.remove id

/-- The queue after some calls on no swaps. -/
def run (calls : List Call) : SwapQueue := calls.foldl Call.apply empty

/-- What an accepted call does. -/
inductive Change (q : SwapQueue) : SwapQueue → Prop
  | enqueue {who : AccountId} {target : PoolId} {balance : Amount} {block delay : Block}
      {id : SwapId} {q' : SwapQueue}
      (enqueue : q.enqueue who target balance block delay = .ok (id, q')) : Change q q'
  | update {id : SwapId} {who : AccountId} {target : PoolId} {block : Block} {q' : SwapQueue}
      (update : q.update id who target block = .ok q') : Change q q'
  | remove (id : SwapId) : Change q (q.remove id)

theorem Call.apply_eq_or_change (q : SwapQueue) (c : Call) :
    c.apply q = q ∨ Change q (c.apply q) := by
  unfold Call.apply
  cases c with
  | enqueue who target balance block delay =>
    simp only
    split
    · next h => exact .inr (.enqueue h)
    · exact .inl rfl
  | update id who target block =>
    simp only
    split
    · next h => exact .inr (.update h)
    · exact .inl rfl
  | remove id => exact .inr (.remove id)

variable {q q' : SwapQueue}

theorem Valid.change (hv : q.Valid) (h : Change q q') : q'.Valid := by
  cases h with
  | enqueue h => exact hv.enqueue h
  | update h => exact hv.update h
  | remove id => exact hv.remove id

theorem Change.nextId_le (h : Change q q') : q.nextId ≤ q'.nextId := by
  cases h with
  | enqueue h => exact Nat.le_of_lt (nextId_enqueue h).2
  | update h => exact Nat.le_of_eq (congrArg Word.toNat (nextId_update h).symm)
  | remove id => exact Nat.le_of_eq (congrArg Word.toNat (nextId_remove q id).symm)

/-- **A property of the queue that every accepted call keeps holds after all calls.** -/
theorem foldl_apply {P : SwapQueue → Prop} (hchange : ∀ q q', P q → Change q q' → P q')
    (hq : P q) (calls : List Call) : P (calls.foldl Call.apply q) := by
  induction calls generalizing q with
  | nil => exact hq
  | cons c calls ih =>
    refine ih ?_
    rcases c.apply_eq_or_change q with h | h
    · rw [h]
      exact hq
    · exact hchange q _ hq h

/-- **The queue is valid after every run.** -/
theorem valid_run (calls : List Call) : (run calls).Valid :=
  foldl_apply (fun _ _ hv h => hv.change h) valid_empty calls

/-- **The next number never falls in a run.** -/
theorem nextId_le_run {calls before : List Call} (h : before <+: calls) :
    (run before).nextId ≤ (run calls).nextId := by
  obtain ⟨rest, rfl⟩ := h
  unfold run
  rw [List.foldl_append]
  exact foldl_apply (P := fun q => (run before).nextId ≤ q.nextId)
    (fun _ _ hle hc => Nat.le_trans hle hc.nextId_le) (Nat.le_refl _) rest

/-! ## Order and entries -/

namespace Valid

/-- **The order lists the numbers of the swaps that wait.** -/
theorem order_eq_keys (hv : q.Valid) : q.order = q.entries.keys := by
  have hkeys : q.entries.keys.Pairwise (· < ·) :=
    q.entries.keys_ascending.imp fun h => of_decide_eq_true h
  have hperm : q.order.Perm q.entries.keys := by
    rw [List.perm_ext_iff_of_nodup hv.nodup_order (hkeys.imp Word.ne_of_lt)]
    intro id
    rw [hv.mem_order_iff, OrdMap.mem_keys_iff]
    rfl
  exact hperm.eq_of_pairwise
    (fun a b _ _ hab hba => absurd (Nat.lt_trans hab hba) (Nat.lt_irrefl _))
    hv.order_ascending hkeys

/-- Each number of a swap that waits stands in the order once, and no other. -/
theorem count_order (hv : q.Valid) (id : SwapId) :
    q.order.count id = if q.entries.contains id then 1 else 0 := by
  have hmem : id ∈ q.order ↔ q.entries.contains id = true := by
    rw [hv.mem_order_iff, ← Option.isSome_iff_exists]
    rfl
  rw [hv.nodup_order.count]
  simp only [hmem]

/-- **The queue lists all swaps that wait.** -/
theorem toList_eq_values (hv : q.Valid) : q.toList = q.entries.values := by
  unfold toList
  rw [hv.order_eq_keys]
  exact q.entries.filterMap_get?_keys

end Valid

/-- **Order, entries and numbers agree after every run**, whatever calls are made, accepted or
refused. -/
theorem run_in_order (calls : List Call) :
    ((run calls).order.Pairwise (· < ·) ∧
      ∀ id, (run calls).order.count id = if (run calls).entries.contains id then 1 else 0) ∧
    (∀ id s, (run calls).entries.get? id = some s →
      id < (run calls).nextId ∧ s.id = id ∧ 0 < s.balance ∧ s.queuedAt ≤ s.executeAfter) ∧
    (∀ before, before <+: calls → (run before).nextId ≤ (run calls).nextId) ∧
    ((run calls).toList = (run calls).entries.values ∧
      (run calls).toList.length = (run calls).entries.size ∧
      (run calls).toList.Pairwise fun s t => s.id < t.id) ∧
    ∀ block max,
      (run calls).ready block max =
          (((run calls).toList.filter fun s => s.isMatured block).take max.toNat).map
            QueuedSwap.id ∧
        ((run calls).ready block max).Nodup := by
  have hv := valid_run calls
  refine ⟨⟨hv.order_ascending, hv.count_order⟩, fun id s hs => ?_, fun _ => nextId_le_run,
    ⟨hv.toList_eq_values, ?_, hv.toList_ascending⟩, fun block max => ⟨hv.ready_eq block max, ?_⟩⟩
  · have hwaits := hv.waits id s hs
    exact ⟨hv.lt_nextId id s hs, hwaits.id_eq, Word.ne_zero_iff.mp hwaits.balance_ne_zero,
      hwaits.queuedAt_le⟩
  · rw [hv.toList_eq_values]
    exact List.length_map _
  · exact (hv.ready_ascending block max).imp Word.ne_of_lt

/-- Calls of three accounts: a swap of nothing and a target from another account are refused, the
first swap and one that is not there are taken out, one swap is given a target, and one never
matures. -/
def shuffled : List Call :=
  [.enqueue (.dev 1) (.subnet 1) 0 5 10, .enqueue (.dev 1) (.subnet 1) 40 5 10,
    .enqueue (.dev 2) (.subnet 1) 30 6 10, .update 0 (.dev 2) (.subnet 2) 7,
    .enqueue (.dev 1) (.subnet 2) 20 7 .max, .update 1 (.dev 2) (.node ⟨3, 4⟩) 7, .remove 0,
    .remove 9, .enqueue (.dev 3) (.subnet 3) 10 8 0]

theorem run_in_order_shuffled :
    shuffled.take 4 <+: shuffled ∧ (run (shuffled.take 4)).nextId ≤ (run shuffled).nextId ∧
      (run shuffled).entries.get? 1 = some ⟨1, .dev 2, .node ⟨3, 4⟩, 30, 6, 16⟩ ∧
      (1 : SwapId) < (run shuffled).nextId ∧ (run shuffled).order = [1, 2, 3] ∧
      (run shuffled).order.Pairwise (· < ·) ∧ (run shuffled).ready 16 5 = [1, 3] ∧
      ((run shuffled).ready 16 5).Nodup := by
  obtain ⟨⟨hascending, -⟩, hentries, hnext, -, hready⟩ := run_in_order shuffled
  have htaken : shuffled.take 4 <+: shuffled := List.take_prefix ..
  have hget : (run shuffled).entries.get? 1 = some ⟨1, .dev 2, .node ⟨3, 4⟩, 30, 6, 16⟩ := by
    decide +kernel
  exact ⟨htaken, hnext _ htaken, hget, (hentries _ _ hget).1, by decide +kernel, hascending,
    by decide +kernel, (hready 16 5).2⟩

end Stakebook.SwapQueue
