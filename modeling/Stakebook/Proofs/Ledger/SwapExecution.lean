import Stakebook.Proofs.Ledger.Frames

/-!
# What becomes of a queued swap

A queued swap has one of three fates in an accepted call: it waits, its owner gives it another
target, or it is executed. `Placed` says where the balance of an executed swap goes, and `Executes`
finds its execution among those that a call makes one after the other.

Headlines:
* **`SwapEffect.placed`**: the balance goes whole into the target pool, or into the unbonding list of
  the owner.
* **`BatchEffect.executes_or_waits`**: a batch executes a swap once or leaves it as it is.
* **`Effect.fate`**: the three fates.
* **`Effect.get?_of_gone`**: what is no longer queued is not executed, gets no target, and does not
  come back.
-/

namespace Stakebook

namespace LedgerCall

/-- The target that an accepted call gives to a swap. -/
def retargets (id : SwapId) : LedgerCall → Option PoolId
  | .updateSwap i target => if i = id then some target else none
  | .updateSwapByTag i tag subnet node =>
    if i = id then (PoolId.ofParts tag subnet node).toOption else none
  | _ => none

/-- The swaps that a call tries to execute, in this order. -/
def swapsExecuted (block : Block) (l : Ledger) : LedgerCall → List SwapId
  | .executeSwap id => [id]
  | .executeReadySwaps max => l.book.swaps.ready block max
  | _ => []

end LedgerCall

/-- The executions of a swap among the results of a batch. -/
def SwapResult.executions (id : SwapId) (results : List SwapResult) : List SwapOutcome :=
  results.filterMap fun r => if r.id = id then r.outcome else none

/-- The executions of a swap that the output of a call reports. -/
def LedgerCall.executions (id : SwapId) : LedgerCall → CallOutput → List SwapOutcome
  | .executeSwap i, .swap outcome => if i = id then [outcome] else []
  | .executeReadySwaps _, .swaps results => SwapResult.executions id results
  | _, _ => []

namespace Ledger

open Book Operation

variable {l l' m m' : Ledger} {block : Block} {id : SwapId} {s : QueuedSwap}
  {outcome : SwapOutcome} {ids : List SwapId}
  {results : List (SwapId × Except LedgerError SwapOutcome)}

/-! ## One execution -/

/-- Where the balance of an executed swap goes. -/
inductive Placed (block : Block) (s : QueuedSwap) (l : Ledger) : SwapOutcome → Ledger → Prop
  /-- The target pool takes the whole balance, and the owner the new shares. -/
  | deposited {shares : Shares} {l' : Ledger} (minted : shares ≠ 0)
      (balances : ∀ p, (l'.book.pool p).totalBalance.toNat =
        (l.book.pool p).totalBalance.toNat + if p = s.target then s.balance.toNat else 0)
      (holdings : ∀ who p, (l'.book.sharesOf who p).toNat = (l.book.sharesOf who p).toNat +
        if who = s.account ∧ p = s.target then shares.toNat else 0)
      (unbonding : l'.book.unbonding = l.book.unbonding) (registry : l'.registry = l.registry) :
      Placed block s l (.deposited shares) l'
  /-- The unbonding list of the owner takes the whole balance. What it releases is paid to the
  owner. -/
  | unbonded {released : Amount} {list : List Pending} {l' : Ledger}
      (entered : Unbonding.Entered l.book.unbonding s.account s.balance
        (block.satAdd l.registry.network.fallbackUnbondingPeriod) block released list)
      (unbonding : l'.book.unbonding =
        { l.book.unbonding with entries := l.book.unbonding.entries.insert s.account list })
      (registry : l'.registry = l.registry.pay s.account released)
      (delegate : l'.book.delegate = l.book.delegate)
      (nodeDelegate : l'.book.nodeDelegate = l.book.nodeDelegate) :
      Placed block s l (.unbonded (block.satAdd l.registry.network.fallbackUnbondingPeriod)) l'

/-- A swap that waits and is mature is placed and leaves the queue. -/
structure ExecutedAt (block : Block) (s : QueuedSwap) (outcome : SwapOutcome) (l l' : Ledger) :
    Prop where
  queued : l.book.swaps.get? s.id = some s
  matured : s.isMatured block = true
  placed : Placed block s l outcome l'
  gone : l'.book.swaps.get? s.id = none

/-- **An executed swap is placed whole.** -/
theorem SwapEffect.placed (hv : l.book.Valid) (h : SwapEffect block id l outcome l')
    (hs : l.book.swaps.get? id = some s) :
    s.isMatured block = true ∧ Placed block s l outcome l' := by
  cases h with
  | deposited matured active deposit =>
    obtain ⟨hget, hmatured⟩ := SwapQueue.checkMatured_eq_ok_iff.mp matured
    obtain rfl := Option.some.inj (hs.symm.trans hget)
    have hdropped : ({ l.book with swaps := l.book.swaps.remove id } : Book).Valid :=
      ⟨hv.delegate, hv.nodeDelegate, hv.swaps.remove id⟩
    refine ⟨hmatured, .deposited (shares_ne_zero_of_deposit deposit) (fun p => ?_)
      (fun who p => ?_) (PoolMove.of_deposit deposit).unbonding_eq rfl⟩
    · rw [totalBalance_deposit deposit]
      cases p <;> rfl
    · rw [hdropped.sharesOf_deposit deposit]
      cases p <;> rfl
  | unbonded matured _ enter =>
    obtain ⟨hget, hmatured⟩ := SwapQueue.checkMatured_eq_ok_iff.mp matured
    obtain rfl := Option.some.inj (hs.symm.trans hget)
    obtain ⟨-, list, hentered, rfl⟩ := Unbonding.enqueue_eq_ok_iff.mp enter
    exact ⟨hmatured, .unbonded hentered rfl rfl rfl rfl⟩

theorem SwapEffect.executedAt (hv : l.book.Valid) (h : SwapEffect block id l outcome l')
    (hs : l.book.swaps.get? id = some s) : ExecutedAt block s outcome l l' := by
  obtain ⟨hmatured, hplaced⟩ := h.placed hv hs
  have hid := (hv.swaps.waits id s hs).id_eq
  refine ⟨hid ▸ hs, hmatured, hplaced, ?_⟩
  rw [h.swaps_eq, hid, SwapQueue.get?_remove, if_pos rfl]

/-- Only a swap that waits is executed. -/
theorem SwapEffect.queued (h : SwapEffect block id l outcome l') :
    ∃ s, l.book.swaps.get? id = some s := by
  cases h with
  | deposited matured => exact ⟨_, (SwapQueue.checkMatured_eq_ok_iff.mp matured).1⟩
  | unbonded matured => exact ⟨_, (SwapQueue.checkMatured_eq_ok_iff.mp matured).1⟩

/-- An execution leaves all other swaps as they are. -/
theorem SwapEffect.get?_of_ne {i : SwapId} (h : SwapEffect block id l outcome l') (hne : i ≠ id) :
    l'.book.swaps.get? i = l.book.swaps.get? i := by
  rw [h.swaps_eq, SwapQueue.get?_remove, if_neg hne]

theorem SwapEffect.nextId_eq (h : SwapEffect block id l outcome l') :
    l'.book.swaps.nextId = l.book.swaps.nextId := by
  rw [h.swaps_eq, SwapQueue.nextId_remove]

/-! ## A batch -/

/-- The execution of a swap among those that a call makes one after the other. -/
def Executes (block : Block) (ids : List SwapId) (l : Ledger) (s : QueuedSwap)
    (outcome : SwapOutcome) (l' : Ledger) : Prop :=
  ∃ before after m, ids = before ++ s.id :: after ∧
    ExecutedAt block s outcome (executeAll block before l) m ∧ executeAll block after m = l'

theorem executeAll_cons_of_perform {r : Except LedgerError SwapOutcome}
    (h : (executeSwap id block).perform l = (r, m)) (ids : List SwapId) :
    executeAll block (id :: ids) l = executeAll block ids m := by
  unfold executeAll
  rw [List.foldl_cons, h]

theorem Executes.cons {r : Except LedgerError SwapOutcome}
    (h : (executeSwap id block).perform l = (r, m)) (hx : Executes block ids m s outcome l') :
    Executes block (id :: ids) l s outcome l' := by
  obtain ⟨before, after, n, rfl, hexec, hrest⟩ := hx
  refine ⟨id :: before, after, n, rfl, ?_, hrest⟩
  rw [executeAll_cons_of_perform h]
  exact hexec

/-- The reports on a batch. -/
abbrev reportsOf (results : List (SwapId × Except LedgerError SwapOutcome)) : List SwapResult :=
  results.map fun r => SwapResult.of r.1 r.2

theorem executions_cons (i id : SwapId) (r : Except LedgerError SwapOutcome)
    (results : List (SwapId × Except LedgerError SwapOutcome)) :
    SwapResult.executions id (reportsOf ((i, r) :: results)) =
      (if i = id then r.toOption.toList else []) ++ SwapResult.executions id (reportsOf results) := by
  unfold SwapResult.executions reportsOf
  rw [List.map_cons, List.filterMap_cons]
  by_cases hi : i = id <;> cases r <;> simp [SwapResult.of, hi, Except.toOption]

theorem BatchEffect.executeAll_eq (h : BatchEffect block l ids results l') :
    executeAll block ids l = l' := by
  induction h with
  | nil => rfl
  | ok perform _ _ ih => rw [executeAll_cons_of_perform perform, ih]
  | failed perform _ ih => rw [executeAll_cons_of_perform perform, ih]

theorem BatchEffect.outcomes_eq (h : BatchEffect block l ids results l') :
    outcomes block ids l = results := by
  induction h with
  | nil => rfl
  | ok perform _ _ ih =>
    unfold outcomes
    rw [perform, ih]
  | failed perform _ ih =>
    unfold outcomes
    rw [perform, ih]

/-- A batch does not execute what is not queued. -/
theorem BatchEffect.get?_of_none (h : BatchEffect block l ids results l')
    (hid : l.book.swaps.get? id = none) :
    l'.book.swaps.get? id = none ∧ SwapResult.executions id (reportsOf results) = [] := by
  induction h with
  | nil => exact ⟨hid, rfl⟩
  | @ok _ _ _ i _ _ _ _ effect _ ih =>
    obtain ⟨s, hs⟩ := effect.queued
    have hne : id ≠ i := fun he => by rw [he, hs] at hid; cases hid
    obtain ⟨hnone, hexec⟩ := ih ((effect.get?_of_ne hne).trans hid)
    rw [executions_cons, if_neg hne.symm, hexec]
    exact ⟨hnone, rfl⟩
  | @failed _ _ i _ _ _ _ _ ih =>
    obtain ⟨hnone, hexec⟩ := ih hid
    rw [executions_cons, hexec]
    refine ⟨hnone, ?_⟩
    split <;> rfl

/-- **A batch executes a queued swap once, or leaves it as it is.** -/
theorem BatchEffect.executes_or_waits (hv : l.book.Valid) (h : BatchEffect block l ids results l')
    (hs : l.book.swaps.get? id = some s) :
    (l'.book.swaps.get? id = some s ∧ SwapResult.executions id (reportsOf results) = []) ∨
      ∃ outcome, Executes block ids l s outcome l' ∧ l'.book.swaps.get? id = none ∧
        SwapResult.executions id (reportsOf results) = [outcome] := by
  induction h with
  | nil => exact .inl ⟨hs, rfl⟩
  | @ok l _ _ i ids outcome results perform effect rest ih =>
    rw [executions_cons]
    by_cases hi : i = id
    · subst hi
      have hexec := effect.executedAt hv hs
      have hid := (hv.swaps.waits i s hs).id_eq
      obtain ⟨hnone, hrest⟩ := rest.get?_of_none (hid ▸ hexec.gone)
      rw [if_pos rfl, hrest]
      exact .inr ⟨outcome, ⟨[], ids, _, by rw [hid]; rfl, hexec, rest.executeAll_eq⟩, hnone, rfl⟩
    · rw [if_neg hi, List.nil_append]
      have hkept := (effect.get?_of_ne (Ne.symm hi)).trans hs
      rcases ih (effect.valid hv) hkept with hwaits | ⟨outcome, hx, hnone, hexec⟩
      · exact .inl hwaits
      · exact .inr ⟨outcome, hx.cons perform, hnone, hexec⟩
  | @failed _ _ i _ _ _ perform _ ih =>
    have hnothing : ∀ e : LedgerError,
        (if i = id then (Except.error e : Except _ SwapOutcome).toOption.toList else []) = [] := by
      intro e
      split <;> rfl
    rw [executions_cons, hnothing, List.nil_append]
    rcases ih hv hs with hwaits | ⟨outcome, hx, hnone, hexec⟩
    · exact .inl hwaits
    · exact .inr ⟨outcome, hx.cons perform, hnone, hexec⟩

theorem BatchEffect.nextId_eq (h : BatchEffect block l ids results l') :
    l'.book.swaps.nextId = l.book.swaps.nextId := by
  induction h with
  | nil => rfl
  | ok _ effect _ ih => rw [ih, effect.nextId_eq]
  | failed _ _ ih => exact ih

/-! ## An accepted call -/

variable {call : LedgerCall} {signer : Option AccountId} {output : CallOutput}

/-- The fate of a queued swap in an accepted call. -/
inductive Fate (block : Block) (call : LedgerCall) (signer : Option AccountId)
    (output : CallOutput) (s : QueuedSwap) (l l' : Ledger) : Prop
  | waits (kept : l'.book.swaps.get? s.id = some s) (target : call.retargets s.id = none)
      (executions : call.executions s.id output = [])
  /-- Its owner gives it another target in time. -/
  | retargeted {target : PoolId} {bounds : SubnetParams} (owner : signer = some s.account)
      (early : s.isMatured block = false) (active : l.registry.activePool target = .ok bounds)
      (kept : l'.book.swaps.get? s.id = some { s with target })
      (target : call.retargets s.id = some target)
      (executions : call.executions s.id output = [])
  | executed {outcome : SwapOutcome}
      (executes : Executes block (call.swapsExecuted block l) l s outcome l')
      (gone : l'.book.swaps.get? s.id = none) (target : call.retargets s.id = none)
      (executions : call.executions s.id output = [outcome])

/-- What an update of the queue does to a swap. -/
theorem fate_of_update {who : AccountId} {i : SwapId} {target : PoolId} {bounds : SubnetParams}
    {swaps : SwapQueue} (hs : l.book.swaps.get? s.id = some s)
    (active : l.registry.activePool target = .ok bounds)
    (update : l.book.swaps.update i who target block = .ok swaps)
    (hcall : call.retargets s.id = if i = s.id then some target else none)
    (hexec : call.executions s.id output = []) :
    Fate block call (some who) output s l ⟨{ l.book with swaps }, l.registry⟩ := by
  have hget := SwapQueue.get?_update update s.id
  by_cases hi : i = s.id
  · obtain ⟨e, hcheck, -⟩ := SwapQueue.update_eq_ok_iff.mp update
    obtain ⟨he, hwho, hearly⟩ := SwapQueue.checkUpdate_eq_ok_iff.mp hcheck
    rw [hi] at he
    obtain rfl := Option.some.inj (hs.symm.trans he)
    rw [if_pos hi] at hcall
    rw [if_pos hi.symm, hi, hs] at hget
    exact .retargeted (congrArg some hwho.symm) hearly active hget hcall hexec
  · rw [if_neg hi] at hcall
    rw [if_neg (Ne.symm hi), hs] at hget
    exact .waits hget hcall hexec

/-- **The fate of a queued swap in an accepted call.** -/
theorem Effect.fate (hv : l.book.Valid) (h : Effect block l call signer output l')
    (hs : l.book.swaps.get? s.id = some s) : Fate block call signer output s l l' := by
  have hkept := h.swaps_eq
  cases h with
  | swap _ _ queue =>
    have hlt := hv.swaps.lt_nextId _ s hs
    exact .waits ((SwapQueue.get?_enqueue_of_lt queue hlt).trans hs) rfl rfl
  | updateSwap active update => exact fate_of_update hs active update rfl rfl
  | updateSwapByTag parts active update =>
    refine fate_of_update hs active update ?_ rfl
    simp only [LedgerCall.retargets, parts, Except.toOption]
  | @executeSwap _ i outcome _ effect =>
    by_cases hi : i = s.id
    · subst hi
      have hexec := effect.executedAt hv hs
      exact .executed ⟨[], [], l', rfl, hexec, rfl⟩ hexec.gone rfl (if_pos rfl)
    · exact .waits ((effect.get?_of_ne (Ne.symm hi)).trans hs) rfl (if_neg hi)
  | executeReadySwaps batch =>
    rcases batch.executes_or_waits hv hs with ⟨hwaits, hexec⟩ | ⟨outcome, hx, hgone, hexec⟩
    · exact .waits hwaits rfl hexec
    · exact .executed hx hgone rfl hexec
  | addStake | removeStake | delegate | undelegate | burn | transfer | claimUnbondings
  | commitWeights | revealWeights | pruneOverwatch | distribute =>
    exact .waits (hkept rfl ▸ hs) rfl rfl

/-- Numbers are given out in order. -/
theorem Effect.nextId_le (h : Effect block l call signer output l') :
    l.book.swaps.nextId ≤ l'.book.swaps.nextId := by
  have hkept := h.swaps_eq
  cases h with
  | swap _ _ queue => exact Nat.le_of_lt (SwapQueue.nextId_enqueue queue).2
  | updateSwap _ update => exact Nat.le_of_eq (congrArg _ (SwapQueue.nextId_update update).symm)
  | updateSwapByTag _ _ update =>
    exact Nat.le_of_eq (congrArg _ (SwapQueue.nextId_update update).symm)
  | executeSwap effect => exact Nat.le_of_eq (congrArg _ effect.nextId_eq.symm)
  | executeReadySwaps batch => exact Nat.le_of_eq (congrArg _ batch.nextId_eq.symm)
  | addStake | removeStake | delegate | undelegate | burn | transfer | claimUnbondings
  | commitWeights | revealWeights | pruneOverwatch | distribute =>
    exact hkept rfl ▸ Nat.le_refl _

/-- A swap that is not queued is not the one that an update is about. -/
theorem ne_of_update {q q' : SwapQueue} {who : AccountId} {i : SwapId} {target : PoolId}
    (update : q.update i who target block = .ok q') (hid : q.get? id = none) : i ≠ id := by
  intro he
  obtain ⟨s, hs⟩ := SwapQueue.queued_of_update update
  rw [he, hid] at hs
  cases hs

/-- **What is no longer queued is not executed, gets no target, and does not come back.** -/
theorem Effect.get?_of_gone (h : Effect block l call signer output l')
    (hid : l.book.swaps.get? id = none) (hlt : id < l.book.swaps.nextId) :
    l'.book.swaps.get? id = none ∧ call.executions id output = [] ∧ call.retargets id = none := by
  have hkept := h.swaps_eq
  cases h with
  | swap _ _ queue => exact ⟨(SwapQueue.get?_enqueue_of_lt queue hlt).trans hid, rfl, rfl⟩
  | updateSwap _ update =>
    exact ⟨SwapQueue.get?_update_of_none update hid, rfl, if_neg (ne_of_update update hid)⟩
  | updateSwapByTag _ _ update =>
    exact ⟨SwapQueue.get?_update_of_none update hid, rfl, if_neg (ne_of_update update hid)⟩
  | @executeSwap _ i _ _ effect =>
    obtain ⟨s, hs⟩ := effect.queued
    have hne : id ≠ i := fun he => by rw [he, hs] at hid; cases hid
    exact ⟨(effect.get?_of_ne hne).trans hid, if_neg hne.symm, rfl⟩
  | executeReadySwaps batch =>
    obtain ⟨hnone, hexec⟩ := batch.get?_of_none hid
    exact ⟨hnone, hexec, rfl⟩
  | addStake | removeStake | delegate | undelegate | burn | transfer | claimUnbondings
  | commitWeights | revealWeights | pruneOverwatch | distribute =>
    exact ⟨hkept rfl ▸ hid, rfl, rfl⟩

end Ledger

end Stakebook
