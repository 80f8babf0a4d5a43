import Stakebook.Proofs.Ledger.Runs

/-!
# What a call leaves as it is

Only calls on direct stake change the stakes, only calls on swaps change the queue, only overwatch
calls change the overwatch records, and of the registry no call changes more than free balances.

Headlines:
* **`Effect.stakes_eq`**, **`Effect.swaps_eq`**, **`Effect.overwatch_eq`**: the components that a call
  does not concern.
* **`Effect.stakes_cases`**: what a call can do to the stakes.
* **`Effect.registry_eq`**: a call changes free balances and nothing else of the registry.
* **`network_run`**: the parameters of the network never change.
* **`capacity_run`**: nor does the capacity of the unbonding lists.
-/

namespace Stakebook

namespace LedgerCall

/-- Whether a call may change direct stakes. -/
def changesStakes : LedgerCall → Bool
  | .addStake .. | .removeStake .. => true
  | _ => false

/-- Whether a call may change the queue. -/
def changesQueue : LedgerCall → Bool
  | .swap .. | .updateSwap .. | .updateSwapByTag .. | .executeSwap _ | .executeReadySwaps _ => true
  | _ => false

/-- Whether a call may change the overwatch records. -/
def changesOverwatch : LedgerCall → Bool
  | .commitWeights .. | .revealWeights .. | .pruneOverwatch => true
  | _ => false

/-- Whether a call is about what its signer has, in one pool at most. -/
def isLocal : LedgerCall → Bool
  | .addStake .. | .removeStake .. | .delegate .. | .undelegate .. | .transfer ..
  | .claimUnbondings => true
  | _ => false

/-- The pool that a local call is about. -/
def pool? : LedgerCall → Option PoolId
  | .delegate pool _ | .undelegate pool _ | .transfer pool _ _ => some pool
  | _ => none

variable {call : LedgerCall}

theorem changesQueue_of_isLocal (h : call.isLocal = true) : call.changesQueue = false := by
  cases call <;> first | rfl | cases h

theorem changesOverwatch_of_isLocal (h : call.isLocal = true) : call.changesOverwatch = false := by
  cases call <;> first | rfl | cases h

end LedgerCall

namespace Ledger

open Book

variable {l l' : Ledger} {block : Block} {id : SwapId} {outcome : SwapOutcome} {ids : List SwapId}
  {results : List (SwapId × Except LedgerError SwapOutcome)} {call : LedgerCall}
  {signer : Option AccountId} {output : CallOutput}

/-! ## Direct stakes -/

theorem SwapEffect.stakes_eq (h : SwapEffect block id l outcome l') :
    l'.book.stakes = l.book.stakes := by
  cases h with
  | deposited _ _ deposit => exact (PoolMove.of_deposit deposit).stakes_eq
  | unbonded => rfl

theorem BatchEffect.stakes_eq (h : BatchEffect block l ids results l') :
    l'.book.stakes = l.book.stakes := by
  induction h with
  | nil => rfl
  | ok _ effect _ ih => rw [ih, effect.stakes_eq]
  | failed _ _ ih => exact ih

/-- **Only calls on direct stake change the stakes.** -/
theorem Effect.stakes_eq (h : Effect block l call signer output l')
    (hcall : call.changesStakes = false) : l'.book.stakes = l.book.stakes := by
  cases h with
  | delegate _ _ deposit => exact (PoolMove.of_deposit deposit).stakes_eq
  | undelegate withdraw => exact (PoolMove.of_withdraw withdraw).stakes_eq
  | burn withdraw => exact (PoolMove.of_withdraw withdraw).stakes_eq
  | swap _ withdraw => exact (PoolMove.of_withdraw withdraw).stakes_eq
  | transfer transfer => exact (PoolMove.of_transfer transfer).stakes_eq
  | distribute _ distribute => exact (PoolMove.of_distribute distribute).stakes_eq
  | executeSwap effect => exact effect.stakes_eq
  | executeReadySwaps batch => exact batch.stakes_eq
  | addStake | removeStake => cases hcall
  | updateSwap | updateSwapByTag | claimUnbondings | commitWeights | revealWeights
  | pruneOverwatch => rfl

/-- **What an accepted call does to the stakes**: nothing, an addition or a removal. -/
theorem Effect.stakes_cases (h : Effect block l call signer output l') :
    l'.book.stakes = l.book.stakes ∨
      (∃ who subnet amount bounds balance,
        l.book.stakes.add who subnet amount bounds = .ok (balance, l'.book.stakes)) ∨
      ∃ who subnet amount bounds balance,
        l.book.stakes.remove who subnet amount bounds = .ok (balance, l'.book.stakes) := by
  by_cases hcall : call.changesStakes = true
  · cases h with
    | addStake _ _ add => exact .inr (.inl ⟨_, _, _, _, _, add⟩)
    | removeStake remove => exact .inr (.inr ⟨_, _, _, _, _, remove⟩)
    | delegate | undelegate | burn | swap | transfer | updateSwap | updateSwapByTag | executeSwap
    | executeReadySwaps | claimUnbondings | commitWeights | revealWeights | pruneOverwatch
    | distribute => cases hcall
  · exact .inl (h.stakes_eq (Bool.not_eq_true _ ▸ hcall))

/-! ## The queue -/

theorem SwapEffect.swaps_eq (h : SwapEffect block id l outcome l') :
    l'.book.swaps = l.book.swaps.remove id := by
  cases h with
  | deposited _ _ deposit => exact (PoolMove.of_deposit deposit).swaps_eq
  | unbonded => rfl

/-- **Only calls on swaps change the queue.** -/
theorem Effect.swaps_eq (h : Effect block l call signer output l')
    (hcall : call.changesQueue = false) : l'.book.swaps = l.book.swaps := by
  cases h with
  | delegate _ _ deposit => exact (PoolMove.of_deposit deposit).swaps_eq
  | undelegate withdraw => exact (PoolMove.of_withdraw withdraw).swaps_eq
  | burn withdraw => exact (PoolMove.of_withdraw withdraw).swaps_eq
  | transfer transfer => exact (PoolMove.of_transfer transfer).swaps_eq
  | distribute _ distribute => exact (PoolMove.of_distribute distribute).swaps_eq
  | swap | updateSwap | updateSwapByTag | executeSwap | executeReadySwaps => cases hcall
  | addStake | removeStake | claimUnbondings | commitWeights | revealWeights | pruneOverwatch => rfl

/-! ## The overwatch records -/

theorem SwapEffect.overwatch_eq (h : SwapEffect block id l outcome l') :
    l'.book.overwatch = l.book.overwatch := by
  cases h with
  | deposited _ _ deposit => exact (PoolMove.of_deposit deposit).overwatch_eq
  | unbonded => rfl

theorem BatchEffect.overwatch_eq (h : BatchEffect block l ids results l') :
    l'.book.overwatch = l.book.overwatch := by
  induction h with
  | nil => rfl
  | ok _ effect _ ih => rw [ih, effect.overwatch_eq]
  | failed _ _ ih => exact ih

/-- **Only overwatch calls change the overwatch records.** -/
theorem Effect.overwatch_eq (h : Effect block l call signer output l')
    (hcall : call.changesOverwatch = false) : l'.book.overwatch = l.book.overwatch := by
  cases h with
  | delegate _ _ deposit => exact (PoolMove.of_deposit deposit).overwatch_eq
  | undelegate withdraw => exact (PoolMove.of_withdraw withdraw).overwatch_eq
  | burn withdraw => exact (PoolMove.of_withdraw withdraw).overwatch_eq
  | swap _ withdraw => exact (PoolMove.of_withdraw withdraw).overwatch_eq
  | transfer transfer => exact (PoolMove.of_transfer transfer).overwatch_eq
  | distribute _ distribute => exact (PoolMove.of_distribute distribute).overwatch_eq
  | executeSwap effect => exact effect.overwatch_eq
  | executeReadySwaps batch => exact batch.overwatch_eq
  | commitWeights | revealWeights | pruneOverwatch => cases hcall
  | addStake | removeStake | updateSwap | updateSwapByTag | claimUnbondings => rfl

/-! ## The registry -/

/-- The registries differ in free balances at most. -/
def SameRegistry (l l' : Ledger) : Prop :=
  l'.registry = { l.registry with accounts := l'.registry.accounts }

theorem SameRegistry.trans {m : Ledger} (h : SameRegistry l m) (h' : SameRegistry m l') :
    SameRegistry l l' := by
  unfold SameRegistry at h h' ⊢
  rw [h', h]

theorem SwapEffect.registry_eq (h : SwapEffect block id l outcome l') : SameRegistry l l' := by
  cases h with
  | deposited => rfl
  | unbonded => exact Registry.pay_frame ..

theorem BatchEffect.registry_eq (h : BatchEffect block l ids results l') : SameRegistry l l' := by
  induction h with
  | nil => rfl
  | ok _ effect _ ih => exact effect.registry_eq.trans ih
  | failed _ _ ih => exact ih

/-- **A call changes free balances and nothing else of the registry.** -/
theorem Effect.registry_eq (h : Effect block l call signer output l') : SameRegistry l l' := by
  cases h with
  | addStake _ debit => exact Registry.debit_frame debit
  | delegate _ debit => exact Registry.debit_frame debit
  | removeStake | undelegate | claimUnbondings => exact Registry.pay_frame ..
  | executeSwap effect => exact effect.registry_eq
  | executeReadySwaps batch => exact batch.registry_eq
  | burn | swap | transfer | updateSwap | updateSwapByTag | commitWeights | revealWeights
  | pruneOverwatch | distribute => rfl

theorem network_apply (t : Transaction) (block : Block) (l : Ledger) :
    (t.apply block l).2.registry.network = l.registry.network := by
  rcases t.effect_of_apply block l with ⟨_, _, -, -, h⟩ | ⟨e, h⟩
  · rw [h.registry_eq]
  · rw [h]

theorem network_step (l : Ledger) (e : Event) :
    (l.step e).registry.network = l.registry.network := by
  cases e with
  | transaction t block => exact network_apply t block l
  | administration a =>
    cases a with
    | debit who amount =>
      unfold step Administration.apply
      simp only
      split
      · next r hdebit => rw [Registry.debit_frame hdebit]
      · rfl
    | setBalance | credit | registerSubnet | deactivateSubnet | registerNode | deactivateNode
    | registerWatcher => rfl

/-- **The parameters of the network never change.** -/
theorem network_run (l : Ledger) (events : List Event) :
    (l.run events).registry.network = l.registry.network := by
  induction events generalizing l with
  | nil => rfl
  | cons e events ih => rw [run_cons, ih, network_step]

/-! ## The capacity of the unbonding lists -/

theorem SwapEffect.capacity_eq (h : SwapEffect block id l outcome l') :
    l'.book.unbonding.capacity = l.book.unbonding.capacity := by
  cases h with
  | deposited _ _ deposit => rw [(PoolMove.of_deposit deposit).unbonding_eq]
  | unbonded _ _ enter => exact Unbonding.capacity_enqueue enter

theorem BatchEffect.capacity_eq (h : BatchEffect block l ids results l') :
    l'.book.unbonding.capacity = l.book.unbonding.capacity := by
  induction h with
  | nil => rfl
  | ok _ effect _ ih => rw [ih, effect.capacity_eq]
  | failed _ _ ih => exact ih

/-- **No call changes the capacity.** -/
theorem Effect.capacity_eq (h : Effect block l call signer output l') :
    l'.book.unbonding.capacity = l.book.unbonding.capacity := by
  cases h with
  | delegate _ _ deposit => rw [(PoolMove.of_deposit deposit).unbonding_eq]
  | burn withdraw => rw [(PoolMove.of_withdraw withdraw).unbonding_eq]
  | swap _ withdraw => rw [← (PoolMove.of_withdraw withdraw).unbonding_eq]
  | transfer transfer => rw [(PoolMove.of_transfer transfer).unbonding_eq]
  | distribute _ distribute => rw [(PoolMove.of_distribute distribute).unbonding_eq]
  | removeStake _ _ enter => exact Unbonding.capacity_enqueue enter
  | undelegate _ _ _ enter => exact Unbonding.capacity_enqueue enter
  | claimUnbondings claim => exact Unbonding.capacity_claim claim
  | executeSwap effect => exact effect.capacity_eq
  | executeReadySwaps batch => exact batch.capacity_eq
  | addStake | updateSwap | updateSwapByTag | commitWeights | revealWeights | pruneOverwatch => rfl

theorem capacity_step (l : Ledger) (e : Event) :
    (l.step e).book.unbonding.capacity = l.book.unbonding.capacity := by
  rcases l.step_cases e with ⟨_, _, _, _, -, -, -, heffect⟩ | ⟨hbook, -⟩
  · exact heffect.capacity_eq
  · rw [hbook]

/-- **The capacity of the unbonding lists never changes.** -/
theorem capacity_run (l : Ledger) (events : List Event) :
    (l.run events).book.unbonding.capacity = l.book.unbonding.capacity := by
  induction events generalizing l with
  | nil => rfl
  | cons e events ih => rw [run_cons, ih, capacity_step]

end Ledger

end Stakebook
