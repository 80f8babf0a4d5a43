import Stakebook.Proofs.Ledger.Runs

/-!
# Value is conserved

`Ledger.value` adds up everything that accounts own: free balances, direct stakes, the balances of
the pools, what waits in the unbonding lists, and what waits in the queue of swaps.

Headlines:
* **`Effect.value`**: an accepted call adds its reward, if it distributes one, and changes nothing
  else, as long as the value stays in range. Then no credit and no release is cut short either.
* **`value_run`**: after each event of a run the value is the first one and the rewards so far.
-/

namespace Stakebook

/-- What an accepted call adds from outside. -/
def LedgerCall.reward : LedgerCall → Nat
  | .distribute _ amount => amount.toNat
  | _ => 0

namespace Ledger

open Book

/-- Everything that accounts own. -/
def value (l : Ledger) : Nat :=
  l.registry.totalFree + l.book.stakes.totalStaked + l.book.pooled + l.book.unbonding.waiting +
    l.book.swaps.queued

variable {l l' : Ledger} {block : Block}

/-! ## One call -/

/-- **An executed swap changes nothing**: its balance moves into a pool, or waits in the list of its
owner, which pays out what it releases. -/
theorem SwapEffect.value {id : SwapId} {outcome : SwapOutcome} (hv : l.book.Valid)
    (h : SwapEffect block id l outcome l') (hfit : l.value < 2 ^ 128) : l'.value = l.value := by
  unfold Ledger.value at hfit ⊢
  cases h with
  | @deposited swap _ _ _ matured _ deposit =>
    obtain ⟨hswap, -⟩ := SwapQueue.checkMatured_eq_ok_iff.mp matured
    have hqueued := SwapQueue.queued_remove hswap
    have hdropped : ({ l.book with swaps := l.book.swaps.remove id } : Book).Valid :=
      ⟨hv.delegate, hv.nodeDelegate, hv.swaps.remove id⟩
    have hpooled := hdropped.pooled_deposit deposit
    have hmove := PoolMove.of_deposit deposit
    rw [hmove.stakes_eq, hmove.unbonding_eq, hmove.swaps_eq, hpooled]
    show _ + (l.book.pooled + _) + _ + _ = _
    simp only
    omega
  | @unbonded swap _ _ _ matured _ enter =>
    obtain ⟨hswap, -⟩ := SwapQueue.checkMatured_eq_ok_iff.mp matured
    have hqueued := SwapQueue.queued_remove hswap
    have hwaiting := Unbonding.waiting_enqueue enter (by omega)
    rw [Registry.totalFree_pay (by omega)]
    show _ + _ + l.book.pooled + _ + _ = _
    simp only
    omega

theorem BatchEffect.value {ids : List SwapId}
    {results : List (SwapId × Except LedgerError SwapOutcome)} (hv : l.book.Valid)
    (h : BatchEffect block l ids results l') (hfit : l.value < 2 ^ 128) : l'.value = l.value := by
  induction h with
  | nil => rfl
  | ok _ effect _ ih =>
    have heq := effect.value hv hfit
    rw [ih (effect.valid hv) (by rw [heq]; exact hfit), heq]
  | failed _ _ ih => exact ih hv hfit

/-- **An accepted call adds its reward and changes nothing else.** -/
theorem Effect.value {call : LedgerCall} {signer : Option AccountId} {output : CallOutput}
    (hv : l.book.Valid) (h : Effect block l call signer output l')
    (hfit : l.value + call.reward < 2 ^ 128) : l'.value = l.value + call.reward := by
  cases h with
  | addStake _ debit add =>
    have hfree := Registry.totalFree_debit debit
    have hstaked := Stakes.totalStaked_add add
    unfold Ledger.value
    simp only [LedgerCall.reward]
    show _ + _ + l.book.pooled + _ + _ = _
    omega
  | removeStake remove _ enter =>
    unfold Ledger.value at hfit ⊢
    simp only [LedgerCall.reward] at hfit ⊢
    have hstaked := Stakes.totalStaked_remove remove
    have hwaiting := Unbonding.waiting_enqueue enter (by omega)
    rw [Registry.totalFree_pay (by omega)]
    show _ + _ + l.book.pooled + _ + _ = _
    omega
  | delegate _ debit deposit =>
    have hfree := Registry.totalFree_debit debit
    have hpooled := hv.pooled_deposit deposit
    have hmove := PoolMove.of_deposit deposit
    unfold Ledger.value
    simp only [LedgerCall.reward]
    rw [hmove.stakes_eq, hmove.unbonding_eq, hmove.swaps_eq]
    omega
  | @undelegate _ _ _ _ _ _ book _ withdraw _ _ enter =>
    unfold Ledger.value at hfit ⊢
    simp only [LedgerCall.reward] at hfit ⊢
    have hpooled := hv.pooled_withdraw withdraw
    have hwaiting := Unbonding.waiting_enqueue enter (by omega)
    have hmove := PoolMove.of_withdraw withdraw
    rw [Registry.totalFree_pay (by omega), hmove.stakes_eq, hmove.swaps_eq]
    show _ + _ + book.pooled + _ + _ = _
    omega
  | burn withdraw =>
    have hpooled := hv.pooled_withdraw withdraw
    rw [Word.toNat_zero] at hpooled
    have hmove := PoolMove.of_withdraw withdraw
    unfold Ledger.value
    simp only [LedgerCall.reward]
    rw [hmove.stakes_eq, hmove.unbonding_eq, hmove.swaps_eq]
    omega
  | @swap _ _ _ _ _ _ _ book _ _ withdraw queue =>
    have hpooled := hv.pooled_withdraw withdraw
    have hqueued := SwapQueue.queued_enqueue hv.swaps queue
    have hmove := PoolMove.of_withdraw withdraw
    unfold Ledger.value
    simp only [LedgerCall.reward]
    rw [hmove.stakes_eq, hmove.unbonding_eq]
    show _ + _ + book.pooled + _ + _ = _
    omega
  | transfer transfer =>
    have hpooled := pooled_transfer transfer
    have hmove := PoolMove.of_transfer transfer
    unfold Ledger.value
    simp only [LedgerCall.reward]
    rw [hmove.stakes_eq, hmove.unbonding_eq, hmove.swaps_eq, hpooled]
    rfl
  | updateSwap _ update =>
    unfold Ledger.value
    simp only
    rw [SwapQueue.queued_update update]
    rfl
  | updateSwapByTag _ _ update =>
    unfold Ledger.value
    simp only
    rw [SwapQueue.queued_update update]
    rfl
  | executeSwap effect => exact effect.value hv hfit
  | executeReadySwaps batch => exact batch.value hv hfit
  | claimUnbondings claim =>
    unfold Ledger.value at hfit ⊢
    simp only [LedgerCall.reward] at hfit ⊢
    have hwaiting := Unbonding.waiting_claim claim (by omega)
    rw [Registry.totalFree_pay (by omega)]
    show _ + _ + l.book.pooled + _ + _ = _
    omega
  | commitWeights | revealWeights | pruneOverwatch => rfl
  | distribute _ distribute =>
    have hpooled := hv.pooled_distribute distribute
    have hmove := PoolMove.of_distribute distribute
    unfold Ledger.value
    simp only [LedgerCall.reward]
    rw [hmove.stakes_eq, hmove.unbonding_eq, hmove.swaps_eq]
    omega

/-! ## Runs -/

/-- What an event adds from outside: the reward of a call that is accepted. -/
def reward (l : Ledger) : Event → Nat
  | .transaction t block => if (t.apply block l).1.success then t.call.reward else 0
  | .administration _ => 0

theorem reward_transaction (l : Ledger) (t : Transaction) (block : Block) :
    l.reward (.transaction t block) =
      if (t.apply block l).1.success then t.call.reward else 0 := rfl

/-- What the events of a run add from outside. -/
def rewards (l : Ledger) : List Event → Nat
  | [] => 0
  | e :: events => l.reward e + (l.step e).rewards events

/-- The first events of a run add no more than all of them. -/
theorem rewards_take_le (l : Ledger) (events : List Event) (n : Nat) :
    l.rewards (events.take n) ≤ l.rewards events := by
  induction events generalizing l n with
  | nil => exact Nat.le_of_eq (congrArg l.rewards List.take_nil)
  | cons e events ih =>
    cases n with
    | zero => exact Nat.zero_le _
    | succ n => exact Nat.add_le_add_left (ih (l.step e) n) _

/-- **An event adds its reward and changes nothing else.** -/
theorem value_step (hv : l.book.Valid) {e : Event}
    (hadmin : ∀ a, e = .administration a → a.setsBalances = false)
    (hfit : l.value + l.reward e < 2 ^ 128) : (l.step e).value = l.value + l.reward e := by
  cases e with
  | administration a =>
    show Registry.totalFree (a.apply l.registry) + _ + _ + _ + _ = l.value
    unfold Registry.totalFree
    rw [Administration.accounts_apply (hadmin a rfl)]
    rfl
  | transaction t block =>
    rw [reward_transaction] at hfit ⊢
    show (t.apply block l).2.value = _
    rcases t.effect_of_apply block l with ⟨_, _, -, hreport, heffect⟩ | ⟨e, hrefused⟩
    · rw [hreport] at hfit ⊢
      exact heffect.value hv hfit
    · rw [hrefused]
      rfl

theorem value_run_of_valid (hv : l.book.Valid) {events : List Event}
    (hadmin : ∀ a, .administration a ∈ events → a.setsBalances = false)
    (hfit : l.value + l.rewards events < 2 ^ 128) :
    (l.run events).value = l.value + l.rewards events := by
  induction events generalizing l with
  | nil => rfl
  | cons e events ih =>
    unfold rewards at hfit ⊢
    have hstep := value_step hv (e := e)
      (fun a ha => hadmin a (ha ▸ List.mem_cons_self)) (by omega)
    rw [run_cons, ih (valid_step hv e) (fun a ha => hadmin a (List.mem_cons_of_mem e ha))
      (by rw [hstep]; omega), hstep]
    omega

/-- **Value is conserved over whole runs**: if the value at the start and all rewards of the run are
in range together, then after each event the value is that of the start and the rewards so far. -/
theorem value_run (registry : Registry) (events : List Event)
    (hadmin : ∀ a, .administration a ∈ events → a.setsBalances = false)
    (hfit : (new registry).value + (new registry).rewards events < 2 ^ 128) (n : Nat) :
    ((new registry).run (events.take n)).value =
      (new registry).value + (new registry).rewards (events.take n) := by
  have hle := rewards_take_le (new registry) events n
  exact value_run_of_valid (valid_empty _) (fun a ha => hadmin a (List.mem_of_mem_take ha))
    (by omega)

/-- A funded account and a subnet, in a network whose unbonding lists hold one entry. -/
def funded : Registry :=
  ((Registry.empty ⟨100, 10, 1, 3, 1, 1, 2, 4⟩).setBalance (.dev 1) 100).registerSubnet 1
    ⟨0, .max, 2⟩

/-- A stake, a deposit and a reward, a withdrawal, and a swap whose target is gone when it matures: it
enters a full list and releases what waited there. A refused call and a claim follow. -/
def eventful : List Event :=
  [.transaction ⟨.signed (.dev 1), .addStake 1 10⟩ 0,
   .transaction ⟨.signed (.dev 1), .delegate (.subnet 1) 50⟩ 0,
   .transaction ⟨.system, .distribute (.subnet 1) 7⟩ 1,
   .transaction ⟨.signed (.dev 1), .undelegate (.subnet 1) 20⟩ 1,
   .transaction ⟨.signed (.dev 1), .swap (.subnet 1) (.subnet 1) 10⟩ 1,
   .administration (.deactivateSubnet 1),
   .transaction ⟨.system, .executeReadySwaps 9⟩ 4,
   .transaction ⟨.signed (.dev 1), .addStake 1 1⟩ 4,
   .transaction ⟨.signed (.dev 1), .claimUnbondings⟩ 6]

theorem value_run_eventful :
    (new funded).value + (new funded).rewards eventful < 2 ^ 128 ∧
      ((new funded).run (eventful.take 7)).value =
        (new funded).value + (new funded).rewards (eventful.take 7) ∧
      (new funded).value + (new funded).rewards (eventful.take 7) = 100 + 7 := by
  have hadmin : ∀ a, .administration a ∈ eventful → a.setsBalances = false := by
    intro a ha
    simp [eventful] at ha
    rw [ha]
    rfl
  have hfit : (new funded).value + (new funded).rewards eventful < 2 ^ 128 := by decide +kernel
  exact ⟨hfit, value_run funded eventful hadmin hfit 7, by decide +kernel⟩

end Ledger

end Stakebook
