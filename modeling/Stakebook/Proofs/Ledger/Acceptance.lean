import Stakebook.Proofs.Ledger.SwapExecution

/-!
# What an effect is the effect of

The other half of `effect_of_dispatch`: where a call has an effect it is accepted, and does what the
effect says. Each operation looks first and changes after, so what an effect says of its changes
answers for the checks in front of them.

Headlines:
* **`swapEffect_or_refusal`**: a swap has its effect or is refused.
* **`dispatch_ok_iff`**: a call is accepted exactly where it has an effect.
* **`apply_eq_of_effect`**: so is a transaction whose origin may make the call.
-/

namespace Stakebook

namespace Ledger

open Book Operation

variable {l : Ledger} {who : AccountId} {subnet : SubnetId} {amount released : Amount}
  {pool : PoolId} {shares : Shares} {unlock block : Block} {bounds : SubnetParams}
  {registry : Registry} {stakes : Stakes} {unbonding : Unbonding} {book : Book}

/-! ## One operation -/

theorem perform_addStake {balance : Amount} (active : l.registry.activeSubnet subnet = .ok bounds)
    (debit : l.registry.debit who amount = .ok registry)
    (add : l.book.stakes.add who subnet amount bounds = .ok (balance, stakes)) :
    (addStake who subnet amount).perform l = (.ok balance, ⟨{ l.book with stakes }, registry⟩) := by
  obtain ⟨hcheck, -⟩ := Stakes.add_eq_ok_iff.mp add
  unfold addStake
  refine perform_bind_ok_iff.mpr ⟨bounds, l, perform_look_ok_iff.mpr ⟨active, rfl⟩, ?_⟩
  refine perform_bind_ok_iff.mpr ⟨balance, l, perform_look_ok_iff.mpr ⟨hcheck, rfl⟩, ?_⟩
  refine perform_bind_ok_iff.mpr
    ⟨(), ⟨l.book, registry⟩, perform_debitFree_ok_iff.mpr ⟨registry, debit, rfl⟩, ?_⟩
  exact perform_changeBook_ok_iff.mpr ⟨_, bind_eq_ok_iff.mpr ⟨(balance, stakes), add, rfl⟩, rfl⟩

theorem perform_removeStake {remaining : Amount}
    (remove : l.book.stakes.remove who subnet amount (l.registry.leavingParams subnet) =
      .ok (remaining, stakes))
    (unlocks : unlock = block.satAdd (l.registry.leavingParams subnet).unbondingPeriod)
    (enter : l.book.unbonding.enqueue who amount unlock block = .ok (released, unbonding)) :
    (removeStake who subnet amount block).perform l =
      (.ok unlock, ⟨{ l.book with stakes, unbonding }, l.registry.pay who released⟩) := by
  obtain ⟨hcheck, -⟩ := Stakes.remove_eq_ok_iff.mp remove
  have hroom := Unbonding.check_of_enqueue enter
  subst unlocks
  unfold removeStake
  refine perform_bind_ok_iff.mpr ⟨_, l, perform_read_ok_iff.mpr ⟨rfl, rfl⟩, ?_⟩
  refine perform_bind_ok_iff.mpr ⟨remaining, l, perform_look_ok_iff.mpr ⟨hcheck, rfl⟩, ?_⟩
  refine perform_bind_ok_iff.mpr ⟨(), l, perform_look_ok_iff.mpr ⟨hroom, rfl⟩, ?_⟩
  refine perform_bind_ok_iff.mpr ⟨remaining, ⟨{ l.book with stakes }, l.registry⟩, ?_, ?_⟩
  · exact perform_changeBook_ok_iff.mpr
      ⟨_, bind_eq_ok_iff.mpr ⟨(remaining, stakes), remove, rfl⟩, rfl⟩
  · exact perform_bind_ok_iff.mpr
      ⟨(), _, perform_enterUnbonding_ok_iff.mpr ⟨released, unbonding, enter, rfl⟩, rfl⟩

theorem perform_delegate (active : l.registry.activePool pool = .ok bounds)
    (debit : l.registry.debit who amount = .ok registry)
    (deposit : l.book.deposit who pool amount l.registry.network.minDelegateDeposit =
      .ok (shares, book)) :
    (delegate who pool amount).perform l = (.ok shares, ⟨book, registry⟩) := by
  unfold delegate
  refine perform_bind_ok_iff.mpr ⟨bounds, l, perform_look_ok_iff.mpr ⟨active, rfl⟩, ?_⟩
  refine perform_bind_ok_iff.mpr ⟨_, l, perform_read_ok_iff.mpr ⟨rfl, rfl⟩, ?_⟩
  refine perform_bind_ok_iff.mpr
    ⟨shares, l, perform_look_ok_iff.mpr ⟨quote_of_deposit deposit, rfl⟩, ?_⟩
  refine perform_bind_ok_iff.mpr
    ⟨(), ⟨l.book, registry⟩, perform_debitFree_ok_iff.mpr ⟨registry, debit, rfl⟩, ?_⟩
  exact perform_changeBook_ok_iff.mpr ⟨book, deposit, rfl⟩

theorem perform_undelegate (withdraw : l.book.withdraw who pool shares = .ok (amount, book))
    (unlocks : unlock = block.satAdd (l.registry.leavingParams pool.subnetId).unbondingPeriod)
    (worth : amount ≠ 0)
    (enter : l.book.unbonding.enqueue who amount unlock block = .ok (released, unbonding)) :
    (undelegate who pool shares block).perform l =
      (.ok amount, ⟨{ book with unbonding }, l.registry.pay who released⟩) := by
  have hroom := Unbonding.check_of_enqueue enter
  rw [← (PoolMove.of_withdraw withdraw).unbonding_eq] at enter
  subst unlocks
  unfold undelegate
  refine perform_bind_ok_iff.mpr ⟨_, l, perform_read_ok_iff.mpr ⟨rfl, rfl⟩, ?_⟩
  refine perform_bind_ok_iff.mpr
    ⟨amount, l, perform_look_ok_iff.mpr ⟨quote_of_withdraw withdraw, rfl⟩, ?_⟩
  simp only [if_pos worth]
  refine perform_bind_ok_iff.mpr ⟨(), l, perform_look_ok_iff.mpr ⟨hroom, rfl⟩, ?_⟩
  refine perform_bind_ok_iff.mpr
    ⟨amount, ⟨book, l.registry⟩, perform_changeBook_ok_iff.mpr ⟨book, withdraw, rfl⟩, ?_⟩
  exact perform_bind_ok_iff.mpr
    ⟨(), _, perform_enterUnbonding_ok_iff.mpr ⟨released, unbonding, enter, rfl⟩, rfl⟩

theorem perform_undelegate_zero (block : Block)
    (withdraw : l.book.withdraw who pool shares = .ok (0, book)) :
    (undelegate who pool shares block).perform l = (.ok 0, ⟨book, l.registry⟩) := by
  unfold undelegate
  refine perform_bind_ok_iff.mpr ⟨_, l, perform_read_ok_iff.mpr ⟨rfl, rfl⟩, ?_⟩
  refine perform_bind_ok_iff.mpr
    ⟨0, l, perform_look_ok_iff.mpr ⟨quote_of_withdraw withdraw, rfl⟩, ?_⟩
  exact perform_bind_ok_iff.mpr
    ⟨0, ⟨book, l.registry⟩, perform_changeBook_ok_iff.mpr ⟨book, withdraw, rfl⟩, rfl⟩

theorem perform_transfer {target : AccountId}
    (transfer : l.book.transfer who pool target shares l.registry.network.minDelegateDeposit =
      .ok book) :
    (Ledger.transfer who pool target shares).perform l = (.ok (), ⟨book, l.registry⟩) := by
  unfold Ledger.transfer
  refine perform_bind_ok_iff.mpr ⟨_, l, perform_read_ok_iff.mpr ⟨rfl, rfl⟩, ?_⟩
  exact perform_changeBook_ok_iff.mpr ⟨book, bind_eq_ok_iff.mpr ⟨book, transfer, rfl⟩, rfl⟩

theorem perform_queueSwap {source target : PoolId} {balance : Amount} {id : SwapId}
    {swaps : SwapQueue} (active : l.registry.activePool target = .ok bounds)
    (withdraw : l.book.withdraw who source shares = .ok (balance, book))
    (queue : l.book.swaps.enqueue who target balance block l.registry.network.swapDelay =
      .ok (id, swaps)) :
    (queueSwap who source target shares block).perform l =
      (.ok id, ⟨{ book with swaps }, l.registry⟩) := by
  obtain ⟨hcheck, -⟩ := SwapQueue.enqueue_eq_ok_iff.mp queue
  rw [← (PoolMove.of_withdraw withdraw).swaps_eq] at queue
  unfold queueSwap
  refine perform_bind_ok_iff.mpr ⟨bounds, l, perform_look_ok_iff.mpr ⟨active, rfl⟩, ?_⟩
  refine perform_bind_ok_iff.mpr
    ⟨balance, l, perform_look_ok_iff.mpr ⟨quote_of_withdraw withdraw, rfl⟩, ?_⟩
  refine perform_bind_ok_iff.mpr ⟨(), l, perform_look_ok_iff.mpr ⟨hcheck, rfl⟩, ?_⟩
  refine perform_bind_ok_iff.mpr ⟨_, l, perform_read_ok_iff.mpr ⟨rfl, rfl⟩, ?_⟩
  refine perform_bind_ok_iff.mpr
    ⟨balance, ⟨book, l.registry⟩, perform_changeBook_ok_iff.mpr ⟨book, withdraw, rfl⟩, ?_⟩
  exact perform_changeBook_ok_iff.mpr ⟨_, bind_eq_ok_iff.mpr ⟨(id, swaps), queue, rfl⟩, rfl⟩

theorem perform_updateSwap {id : SwapId} {target : PoolId} {swaps : SwapQueue}
    (active : l.registry.activePool target = .ok bounds)
    (update : l.book.swaps.update id who target block = .ok swaps) :
    (updateSwap who id target block).perform l = (.ok (), ⟨{ l.book with swaps }, l.registry⟩) := by
  obtain ⟨swap, hcheck, -⟩ := SwapQueue.update_eq_ok_iff.mp update
  unfold updateSwap
  refine perform_bind_ok_iff.mpr ⟨swap, l, perform_look_ok_iff.mpr ⟨hcheck, rfl⟩, ?_⟩
  refine perform_bind_ok_iff.mpr ⟨bounds, l, perform_look_ok_iff.mpr ⟨active, rfl⟩, ?_⟩
  exact perform_changeBook_ok_iff.mpr ⟨_, bind_eq_ok_iff.mpr ⟨swaps, update, rfl⟩, rfl⟩

/-- A swap is deposited if its target takes it, and unbonded otherwise. -/
theorem perform_executeSwap {id : SwapId} {outcome : SwapOutcome} {l' : Ledger}
    (h : SwapEffect block id l outcome l') :
    (executeSwap id block).perform l = (.ok outcome, l') := by
  unfold executeSwap
  cases h with
  | @deposited swap bounds shares book matured active deposit =>
    have hquote : l.book.quoteDeposit swap.target swap.balance 0 = .ok shares :=
      (quoteDeposit_with_swaps ..).symm.trans (quote_of_deposit deposit)
    refine perform_bind_ok_iff.mpr ⟨swap, l, perform_look_ok_iff.mpr ⟨matured, rfl⟩, ?_⟩
    refine perform_bind_ok_iff.mpr ⟨.ok shares, l, perform_read_ok_iff.mpr
      ⟨bind_eq_ok_iff.mpr ⟨bounds, active, hquote⟩, rfl⟩, ?_⟩
    refine perform_bind_ok_iff.mpr ⟨(), _, perform_update_ok_iff.mpr rfl, ?_⟩
    exact perform_bind_ok_iff.mpr
      ⟨shares, _, perform_changeBook_ok_iff.mpr ⟨book, deposit, rfl⟩, rfl⟩
  | @unbonded swap reason released unbonding matured refused enter =>
    have hroom := Unbonding.check_of_enqueue enter
    refine perform_bind_ok_iff.mpr ⟨swap, l, perform_look_ok_iff.mpr ⟨matured, rfl⟩, ?_⟩
    refine perform_bind_ok_iff.mpr
      ⟨.error reason, l, perform_read_ok_iff.mpr ⟨refused, rfl⟩, ?_⟩
    refine perform_bind_ok_iff.mpr ⟨_, l, perform_read_ok_iff.mpr ⟨rfl, rfl⟩, ?_⟩
    refine perform_bind_ok_iff.mpr ⟨(), l, perform_look_ok_iff.mpr ⟨hroom, rfl⟩, ?_⟩
    refine perform_bind_ok_iff.mpr ⟨(), _, perform_update_ok_iff.mpr rfl, ?_⟩
    exact perform_bind_ok_iff.mpr
      ⟨(), _, perform_enterUnbonding_ok_iff.mpr ⟨released, unbonding, enter, rfl⟩, rfl⟩

/-- What a swap is refused for: it cannot be executed yet, or its target refuses it and its owner
has no room to wait. -/
inductive SwapRefusal (block : Block) (id : SwapId) (l : Ledger) (e : LedgerError) : Prop
  | notMatured (notMatured : l.book.swaps.checkMatured id block = .error e)
  | noRoom {swap : QueuedSwap} {reason : LedgerError}
      (matured : l.book.swaps.checkMatured id block = .ok swap)
      (refused : (do
        let _ ← l.registry.activePool swap.target
        l.book.quoteDeposit swap.target swap.balance 0) = .error reason)
      (full : l.book.unbonding.checkEnqueue swap.account swap.balance
        (block.satAdd l.registry.network.fallbackUnbondingPeriod) block = .error e)

theorem perform_executeSwap_of_refusal {id : SwapId} {e : LedgerError}
    (h : SwapRefusal block id l e) : (executeSwap id block).perform l = (.error e, l) := by
  unfold executeSwap
  rcases h with hmatured | ⟨hmatured, hrefused, hfull⟩
  · exact perform_bind_of_error (by rw [perform_look, hmatured])
  · rw [perform_bind_of_ok (by rw [perform_look, hmatured]),
      perform_bind_of_ok (by rw [perform_read, hrefused]), perform_bind_of_ok (perform_read ..)]
    exact perform_bind_of_error (by rw [perform_look, hfull])

/-- **A swap has its effect or is refused.** -/
theorem swapEffect_or_refusal (block : Block) (id : SwapId) (l : Ledger) :
    (∃ outcome l', SwapEffect block id l outcome l') ∨ ∃ e, SwapRefusal block id l e := by
  cases hmatured : l.book.swaps.checkMatured id block with
  | error e => exact .inr ⟨e, .notMatured hmatured⟩
  | ok swap =>
    cases haccepted : (do
        let _ ← l.registry.activePool swap.target
        l.book.quoteDeposit swap.target swap.balance 0) with
    | ok shares =>
      obtain ⟨bounds, hactive, hquote⟩ := bind_eq_ok_iff.mp haccepted
      obtain ⟨book, hdeposit⟩ :=
        deposit_of_quote ((quoteDeposit_with_swaps l.book (l.book.swaps.remove id) ..).trans hquote)
          swap.account
      exact .inl ⟨_, _, .deposited hmatured hactive hdeposit⟩
    | error reason =>
      cases hroom : l.book.unbonding.checkEnqueue swap.account swap.balance
          (block.satAdd l.registry.network.fallbackUnbondingPeriod) block with
      | error e => exact .inr ⟨e, .noRoom hmatured haccepted hroom⟩
      | ok =>
        obtain ⟨released, unbonding, henter⟩ := Unbonding.enqueue_of_check hroom
        exact .inl ⟨_, _, .unbonded hmatured haccepted henter⟩

theorem perform_executeReadySwaps_of_batch {max : Count} {l' : Ledger}
    {results : List (SwapId × Except LedgerError SwapOutcome)}
    (h : BatchEffect block l (l.book.swaps.ready block max) results l') :
    (executeReadySwaps block max).perform l = (.ok results, l') := by
  rw [perform_executeReadySwaps, h.outcomes_eq, h.executeAll_eq]

theorem perform_claimUnbondings {claimed : Amount}
    (claim : l.book.unbonding.claim who block = (claimed, unbonding)) :
    (claimUnbondings who block).perform l =
      (.ok claimed, ⟨{ l.book with unbonding }, l.registry.pay who claimed⟩) := by
  unfold claimUnbondings
  refine perform_bind_ok_iff.mpr ⟨claimed, ⟨{ l.book with unbonding }, l.registry⟩, ?_, ?_⟩
  · refine perform_changeBook_ok_iff.mpr ⟨_, ?_, rfl⟩
    rw [claim]
    rfl
  · by_cases hpaid : claimed = 0
    · rw [if_neg (not_not_intro hpaid), hpaid, Registry.pay_zero]
      rfl
    · rw [if_pos hpaid, Registry.pay_of_ne_zero hpaid]
      rfl

theorem perform_commitWeights {watcher : WatcherId} {commits : Batch Commit} {epoch : Epoch}
    {overwatch : Overwatch} (owner : l.registry.checkOwner who watcher = .ok ())
    (active : ∀ c ∈ commits.items, ∃ bounds, l.registry.activeSubnet c.subnet = .ok bounds)
    (commit : l.book.overwatch.commitMany l.registry.network.schedule block watcher commits.items =
      .ok (epoch, overwatch)) :
    (commitWeights who watcher commits.items block).perform l =
      (.ok epoch, ⟨{ l.book with overwatch }, l.registry⟩) := by
  unfold commitWeights
  refine perform_bind_ok_iff.mpr ⟨(), l, perform_look_ok_iff.mpr ⟨owner, rfl⟩, ?_⟩
  refine perform_bind_ok_iff.mpr
    ⟨(), l, perform_look_ok_iff.mpr ⟨forM_eq_ok_iff.mpr fun c hc => ?_, rfl⟩, ?_⟩
  · obtain ⟨bounds, hbounds⟩ := active c hc
    exact bind_eq_ok_iff.mpr ⟨bounds, hbounds, rfl⟩
  refine perform_bind_ok_iff.mpr ⟨_, l, perform_read_ok_iff.mpr ⟨rfl, rfl⟩, ?_⟩
  exact perform_changeBook_ok_iff.mpr
    ⟨_, bind_eq_ok_iff.mpr ⟨(epoch, overwatch), commit, rfl⟩, rfl⟩

theorem perform_revealWeights {watcher : WatcherId} {reveals : Batch Reveal} {epoch : Epoch}
    {overwatch : Overwatch} (owner : l.registry.checkOwner who watcher = .ok ())
    (reveal : l.book.overwatch.revealMany l.registry.network.schedule block watcher reveals.items =
      .ok (epoch, overwatch)) :
    (revealWeights who watcher reveals.items block).perform l =
      (.ok epoch, ⟨{ l.book with overwatch }, l.registry⟩) := by
  unfold revealWeights
  refine perform_bind_ok_iff.mpr ⟨(), l, perform_look_ok_iff.mpr ⟨owner, rfl⟩, ?_⟩
  refine perform_bind_ok_iff.mpr ⟨_, l, perform_read_ok_iff.mpr ⟨rfl, rfl⟩, ?_⟩
  exact perform_changeBook_ok_iff.mpr
    ⟨_, bind_eq_ok_iff.mpr ⟨(epoch, overwatch), reveal, rfl⟩, rfl⟩

theorem perform_pruneOverwatch {removed : Nat} {overwatch : Overwatch}
    (prune : l.book.overwatch.prune ((l.registry.network.schedule.epochOf block).satSub
      l.registry.network.overwatchRetention) = (removed, overwatch)) :
    (pruneOverwatch block).perform l =
      (.ok removed, ⟨{ l.book with overwatch }, l.registry⟩) := by
  unfold pruneOverwatch
  refine perform_bind_ok_iff.mpr ⟨_, l, perform_read_ok_iff.mpr ⟨rfl, rfl⟩, ?_⟩
  refine perform_changeBook_ok_iff.mpr ⟨_, ?_, rfl⟩
  rw [prune]
  rfl

theorem perform_distribute (active : l.registry.activePool pool = .ok bounds)
    (distribute : l.book.distribute pool amount = .ok book) :
    (Ledger.distribute pool amount).perform l = (.ok (), ⟨book, l.registry⟩) := by
  unfold Ledger.distribute
  refine perform_bind_ok_iff.mpr ⟨bounds, l, perform_look_ok_iff.mpr ⟨active, rfl⟩, ?_⟩
  exact perform_changeBook_ok_iff.mpr ⟨book, bind_eq_ok_iff.mpr ⟨book, distribute, rfl⟩, rfl⟩

end Ledger

namespace Transaction

open Ledger Operation

variable {l l' : Ledger} {block : Block} {call : LedgerCall} {signer : Option AccountId}
  {who : AccountId} {output : CallOutput} {t : Transaction}

/-- The operation on behalf of the account that signed. -/
theorem perform_sender_bind {α : Type} {f : AccountId → Operation α} {x : α} (g : α → CallOutput)
    (h : (f who).perform l = (.ok x, l')) :
    (do return g (← f (← sender (some who))) : Operation CallOutput).perform l =
      (.ok (g x), l') :=
  perform_bind_ok_iff.mpr ⟨who, l, perform_sender_ok_iff.mpr ⟨rfl, rfl⟩,
    perform_bind_ok_iff.mpr ⟨x, l', h, rfl⟩⟩

/-- An operation that anyone may make. -/
theorem perform_bind_pure {α : Type} {a : Operation α} {x : α} (g : α → CallOutput)
    (h : a.perform l = (.ok x, l')) :
    (do return g (← a) : Operation CallOutput).perform l = (.ok (g x), l') :=
  perform_bind_ok_iff.mpr ⟨x, l', h, rfl⟩

/-- **A call is accepted exactly where it has an effect**, and does what the effect says. -/
theorem dispatch_ok_iff :
    (dispatch call signer block).perform l = (.ok output, l') ↔
      Effect block l call signer output l' := by
  refine ⟨effect_of_dispatch, fun h => ?_⟩
  cases h with
  | addStake active debit add =>
    exact perform_sender_bind CallOutput.stake (perform_addStake active debit add)
  | removeStake remove unlocks enter =>
    exact perform_sender_bind CallOutput.unbonding (perform_removeStake remove unlocks enter)
  | delegate active debit deposit =>
    exact perform_sender_bind CallOutput.shares (perform_delegate active debit deposit)
  | undelegate withdraw unlocks worth enter =>
    exact perform_sender_bind CallOutput.withdrawn (perform_undelegate withdraw unlocks worth enter)
  | burn withdraw =>
    exact perform_sender_bind CallOutput.withdrawn (perform_undelegate_zero block withdraw)
  | swap active withdraw queue =>
    exact perform_sender_bind CallOutput.swapQueued (perform_queueSwap active withdraw queue)
  | transfer transfer =>
    exact perform_sender_bind (fun _ => CallOutput.done) (perform_transfer transfer)
  | updateSwap active update =>
    exact perform_sender_bind (fun _ => CallOutput.done) (perform_updateSwap active update)
  | updateSwapByTag parts active update =>
    refine perform_bind_ok_iff.mpr ⟨_, l, perform_sender_ok_iff.mpr ⟨rfl, rfl⟩, ?_⟩
    refine perform_bind_ok_iff.mpr ⟨_, l, perform_look_ok_iff.mpr ⟨parts, rfl⟩, ?_⟩
    exact perform_bind_pure (fun _ => CallOutput.done) (perform_updateSwap active update)
  | executeSwap effect => exact perform_bind_pure CallOutput.swap (perform_executeSwap effect)
  | executeReadySwaps batch =>
    exact perform_bind_pure _ (perform_executeReadySwaps_of_batch batch)
  | claimUnbondings claim =>
    exact perform_sender_bind CallOutput.claimed (perform_claimUnbondings claim)
  | commitWeights owner active commit =>
    exact perform_sender_bind CallOutput.epoch (perform_commitWeights owner active commit)
  | revealWeights owner reveal =>
    exact perform_sender_bind CallOutput.epoch (perform_revealWeights owner reveal)
  | pruneOverwatch prune =>
    exact perform_bind_pure (fun n => CallOutput.pruned (.clamp n)) (perform_pruneOverwatch prune)
  | distribute active distribute =>
    exact perform_bind_pure (fun _ => CallOutput.done) (perform_distribute active distribute)

/-- **A transaction whose origin may make the call is accepted where the call has an effect**, and
does what the effect says. -/
theorem apply_eq_of_effect (hsigner : t.checkOrigin = .ok signer)
    (h : Effect block l t.call signer output l') :
    t.apply block l = (⟨t.digest, t.call.name, block, some output, none⟩, l') := by
  have hrun : (t.run block).perform l = (.ok output, l') :=
    perform_bind_ok_iff.mpr
      ⟨signer, l, perform_look_ok_iff.mpr ⟨hsigner, rfl⟩, dispatch_ok_iff.mpr h⟩
  unfold apply
  rw [hrun]

/-- Any account may make a local call. -/
theorem checkOrigin_of_isLocal (hcall : t.call.isLocal = true) (horigin : t.origin = .signed who) :
    t.checkOrigin = .ok (some who) := by
  obtain ⟨origin, call⟩ := t
  cases horigin
  cases call <;> first | rfl | cases hcall

/-- A local call that its account signed. -/
theorem apply_of_effect (hcall : t.call.isLocal = true) (horigin : t.origin = .signed who)
    (h : Effect block l t.call (some who) output l') :
    t.apply block l = (⟨t.digest, t.call.name, block, some output, none⟩, l') :=
  apply_eq_of_effect (checkOrigin_of_isLocal hcall horigin) h

/-- What such a transaction does if it is accepted. -/
theorem effect_of_success (hcall : t.call.isLocal = true) (horigin : t.origin = .signed who)
    (h : (t.apply block l).1.success = true) :
    ∃ output, (t.apply block l).1 = ⟨t.digest, t.call.name, block, some output, none⟩ ∧
      Effect block l t.call (some who) output (t.apply block l).2 := by
  rcases t.effect_of_apply block l with ⟨signer, output, hsigner, hreport, heffect⟩ | ⟨e, hrefused⟩
  · rw [checkOrigin_of_isLocal hcall horigin] at hsigner
    cases hsigner
    exact ⟨output, hreport, heffect⟩
  · rw [hrefused] at h
    cases h

end Transaction

end Stakebook
