import Stakebook.Proofs.Ledger.Atomicity

/-!
# What an accepted call does

`Effect block l call signer output l'` says everything that an accepted call does to a ledger: one
constructor for each way to end, with the checks that were passed and the components that changed.
`SwapEffect` does so for one executed swap and `BatchEffect` for a batch of them.

Headlines:
* **`effect_of_dispatch`**: whatever `dispatch` accepts is an `Effect`.
* **`effect_of_apply`**: and so is whatever a transaction does that reports no error.
-/

namespace Stakebook

namespace Ledger

open Book Operation

/-! ## The effects -/

/-- What an executed swap does. -/
inductive SwapEffect (block : Block) (id : SwapId) (l : Ledger) : SwapOutcome → Ledger → Prop
  /-- The target is active and takes the deposit. -/
  | deposited {swap : QueuedSwap} {bounds : SubnetParams} {shares : Shares} {book : Book}
      (matured : l.book.swaps.checkMatured id block = .ok swap)
      (active : l.registry.activePool swap.target = .ok bounds)
      (deposit : ({ l.book with swaps := l.book.swaps.remove id } : Book).deposit swap.account
        swap.target swap.balance 0 = .ok (shares, book)) :
      SwapEffect block id l (.deposited shares) ⟨book, l.registry⟩
  /-- The target is not active or refuses, and the owner has room to wait. -/
  | unbonded {swap : QueuedSwap} {reason : LedgerError} {released : Amount} {unbonding : Unbonding}
      (matured : l.book.swaps.checkMatured id block = .ok swap)
      (refused : (do
        let _ ← l.registry.activePool swap.target
        l.book.quoteDeposit swap.target swap.balance 0) = .error reason)
      (enter : l.book.unbonding.enqueue swap.account swap.balance
        (block.satAdd l.registry.network.fallbackUnbondingPeriod) block =
          .ok (released, unbonding)) :
      SwapEffect block id l (.unbonded (block.satAdd l.registry.network.fallbackUnbondingPeriod))
        ⟨{ l.book with unbonding, swaps := l.book.swaps.remove id },
          l.registry.pay swap.account released⟩

/-- What a batch of swaps does: each that succeeds has its effect, each that fails has none. -/
inductive BatchEffect (block : Block) :
    Ledger → List SwapId → List (SwapId × Except LedgerError SwapOutcome) → Ledger → Prop
  | nil {l : Ledger} : BatchEffect block l [] [] l
  | ok {l m l' : Ledger} {id : SwapId} {ids : List SwapId} {outcome : SwapOutcome}
      {results : List (SwapId × Except LedgerError SwapOutcome)}
      (perform : (executeSwap id block).perform l = (.ok outcome, m))
      (effect : SwapEffect block id l outcome m) (rest : BatchEffect block m ids results l') :
      BatchEffect block l (id :: ids) ((id, .ok outcome) :: results) l'
  | failed {l l' : Ledger} {id : SwapId} {ids : List SwapId} {e : LedgerError}
      {results : List (SwapId × Except LedgerError SwapOutcome)}
      (perform : (executeSwap id block).perform l = (.error e, l))
      (rest : BatchEffect block l ids results l') :
      BatchEffect block l (id :: ids) ((id, .error e) :: results) l'

/-- What an accepted call does. -/
inductive Effect (block : Block) (l : Ledger) :
    LedgerCall → Option AccountId → CallOutput → Ledger → Prop
  | addStake {who : AccountId} {subnet : SubnetId} {amount balance : Amount}
      {bounds : SubnetParams} {stakes : Stakes} {registry : Registry}
      (active : l.registry.activeSubnet subnet = .ok bounds)
      (debit : l.registry.debit who amount = .ok registry)
      (add : l.book.stakes.add who subnet amount bounds = .ok (balance, stakes)) :
      Effect block l (.addStake subnet amount) (some who) (.stake balance)
        ⟨{ l.book with stakes }, registry⟩
  | removeStake {who : AccountId} {subnet : SubnetId} {amount remaining released : Amount}
      {unlock : Block} {stakes : Stakes} {unbonding : Unbonding}
      (remove : l.book.stakes.remove who subnet amount (l.registry.leavingParams subnet) =
        .ok (remaining, stakes))
      (unlocks : unlock = block.satAdd (l.registry.leavingParams subnet).unbondingPeriod)
      (enter : l.book.unbonding.enqueue who amount unlock block = .ok (released, unbonding)) :
      Effect block l (.removeStake subnet amount) (some who) (.unbonding unlock)
        ⟨{ l.book with stakes, unbonding }, l.registry.pay who released⟩
  | delegate {who : AccountId} {pool : PoolId} {amount : Amount} {bounds : SubnetParams}
      {shares : Shares} {book : Book} {registry : Registry}
      (active : l.registry.activePool pool = .ok bounds)
      (debit : l.registry.debit who amount = .ok registry)
      (deposit : l.book.deposit who pool amount l.registry.network.minDelegateDeposit =
        .ok (shares, book)) :
      Effect block l (.delegate pool amount) (some who) (.shares shares) ⟨book, registry⟩
  | undelegate {who : AccountId} {pool : PoolId} {shares : Shares} {amount released : Amount}
      {unlock : Block} {book : Book} {unbonding : Unbonding}
      (withdraw : l.book.withdraw who pool shares = .ok (amount, book))
      (unlocks : unlock = block.satAdd (l.registry.leavingParams pool.subnetId).unbondingPeriod)
      (worth : amount ≠ 0)
      (enter : l.book.unbonding.enqueue who amount unlock block = .ok (released, unbonding)) :
      Effect block l (.undelegate pool shares) (some who) (.withdrawn amount)
        ⟨{ book with unbonding }, l.registry.pay who released⟩
  /-- Shares that redeem for nothing are burned. -/
  | burn {who : AccountId} {pool : PoolId} {shares : Shares} {book : Book}
      (withdraw : l.book.withdraw who pool shares = .ok (0, book)) :
      Effect block l (.undelegate pool shares) (some who) (.withdrawn 0) ⟨book, l.registry⟩
  | swap {who : AccountId} {source target : PoolId} {shares : Shares} {balance : Amount}
      {bounds : SubnetParams} {id : SwapId} {book : Book} {swaps : SwapQueue}
      (active : l.registry.activePool target = .ok bounds)
      (withdraw : l.book.withdraw who source shares = .ok (balance, book))
      (queue : l.book.swaps.enqueue who target balance block l.registry.network.swapDelay =
        .ok (id, swaps)) :
      Effect block l (.swap source target shares) (some who) (.swapQueued id)
        ⟨{ book with swaps }, l.registry⟩
  | transfer {who target : AccountId} {pool : PoolId} {shares : Shares} {book : Book}
      (transfer : l.book.transfer who pool target shares l.registry.network.minDelegateDeposit =
        .ok book) :
      Effect block l (.transfer pool target shares) (some who) .done ⟨book, l.registry⟩
  | updateSwap {who : AccountId} {id : SwapId} {target : PoolId} {bounds : SubnetParams}
      {swaps : SwapQueue} (active : l.registry.activePool target = .ok bounds)
      (update : l.book.swaps.update id who target block = .ok swaps) :
      Effect block l (.updateSwap id target) (some who) .done
        ⟨{ l.book with swaps }, l.registry⟩
  | updateSwapByTag {who : AccountId} {id : SwapId} {tag : Word 8} {subnet : SubnetId}
      {node : NodeId} {target : PoolId} {bounds : SubnetParams} {swaps : SwapQueue}
      (parts : PoolId.ofParts tag subnet node = .ok target)
      (active : l.registry.activePool target = .ok bounds)
      (update : l.book.swaps.update id who target block = .ok swaps) :
      Effect block l (.updateSwapByTag id tag subnet node) (some who) .done
        ⟨{ l.book with swaps }, l.registry⟩
  | executeSwap {signer : Option AccountId} {id : SwapId} {outcome : SwapOutcome} {l' : Ledger}
      (effect : SwapEffect block id l outcome l') :
      Effect block l (.executeSwap id) signer (.swap outcome) l'
  | executeReadySwaps {signer : Option AccountId} {max : Count}
      {results : List (SwapId × Except LedgerError SwapOutcome)} {l' : Ledger}
      (batch : BatchEffect block l (l.book.swaps.ready block max) results l') :
      Effect block l (.executeReadySwaps max) signer
        (.swaps (results.map fun r => SwapResult.of r.1 r.2)) l'
  | claimUnbondings {who : AccountId} {claimed : Amount} {unbonding : Unbonding}
      (claim : l.book.unbonding.claim who block = (claimed, unbonding)) :
      Effect block l .claimUnbondings (some who) (.claimed claimed)
        ⟨{ l.book with unbonding }, l.registry.pay who claimed⟩
  | commitWeights {who : AccountId} {watcher : WatcherId} {commits : Batch Commit} {epoch : Epoch}
      {overwatch : Overwatch} (owner : l.registry.checkOwner who watcher = .ok ())
      (active : ∀ c ∈ commits.items, ∃ bounds, l.registry.activeSubnet c.subnet = .ok bounds)
      (commit : l.book.overwatch.commitMany l.registry.network.schedule block watcher
        commits.items = .ok (epoch, overwatch)) :
      Effect block l (.commitWeights watcher commits) (some who) (.epoch epoch)
        ⟨{ l.book with overwatch }, l.registry⟩
  | revealWeights {who : AccountId} {watcher : WatcherId} {reveals : Batch Reveal} {epoch : Epoch}
      {overwatch : Overwatch} (owner : l.registry.checkOwner who watcher = .ok ())
      (reveal : l.book.overwatch.revealMany l.registry.network.schedule block watcher
        reveals.items = .ok (epoch, overwatch)) :
      Effect block l (.revealWeights watcher reveals) (some who) (.epoch epoch)
        ⟨{ l.book with overwatch }, l.registry⟩
  | pruneOverwatch {signer : Option AccountId} {removed : Nat} {overwatch : Overwatch}
      (prune : l.book.overwatch.prune ((l.registry.network.schedule.epochOf block).satSub
        l.registry.network.overwatchRetention) = (removed, overwatch)) :
      Effect block l .pruneOverwatch signer (.pruned (.clamp removed))
        ⟨{ l.book with overwatch }, l.registry⟩
  | distribute {signer : Option AccountId} {pool : PoolId} {amount : Amount}
      {bounds : SubnetParams} {book : Book}
      (active : l.registry.activePool pool = .ok bounds)
      (distribute : l.book.distribute pool amount = .ok book) :
      Effect block l (.distribute pool amount) signer .done ⟨book, l.registry⟩

variable {l l' : Ledger} {who : AccountId} {amount : Amount} {unlock block : Block}
  {signer : Option AccountId}

/-! ## One operation -/

theorem effect_of_addStake {subnet : SubnetId} {balance : Amount}
    (h : (addStake who subnet amount).perform l = (.ok balance, l')) :
    Effect block l (.addStake subnet amount) (some who) (.stake balance) l' := by
  unfold addStake at h
  simp only [perform_bind_ok_iff, perform_look_ok_iff, perform_debitFree_ok_iff,
    perform_changeBook_ok_iff, bind_eq_ok_iff, pure_eq_ok_iff, Prod.mk.injEq] at h
  obtain ⟨bounds, _, ⟨hactive, rfl⟩, _, _, ⟨-, rfl⟩, _, _, ⟨registry, hdebit, rfl⟩, _,
    ⟨⟨_, stakes⟩, hadd, rfl, rfl⟩, rfl⟩ := h
  exact .addStake hactive hdebit hadd

theorem effect_of_removeStake {subnet : SubnetId}
    (h : (removeStake who subnet amount block).perform l = (.ok unlock, l')) :
    Effect block l (.removeStake subnet amount) (some who) (.unbonding unlock) l' := by
  unfold removeStake at h
  simp only [perform_bind_ok_iff, perform_look_ok_iff, perform_read_ok_iff,
    perform_changeBook_ok_iff, perform_enterUnbonding_ok_iff, perform_pure_ok_iff, bind_eq_ok_iff,
    pure_eq_ok_iff, Prod.mk.injEq] at h
  obtain ⟨_, _, ⟨rfl, rfl⟩, _, _, ⟨-, rfl⟩, _, _, ⟨-, rfl⟩, _, _,
    ⟨_, ⟨⟨remaining, stakes⟩, hremove, rfl, rfl⟩, rfl⟩, _, _,
    ⟨released, unbonding, henter, rfl⟩, rfl, rfl⟩ := h
  exact .removeStake hremove rfl henter

theorem effect_of_delegate {pool : PoolId} {shares : Shares}
    (h : (delegate who pool amount).perform l = (.ok shares, l')) :
    Effect block l (.delegate pool amount) (some who) (.shares shares) l' := by
  unfold delegate at h
  simp only [perform_bind_ok_iff, perform_look_ok_iff, perform_read_ok_iff,
    perform_debitFree_ok_iff, perform_changeBook_ok_iff] at h
  obtain ⟨bounds, _, ⟨hactive, rfl⟩, _, _, ⟨rfl, rfl⟩, _, _, ⟨-, rfl⟩, _, _,
    ⟨registry, hdebit, rfl⟩, book, hdeposit, rfl⟩ := h
  exact .delegate hactive hdebit hdeposit

theorem effect_of_undelegate {pool : PoolId} {shares : Shares}
    (h : (undelegate who pool shares block).perform l = (.ok amount, l')) :
    Effect block l (.undelegate pool shares) (some who) (.withdrawn amount) l' := by
  unfold undelegate at h
  simp only [perform_bind_ok_iff, perform_look_ok_iff, perform_read_ok_iff] at h
  obtain ⟨_, _, ⟨rfl, rfl⟩, paid, _, ⟨hquote, rfl⟩, h⟩ := h
  by_cases hpaid : paid = 0
  · -- shares that redeem for nothing are burned, and nothing enters
    rw [if_neg (not_not_intro hpaid)] at h
    simp only [perform_bind_ok_iff, perform_changeBook_ok_iff, if_neg (not_not_intro hpaid),
      perform_pure_ok_iff] at h
    obtain ⟨_, _, ⟨book, hwithdraw, rfl⟩, rfl, rfl⟩ := h
    obtain rfl := Except.ok.inj ((quote_of_withdraw hwithdraw).symm.trans hquote)
    subst hpaid
    exact .burn hwithdraw
  · rw [if_pos hpaid] at h
    simp only [perform_bind_ok_iff, perform_look_ok_iff, perform_changeBook_ok_iff, if_pos hpaid,
      perform_enterUnbonding_ok_iff, perform_pure_ok_iff] at h
    obtain ⟨_, _, ⟨-, rfl⟩, _, _, ⟨book, hwithdraw, rfl⟩, _, _,
      ⟨released, unbonding, henter, rfl⟩, rfl, rfl⟩ := h
    obtain rfl := Except.ok.inj ((quote_of_withdraw hwithdraw).symm.trans hquote)
    rw [(PoolMove.of_withdraw hwithdraw).unbonding_eq] at henter
    exact .undelegate hwithdraw rfl hpaid henter

theorem effect_of_transfer {source target : AccountId} {pool : PoolId} {shares : Shares} {u : Unit}
    (h : (transfer source pool target shares).perform l = (.ok u, l')) :
    Effect block l (.transfer pool target shares) (some source) .done l' := by
  unfold transfer at h
  simp only [perform_bind_ok_iff, perform_read_ok_iff, perform_changeBook_ok_iff, bind_eq_ok_iff,
    pure_eq_ok_iff, Prod.mk.injEq] at h
  obtain ⟨_, _, ⟨rfl, rfl⟩, _, ⟨book, htransfer, -, rfl⟩, rfl⟩ := h
  exact .transfer htransfer

theorem effect_of_distribute {pool : PoolId} {u : Unit}
    (h : (distribute pool amount).perform l = (.ok u, l')) :
    Effect block l (.distribute pool amount) signer .done l' := by
  unfold distribute at h
  simp only [perform_bind_ok_iff, perform_look_ok_iff, perform_changeBook_ok_iff, bind_eq_ok_iff,
    pure_eq_ok_iff, Prod.mk.injEq] at h
  obtain ⟨bounds, _, ⟨hactive, rfl⟩, _, ⟨book, hdistribute, -, rfl⟩, rfl⟩ := h
  exact .distribute hactive hdistribute

theorem effect_of_queueSwap {source target : PoolId} {shares : Shares} {id : SwapId}
    (h : (queueSwap who source target shares block).perform l = (.ok id, l')) :
    Effect block l (.swap source target shares) (some who) (.swapQueued id) l' := by
  unfold queueSwap at h
  simp only [perform_bind_ok_iff, perform_look_ok_iff, perform_read_ok_iff,
    perform_changeBook_ok_iff, bind_eq_ok_iff, pure_eq_ok_iff, Prod.mk.injEq] at h
  obtain ⟨bounds, _, ⟨hactive, rfl⟩, balance, _, ⟨hquote, rfl⟩, _, _, ⟨-, rfl⟩, _, _, ⟨rfl, rfl⟩,
    _, _, ⟨book, hwithdraw, rfl⟩, _, ⟨⟨_, swaps⟩, henqueue, rfl, rfl⟩, rfl⟩ := h
  obtain rfl := Except.ok.inj ((quote_of_withdraw hwithdraw).symm.trans hquote)
  simp only [(PoolMove.of_withdraw hwithdraw).swaps_eq] at henqueue
  exact .swap hactive hwithdraw henqueue

/-- What giving a swap another target does. -/
theorem updates_of_updateSwap {id : SwapId} {target : PoolId} {u : Unit}
    (h : (updateSwap who id target block).perform l = (.ok u, l')) :
    ∃ bounds swaps, l.registry.activePool target = .ok bounds ∧
      l.book.swaps.update id who target block = .ok swaps ∧
      l' = ⟨{ l.book with swaps }, l.registry⟩ := by
  unfold updateSwap at h
  simp only [perform_bind_ok_iff, perform_look_ok_iff, perform_changeBook_ok_iff, bind_eq_ok_iff,
    pure_eq_ok_iff, Prod.mk.injEq] at h
  obtain ⟨_, _, ⟨-, rfl⟩, bounds, _, ⟨hactive, rfl⟩, _, ⟨swaps, hupdate, -, rfl⟩, rfl⟩ := h
  exact ⟨bounds, swaps, hactive, hupdate, rfl⟩

/-- **An executed swap is deposited, or unbonded because its target refuses.** -/
theorem effect_of_executeSwap {id : SwapId} {outcome : SwapOutcome}
    (h : (executeSwap id block).perform l = (.ok outcome, l')) :
    SwapEffect block id l outcome l' := by
  unfold executeSwap at h
  simp only [perform_bind_ok_iff, perform_look_ok_iff, perform_read_ok_iff] at h
  obtain ⟨swap, _, ⟨hmatured, rfl⟩, accepted, _, ⟨haccepted, rfl⟩, h⟩ := h
  cases accepted with
  | ok shares =>
    obtain ⟨bounds, hactive, -⟩ := bind_eq_ok_iff.mp haccepted
    unfold dropSwap at h
    simp only [perform_bind_ok_iff, perform_update_ok_iff, perform_changeBook_ok_iff,
      perform_pure_ok_iff] at h
    obtain ⟨_, _, rfl, shares, _, ⟨book, hdeposit, rfl⟩, rfl, rfl⟩ := h
    exact .deposited hmatured hactive hdeposit
  | error reason =>
    unfold dropSwap at h
    simp only [perform_bind_ok_iff, perform_look_ok_iff, perform_read_ok_iff,
      perform_update_ok_iff, perform_enterUnbonding_ok_iff, perform_pure_ok_iff] at h
    obtain ⟨_, _, ⟨rfl, rfl⟩, _, _, ⟨-, rfl⟩, _, _, rfl, _, _,
      ⟨released, unbonding, henter, rfl⟩, rfl, rfl⟩ := h
    exact .unbonded hmatured haccepted henter

theorem effect_of_claimUnbondings {claimed : Amount}
    (h : (claimUnbondings who block).perform l = (.ok claimed, l')) :
    Effect block l .claimUnbondings (some who) (.claimed claimed) l' := by
  unfold claimUnbondings at h
  rcases hclaim : l.book.unbonding.claim who block with ⟨paid, unbonding⟩
  rw [perform_bind_ok_iff] at h
  obtain ⟨_, _, hbook, h⟩ := h
  rw [perform_changeBook_ok_iff, hclaim] at hbook
  obtain ⟨_, hbook, rfl⟩ := hbook
  cases hbook
  have heffect := Effect.claimUnbondings hclaim
  by_cases hpaid : paid = 0
  · rw [if_neg (not_not_intro hpaid)] at h
    cases h
    rw [hpaid, Registry.pay_zero] at heffect
    rw [hpaid]
    exact heffect
  · rw [if_pos hpaid] at h
    cases h
    rw [Registry.pay_of_ne_zero hpaid] at heffect
    exact heffect

theorem effect_of_commitWeights {watcher : WatcherId} {commits : Batch Commit} {epoch : Epoch}
    (h : (commitWeights who watcher commits.items block).perform l = (.ok epoch, l')) :
    Effect block l (.commitWeights watcher commits) (some who) (.epoch epoch) l' := by
  unfold commitWeights at h
  simp only [perform_bind_ok_iff, perform_look_ok_iff, perform_read_ok_iff,
    perform_changeBook_ok_iff, bind_eq_ok_iff, pure_eq_ok_iff, forM_eq_ok_iff, Prod.mk.injEq] at h
  obtain ⟨_, _, ⟨howner, rfl⟩, _, _, ⟨hactive, rfl⟩, _, _, ⟨rfl, rfl⟩, _,
    ⟨⟨_, overwatch⟩, hcommit, rfl, rfl⟩, rfl⟩ := h
  refine .commitWeights howner (fun c hc => ?_) hcommit
  obtain ⟨bounds, hbounds, -⟩ := hactive c hc
  exact ⟨bounds, hbounds⟩

theorem effect_of_revealWeights {watcher : WatcherId} {reveals : Batch Reveal} {epoch : Epoch}
    (h : (revealWeights who watcher reveals.items block).perform l = (.ok epoch, l')) :
    Effect block l (.revealWeights watcher reveals) (some who) (.epoch epoch) l' := by
  unfold revealWeights at h
  simp only [perform_bind_ok_iff, perform_look_ok_iff, perform_read_ok_iff,
    perform_changeBook_ok_iff, bind_eq_ok_iff, pure_eq_ok_iff, Prod.mk.injEq] at h
  obtain ⟨_, _, ⟨howner, rfl⟩, _, _, ⟨rfl, rfl⟩, _, ⟨⟨_, overwatch⟩, hreveal, rfl, rfl⟩, rfl⟩ := h
  exact .revealWeights howner hreveal

theorem effect_of_pruneOverwatch {removed : Nat}
    (h : (pruneOverwatch block).perform l = (.ok removed, l')) :
    Effect block l .pruneOverwatch signer (.pruned (.clamp removed)) l' := by
  unfold pruneOverwatch at h
  simp only [perform_bind_ok_iff, perform_read_ok_iff, perform_changeBook_ok_iff, pure_eq_ok_iff,
    Prod.mk.injEq] at h
  obtain ⟨_, _, ⟨rfl, rfl⟩, _, ⟨rfl, rfl⟩, rfl⟩ := h
  exact .pruneOverwatch rfl

/-- **Each swap of a batch has its effect or none.** -/
theorem effect_of_batch (block : Block) (ids : List SwapId) (l : Ledger) :
    BatchEffect block l ids (outcomes block ids l) (executeAll block ids l) := by
  induction ids generalizing l with
  | nil => exact .nil
  | cons id ids ih =>
    unfold outcomes
    show BatchEffect block l (id :: ids) _ (executeAll block ids ((executeSwap id block).perform l).2)
    rcases h : (executeSwap id block).perform l with ⟨e | outcome, m⟩
    · obtain rfl := atomic_executeSwap id block l e m h
      exact .failed h (ih _)
    · exact .ok h (effect_of_executeSwap h) (ih m)

end Ledger

/-! ## Transactions -/

namespace Transaction

open Ledger Operation

variable {l l' : Ledger} {block : Block} {signer : Option AccountId}

theorem perform_sender_ok_iff {who : AccountId} :
    (sender signer).perform l = (.ok who, l') ↔ signer = some who ∧ l = l' := by
  cases signer with
  | none => simp [sender]
  | some s =>
    unfold sender
    simp only
    rw [perform_pure_ok_iff, Option.some.injEq]

/-- What an accepted call with a signer does. -/
theorem perform_sender_bind_ok {α : Type} {f : AccountId → Operation α} {g : α → CallOutput}
    {output : CallOutput}
    (h : (do return g (← f (← sender signer)) : Operation CallOutput).perform l =
      (.ok output, l')) :
    ∃ who x, signer = some who ∧ (f who).perform l = (.ok x, l') ∧ g x = output := by
  rw [perform_bind_ok_iff] at h
  obtain ⟨who, _, hsender, h⟩ := h
  obtain ⟨rfl, rfl⟩ := perform_sender_ok_iff.mp hsender
  obtain ⟨x, _, hx, h⟩ := perform_bind_ok_iff.mp h
  obtain ⟨rfl, rfl⟩ := perform_pure_ok_iff.mp h
  exact ⟨who, x, rfl, hx, rfl⟩

/-- **Whatever a call does that is accepted is an effect.** -/
theorem effect_of_dispatch {call : LedgerCall} {output : CallOutput}
    (h : (dispatch call signer block).perform l = (.ok output, l')) :
    Effect block l call signer output l' := by
  cases call <;> simp only [dispatch] at h
  case addStake subnet amount =>
    obtain ⟨who, x, rfl, hx, rfl⟩ := perform_sender_bind_ok h
    exact effect_of_addStake hx
  case removeStake subnet amount =>
    obtain ⟨who, x, rfl, hx, rfl⟩ := perform_sender_bind_ok h
    exact effect_of_removeStake hx
  case delegate pool amount =>
    obtain ⟨who, x, rfl, hx, rfl⟩ := perform_sender_bind_ok h
    exact effect_of_delegate hx
  case undelegate pool shares =>
    obtain ⟨who, x, rfl, hx, rfl⟩ := perform_sender_bind_ok h
    exact effect_of_undelegate hx
  case swap source target shares =>
    obtain ⟨who, x, rfl, hx, rfl⟩ := perform_sender_bind_ok h
    exact effect_of_queueSwap hx
  case transfer pool target shares =>
    obtain ⟨who, x, rfl, hx, rfl⟩ := perform_sender_bind_ok h
    exact effect_of_transfer hx
  case updateSwap id target =>
    obtain ⟨who, x, rfl, hx, rfl⟩ := perform_sender_bind_ok h
    obtain ⟨bounds, swaps, hactive, hupdate, rfl⟩ := updates_of_updateSwap hx
    exact .updateSwap hactive hupdate
  case updateSwapByTag id tag subnet node =>
    rw [perform_bind_ok_iff] at h
    obtain ⟨who, _, hsender, h⟩ := h
    obtain ⟨rfl, rfl⟩ := perform_sender_ok_iff.mp hsender
    simp only [perform_bind_ok_iff, perform_look_ok_iff, perform_pure_ok_iff] at h
    obtain ⟨target, _, ⟨hparts, rfl⟩, _, _, h, rfl, rfl⟩ := h
    obtain ⟨bounds, swaps, hactive, hupdate, rfl⟩ := updates_of_updateSwap h
    exact .updateSwapByTag hparts hactive hupdate
  case executeSwap id =>
    obtain ⟨outcome, _, hx, hpure⟩ := perform_bind_ok_iff.mp h
    obtain ⟨rfl, rfl⟩ := perform_pure_ok_iff.mp hpure
    exact .executeSwap (effect_of_executeSwap hx)
  case executeReadySwaps max =>
    obtain ⟨results, _, hx, hpure⟩ := perform_bind_ok_iff.mp h
    obtain ⟨rfl, rfl⟩ := perform_pure_ok_iff.mp hpure
    rw [perform_executeReadySwaps] at hx
    cases hx
    exact .executeReadySwaps (effect_of_batch block _ l)
  case claimUnbondings =>
    obtain ⟨who, x, rfl, hx, rfl⟩ := perform_sender_bind_ok h
    exact effect_of_claimUnbondings hx
  case commitWeights watcher commits =>
    obtain ⟨who, x, rfl, hx, rfl⟩ := perform_sender_bind_ok h
    exact effect_of_commitWeights hx
  case revealWeights watcher reveals =>
    obtain ⟨who, x, rfl, hx, rfl⟩ := perform_sender_bind_ok h
    exact effect_of_revealWeights hx
  case pruneOverwatch =>
    obtain ⟨removed, _, hx, hpure⟩ := perform_bind_ok_iff.mp h
    obtain ⟨rfl, rfl⟩ := perform_pure_ok_iff.mp hpure
    exact effect_of_pruneOverwatch hx
  case distribute pool amount =>
    obtain ⟨u, _, hx, hpure⟩ := perform_bind_ok_iff.mp h
    obtain ⟨rfl, rfl⟩ := perform_pure_ok_iff.mp hpure
    exact effect_of_distribute hx

/-- **A transaction has an effect, or it reports an error and leaves the ledger as it is.** -/
theorem effect_of_apply (t : Transaction) (block : Block) (l : Ledger) :
    (∃ signer output, t.checkOrigin = .ok signer ∧
      (t.apply block l).1 = ⟨t.digest, t.call.name, block, some output, none⟩ ∧
      Effect block l t.call signer output (t.apply block l).2) ∨
    ∃ e, t.apply block l = (⟨t.digest, t.call.name, block, none, some e⟩, l) := by
  rcases t.apply_cases block l with ⟨output, hrun, hreport⟩ | ⟨e, -, hrefused⟩
  · refine .inl ?_
    unfold run at hrun
    obtain ⟨signer, _, hlook, hrun⟩ := perform_bind_ok_iff.mp hrun
    obtain ⟨horigin, rfl⟩ := perform_look_ok_iff.mp hlook
    exact ⟨signer, output, horigin, hreport, effect_of_dispatch hrun⟩
  · exact .inr ⟨e, hrefused⟩

/-- A call that has a signer was signed by it. -/
theorem origin_of_checkOrigin {t : Transaction} {who : AccountId}
    (h : t.checkOrigin = .ok (some who)) : t.origin = .signed who := by
  obtain ⟨origin, call⟩ := t
  unfold checkOrigin at h
  simp only at h
  cases origin with
  | signed a =>
    split at h
    · exact congrArg Origin.signed (Option.some.inj (Except.ok.inj h))
    · split at h <;> cases h
      assumption
  | system =>
    split at h
    · cases h
    · split at h <;> cases h
      assumption

end Transaction

end Stakebook
