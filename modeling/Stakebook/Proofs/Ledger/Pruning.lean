import Stakebook.Proofs.Ledger.Acceptance
import Stakebook.Proofs.Ledger.CommitReveal

/-!
# Pruning is invisible

Anyone may prune the overwatch records at any block, so two runs may differ by prunings alone. What a
pruning drops belongs to epochs that are over, and no call looks at such records again: commits and
reveals look at those of the epoch of their block, and all other calls at none. So the two runs give
the same results, and from the first epoch that is retained on they record the same.

Headlines:
* **`leavesOverwatch_executeReadySwaps`** and its companions: the calls that have nothing to do with
  the overwatch records do not notice if others are put in their place.
* **`apply_since`**: no call but a pruning notices if the records of past epochs are dropped.
* **`run_unpruned`**: a run and the same run without its prunings, step by step.
* **`pruning_invisible`**: any two runs that differ by prunings alone, and what one pruning drops.
-/

namespace Stakebook

namespace Ledger

/-- The ledger with other overwatch records. -/
def withOverwatch (l : Ledger) (overwatch : Overwatch) : Ledger :=
  { l with book := { l.book with overwatch } }

/-- The ledger with the overwatch records from an epoch on. -/
def since (l : Ledger) (epoch : Epoch) : Ledger := l.withOverwatch (l.book.overwatch.since epoch)

theorem since_since {l : Ledger} {before epoch : Epoch} (h : before ≤ epoch) :
    (l.since before).since epoch = l.since epoch :=
  congrArg l.withOverwatch (Overwatch.since_since h l.book.overwatch)

/-- Ledgers that agree from an epoch on agree from any later one on. -/
theorem since_eq_of_le {l m : Ledger} {before epoch : Epoch} (h : l.since before = m.since before)
    (hle : before ≤ epoch) : l.since epoch = m.since epoch := by
  rw [← since_since hle, h, since_since hle]

/-! ## Operations that have nothing to do with the records -/

namespace Operation

variable {α β : Type} {l : Ledger} {epoch : Epoch}

/-- With other overwatch records the operation does the same, and it leaves those. -/
def LeavesOverwatch (a : Operation α) : Prop :=
  ∀ l overwatch, a.perform (l.withOverwatch overwatch) =
    ((a.perform l).1, (a.perform l).2.withOverwatch overwatch)

theorem leavesOverwatch_pure (x : α) : (pure x : Operation α).LeavesOverwatch := fun _ _ => rfl

theorem leavesOverwatch_look {f : Ledger → Except LedgerError α}
    (h : ∀ l overwatch, f (l.withOverwatch overwatch) = f l) : (look f).LeavesOverwatch := by
  intro l overwatch
  rw [perform_look, perform_look, h]

theorem leavesOverwatch_update {f : Ledger → Ledger}
    (h : ∀ l overwatch, f (l.withOverwatch overwatch) = (f l).withOverwatch overwatch) :
    (update f).LeavesOverwatch := by
  intro l overwatch
  rw [perform_update, perform_update, h]

theorem leavesOverwatch_change {f : Ledger → Except LedgerError (α × Ledger)}
    (h : ∀ l overwatch, f (l.withOverwatch overwatch) =
      (f l).map fun r => (r.1, r.2.withOverwatch overwatch)) : (change f).LeavesOverwatch := by
  intro l overwatch
  rw [perform_change, perform_change, h]
  cases f l <;> rfl

theorem leavesOverwatch_changeBook {f : Book → Except LedgerError (α × Book)}
    (h : ∀ (b : Book) (overwatch : Overwatch), f { b with overwatch } =
      (f b).map fun r => (r.1, { r.2 with overwatch })) : (changeBook f).LeavesOverwatch := by
  refine leavesOverwatch_change fun l overwatch => ?_
  show (f { l.book with overwatch } >>= _) = _
  rw [h]
  cases f l.book <;> rfl

theorem LeavesOverwatch.attempt {a : Operation α} (h : a.LeavesOverwatch) :
    a.attempt.LeavesOverwatch := by
  intro l overwatch
  rw [perform_attempt, perform_attempt, h]

/-- **Operations in sequence leave the records if each does.** -/
theorem LeavesOverwatch.bind {a : Operation α} {g : α → Operation β} (ha : a.LeavesOverwatch)
    (hg : ∀ x, (g x).LeavesOverwatch) : (a >>= g).LeavesOverwatch := by
  intro l overwatch
  rw [perform_bind, perform_bind, ha]
  rcases a.perform l with ⟨e | x, m⟩
  · rfl
  · exact hg x m overwatch

/-- A check that does not read the records. -/
theorem LeavesOverwatch.bind_look {f : Ledger → Except LedgerError α} {g : α → Operation β}
    (h : ∀ l overwatch, f (l.withOverwatch overwatch) = f l) (hg : ∀ x, (g x).LeavesOverwatch) :
    (look f >>= g).LeavesOverwatch :=
  (leavesOverwatch_look h).bind hg

theorem LeavesOverwatch.bind_pure {a : Operation α} (ha : a.LeavesOverwatch) (f : α → β) :
    (a >>= fun x => pure (f x)).LeavesOverwatch :=
  ha.bind fun x => leavesOverwatch_pure (f x)

end Operation

open Operation Book

theorem leavesOverwatch_creditFree (who : AccountId) (amount : Amount) :
    (creditFree who amount).LeavesOverwatch :=
  leavesOverwatch_update fun _ _ => rfl

theorem leavesOverwatch_debitFree (who : AccountId) (amount : Amount) :
    (debitFree who amount).LeavesOverwatch := by
  refine leavesOverwatch_change fun l overwatch => ?_
  show (l.registry.debit who amount >>= _) = _
  cases l.registry.debit who amount <;> rfl

theorem leavesOverwatch_enterUnbonding (who : AccountId) (amount : Amount) (unlock block : Block) :
    (enterUnbonding who amount unlock block).LeavesOverwatch := by
  unfold enterUnbonding
  refine .bind (leavesOverwatch_changeBook fun b overwatch => ?_) fun released => ?_
  · simp only
    cases b.unbonding.enqueue who amount unlock block <;> rfl
  · by_cases h : released = 0
    · rw [if_neg (not_not_intro h)]
      exact leavesOverwatch_pure ()
    · rw [if_pos h]
      exact leavesOverwatch_creditFree who released

theorem leavesOverwatch_claimUnbondings (who : AccountId) (block : Block) :
    (claimUnbondings who block).LeavesOverwatch := by
  unfold claimUnbondings
  refine .bind (leavesOverwatch_changeBook fun _ _ => rfl) fun claimed => ?_
  by_cases h : claimed = 0
  · rw [if_neg (not_not_intro h)]
    exact leavesOverwatch_pure claimed
  · rw [if_pos h]
    exact (leavesOverwatch_creditFree who claimed).bind_pure _

theorem leavesOverwatch_addStake (who : AccountId) (subnet : SubnetId) (amount : Amount) :
    (addStake who subnet amount).LeavesOverwatch := by
  unfold addStake
  refine .bind_look (fun _ _ => rfl) fun bounds => ?_
  refine .bind_look (fun _ _ => rfl) fun _ => ?_
  refine (leavesOverwatch_debitFree who amount).bind fun _ => ?_
  refine leavesOverwatch_changeBook fun b overwatch => ?_
  simp only
  cases b.stakes.add who subnet amount bounds <;> rfl

theorem leavesOverwatch_removeStake (who : AccountId) (subnet : SubnetId) (amount : Amount)
    (block : Block) : (removeStake who subnet amount block).LeavesOverwatch := by
  unfold removeStake
  refine .bind_look (fun _ _ => rfl) fun bounds => ?_
  refine .bind_look (fun _ _ => rfl) fun _ => ?_
  refine .bind_look (fun _ _ => rfl) fun _ => ?_
  refine .bind (leavesOverwatch_changeBook fun b overwatch => ?_) fun _ => ?_
  · simp only
    cases b.stakes.remove who subnet amount bounds <;> rfl
  · exact (leavesOverwatch_enterUnbonding who amount _ block).bind_pure _

theorem leavesOverwatch_delegate (who : AccountId) (pool : PoolId) (amount : Amount) :
    (delegate who pool amount).LeavesOverwatch := by
  unfold delegate
  refine .bind_look (fun _ _ => rfl) fun _ => ?_
  refine .bind_look (fun _ _ => rfl) fun minimum => ?_
  refine .bind_look (fun l o =>
    (besidePools_overwatch o).quoteDeposit_eq l.book pool amount minimum) fun _ => ?_
  refine (leavesOverwatch_debitFree who amount).bind fun _ => ?_
  exact leavesOverwatch_changeBook fun b o =>
    (besidePools_overwatch o).deposit_eq b who pool amount minimum

theorem leavesOverwatch_undelegate (who : AccountId) (pool : PoolId) (shares : Shares)
    (block : Block) : (undelegate who pool shares block).LeavesOverwatch := by
  have hwithdraw : (changeBook fun b => b.withdraw who pool shares).LeavesOverwatch :=
    leavesOverwatch_changeBook fun b o => (besidePools_overwatch o).withdraw_eq b who pool shares
  unfold undelegate
  refine .bind_look (fun _ _ => rfl) fun period => ?_
  refine .bind_look (fun l o =>
    (besidePools_overwatch o).quoteWithdraw_eq l.book who pool shares) fun paid => ?_
  by_cases hpaid : paid = 0
  · simp only [if_neg (not_not_intro hpaid)]
    exact hwithdraw.bind_pure _
  · simp only [if_pos hpaid]
    refine .bind_look (fun _ _ => rfl) fun _ => hwithdraw.bind fun _ => ?_
    exact (leavesOverwatch_enterUnbonding who paid _ block).bind_pure _

theorem leavesOverwatch_transfer (source : AccountId) (pool : PoolId) (target : AccountId)
    (shares : Shares) : (transfer source pool target shares).LeavesOverwatch := by
  unfold transfer
  refine .bind_look (fun _ _ => rfl) fun minimum => ?_
  refine leavesOverwatch_changeBook fun b overwatch => ?_
  rw [(besidePools_overwatch overwatch).transfer_eq]
  cases b.transfer source pool target shares minimum <;> rfl

theorem leavesOverwatch_distribute (pool : PoolId) (amount : Amount) :
    (distribute pool amount).LeavesOverwatch := by
  unfold distribute
  refine .bind_look (fun _ _ => rfl) fun _ => ?_
  refine leavesOverwatch_changeBook fun b overwatch => ?_
  rw [(besidePools_overwatch overwatch).distribute_eq]
  cases b.distribute pool amount <;> rfl

theorem leavesOverwatch_queueSwap (who : AccountId) (source target : PoolId) (shares : Shares)
    (block : Block) : (queueSwap who source target shares block).LeavesOverwatch := by
  have hwithdraw : (changeBook fun b => b.withdraw who source shares).LeavesOverwatch :=
    leavesOverwatch_changeBook fun b o => (besidePools_overwatch o).withdraw_eq b who source shares
  unfold queueSwap
  refine .bind_look (fun _ _ => rfl) fun _ => ?_
  refine .bind_look (fun l o => (besidePools_overwatch o).quoteWithdraw_eq l.book who source shares)
    fun balance => ?_
  refine .bind_look (fun _ _ => rfl) fun _ => ?_
  refine .bind_look (fun _ _ => rfl) fun delay => hwithdraw.bind fun _ => ?_
  refine leavesOverwatch_changeBook fun b overwatch => ?_
  simp only
  cases b.swaps.enqueue who target balance block delay <;> rfl

theorem leavesOverwatch_updateSwap (who : AccountId) (id : SwapId) (target : PoolId)
    (block : Block) : (updateSwap who id target block).LeavesOverwatch := by
  unfold updateSwap
  refine .bind_look (fun _ _ => rfl) fun _ => ?_
  refine .bind_look (fun _ _ => rfl) fun _ => ?_
  refine leavesOverwatch_changeBook fun b overwatch => ?_
  simp only
  cases b.swaps.update id who target block <;> rfl

theorem leavesOverwatch_dropSwap (id : SwapId) : (dropSwap id).LeavesOverwatch :=
  leavesOverwatch_update fun _ _ => rfl

theorem leavesOverwatch_executeSwap (id : SwapId) (block : Block) :
    (executeSwap id block).LeavesOverwatch := by
  unfold executeSwap
  refine .bind_look (fun _ _ => rfl) fun swap => ?_
  refine .bind_look (fun l overwatch => ?_) fun accepted => ?_
  · show Except.ok (l.registry.activePool swap.target >>= fun _ => _) = _
    simp only [withOverwatch, (besidePools_overwatch overwatch).quoteDeposit_eq]
  cases accepted with
  | ok shares =>
    refine (leavesOverwatch_dropSwap id).bind fun _ => .bind_pure ?_ _
    exact leavesOverwatch_changeBook fun b o =>
      (besidePools_overwatch o).deposit_eq b swap.account swap.target swap.balance 0
  | error reason =>
    refine .bind_look (fun _ _ => rfl) fun period => ?_
    refine .bind_look (fun _ _ => rfl) fun _ => (leavesOverwatch_dropSwap id).bind fun _ => ?_
    exact (leavesOverwatch_enterUnbonding swap.account swap.balance _ block).bind_pure _

/-- **A batch of swaps leaves the records** because each swap does. -/
theorem leavesOverwatch_executeEach (block : Block) (ids : List SwapId) :
    (executeEach block ids).LeavesOverwatch := by
  induction ids with
  | nil => exact leavesOverwatch_pure []
  | cons id ids ih =>
    unfold executeEach
    exact (leavesOverwatch_executeSwap id block).attempt.bind fun _ => ih.bind_pure _

theorem leavesOverwatch_executeReadySwaps (block : Block) (max : Count) :
    (executeReadySwaps block max).LeavesOverwatch := by
  unfold executeReadySwaps
  exact .bind_look (fun _ _ => rfl) fun ids => leavesOverwatch_executeEach block ids

/-! ## Calls and the records of past epochs -/

variable {l : Ledger} {block : Block} {epoch : Epoch}

namespace Operation

variable {α β : Type}

/-- On this ledger the operation does the same if the records of the epochs before one are dropped
first, and leaves the same as if they are dropped afterwards. -/
def BlindAt (a : Operation α) (epoch : Epoch) (l : Ledger) : Prop :=
  a.perform (l.since epoch) = ((a.perform l).1, (a.perform l).2.since epoch)

/-- What has nothing to do with the records does not notice. -/
theorem LeavesOverwatch.blindAt {a : Operation α} (h : a.LeavesOverwatch) (epoch : Epoch)
    (l : Ledger) : a.BlindAt epoch l := by
  -- the records that stand there before stand there afterwards
  have hkept : (a.perform l).2.book.overwatch = l.book.overwatch :=
    congrArg (fun r => r.2.book.overwatch) (h l l.book.overwatch)
  unfold BlindAt since
  rw [h, hkept]

theorem blindAt_changeBook {f : Book → Except LedgerError (α × Book)}
    (h : f (l.since epoch).book =
      (f l.book).map fun r => (r.1, { r.2 with overwatch := r.2.overwatch.since epoch })) :
    (changeBook f).BlindAt epoch l := by
  unfold BlindAt changeBook
  rw [perform_change, perform_change, h]
  cases f l.book <;> rfl

/-- A check that does not read the records that are dropped. -/
theorem BlindAt.bind_look {f : Ledger → Except LedgerError α} {g : α → Operation β}
    (h : f (l.since epoch) = f l) (hg : ∀ x, f l = .ok x → (g x).BlindAt epoch l) :
    (look f >>= g).BlindAt epoch l := by
  unfold BlindAt
  rw [perform_bind, perform_bind, perform_look, perform_look, h]
  cases hf : f l with
  | error e => rfl
  | ok x => exact hg x hf

theorem BlindAt.bind_pure {a : Operation α} (h : a.BlindAt epoch l) (f : α → β) :
    (a >>= fun x => pure (f x)).BlindAt epoch l := by
  unfold BlindAt at h ⊢
  rw [perform_bind, perform_bind, h]
  rcases a.perform l with ⟨e | x, m⟩
  · rfl
  · rfl

end Operation

/-- **Commits are blind to past epochs.** -/
theorem blindAt_commitWeights (hepoch : epoch ≤ l.registry.network.schedule.epochOf block)
    (who : AccountId) (watcher : WatcherId) (commits : List Commit) :
    (commitWeights who watcher commits block).BlindAt epoch l := by
  unfold commitWeights
  refine .bind_look rfl fun _ _ => ?_
  refine .bind_look rfl fun _ _ => ?_
  refine .bind_look rfl fun schedule hschedule => ?_
  obtain rfl := Except.ok.inj hschedule
  refine blindAt_changeBook ?_
  have hcommit := Overwatch.commitMany_since hepoch l.book.overwatch watcher commits
  simp only [since, withOverwatch, hcommit]
  cases l.book.overwatch.commitMany l.registry.network.schedule block watcher commits <;> rfl

/-- **So are reveals.** -/
theorem blindAt_revealWeights (hepoch : epoch ≤ l.registry.network.schedule.epochOf block)
    (who : AccountId) (watcher : WatcherId) (reveals : List Reveal) :
    (revealWeights who watcher reveals block).BlindAt epoch l := by
  unfold revealWeights
  refine .bind_look rfl fun _ _ => ?_
  refine .bind_look rfl fun schedule hschedule => ?_
  obtain rfl := Except.ok.inj hschedule
  refine blindAt_changeBook ?_
  have hreveal := Overwatch.revealMany_since hepoch l.book.overwatch watcher reveals
  simp only [since, withOverwatch, hreveal]
  cases l.book.overwatch.revealMany l.registry.network.schedule block watcher reveals <;> rfl

end Ledger

namespace Transaction

open Ledger Operation

variable {l m : Ledger} {epoch : Epoch} {block : Block} {call : LedgerCall} {t : Transaction}

/-- A call that needs a signer. -/
theorem blindAt_sender_bind {α : Type} {f : AccountId → Operation α}
    (h : ∀ who, (f who).BlindAt epoch l) (signer : Option AccountId) :
    (sender signer >>= f).BlindAt epoch l := by
  rw [sender_eq_look]
  exact .bind_look rfl fun who _ => h who

/-- **Every call but a pruning is blind to past epochs.** -/
theorem blindAt_dispatch (hcall : call ≠ .pruneOverwatch)
    (hepoch : epoch ≤ l.registry.network.schedule.epochOf block) (signer : Option AccountId) :
    (dispatch call signer block).BlindAt epoch l := by
  unfold dispatch
  cases call with
  | addStake subnet amount =>
    exact blindAt_sender_bind
      (fun who => ((leavesOverwatch_addStake who subnet amount).blindAt epoch l).bind_pure _) signer
  | removeStake subnet amount =>
    exact blindAt_sender_bind (fun who =>
      ((leavesOverwatch_removeStake who subnet amount block).blindAt epoch l).bind_pure _) signer
  | delegate pool amount =>
    exact blindAt_sender_bind
      (fun who => ((leavesOverwatch_delegate who pool amount).blindAt epoch l).bind_pure _) signer
  | undelegate pool shares =>
    exact blindAt_sender_bind (fun who =>
      ((leavesOverwatch_undelegate who pool shares block).blindAt epoch l).bind_pure _) signer
  | swap source target shares =>
    exact blindAt_sender_bind (fun who =>
      ((leavesOverwatch_queueSwap who source target shares block).blindAt epoch l).bind_pure _) signer
  | transfer pool target shares =>
    exact blindAt_sender_bind (fun who =>
      ((leavesOverwatch_transfer who pool target shares).blindAt epoch l).bind_pure _) signer
  | updateSwap id target =>
    exact blindAt_sender_bind (fun who =>
      ((leavesOverwatch_updateSwap who id target block).blindAt epoch l).bind_pure _) signer
  | updateSwapByTag id tag subnet node =>
    refine blindAt_sender_bind (fun who => ?_) signer
    refine .bind_look rfl fun target _ => ?_
    exact ((leavesOverwatch_updateSwap who id target block).blindAt epoch l).bind_pure _
  | executeSwap id => exact ((leavesOverwatch_executeSwap id block).blindAt epoch l).bind_pure _
  | executeReadySwaps max =>
    exact ((leavesOverwatch_executeReadySwaps block max).blindAt epoch l).bind_pure _
  | claimUnbondings =>
    exact blindAt_sender_bind
      (fun who => ((leavesOverwatch_claimUnbondings who block).blindAt epoch l).bind_pure _) signer
  | commitWeights watcher commits =>
    exact blindAt_sender_bind
      (fun who => (blindAt_commitWeights hepoch who watcher commits.items).bind_pure _) signer
  | revealWeights watcher reveals =>
    exact blindAt_sender_bind
      (fun who => (blindAt_revealWeights hepoch who watcher reveals.items).bind_pure _) signer
  | pruneOverwatch => exact absurd rfl hcall
  | distribute pool amount =>
    exact ((leavesOverwatch_distribute pool amount).blindAt epoch l).bind_pure _

/-- **No transaction but a pruning notices if the records of past epochs are dropped.** -/
theorem apply_since (hcall : t.call ≠ .pruneOverwatch)
    (hepoch : epoch ≤ l.registry.network.schedule.epochOf block) :
    t.apply block (l.since epoch) = ((t.apply block l).1, (t.apply block l).2.since epoch) := by
  have hrun : (t.run block).BlindAt epoch l :=
    .bind_look rfl fun signer _ => blindAt_dispatch hcall hepoch signer
  unfold apply
  rw [show (t.run block).perform (l.since epoch) = _ from hrun]
  rcases (t.run block).perform l with ⟨e | output, m⟩
  · rfl
  · rfl

/-- **Ledgers that agree from a current epoch on** report the same, and agree afterwards. -/
theorem apply_of_since_eq (hcall : t.call ≠ .pruneOverwatch)
    (hepoch : epoch ≤ l.registry.network.schedule.epochOf block)
    (h : l.since epoch = m.since epoch) :
    (t.apply block l).1 = (t.apply block m).1 ∧
      (t.apply block l).2.since epoch = (t.apply block m).2.since epoch := by
  have hnetwork : l.registry.network = m.registry.network :=
    congrArg (fun l => l.registry.network) h
  have hl := apply_since hcall hepoch
  have hm := apply_since hcall (hnetwork ▸ hepoch)
  rw [h, hm] at hl
  obtain ⟨hreport, hledger⟩ := Prod.mk.inj hl
  exact ⟨hreport.symm, hledger.symm⟩

/-- **A pruning returns how many records it drops**, and drops those of the epochs that are not
retained. -/
theorem apply_prune (h : t.call = .pruneOverwatch) (block : Block) (l : Ledger) :
    t.apply block l =
      (⟨t.digest, t.call.name, block, some (.pruned (.clamp
        (l.book.overwatch.countBefore (l.registry.network.firstRetained block)))), none⟩,
        l.since (l.registry.network.firstRetained block)) := by
  obtain ⟨origin, call⟩ := t
  cases h
  exact apply_eq_of_effect rfl (.pruneOverwatch (Overwatch.prune_eq ..))

end Transaction

/-! ## Runs that differ by prunings -/

/-- Whether an event is a pruning. -/
def Event.isPruning : Event → Bool
  | .transaction t _ => t.call = .pruneOverwatch
  | .administration _ => false

/-- A run without its prunings. -/
def unpruned (events : List Event) : List Event := events.filter fun e => !e.isPruning

theorem unpruned_cons_pruning {t : Transaction} (h : t.call = .pruneOverwatch) (block : Block)
    (events : List Event) : unpruned (.transaction t block :: events) = unpruned events :=
  List.filter_cons_of_neg (by simp [Event.isPruning, h])

theorem unpruned_cons_transaction {t : Transaction} (h : t.call ≠ .pruneOverwatch) (block : Block)
    (events : List Event) :
    unpruned (.transaction t block :: events) = .transaction t block :: unpruned events :=
  List.filter_cons_of_pos (by simp [Event.isPruning, h])

namespace NetworkParams

variable {network : NetworkParams} {block later : Block}

/-- Later on fewer epochs are retained. -/
theorem firstRetained_le (network : NetworkParams) (h : block ≤ later) :
    network.firstRetained block ≤ network.firstRetained later :=
  Nat.sub_le_sub_right (network.schedule.epochOf_le h) _

/-- The epoch of a block is retained at it. -/
theorem firstRetained_le_epochOf (network : NetworkParams) (block : Block) :
    network.firstRetained block ≤ network.schedule.epochOf block :=
  Nat.sub_le _ _

end NetworkParams

namespace Ledger

/-- The reports on the transactions of a run that are not prunings. -/
def results (l : Ledger) : List Event → List ExecutionResult
  | [] => []
  | .administration a :: events => results (l.step (.administration a)) events
  | .transaction t block :: events =>
    if t.call = .pruneOverwatch then results (l.step (.transaction t block)) events
    else (t.apply block l).1 :: results (l.step (.transaction t block)) events

/-- Two ledgers agree in everything but the overwatch records of the epochs before one. -/
structure AlikeFrom (epoch : Epoch) (l m : Ledger) : Prop where
  rest : l.withOverwatch m.book.overwatch = m
  commits : ∀ e watcher subnet, epoch ≤ e → l.commitOf e watcher subnet = m.commitOf e watcher subnet
  reveals : ∀ e watcher subnet, epoch ≤ e → l.revealOf e watcher subnet = m.revealOf e watcher subnet

/-- The second ledger is the first without the overwatch records of the epochs before one. -/
structure PrunedTo (epoch : Epoch) (l m : Ledger) : Prop where
  rest : l.withOverwatch m.book.overwatch = m
  commits : ∀ e watcher subnet, m.commitOf e watcher subnet =
    if e < epoch then none else l.commitOf e watcher subnet
  reveals : ∀ e watcher subnet, m.revealOf e watcher subnet =
    if e < epoch then none else l.revealOf e watcher subnet

variable {l m : Ledger} {block : Block} {epoch : Epoch} {network : NetworkParams}

theorem prunedTo_since (l : Ledger) (epoch : Epoch) : PrunedTo epoch l (l.since epoch) :=
  ⟨rfl, fun e watcher subnet => Overwatch.commitOf_since _ epoch e watcher subnet,
    fun e watcher subnet => Overwatch.revealOf_since _ epoch e subnet watcher⟩

theorem alikeFrom_of_since_eq (h : l.since epoch = m.since epoch) : AlikeFrom epoch l m := by
  have hrecords : l.book.overwatch.since epoch = m.book.overwatch.since epoch :=
    congrArg (fun l => l.book.overwatch) h
  obtain ⟨hcommits, hreveals⟩ := Overwatch.since_eq_since_iff.mp hrecords
  have hrest : (l.since epoch).withOverwatch m.book.overwatch =
      (m.since epoch).withOverwatch m.book.overwatch := by rw [h]
  exact ⟨hrest, hcommits, fun e watcher subnet => hreveals e subnet watcher⟩

/-- **A run and the same run without its prunings**, from ledgers that agree from the first epoch on
that is retained: they report the same, and in the end they agree from the first epoch on that is
retained then. -/
theorem run_unpruned (hnetwork : l.registry.network = network) {events : List Event}
    (hordered : (block :: blocks events).Pairwise (· ≤ ·))
    (h : l.since (network.firstRetained block) = m.since (network.firstRetained block)) :
    l.results events = m.results (unpruned events) ∧
      ∀ last, (∀ b ∈ block :: blocks events, b ≤ last) →
        (l.run events).since (network.firstRetained last) =
          (m.run (unpruned events)).since (network.firstRetained last) := by
  induction events generalizing block l m with
  | nil =>
    refine ⟨rfl, fun last hlast => since_eq_of_le h ?_⟩
    exact network.firstRetained_le (hlast block List.mem_cons_self)
  | cons e events ih =>
    have hnext := (network_step l e).trans hnetwork
    cases e with
    | administration a =>
      -- the registry is changed in the same way on both sides
      have hstep : (l.step (.administration a)).since (network.firstRetained block) =
          (m.step (.administration a)).since (network.firstRetained block) :=
        congrArg (fun l => l.step (.administration a)) h
      exact ih hnext hordered hstep
    | transaction t later =>
      obtain ⟨hle, hrest⟩ := List.pairwise_cons.mp hordered
      have hlater := network.firstRetained_le (hle later List.mem_cons_self)
      have hsame := since_eq_of_le h hlater
      by_cases hcall : t.call = .pruneOverwatch
      · -- a pruning drops what is not compared any more
        have hstep : l.step (.transaction t later) = l.since (network.firstRetained later) := by
          rw [← hnetwork]
          exact congrArg Prod.snd (Transaction.apply_prune hcall later l)
        have hagree : (l.step (.transaction t later)).since (network.firstRetained later) =
            m.since (network.firstRetained later) := by
          rw [hstep, since_since (Nat.le_refl _), hsame]
        obtain ⟨hresults, hrun⟩ := ih hnext hrest hagree
        rw [unpruned_cons_pruning hcall, results, if_pos hcall]
        exact ⟨hresults, fun last hlast => hrun last fun b hb => hlast b (List.mem_cons_of_mem _ hb)⟩
      · have hepoch := network.firstRetained_le_epochOf later
        rw [← hnetwork] at hepoch hsame
        obtain ⟨hreport, hstep⟩ := Transaction.apply_of_since_eq hcall hepoch hsame
        rw [hnetwork] at hstep
        obtain ⟨hresults, hrun⟩ := ih hnext hrest hstep
        rw [unpruned_cons_transaction hcall, results, results, if_neg hcall, if_neg hcall, hreport]
        exact ⟨congrArg _ hresults,
          fun last hlast => hrun last fun b hb => hlast b (List.mem_cons_of_mem _ hb)⟩

/-- **Pruning is invisible.** Take any ledger. Two runs of it that differ by prunings alone, at blocks
that never decrease, report the same on every other transaction, and afterwards agree in everything
but the overwatch records of epochs that are not retained at the last of their blocks. One pruning
drops exactly the records of the epochs that are not retained at its block, and returns how many there
were; whoever asks for it, it is carried out. -/
theorem pruning_invisible (l : Ledger) :
    (∀ events events', unpruned events = unpruned events' →
      (blocks events).Pairwise (· ≤ ·) → (blocks events').Pairwise (· ≤ ·) →
      l.results events = l.results events' ∧
      ∀ last, (∀ b ∈ blocks events, b ≤ last) → (∀ b ∈ blocks events', b ≤ last) →
        AlikeFrom (l.registry.network.firstRetained last) (l.run events) (l.run events')) ∧
    ∀ block, ∃ l', PrunedTo (l.registry.network.firstRetained block) l l' ∧
      (pruneOverwatch block).perform l =
        (.ok (l.book.overwatch.countBefore (l.registry.network.firstRetained block)), l') ∧
      ∀ t : Transaction, t.call = .pruneOverwatch →
        t.apply block l =
          (⟨t.digest, t.call.name, block, some (.pruned (.clamp
            (l.book.overwatch.countBefore (l.registry.network.firstRetained block)))), none⟩, l') := by
  have hzero (b : Block) : (0 : Block) ≤ b := by
    rw [Word.le_def, Word.toNat_zero]
    exact Nat.zero_le _
  have hstart : l.since (l.registry.network.firstRetained 0) = l.since _ := rfl
  have hunpruned {events : List Event} (hordered : (blocks events).Pairwise (· ≤ ·)) :=
    run_unpruned rfl (List.pairwise_cons.mpr ⟨fun b _ => hzero b, hordered⟩) hstart
  constructor
  · intro events events' hsame hordered hordered'
    obtain ⟨hresults, hrun⟩ := hunpruned hordered
    obtain ⟨hresults', hrun'⟩ := hunpruned hordered'
    rw [hsame] at hresults hrun
    refine ⟨hresults.trans hresults'.symm, fun last hlast hlast' => alikeFrom_of_since_eq ?_⟩
    have hbound := hrun last (List.forall_mem_cons.mpr ⟨hzero last, hlast⟩)
    have hbound' := hrun' last (List.forall_mem_cons.mpr ⟨hzero last, hlast'⟩)
    exact hbound.trans hbound'.symm
  · intro block
    exact ⟨l.since _, prunedTo_since l _, perform_pruneOverwatch (Overwatch.prune_eq ..),
      fun t ht => Transaction.apply_prune ht block l⟩

/-- Two epochs after its first weight the node commits and reveals another. -/
def resealing (between : List Event) : List Event :=
  sealing ++
    .transaction ⟨.signed (.dev 1), .commitWeights 7
      ⟨[⟨1, commitDigest 300000000000000000 [4]⟩], by decide⟩⟩ 43 :: between ++
    [.transaction ⟨.signed (.dev 1), .revealWeights 7
      ⟨[⟨1, 300000000000000000, ⟨[4], by decide⟩⟩], by decide⟩⟩ 52]

/-- Another account prunes in between. -/
def sweep : Transaction := ⟨.signed (.dev 9), .pruneOverwatch⟩

theorem pruning_invisible_swept :
    AlikeFrom 1 ((new watched).run (resealing [.transaction sweep 45]))
        ((new watched).run (resealing [])) ∧
      (new watched).results (resealing [.transaction sweep 45]) =
        (new watched).results (resealing []) ∧
      ((new watched).run (resealing [.transaction sweep 45])).revealOf 0 7 1 = none ∧
      ((new watched).run (resealing [])).revealOf 0 7 1 = some 600000000000000000 ∧
      (sweep.apply 60 ((new watched).run (resealing []))).1.output = some (.pruned 2) := by
  have hordered : (blocks (resealing [.transaction sweep 45])).Pairwise (· ≤ ·) := by
    decide +kernel
  have hordered' : (blocks (resealing [])).Pairwise (· ≤ ·) := by decide +kernel
  have hlast : ∀ b ∈ blocks (resealing [.transaction sweep 45]), b ≤ 52 := by decide +kernel
  have hlast' : ∀ b ∈ blocks (resealing []), b ≤ 52 := by decide +kernel
  have hsame : unpruned (resealing [.transaction sweep 45]) = unpruned (resealing []) := rfl
  obtain ⟨hresults, halike⟩ := (pruning_invisible (new watched)).1 _ _ hsame hordered hordered'
  have hcount : ((new watched).run (resealing [])).book.overwatch.countBefore
      (((new watched).run (resealing [])).registry.network.firstRetained 60) = 2 := by
    decide +kernel
  obtain ⟨_, -, -, hprune⟩ := (pruning_invisible ((new watched).run (resealing []))).2 60
  refine ⟨halike 52 hlast hlast', hresults, by decide +kernel, by decide +kernel, ?_⟩
  rw [hprune sweep rfl, hcount]
  rfl

end Ledger

end Stakebook
