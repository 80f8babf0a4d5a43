import Stakebook.Execution
import Stakebook.Proofs.Ledger.Pools
import Stakebook.Proofs.Registry
import Stakebook.Proofs.Stakes
import Stakebook.Proofs.Unbonding

/-!
# What is refused leaves no trace

A change that was made before an operation stops is not taken back, so an operation is atomic only
if nothing stops after its first change. Every operation looks first at what its later steps look at
again: the changes in between are to other components, and so the later steps cannot stop.

Headlines:
* **`atomic_dispatch`**, **`atomic_run`**: every call, and every transaction.
* **`executeAll_succeeded`**: a batch of swaps leaves what the swaps that succeed leave.
* **`apply_atomic`**: both, for a transaction on any ledger.
-/

namespace Stakebook

namespace Ledger

open Book Operation

variable {l l' : Ledger} {who : AccountId} {amount : Amount} {unlock block : Block}

/-! ## Payments -/

/-- A credit made only for more than nothing is a payment. -/
theorem perform_credit (who : AccountId) (amount : Amount) (l : Ledger) :
    (if amount ≠ 0 then creditFree who amount else pure () : Operation Unit).perform l =
      (.ok (), ⟨l.book, l.registry.pay who amount⟩) := by
  by_cases h : amount = 0
  · rw [if_neg (not_not_intro h), h, Registry.pay_zero]
    rfl
  · rw [if_pos h, Registry.pay_of_ne_zero h]
    rfl

theorem perform_debitFree_ok_iff {u : Unit} :
    (debitFree who amount).perform l = (.ok u, l') ↔
      ∃ registry, l.registry.debit who amount = .ok registry ∧ l' = ⟨l.book, registry⟩ := by
  unfold debitFree
  simp only [perform_change_ok_iff, bind_eq_ok_iff, pure_eq_ok_iff, Prod.mk.injEq]
  constructor
  · rintro ⟨registry, h, -, rfl⟩
    exact ⟨registry, h, rfl⟩
  · rintro ⟨registry, h, rfl⟩
    exact ⟨registry, h, trivial, rfl⟩

/-- **What enters the list of an account, and what it pays out to make room.** -/
theorem perform_enterUnbonding_ok_iff {u : Unit} :
    (enterUnbonding who amount unlock block).perform l = (.ok u, l') ↔
      ∃ released unbonding,
        l.book.unbonding.enqueue who amount unlock block = .ok (released, unbonding) ∧
          l' = ⟨{ l.book with unbonding }, l.registry.pay who released⟩ := by
  unfold enterUnbonding
  simp only [perform_bind_ok_iff, perform_changeBook_ok_iff, bind_eq_ok_iff, pure_eq_ok_iff,
    Prod.mk.injEq, perform_credit]
  constructor
  · rintro ⟨released, _, ⟨book, ⟨⟨_, unbonding⟩, h, rfl, rfl⟩, rfl⟩, -, rfl⟩
    exact ⟨_, unbonding, h, rfl⟩
  · rintro ⟨released, unbonding, h, rfl⟩
    exact ⟨released, _, ⟨_, ⟨(released, unbonding), h, rfl, rfl⟩, rfl⟩, trivial, rfl⟩

/-- What passed the check of the unbonding lists enters them. -/
theorem succeedsAt_enterUnbonding
    (h : l.book.unbonding.checkEnqueue who amount unlock block = .ok ()) :
    (enterUnbonding who amount unlock block).SucceedsAt l := by
  obtain ⟨released, unbonding, henter⟩ := Unbonding.enqueue_of_check h
  exact ⟨(), _, perform_enterUnbonding_ok_iff.mpr ⟨released, unbonding, henter, rfl⟩⟩

/-! ## One operation -/

theorem atomic_claimUnbondings (who : AccountId) (block : Block) :
    (claimUnbondings who block).Atomic := by
  intro l
  unfold claimUnbondings
  refine (atomic_changeBook _ l).bind fun claimed m _ => ?_
  by_cases h : claimed = 0
  · rw [if_neg (not_not_intro h)]
    exact succeedsAt_pure _ m
  · rw [if_pos h]
    exact (succeedsAt_update _ m).bind fun _ n _ => succeedsAt_pure _ n

/-- The debit is the first change, and it leaves the stakes that were checked. -/
theorem atomic_addStake (who : AccountId) (subnet : SubnetId) (amount : Amount) :
    (addStake who subnet amount).Atomic := by
  intro l
  unfold addStake
  refine .bind_look fun bounds _ => .bind_look fun balance hcheck => ?_
  refine AtomicAt.bind (atomic_change _ l) fun _ m hm => ?_
  obtain ⟨registry, -, rfl⟩ := perform_debitFree_ok_iff.mp hm
  exact succeedsAt_changeBook
    ⟨balance, _, bind_eq_ok_iff.mpr ⟨_, Stakes.add_eq_ok_iff.mpr ⟨hcheck, rfl⟩, rfl⟩⟩

/-- The stakes change first, and they leave the unbonding lists that were checked. -/
theorem atomic_removeStake (who : AccountId) (subnet : SubnetId) (amount : Amount)
    (block : Block) : (removeStake who subnet amount block).Atomic := by
  intro l
  unfold removeStake
  refine .bind_look fun bounds _ => .bind_look fun remaining _ => .bind_look fun _ hroom => ?_
  refine AtomicAt.bind (atomic_changeBook _ l) fun _ m hm => ?_
  obtain ⟨book, hbook, rfl⟩ := perform_changeBook_ok_iff.mp hm
  simp only [bind_eq_ok_iff, pure_eq_ok_iff, Prod.mk.injEq] at hbook
  obtain ⟨⟨_, stakes⟩, -, rfl, rfl⟩ := hbook
  exact SucceedsAt.bind (succeedsAt_enterUnbonding hroom) fun _ n _ => succeedsAt_pure _ n

/-- The debit is the first change, and it leaves the pools that were quoted. -/
theorem atomic_delegate (who : AccountId) (pool : PoolId) (amount : Amount) :
    (delegate who pool amount).Atomic := by
  intro l
  unfold delegate
  refine .bind_look fun _ _ => .bind_look fun minimum _ => .bind_look fun shares hquote => ?_
  refine AtomicAt.bind (atomic_change _ l) fun _ m hm => ?_
  obtain ⟨registry, -, rfl⟩ := perform_debitFree_ok_iff.mp hm
  obtain ⟨book, hdeposit⟩ := deposit_of_quote hquote who
  exact succeedsAt_changeBook ⟨shares, book, hdeposit⟩

/-- The pools change first, and they leave the unbonding lists that were checked. -/
theorem atomic_undelegate (who : AccountId) (pool : PoolId) (shares : Shares) (block : Block) :
    (undelegate who pool shares block).Atomic := by
  intro l
  unfold undelegate
  refine .bind_look fun period _ => .bind_look fun paid _ => ?_
  by_cases hpaid : paid = 0
  · simp only [if_neg (not_not_intro hpaid)]
    exact AtomicAt.bind (atomic_changeBook _ l) fun _ m _ => succeedsAt_pure _ m
  · simp only [if_pos hpaid]
    refine .bind_look fun _ hroom => AtomicAt.bind (atomic_changeBook _ l) fun _ m hm => ?_
    obtain ⟨book, hwithdraw, rfl⟩ := perform_changeBook_ok_iff.mp hm
    rw [← (PoolMove.of_withdraw hwithdraw).unbonding_eq] at hroom
    exact SucceedsAt.bind (succeedsAt_enterUnbonding hroom) fun _ n _ => succeedsAt_pure _ n

theorem atomic_transfer (source : AccountId) (pool : PoolId) (target : AccountId)
    (shares : Shares) : (transfer source pool target shares).Atomic := by
  intro l
  unfold transfer
  exact .bind_look fun minimum _ => atomic_changeBook _ l

theorem atomic_distribute (pool : PoolId) (amount : Amount) : (distribute pool amount).Atomic := by
  intro l
  unfold distribute
  exact .bind_look fun _ _ => atomic_changeBook _ l

/-- The pools change first, and they leave the queue that was checked. -/
theorem atomic_queueSwap (who : AccountId) (source target : PoolId) (shares : Shares)
    (block : Block) : (queueSwap who source target shares block).Atomic := by
  intro l
  unfold queueSwap
  refine .bind_look fun _ _ => .bind_look fun balance _ => .bind_look fun _ hqueue =>
    .bind_look fun delay _ => AtomicAt.bind (atomic_changeBook _ l) fun _ m hm => ?_
  obtain ⟨book, hwithdraw, rfl⟩ := perform_changeBook_ok_iff.mp hm
  rw [← (PoolMove.of_withdraw hwithdraw).swaps_eq] at hqueue
  exact succeedsAt_changeBook ⟨_, _, bind_eq_ok_iff.mpr
    ⟨_, SwapQueue.enqueue_eq_ok_iff.mpr ⟨hqueue, rfl, rfl⟩, rfl⟩⟩

theorem atomic_updateSwap (who : AccountId) (id : SwapId) (target : PoolId) (block : Block) :
    (updateSwap who id target block).Atomic := by
  intro l
  unfold updateSwap
  exact .bind_look fun _ _ => .bind_look fun _ _ => atomic_changeBook _ l

/-- The swap leaves the queue first. Whether it then is deposited or unbonded was decided before, by
pools and lists that it does not touch. -/
theorem atomic_executeSwap (id : SwapId) (block : Block) : (executeSwap id block).Atomic := by
  intro l
  unfold executeSwap
  refine .bind_look fun swap _ => .bind_look fun accepted haccepted => ?_
  obtain rfl := Except.ok.inj haccepted
  split
  · next shares haccepted =>
    obtain ⟨_, -, hquote⟩ := bind_eq_ok_iff.mp haccepted
    refine SucceedsAt.atomicAt (SucceedsAt.bind (succeedsAt_update _ l) fun _ m hm => ?_)
    obtain rfl := perform_update_ok_iff.mp hm
    refine SucceedsAt.bind (succeedsAt_changeBook ?_) fun _ n _ => succeedsAt_pure _ n
    exact ⟨shares, deposit_of_quote ((quoteDeposit_with_swaps ..).trans hquote) swap.account⟩
  · refine .bind_look fun period _ => .bind_look fun _ hroom => ?_
    refine SucceedsAt.atomicAt (SucceedsAt.bind (succeedsAt_update _ l) fun _ m hm => ?_)
    obtain rfl := perform_update_ok_iff.mp hm
    exact SucceedsAt.bind (succeedsAt_enterUnbonding hroom) fun _ n _ => succeedsAt_pure _ n

theorem atomic_commitWeights (who : AccountId) (watcher : WatcherId) (commits : List Commit)
    (block : Block) : (commitWeights who watcher commits block).Atomic := by
  intro l
  unfold commitWeights
  exact .bind_look fun _ _ => .bind_look fun _ _ => .bind_look fun _ _ => atomic_changeBook _ l

theorem atomic_revealWeights (who : AccountId) (watcher : WatcherId) (reveals : List Reveal)
    (block : Block) : (revealWeights who watcher reveals block).Atomic := by
  intro l
  unfold revealWeights
  exact .bind_look fun _ _ => .bind_look fun _ _ => atomic_changeBook _ l

theorem atomic_pruneOverwatch (block : Block) : (pruneOverwatch block).Atomic := by
  intro l
  unfold pruneOverwatch
  exact .bind_look fun _ _ => atomic_changeBook _ l

/-! ## A batch of swaps -/

/-- The ledger after some swaps are executed one after the other, whatever becomes of each. -/
def executeAll (block : Block) (ids : List SwapId) (l : Ledger) : Ledger :=
  ids.foldl (fun l id => ((executeSwap id block).perform l).2) l

/-- What becomes of each swap of a batch. -/
def outcomes (block : Block) : List SwapId → Ledger →
    List (SwapId × Except LedgerError SwapOutcome)
  | [], _ => []
  | id :: ids, l =>
    (id, ((executeSwap id block).perform l).1) ::
      outcomes block ids ((executeSwap id block).perform l).2

/-- A batch reports what becomes of each of its swaps, and never stops. -/
theorem perform_executeEach (block : Block) (ids : List SwapId) (l : Ledger) :
    (executeEach block ids).perform l = (.ok (outcomes block ids l), executeAll block ids l) := by
  induction ids generalizing l with
  | nil => rfl
  | cons id ids ih =>
    unfold executeEach
    rw [perform_bind_of_ok (perform_attempt _ l), perform_bind_of_ok (ih _)]
    rfl

theorem perform_executeReadySwaps (block : Block) (max : Count) (l : Ledger) :
    (executeReadySwaps block max).perform l =
      (.ok (outcomes block (l.book.swaps.ready block max) l),
        executeAll block (l.book.swaps.ready block max) l) := by
  unfold executeReadySwaps
  rw [perform_bind_of_ok (perform_read _ l), perform_executeEach]

theorem executeAll_append (block : Block) (ids ids' : List SwapId) (l : Ledger) :
    executeAll block (ids ++ ids') l = executeAll block ids' (executeAll block ids l) :=
  List.foldl_append

/-- The reports on a batch. -/
def reports (block : Block) (ids : List SwapId) (l : Ledger) : List SwapResult :=
  (outcomes block ids l).map fun e => SwapResult.of e.1 e.2

theorem reports_cons (block : Block) (id : SwapId) (ids : List SwapId) (l : Ledger) :
    reports block (id :: ids) l =
      SwapResult.of id ((executeSwap id block).perform l).1 ::
        reports block ids ((executeSwap id block).perform l).2 := rfl

/-- The numbers of the swaps that succeeded. -/
def succeeded (results : List SwapResult) : List SwapId :=
  (results.filter fun r => r.error.isNone).map SwapResult.id

theorem succeeded_cons (r : SwapResult) (results : List SwapResult) :
    succeeded (r :: results) = succeeded [r] ++ succeeded results := by
  unfold succeeded
  rw [← List.map_append, ← List.filter_append, List.singleton_append]

theorem id_of_report (id : SwapId) (r : Except LedgerError SwapOutcome) :
    (SwapResult.of id r).id = id := by
  cases r <;> rfl

theorem map_id_reports (block : Block) (ids : List SwapId) (l : Ledger) :
    (reports block ids l).map SwapResult.id = ids := by
  induction ids generalizing l with
  | nil => rfl
  | cons id ids ih =>
    rw [reports_cons, List.map_cons, ih, id_of_report]

/-- What one swap leaves is what it leaves if it succeeds: a swap that fails leaves nothing. -/
theorem executeAll_succeeded_report (block : Block) (id : SwapId) (l : Ledger) :
    executeAll block (succeeded [SwapResult.of id ((executeSwap id block).perform l).1]) l =
      ((executeSwap id block).perform l).2 := by
  rcases h : (executeSwap id block).perform l with ⟨e | outcome, l'⟩
  · exact (atomic_executeSwap id block l e l' h).symm
  · show ((executeSwap id block).perform l).2 = l'
    rw [h]

/-- **A batch leaves what its swaps that succeed leave.** -/
theorem executeAll_succeeded (block : Block) (ids : List SwapId) (l : Ledger) :
    executeAll block (succeeded (reports block ids l)) l = executeAll block ids l := by
  induction ids generalizing l with
  | nil => rfl
  | cons id ids ih =>
    rw [reports_cons, succeeded_cons, executeAll_append, executeAll_succeeded_report, ih]
    rfl

/-- Each report of a batch is on a swap executed after those before it that succeeded, and a swap
that is reported with an error leaves nothing. -/
theorem report_of_reports {ids : List SwapId} {r : SwapResult} {before after : List SwapResult}
    (h : reports block ids l = before ++ r :: after) :
    SwapResult.of r.id
        ((executeSwap r.id block).perform (executeAll block (succeeded before) l)).1 = r ∧
      (r.error ≠ none →
        ((executeSwap r.id block).perform (executeAll block (succeeded before) l)).2 =
          executeAll block (succeeded before) l) := by
  induction ids generalizing l before with
  | nil => cases before <;> cases h
  | cons id ids ih =>
    rw [reports_cons] at h
    cases before with
    | nil =>
      obtain ⟨rfl, -⟩ := List.cons.inj h
      rw [id_of_report]
      refine ⟨rfl, fun hne => ?_⟩
      show ((executeSwap id block).perform l).2 = l
      rcases hid : (executeSwap id block).perform l with ⟨e | outcome, l'⟩
      · exact atomic_executeSwap id block l e l' hid
      · rw [hid] at hne
        exact absurd rfl hne
    | cons b before =>
      rw [List.cons_append] at h
      obtain ⟨hb, h⟩ := List.cons.inj h
      rw [← hb, succeeded_cons, executeAll_append, executeAll_succeeded_report]
      exact ih h

end Ledger

/-! ## Transactions -/

namespace Transaction

open Ledger Operation

/-- Asking for the signer is a check. -/
theorem sender_eq_look (signer : Option AccountId) :
    sender signer = look fun _ => signer.elim (.error .unauthorized) .ok := by
  cases signer <;> rfl

/-- A call that needs a signer stops first if there is none. -/
theorem atomicAt_sender_bind {α : Type} {f : AccountId → Operation α} {l : Ledger}
    (h : ∀ who, (f who).AtomicAt l) (signer : Option AccountId) :
    (sender signer >>= f).AtomicAt l := by
  rw [sender_eq_look]
  exact .bind_look fun who _ => h who

/-- **Every call that is refused leaves the ledger as it is.** -/
theorem atomic_dispatch (call : LedgerCall) (signer : Option AccountId) (block : Block) :
    (dispatch call signer block).Atomic := by
  intro l
  unfold dispatch
  cases call with
  | addStake subnet amount =>
    exact atomicAt_sender_bind (fun who => (atomic_addStake who subnet amount l).bind_pure _) signer
  | removeStake subnet amount =>
    exact atomicAt_sender_bind
      (fun who => (atomic_removeStake who subnet amount block l).bind_pure _) signer
  | delegate pool amount =>
    exact atomicAt_sender_bind (fun who => (atomic_delegate who pool amount l).bind_pure _) signer
  | undelegate pool shares =>
    exact atomicAt_sender_bind
      (fun who => (atomic_undelegate who pool shares block l).bind_pure _) signer
  | swap source target shares =>
    exact atomicAt_sender_bind
      (fun who => (atomic_queueSwap who source target shares block l).bind_pure _) signer
  | transfer pool target shares =>
    exact atomicAt_sender_bind
      (fun who => (atomic_transfer who pool target shares l).bind_pure _) signer
  | updateSwap id target =>
    exact atomicAt_sender_bind
      (fun who => (atomic_updateSwap who id target block l).bind_pure _) signer
  | updateSwapByTag id tag subnet node =>
    exact atomicAt_sender_bind
      (fun who => .bind_look fun target _ => (atomic_updateSwap who id target block l).bind_pure _)
      signer
  | executeSwap id => exact (atomic_executeSwap id block l).bind_pure _
  | executeReadySwaps max =>
    have hsucceeds : (executeReadySwaps block max).SucceedsAt l :=
      ⟨_, _, perform_executeReadySwaps block max l⟩
    exact hsucceeds.atomicAt.bind_pure _
  | claimUnbondings =>
    exact atomicAt_sender_bind (fun who => (atomic_claimUnbondings who block l).bind_pure _) signer
  | commitWeights watcher commits =>
    exact atomicAt_sender_bind
      (fun who => (atomic_commitWeights who watcher commits.items block l).bind_pure _) signer
  | revealWeights watcher reveals =>
    exact atomicAt_sender_bind
      (fun who => (atomic_revealWeights who watcher reveals.items block l).bind_pure _) signer
  | pruneOverwatch => exact (atomic_pruneOverwatch block l).bind_pure _
  | distribute pool amount => exact (atomic_distribute pool amount l).bind_pure _

/-- **Every transaction that is refused leaves the ledger as it is.** -/
theorem atomic_run (t : Transaction) (block : Block) : (t.run block).Atomic := by
  intro l
  unfold run
  exact .bind_look fun signer _ => atomic_dispatch t.call signer block l

/-- A transaction either reports the output of its call and leaves what the call leaves, or reports
an error and leaves the ledger as it is. -/
theorem apply_cases (t : Transaction) (block : Block) (l : Ledger) :
    (∃ output, (t.run block).perform l = (.ok output, (t.apply block l).2) ∧
      (t.apply block l).1 = ⟨t.digest, t.call.name, block, some output, none⟩) ∨
    ∃ e, (t.run block).perform l = (.error e, l) ∧
      t.apply block l = (⟨t.digest, t.call.name, block, none, some e⟩, l) := by
  unfold apply
  rcases h : (t.run block).perform l with ⟨e | output, l'⟩
  · obtain rfl := atomic_run t block l e l' h
    exact .inr ⟨e, rfl, rfl⟩
  · exact .inl ⟨output, rfl, rfl⟩

/-- Anyone may execute the swaps that are ready; what is reported is what becomes of each. -/
theorem apply_executeReadySwaps {t : Transaction} {max : Count}
    (h : t.call = .executeReadySwaps max) (block : Block) (l : Ledger) :
    (t.apply block l).1.output = some (.swaps (reports block (l.book.swaps.ready block max) l)) ∧
      (t.apply block l).2 = executeAll block (l.book.swaps.ready block max) l := by
  obtain ⟨origin, call⟩ := t
  cases h
  have hrun : (run ⟨origin, .executeReadySwaps max⟩ block).perform l =
      (.ok (.swaps (reports block (l.book.swaps.ready block max) l)),
        executeAll block (l.book.swaps.ready block max) l) := by
    unfold run
    rw [perform_bind_of_ok (perform_look (fun _ => checkOrigin ⟨origin, .executeReadySwaps max⟩) l)]
    unfold dispatch
    rw [perform_bind_of_ok (perform_executeReadySwaps block max l)]
    rfl
  unfold apply
  rw [hrun]
  exact ⟨rfl, rfl⟩

/-- **What is refused leaves no trace**, on any ledger: a transaction that reports an error leaves
the ledger as it is. A batch of swaps reports on each of its swaps in order, and leaves what those
that succeed leave when they alone are executed; in that order each of them has the outcome that is
reported, and one that is reported with an error leaves everything as it is. -/
theorem apply_atomic (t : Transaction) (block : Block) (l : Ledger) :
    ((t.apply block l).1.error ≠ none → (t.apply block l).2 = l) ∧
    ∀ max, t.call = .executeReadySwaps max →
      ∃ results, (t.apply block l).1.output = some (.swaps results) ∧
        results.map SwapResult.id = l.book.swaps.ready block max ∧
        (t.apply block l).2 = executeAll block (succeeded results) l ∧
        ∀ before r after, results = before ++ r :: after →
          SwapResult.of r.id
              ((executeSwap r.id block).perform (executeAll block (succeeded before) l)).1 = r ∧
            (r.error ≠ none →
              ((executeSwap r.id block).perform (executeAll block (succeeded before) l)).2 =
                executeAll block (succeeded before) l) := by
  refine ⟨fun herror => ?_, fun max hcall => ?_⟩
  · rcases t.apply_cases block l with ⟨output, -, hreport⟩ | ⟨e, -, hrefused⟩
    · rw [hreport] at herror
      exact absurd rfl herror
    · rw [hrefused]
  · obtain ⟨houtput, hledger⟩ := apply_executeReadySwaps hcall block l
    exact ⟨_, houtput, map_id_reports .., hledger.trans (executeAll_succeeded ..).symm,
      fun before r after h => report_of_reports h⟩

/-- Two matured swaps, where no unbonding list has room: the first is for a subnet that is not active
and stays in the queue, the second is deposited. -/
def stuck : Ledger where
  book := { Book.empty 0 with
    swaps := ⟨.ofList [(0, ⟨0, .dev 1, .subnet 9, 5, 0, 0⟩), (1, ⟨1, .dev 2, .subnet 1, 7, 0, 0⟩)],
      [0, 1], 2⟩ }
  registry := (Registry.empty default).registerSubnet 1 ⟨0, .max, 0⟩

theorem apply_atomic_stuck :
    (apply ⟨.signed (.dev 1), .addStake 9 1⟩ 3 stuck).1.error ≠ none ∧
      (apply ⟨.signed (.dev 1), .addStake 9 1⟩ 3 stuck).2 = stuck ∧
      (apply ⟨.system, .executeReadySwaps 9⟩ 3 stuck).2 = executeAll 3 [1] stuck ∧
      ((executeSwap 0 3).perform stuck).2 = stuck := by
  have herror : (apply ⟨.signed (.dev 1), .addStake 9 1⟩ 3 stuck).1.error ≠ none := by decide +kernel
  obtain ⟨results, houtput, -, hledger, heach⟩ :=
    (apply_atomic ⟨.system, .executeReadySwaps 9⟩ 3 stuck).2 9 rfl
  have hresults : results = [⟨0, none, some (.ledgerFull 0)⟩, ⟨1, some (.deposited 7), none⟩] := by
    have hreported : (apply ⟨.system, .executeReadySwaps 9⟩ 3 stuck).1.output =
        some (.swaps [⟨0, none, some (.ledgerFull 0)⟩, ⟨1, some (.deposited 7), none⟩]) := by
      decide +kernel
    rw [houtput] at hreported
    cases hreported
    rfl
  subst hresults
  exact ⟨herror, (apply_atomic _ 3 stuck).1 herror, hledger,
    (heach [] _ _ rfl).2 (by decide)⟩

end Transaction

end Stakebook
