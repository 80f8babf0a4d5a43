import Stakebook.Proofs.Ledger.Conservation
import Stakebook.Proofs.Ledger.Exact
import Stakebook.Proofs.Ledger.Frames

/-!
# Runs with exact arithmetic

A run of the ledger halts in its exact form at the first sum or difference that is out of range. The
invariants that rule it out are that the book is valid and that the stakes are tallied; the latter
holds as long as the stakes of all accounts on each subnet are in range together, which no call
checks.

Headlines:
* **`Effect.tallied`**: every call keeps the stakes tallied, while the stakes on each subnet are in
  range.
* **`agreesAt_dispatch`**, **`exactStep_eq`**, **`exactRun_eq`**: so every call, every event and every
  run agrees with its exact form.
* **`runs_exactly`**: a whole run from an empty book, and the withdrawals that can follow it.
-/

namespace Stakebook

namespace Ledger

variable {l : Ledger}

/-! ## The stakes stay tallied -/

/-- **Every accepted call keeps the totals of the subnets the sums of the stakes on them**, if these
are in range. -/
theorem Effect.tallied {block : Block} {l' : Ledger} {call : LedgerCall}
    {signer : Option AccountId} {output : CallOutput} (ht : l.book.stakes.Tallied)
    (h : Effect block l call signer output l')
    (hfit : ∀ subnet, l'.book.stakes.stakedOn subnet < 2 ^ 128) : l'.book.stakes.Tallied := by
  rcases h.stakes_cases with heq | ⟨_, _, _, _, _, add⟩ | ⟨_, _, _, _, _, remove⟩
  · rw [heq]
    exact ht
  · exact ht.add add (hfit _)
  · exact ht.remove remove

end Ledger

/-! ## Transactions -/

namespace Transaction

open Ledger ExactOperation

variable {l : Ledger} {signer : Option AccountId} {block : Block}

/-- `dispatch`, with exact arithmetic. The calls that stand last add and subtract no words. -/
def exactDispatch (call : LedgerCall) (signer : Option AccountId) (block : Block) :
    ExactOperation CallOutput :=
  match call with
  | .addStake subnet amount => do
    return .stake (← exactAddStake (← sender signer) subnet amount)
  | .removeStake subnet amount => do
    return .unbonding (← exactRemoveStake (← sender signer) subnet amount block)
  | .delegate pool amount => do
    return .shares (← exactDelegate (← sender signer) pool amount)
  | .undelegate pool shares => do
    return .withdrawn (← exactUndelegate (← sender signer) pool shares block)
  | .swap source target shares => do
    return .swapQueued (← exactQueueSwap (← sender signer) source target shares block)
  | .transfer pool target shares => do
    exactTransfer (← sender signer) pool target shares
    return .done
  | .executeSwap id => do
    return .swap (← exactExecuteSwap id block)
  | .executeReadySwaps max => do
    let results ← exactExecuteReadySwaps block max
    return .swaps (results.map fun (id, r) => SwapResult.of id r)
  | .distribute pool amount => do
    exactDistribute pool amount
    return .done
  | .updateSwap .. | .updateSwapByTag .. | .claimUnbondings | .commitWeights .. | .revealWeights ..
  | .pruneOverwatch => .of (dispatch call signer block)

/-- `run`, with exact arithmetic. -/
def exactRun (t : Transaction) (block : Block) : ExactOperation CallOutput := do
  let signer ← Operation.look fun _ => t.checkOrigin
  exactDispatch t.call signer block

/-- An operation on behalf of the signer agrees if it does for the account that signed. -/
theorem agreesAt_signed {α : Type} {e : AccountId → ExactOperation α} {a : AccountId → Operation α}
    (h : ∀ who, signer = some who → AgreesAt (e who) (a who) l) (f : α → CallOutput) :
    AgreesAt (do return f (← e (← sender signer))) (do return f (← a (← sender signer))) l := by
  refine .bind (agreesAt_of ..) fun who m hm => ?_
  obtain ⟨hwho, rfl⟩ := perform_sender_ok_iff.mp hm
  exact (h who hwho).bind_pure f

/-- **Every call agrees** on a valid book whose stakes are tallied, if the stakes on each subnet are
in range afterwards. -/
theorem agreesAt_dispatch (hv : l.book.Valid) (ht : l.book.stakes.Tallied) {call : LedgerCall}
    (hfit : ∀ output l', (dispatch call signer block).perform l = (.ok output, l') →
      ∀ subnet, l'.book.stakes.stakedOn subnet < 2 ^ 128) :
    AgreesAt (exactDispatch call signer block) (dispatch call signer block) l := by
  cases call with
  | addStake subnet amount =>
    refine agreesAt_signed (fun who hwho => agreesAt_addStake ht fun balance l' h => ?_) _
    subst hwho
    refine hfit (.stake balance) l' (Operation.perform_bind_ok_iff.mpr ⟨who, l, rfl, ?_⟩) subnet
    exact Operation.perform_bind_ok_iff.mpr ⟨balance, l', h, rfl⟩
  | removeStake subnet amount =>
    exact agreesAt_signed (fun who _ => agreesAt_removeStake who subnet amount block l) _
  | delegate pool amount =>
    exact agreesAt_signed (fun who _ => agreesAt_delegate hv who pool amount) _
  | undelegate pool shares =>
    exact agreesAt_signed (fun who _ => agreesAt_undelegate hv who pool shares block) _
  | swap source target shares =>
    exact agreesAt_signed (fun who _ => agreesAt_queueSwap hv who source target shares block) _
  | transfer pool target shares =>
    exact agreesAt_signed (fun who _ => agreesAt_transfer hv who pool target shares) _
  | executeSwap id => exact (agreesAt_executeSwap hv id block).bind_pure _
  | executeReadySwaps max => exact (agreesAt_executeReadySwaps hv block max).bind_pure _
  | distribute pool amount => exact (agreesAt_distribute pool amount l).bind_pure _
  | updateSwap | updateSwapByTag | claimUnbondings | commitWeights | revealWeights
  | pruneOverwatch => exact agreesAt_of ..

/-- A transaction leaves what its run does, and reports what came of it. -/
theorem apply_snd (t : Transaction) (block : Block) (l : Ledger) :
    (t.apply block l).2 = ((t.run block).perform l).2 := by
  unfold apply
  rcases (t.run block).perform l with ⟨_ | _, _⟩ <;> rfl

theorem agreesAt_run (hv : l.book.Valid) (ht : l.book.stakes.Tallied) {t : Transaction}
    (hfit : ∀ subnet, (t.apply block l).2.book.stakes.stakedOn subnet < 2 ^ 128) :
    AgreesAt (t.exactRun block) (t.run block) l := by
  refine .bind_look fun signer horigin => agreesAt_dispatch hv ht fun output l' h => ?_
  have hrun : (t.run block).perform l = (.ok output, l') :=
    Operation.perform_bind_ok_iff.mpr
      ⟨signer, l, Operation.perform_look_ok_iff.mpr ⟨horigin, rfl⟩, h⟩
  rw [apply_snd, hrun] at hfit
  exact hfit

end Transaction

/-! ## Runs -/

/-- `apply`, with exact arithmetic. -/
def Administration.exactApply (r : Registry) : Administration → Option Registry
  | debit who amount => (r.exactDebit who amount).run.map fun
    | .ok r' => r'
    | .error _ => r
  | a => some (a.apply r)

theorem Administration.exactApply_eq (r : Registry) (a : Administration) :
    a.exactApply r = some (a.apply r) := by
  cases a with
  | debit who amount =>
    show (r.exactDebit who amount).run.map _ = _
    rw [Registry.exactDebit_eq]
    rfl
  | setBalance | credit | registerSubnet | deactivateSubnet | registerNode | deactivateNode
  | registerWatcher => rfl

namespace Ledger

variable {l : Ledger}

/-- `step`, with exact arithmetic. -/
def exactStep (l : Ledger) : Event → Option Ledger
  | .transaction t block => (t.exactRun block l).map Prod.snd
  | .administration a => (a.exactApply l.registry).map fun registry => { l with registry }

/-- `run`, with exact arithmetic: it halts at the first sum or difference that is out of range. -/
def exactRun (l : Ledger) (events : List Event) : Option Ledger := events.foldlM exactStep l

/-- **An event keeps the stakes tallied**, if the stakes on each subnet are in range afterwards. -/
theorem tallied_step (ht : l.book.stakes.Tallied) {e : Event}
    (hfit : ∀ subnet, (l.step e).book.stakes.stakedOn subnet < 2 ^ 128) :
    (l.step e).book.stakes.Tallied := by
  rcases l.step_cases e with ⟨_, _, _, _, -, -, -, heffect⟩ | ⟨hbook, -⟩
  · exact heffect.tallied ht hfit
  · rw [hbook]
    exact ht

/-- **No event goes round.** -/
theorem exactStep_eq (hv : l.book.Valid) (ht : l.book.stakes.Tallied) {e : Event}
    (hfit : ∀ subnet, (l.step e).book.stakes.stakedOn subnet < 2 ^ 128) :
    l.exactStep e = some (l.step e) := by
  cases e with
  | transaction t block =>
    have hagrees : t.exactRun block l = some ((t.run block).perform l) :=
      t.agreesAt_run hv ht hfit
    show (t.exactRun block l).map Prod.snd = some (t.apply block l).2
    rw [hagrees, t.apply_snd]
    rfl
  | administration a =>
    show (a.exactApply l.registry).map _ = _
    rw [a.exactApply_eq]
    rfl

/-- **No run goes round** in which the stakes on each subnet stay in range. -/
theorem exactRun_eq (hv : l.book.Valid) (ht : l.book.stakes.Tallied) {events : List Event}
    (hfit : ∀ n subnet, (l.run (events.take n)).book.stakes.stakedOn subnet < 2 ^ 128) :
    l.exactRun events = some (l.run events) := by
  induction events generalizing l with
  | nil => rfl
  | cons e events ih =>
    have hstep : ∀ subnet, (l.step e).book.stakes.stakedOn subnet < 2 ^ 128 := hfit 1
    unfold exactRun
    rw [List.foldlM_cons, exactStep_eq hv ht hstep]
    exact ih (valid_step hv e) (tallied_step ht hstep) fun n => hfit (n + 1)

/-- **Arithmetic is exact in every run** from an empty book, over any registry: while the stakes of all
accounts on each subnet stay in range together, no sum or difference of a component leaves its range,
and whatever shares an account then has can be withdrawn. -/
theorem runs_exactly (registry : Registry) (events : List Event) :
    ((∀ n subnet, ((new registry).run (events.take n)).book.stakes.stakedOn subnet < 2 ^ 128) →
      (new registry).exactRun events = some ((new registry).run events)) ∧
    ∀ who pool shares, shares ≠ 0 →
      shares ≤ ((new registry).run events).book.sharesOf who pool →
      ∃ amount book, ((new registry).run events).book.withdraw who pool shares =
        .ok (amount, book) := by
  have hv : (new registry).book.Valid := Book.valid_empty _
  exact ⟨fun hfit => exactRun_eq hv Stakes.tallied_empty hfit,
    fun who pool shares hne hle => (valid_run hv events).exists_withdraw hne hle⟩

/-- Every kind of sum and difference: a stake, a deposit, a reward and a transfer; a removal and a
withdrawal that unlock together, so that the second is merged with the first; a swap that is queued
and executed; and a debit from outside. -/
def bustling : List Event :=
  [.transaction ⟨.signed (.dev 1), .addStake 1 10⟩ 0,
   .transaction ⟨.signed (.dev 1), .delegate (.subnet 1) 50⟩ 0,
   .transaction ⟨.system, .distribute (.subnet 1) 7⟩ 1,
   .transaction ⟨.signed (.dev 1), .transfer (.subnet 1) (.dev 2) 15⟩ 1,
   .transaction ⟨.signed (.dev 1), .removeStake 1 4⟩ 1,
   .transaction ⟨.signed (.dev 1), .undelegate (.subnet 1) 20⟩ 1,
   .transaction ⟨.signed (.dev 1), .swap (.subnet 1) (.subnet 1) 10⟩ 1,
   .administration (.debit (.dev 1) 3),
   .transaction ⟨.system, .executeReadySwaps 9⟩ 4]

theorem runs_exactly_bustling :
    (∀ n subnet, ((new funded).run (bustling.take n)).book.stakes.stakedOn subnet < 2 ^ 128) ∧
      (new funded).exactRun bustling = some ((new funded).run bustling) ∧
      (15 : Shares) ≤ ((new funded).run bustling).book.sharesOf (.dev 2) (.subnet 1) ∧
      ∃ amount book, ((new funded).run bustling).book.withdraw (.dev 2) (.subnet 1) 15 =
        .ok (amount, book) := by
  have htotal : ∀ n < 10,
      ((new funded).run (bustling.take n)).book.stakes.totalStaked < 2 ^ 128 := by decide +kernel
  have hfit : ∀ n subnet,
      ((new funded).run (bustling.take n)).book.stakes.stakedOn subnet < 2 ^ 128 := by
    intro n subnet
    rw [List.take_eq_take_min]
    exact Nat.lt_of_le_of_lt (Stakes.stakedOn_le_totalStaked ..)
      (htotal _ (Nat.lt_succ_of_le (Nat.min_le_right ..)))
  have hheld : (15 : Shares) ≤ ((new funded).run bustling).book.sharesOf (.dev 2) (.subnet 1) := by
    decide +kernel
  exact ⟨hfit, (runs_exactly funded bustling).1 hfit, hheld,
    (runs_exactly funded bustling).2 (.dev 2) (.subnet 1) 15 (by decide) hheld⟩

/-- Nothing checks the total of a subnet: when more is staked on it than a word holds, the exact run
halts where the run goes round. -/
example : (new ((funded.setBalance (.dev 1) .max).setBalance (.dev 2) 1)).exactRun
    [.transaction ⟨.signed (.dev 1), .addStake 1 .max⟩ 0,
     .transaction ⟨.signed (.dev 2), .addStake 1 1⟩ 0] = none := by decide +kernel

end Ledger

end Stakebook
