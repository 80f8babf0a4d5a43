import Stakebook.Proofs.Exact
import Stakebook.Proofs.Ledger.Acceptance

/-!
# Operations with exact arithmetic

The operations of the ledger that add or subtract words are written a second time over
`ExactOperation`, with the exact changes of the components in place of those that go round. Where an
operation agrees with its exact form (`AgreesAt`), no sum or difference that it makes is out of
range.

Headlines:
* **`AgreesAt.bind`**: operations that agree step by step agree.
* **`agreesAt_removeStake`**, **`agreesAt_distribute`**: these agree on every ledger.
* **`agreesAt_delegate`**, **`agreesAt_undelegate`**, **`agreesAt_transfer`**,
  **`agreesAt_queueSwap`**, **`agreesAt_executeSwap`**, **`agreesAt_executeReadySwaps`**: these agree
  on every ledger with a valid book.
* **`agreesAt_addStake`**: this agrees if the stakes on its subnet are in range afterwards.
-/

namespace Stakebook

namespace Book

variable {b : Book}

/-- `deposit`, with exact arithmetic. -/
def exactDeposit (b : Book) (who : AccountId) (pool : PoolId) (amount minimum : Amount) :
    Exact (Shares × Book) :=
  match pool with
  | .subnet id => do
    let (shares, delegate) ← b.delegate.exactDeposit who id amount minimum
    return (shares, { b with delegate })
  | .node key => do
    let (shares, nodeDelegate) ← b.nodeDelegate.exactDeposit who key amount minimum
    return (shares, { b with nodeDelegate })

/-- `withdraw`, with exact arithmetic. -/
def exactWithdraw (b : Book) (who : AccountId) (pool : PoolId) (shares : Shares) :
    Exact (Amount × Book) :=
  match pool with
  | .subnet id => do
    let (amount, delegate) ← b.delegate.exactWithdraw who id shares
    return (amount, { b with delegate })
  | .node key => do
    let (amount, nodeDelegate) ← b.nodeDelegate.exactWithdraw who key shares
    return (amount, { b with nodeDelegate })

/-- `transfer`, with exact arithmetic. -/
def exactTransfer (b : Book) (source : AccountId) (pool : PoolId) (target : AccountId)
    (shares : Shares) (minimum : Amount) : Exact Book :=
  match pool with
  | .subnet id => do
    return { b with delegate := ← b.delegate.exactTransfer source id target shares minimum }
  | .node key => do
    return { b with
      nodeDelegate := ← b.nodeDelegate.exactTransfer source key target shares minimum }

/-- `distribute`, with exact arithmetic. -/
def exactDistribute (b : Book) (pool : PoolId) (amount : Amount) : Exact Book :=
  match pool with
  | .subnet id => do return { b with delegate := ← b.delegate.exactDistribute id amount }
  | .node key => do return { b with nodeDelegate := ← b.nodeDelegate.exactDistribute key amount }

theorem exactDeposit_eq (hv : b.Valid) (who : AccountId) (pool : PoolId)
    (amount minimum : Amount) :
    b.exactDeposit who pool amount minimum = .of (b.deposit who pool amount minimum) := by
  cases pool with
  | subnet id => exact Exact.bind_of (SharePool.exactDeposit_eq hv.delegate ..) fun _ _ => rfl
  | node key => exact Exact.bind_of (SharePool.exactDeposit_eq hv.nodeDelegate ..) fun _ _ => rfl

theorem exactWithdraw_eq (hv : b.Valid) (who : AccountId) (pool : PoolId) (shares : Shares) :
    b.exactWithdraw who pool shares = .of (b.withdraw who pool shares) := by
  cases pool with
  | subnet id => exact Exact.bind_of (SharePool.exactWithdraw_eq hv.delegate ..) fun _ _ => rfl
  | node key => exact Exact.bind_of (SharePool.exactWithdraw_eq hv.nodeDelegate ..) fun _ _ => rfl

theorem exactTransfer_eq (hv : b.Valid) (source : AccountId) (pool : PoolId) (target : AccountId)
    (shares : Shares) (minimum : Amount) :
    b.exactTransfer source pool target shares minimum =
      .of (b.transfer source pool target shares minimum) := by
  cases pool with
  | subnet id => exact Exact.bind_of (SharePool.exactTransfer_eq hv.delegate ..) fun _ _ => rfl
  | node key => exact Exact.bind_of (SharePool.exactTransfer_eq hv.nodeDelegate ..) fun _ _ => rfl

theorem exactDistribute_eq (b : Book) (pool : PoolId) (amount : Amount) :
    b.exactDistribute pool amount = .of (b.distribute pool amount) := by
  cases pool with
  | subnet id => exact Exact.bind_of (SharePool.exactDistribute_eq ..) fun _ _ => rfl
  | node key => exact Exact.bind_of (SharePool.exactDistribute_eq ..) fun _ _ => rfl

end Book

namespace Ledger

/-- An operation on the ledger that halts where a sum or a difference is out of range. -/
abbrev ExactOperation := ExceptT LedgerError (StateT Ledger Option)

namespace ExactOperation

variable {α β : Type}

/-- An operation that makes no sum or difference of its own. -/
def of (a : Operation α) : ExactOperation α := fun l => some (a.perform l)

instance : MonadLift Operation ExactOperation := ⟨of⟩

/-- Looks at the ledger. -/
def look (f : Ledger → Exact α) : ExactOperation α := fun l => (f l).run.map fun r => (r, l)

/-- Changes the ledger. -/
def change (f : Ledger → Exact (α × Ledger)) : ExactOperation α := fun l =>
  (f l).run.map fun r => (Operation.change fun _ => r).perform l

/-- Changes the book. -/
def changeBook (f : Book → Exact (α × Book)) : ExactOperation α :=
  change fun l => do
    let (a, book) ← f l.book
    return (a, { l with book })

/-- Goes on with the result of an operation whether it stopped or not. -/
def attempt (e : ExactOperation α) : ExactOperation (Except LedgerError α) := fun l =>
  (e l).map fun r => (.ok r.1, r.2)

/-- On this ledger the exact operation does not halt, and does what the operation does. -/
def AgreesAt (e : ExactOperation α) (a : Operation α) (l : Ledger) : Prop :=
  e l = some (a.perform l)

variable {l : Ledger}

theorem agreesAt_of (a : Operation α) (l : Ledger) : AgreesAt (liftM a) a l := rfl

theorem agreesAt_pure (x : α) (l : Ledger) : AgreesAt (pure x) (pure x) l := rfl

theorem agreesAt_look {f : Ledger → Exact α} {g : Ledger → Except LedgerError α}
    (h : f l = .of (g l)) : AgreesAt (look f) (Operation.look g) l := by
  unfold AgreesAt look
  rw [h]
  rfl

theorem agreesAt_change {f : Ledger → Exact (α × Ledger)}
    {g : Ledger → Except LedgerError (α × Ledger)} (h : f l = .of (g l)) :
    AgreesAt (change f) (Operation.change g) l := by
  unfold AgreesAt change
  rw [h]
  rfl

theorem agreesAt_changeBook {f : Book → Exact (α × Book)}
    {g : Book → Except LedgerError (α × Book)} (h : f l.book = .of (g l.book)) :
    AgreesAt (changeBook f) (Operation.changeBook g) l :=
  agreesAt_change (Exact.bind_of h fun _ _ => rfl)

theorem AgreesAt.attempt {e : ExactOperation α} {a : Operation α} (h : AgreesAt e a l) :
    AgreesAt e.attempt a.attempt l := by
  unfold AgreesAt ExactOperation.attempt
  rw [show e l = _ from h]
  rfl

/-- **Operations that agree step by step agree.** -/
theorem AgreesAt.bind {e : ExactOperation α} {a : Operation α} {f : α → ExactOperation β}
    {g : α → Operation β} (h : AgreesAt e a l)
    (hg : ∀ x m, a.perform l = (.ok x, m) → AgreesAt (f x) (g x) m) :
    AgreesAt (e >>= f) (a >>= g) l := by
  unfold AgreesAt
  rw [Operation.perform_bind]
  show (e l >>= fun r => ExceptT.bindCont f r.1 r.2) = _
  rw [show e l = _ from h]
  rcases hx : a.perform l with ⟨d | x, m⟩
  · rfl
  · exact hg x m hx

/-- A check in front of two operations changes nothing. -/
theorem AgreesAt.bind_look {c : Ledger → Except LedgerError α} {f : α → ExactOperation β}
    {g : α → Operation β} (h : ∀ x, c l = .ok x → AgreesAt (f x) (g x) l) :
    AgreesAt (liftM (Operation.look c) >>= f) (Operation.look c >>= g) l := by
  refine .bind (agreesAt_of ..) fun x m hm => ?_
  obtain ⟨hx, rfl⟩ := Operation.perform_look_ok_iff.mp hm
  exact h x hx

/-- What is made of a result makes no sum or difference. -/
theorem AgreesAt.bind_pure {e : ExactOperation α} {a : Operation α} (h : AgreesAt e a l)
    (f : α → β) : AgreesAt (e >>= fun x => pure (f x)) (a >>= fun x => pure (f x)) l :=
  h.bind fun x m _ => agreesAt_pure (f x) m

end ExactOperation

/-! ## The operations -/

open Operation (read)
open ExactOperation

/-- `debitFree`, with exact arithmetic. -/
def exactDebitFree (who : AccountId) (amount : Amount) : ExactOperation Unit :=
  change fun l => do
    let registry ← l.registry.exactDebit who amount
    return ((), { l with registry })

/-- `enterUnbonding`, with exact arithmetic. -/
def exactEnterUnbonding (who : AccountId) (amount : Amount) (unlock block : Block) :
    ExactOperation Unit := do
  let released ← changeBook fun b => do
    let (released, unbonding) ← b.unbonding.exactEnqueue who amount unlock block
    return (released, { b with unbonding })
  if released ≠ 0 then creditFree who released

/-- `addStake`, with exact arithmetic. -/
def exactAddStake (who : AccountId) (subnet : SubnetId) (amount : Amount) :
    ExactOperation Amount := do
  let bounds ← Operation.look fun l => l.registry.activeSubnet subnet
  let _ ← Operation.look fun l => l.book.stakes.checkAdd who subnet amount bounds
  exactDebitFree who amount
  changeBook fun b => do
    let (balance, stakes) ← b.stakes.exactAdd who subnet amount bounds
    return (balance, { b with stakes })

/-- `removeStake`, with exact arithmetic. -/
def exactRemoveStake (who : AccountId) (subnet : SubnetId) (amount : Amount) (block : Block) :
    ExactOperation Block := do
  let bounds ← read fun l => l.registry.leavingParams subnet
  let _ ← look fun l => l.book.stakes.exactCheckRemove who subnet amount bounds
  let unlock := block.satAdd bounds.unbondingPeriod
  Operation.look fun l => l.book.unbonding.checkEnqueue who amount unlock block
  let _ ← changeBook fun b => do
    let (remaining, stakes) ← b.stakes.exactRemove who subnet amount bounds
    return (remaining, { b with stakes })
  exactEnterUnbonding who amount unlock block
  return unlock

/-- `delegate`, with exact arithmetic. -/
def exactDelegate (who : AccountId) (pool : PoolId) (amount : Amount) : ExactOperation Shares := do
  let _ ← Operation.look fun l => l.registry.activePool pool
  let minimum ← read fun l => l.registry.network.minDelegateDeposit
  let _ ← Operation.look fun l => l.book.quoteDeposit pool amount minimum
  exactDebitFree who amount
  changeBook fun b => b.exactDeposit who pool amount minimum

/-- `undelegate`, with exact arithmetic. -/
def exactUndelegate (who : AccountId) (pool : PoolId) (shares : Shares) (block : Block) :
    ExactOperation Amount := do
  let period ← read fun l => (l.registry.leavingParams pool.subnetId).unbondingPeriod
  let amount ← Operation.look fun l => l.book.quoteWithdraw who pool shares
  let unlock := block.satAdd period
  if amount ≠ 0 then
    Operation.look fun l => l.book.unbonding.checkEnqueue who amount unlock block
  let _ ← changeBook fun b => b.exactWithdraw who pool shares
  if amount ≠ 0 then exactEnterUnbonding who amount unlock block
  return amount

/-- `transfer`, with exact arithmetic. -/
def exactTransfer (source : AccountId) (pool : PoolId) (target : AccountId) (shares : Shares) :
    ExactOperation Unit := do
  let minimum ← read fun l => l.registry.network.minDelegateDeposit
  changeBook fun b => do
    let b ← b.exactTransfer source pool target shares minimum
    return ((), b)

/-- `distribute`, with exact arithmetic. -/
def exactDistribute (pool : PoolId) (amount : Amount) : ExactOperation Unit := do
  let _ ← Operation.look fun l => l.registry.activePool pool
  changeBook fun b => do
    let b ← b.exactDistribute pool amount
    return ((), b)

/-- `queueSwap`, with exact arithmetic. -/
def exactQueueSwap (who : AccountId) (source : PoolId) (target : PoolId) (shares : Shares)
    (block : Block) : ExactOperation SwapId := do
  let _ ← Operation.look fun l => l.registry.activePool target
  let balance ← Operation.look fun l => l.book.quoteWithdraw who source shares
  Operation.look fun l => l.book.swaps.checkEnqueue balance
  let delay ← read fun l => l.registry.network.swapDelay
  let _ ← changeBook fun b => b.exactWithdraw who source shares
  changeBook fun b => do
    let (id, swaps) ← b.swaps.exactEnqueue who target balance block delay
    return (id, { b with swaps })

/-- `executeSwap`, with exact arithmetic. -/
def exactExecuteSwap (id : SwapId) (block : Block) : ExactOperation SwapOutcome := do
  let swap ← Operation.look fun l => l.book.swaps.checkMatured id block
  let accepted ← read fun l => do
    let _ ← l.registry.activePool swap.target
    l.book.quoteDeposit swap.target swap.balance 0
  match accepted with
  | .ok _ =>
    dropSwap id
    let shares ← changeBook fun b => b.exactDeposit swap.account swap.target swap.balance 0
    return .deposited shares
  | .error _ =>
    let period ← read fun l => l.registry.network.fallbackUnbondingPeriod
    let unlock := block.satAdd period
    Operation.look fun l => l.book.unbonding.checkEnqueue swap.account swap.balance unlock block
    dropSwap id
    exactEnterUnbonding swap.account swap.balance unlock block
    return .unbonded unlock

/-- `executeEach`, with exact arithmetic. -/
def exactExecuteEach (block : Block) :
    List SwapId → ExactOperation (List (SwapId × Except LedgerError SwapOutcome))
  | [] => return []
  | id :: ids => do
    let outcome ← (exactExecuteSwap id block).attempt
    let rest ← exactExecuteEach block ids
    return (id, outcome) :: rest

/-- `executeReadySwaps`, with exact arithmetic. -/
def exactExecuteReadySwaps (block : Block) (max : Count) :
    ExactOperation (List (SwapId × Except LedgerError SwapOutcome)) := do
  let ids ← read fun l => l.book.swaps.ready block max
  exactExecuteEach block ids

variable {l : Ledger}

theorem agreesAt_debitFree (who : AccountId) (amount : Amount) (l : Ledger) :
    AgreesAt (exactDebitFree who amount) (debitFree who amount) l :=
  agreesAt_change (Exact.bind_of (Registry.exactDebit_eq ..) fun _ _ => rfl)

theorem agreesAt_enterUnbonding (who : AccountId) (amount : Amount) (unlock block : Block)
    (l : Ledger) :
    AgreesAt (exactEnterUnbonding who amount unlock block) (enterUnbonding who amount unlock block)
      l := by
  unfold exactEnterUnbonding enterUnbonding
  refine .bind (agreesAt_changeBook (Exact.bind_of (Unbonding.exactEnqueue_eq ..) fun _ _ => rfl))
    fun released m _ => ?_
  split <;> rfl

theorem agreesAt_removeStake (who : AccountId) (subnet : SubnetId) (amount : Amount)
    (block : Block) (l : Ledger) :
    AgreesAt (exactRemoveStake who subnet amount block) (removeStake who subnet amount block) l := by
  unfold exactRemoveStake removeStake
  refine .bind_look fun bounds _ => .bind (agreesAt_look (Stakes.exactCheckRemove_eq ..))
    fun _ m _ => .bind_look fun _ _ => ?_
  exact .bind (agreesAt_changeBook (Exact.bind_of (Stakes.exactRemove_eq ..) fun _ _ => rfl))
    fun _ n _ => (agreesAt_enterUnbonding ..).bind_pure _

theorem agreesAt_delegate (hv : l.book.Valid) (who : AccountId) (pool : PoolId) (amount : Amount) :
    AgreesAt (exactDelegate who pool amount) (delegate who pool amount) l := by
  unfold exactDelegate delegate
  refine .bind_look fun _ _ => .bind_look fun minimum _ => .bind_look fun _ _ =>
    .bind (agreesAt_debitFree ..) fun _ m hm => ?_
  obtain ⟨registry, -, rfl⟩ := perform_debitFree_ok_iff.mp hm
  exact agreesAt_changeBook (Book.exactDeposit_eq hv ..)

theorem agreesAt_undelegate (hv : l.book.Valid) (who : AccountId) (pool : PoolId)
    (shares : Shares) (block : Block) :
    AgreesAt (exactUndelegate who pool shares block) (undelegate who pool shares block) l := by
  unfold exactUndelegate undelegate
  refine .bind_look fun period _ => .bind_look fun paid _ => ?_
  have hwithdraw : AgreesAt (changeBook fun b => b.exactWithdraw who pool shares)
      (Operation.changeBook fun b => b.withdraw who pool shares) l :=
    agreesAt_changeBook (Book.exactWithdraw_eq hv ..)
  by_cases hpaid : paid = 0
  · simp only [if_neg (not_not_intro hpaid)]
    exact hwithdraw.bind_pure _
  · simp only [if_pos hpaid]
    exact .bind_look fun _ _ => hwithdraw.bind fun _ m _ =>
      (agreesAt_enterUnbonding ..).bind_pure _

theorem agreesAt_transfer (hv : l.book.Valid) (source : AccountId) (pool : PoolId)
    (target : AccountId) (shares : Shares) :
    AgreesAt (exactTransfer source pool target shares) (transfer source pool target shares) l := by
  unfold exactTransfer transfer
  exact .bind_look fun minimum _ =>
    agreesAt_changeBook (Exact.bind_of (Book.exactTransfer_eq hv ..) fun _ _ => rfl)

theorem agreesAt_distribute (pool : PoolId) (amount : Amount) (l : Ledger) :
    AgreesAt (exactDistribute pool amount) (distribute pool amount) l := by
  unfold exactDistribute distribute
  exact .bind_look fun _ _ =>
    agreesAt_changeBook (Exact.bind_of (Book.exactDistribute_eq ..) fun _ _ => rfl)

theorem agreesAt_queueSwap (hv : l.book.Valid) (who : AccountId) (source target : PoolId)
    (shares : Shares) (block : Block) :
    AgreesAt (exactQueueSwap who source target shares block)
      (queueSwap who source target shares block) l := by
  unfold exactQueueSwap queueSwap
  exact .bind_look fun _ _ => .bind_look fun balance _ => .bind_look fun _ _ =>
    .bind_look fun delay _ => .bind (agreesAt_changeBook (Book.exactWithdraw_eq hv ..)) fun _ m _ =>
      agreesAt_changeBook (Exact.bind_of (SwapQueue.exactEnqueue_eq ..) fun _ _ => rfl)

/-- The swap leaves the queue before its balance is deposited, which leaves the pools valid. -/
theorem agreesAt_executeSwap (hv : l.book.Valid) (id : SwapId) (block : Block) :
    AgreesAt (exactExecuteSwap id block) (executeSwap id block) l := by
  unfold exactExecuteSwap executeSwap
  refine .bind_look fun swap _ => .bind_look fun accepted _ => ?_
  cases accepted with
  | ok shares =>
    refine .bind (agreesAt_of ..) fun _ m hm => ?_
    obtain rfl := Operation.perform_update_ok_iff.mp hm
    have hdropped : ({ l.book with swaps := l.book.swaps.remove id } : Book).Valid :=
      ⟨hv.delegate, hv.nodeDelegate, hv.swaps.remove id⟩
    exact (agreesAt_changeBook (Book.exactDeposit_eq hdropped ..)).bind_pure _
  | error reason =>
    exact .bind_look fun period _ => .bind_look fun _ _ => .bind (agreesAt_of ..) fun _ m _ =>
      (agreesAt_enterUnbonding ..).bind_pure _

/-- **A batch of swaps agrees**: each swap leaves the next one a valid book. -/
theorem agreesAt_executeEach (hv : l.book.Valid) (block : Block) (ids : List SwapId) :
    AgreesAt (exactExecuteEach block ids) (executeEach block ids) l := by
  induction ids generalizing l with
  | nil => exact agreesAt_pure ..
  | cons id ids ih =>
    unfold exactExecuteEach executeEach
    refine .bind (agreesAt_executeSwap hv id block).attempt fun outcome m hm => ?_
    have hm' : m.book.Valid := by
      rw [Operation.perform_attempt] at hm
      obtain ⟨-, rfl⟩ := Prod.mk.inj hm
      rcases hswap : (executeSwap id block).perform l with ⟨e | outcome, m⟩
      · rw [atomic_executeSwap id block l e m hswap]
        exact hv
      · exact (effect_of_executeSwap hswap).valid hv
    exact (ih hm').bind_pure _

theorem agreesAt_executeReadySwaps (hv : l.book.Valid) (block : Block) (max : Count) :
    AgreesAt (exactExecuteReadySwaps block max) (executeReadySwaps block max) l := by
  unfold exactExecuteReadySwaps executeReadySwaps
  exact .bind_look fun ids _ => agreesAt_executeEach hv block ids

/-- **An addition to a stake agrees where the stakes on its subnet are in range afterwards.** -/
theorem agreesAt_addStake (ht : l.book.stakes.Tallied) {who : AccountId} {subnet : SubnetId}
    {amount : Amount}
    (hfit : ∀ balance l', (addStake who subnet amount).perform l = (.ok balance, l') →
      l'.book.stakes.stakedOn subnet < 2 ^ 128) :
    AgreesAt (exactAddStake who subnet amount) (addStake who subnet amount) l := by
  unfold exactAddStake addStake
  refine .bind_look fun bounds hactive => .bind_look fun _ _ =>
    .bind (agreesAt_debitFree ..) fun _ m hm => ?_
  obtain ⟨registry, hdebit, rfl⟩ := perform_debitFree_ok_iff.mp hm
  refine agreesAt_changeBook (Exact.bind_of (Stakes.exactAdd_eq ht fun balance stakes hadd => ?_)
    fun _ _ => rfl)
  exact hfit balance _ (perform_addStake hactive hdebit hadd)

end Ledger

end Stakebook
