import Stakebook.Overwatch
import Stakebook.Registry
import Stakebook.Stakes
import Stakebook.SwapQueue
import Stakebook.Unbonding

/-!
# The ledger

`Book` holds the records of the ledger in six components, `Ledger` the book together with the
registry around it. An `Operation` reads and changes the ledger, and may stop with a `LedgerError`.
A change made before an operation stops is not taken back; the operations of the ledger look at
everything that can fail before they change anything.
-/

namespace Stakebook

/-- The records of the ledger. -/
structure Book where
  stakes : Stakes
  delegate : SharePool SubnetId
  nodeDelegate : SharePool NodeKey
  unbonding : Unbonding
  swaps : SwapQueue
  overwatch : Overwatch
deriving DecidableEq

namespace Book

/-- A book without records, whose unbonding lists hold at most `capacity` entries. -/
def empty (capacity : Count) : Book := ⟨.empty, .empty, .empty, .empty capacity, .empty, .empty⟩

instance : Inhabited Book := ⟨empty 32⟩

/-! ## Either kind of pool -/

/-- The shares of an account in a pool. -/
def sharesOf (b : Book) (who : AccountId) : PoolId → Shares
  | .subnet id => b.delegate.sharesOf who id
  | .node key => b.nodeDelegate.sharesOf who key

/-- What the shares of an account in a pool redeem for. -/
def balanceOf (b : Book) (who : AccountId) : PoolId → Amount
  | .subnet id => b.delegate.balanceOf who id
  | .node key => b.nodeDelegate.balanceOf who key

/-- The totals of a pool. -/
def pool (b : Book) : PoolId → Pool
  | .subnet id => b.delegate.pool id
  | .node key => b.nodeDelegate.pool key

/-- The shares that a deposit would receive. -/
def quoteDeposit (b : Book) (pool : PoolId) (amount minimum : Amount) :
    Except LedgerError Shares :=
  match pool with
  | .subnet id => b.delegate.quoteDeposit id amount minimum
  | .node key => b.nodeDelegate.quoteDeposit key amount minimum

/-- Deposits into a pool, and returns the new shares. -/
def deposit (b : Book) (who : AccountId) (pool : PoolId) (amount minimum : Amount) :
    Except LedgerError (Shares × Book) :=
  match pool with
  | .subnet id => do
    let (shares, delegate) ← b.delegate.deposit who id amount minimum
    return (shares, { b with delegate })
  | .node key => do
    let (shares, nodeDelegate) ← b.nodeDelegate.deposit who key amount minimum
    return (shares, { b with nodeDelegate })

/-- What some shares of an account would redeem for. -/
def quoteWithdraw (b : Book) (who : AccountId) (pool : PoolId) (shares : Shares) :
    Except LedgerError Amount :=
  match pool with
  | .subnet id => b.delegate.quoteWithdraw who id shares
  | .node key => b.nodeDelegate.quoteWithdraw who key shares

/-- Burns shares, and returns the balance that they redeemed for. -/
def withdraw (b : Book) (who : AccountId) (pool : PoolId) (shares : Shares) :
    Except LedgerError (Amount × Book) :=
  match pool with
  | .subnet id => do
    let (amount, delegate) ← b.delegate.withdraw who id shares
    return (amount, { b with delegate })
  | .node key => do
    let (amount, nodeDelegate) ← b.nodeDelegate.withdraw who key shares
    return (amount, { b with nodeDelegate })

/-- Moves shares from one account to another. -/
def transfer (b : Book) (source : AccountId) (pool : PoolId) (target : AccountId)
    (shares : Shares) (minimum : Amount) : Except LedgerError Book :=
  match pool with
  | .subnet id => do
    return { b with delegate := ← b.delegate.transfer source id target shares minimum }
  | .node key => do
    return { b with nodeDelegate := ← b.nodeDelegate.transfer source key target shares minimum }

/-- Adds a reward to a pool. -/
def distribute (b : Book) (pool : PoolId) (amount : Amount) : Except LedgerError Book :=
  match pool with
  | .subnet id => do return { b with delegate := ← b.delegate.distribute id amount }
  | .node key => do return { b with nodeDelegate := ← b.nodeDelegate.distribute key amount }

end Book

/-- The book and the registry around it. -/
structure Ledger where
  book : Book
  registry : Registry
deriving DecidableEq

namespace Ledger

/-- An empty book over a registry. -/
def new (registry : Registry) : Ledger := ⟨.empty registry.network.maxUnbondings, registry⟩

instance : Inhabited Ledger := ⟨new default⟩

/-- An operation on the ledger: it changes the ledger, and returns a value or stops with an error. -/
abbrev Operation := ExceptT LedgerError (StateM Ledger)

namespace Operation

/-- Runs an operation: its result, and the ledger that it leaves. -/
def perform {α : Type} (a : Operation α) (l : Ledger) : Except LedgerError α × Ledger := a.run l

/-- Looks at the ledger, and stops if what is looked at is an error. -/
def look {α : Type} (f : Ledger → Except LedgerError α) : Operation α :=
  fun l => (f l, l)

/-- Changes the ledger, and stops without a change if the change is an error. -/
def change {α : Type} (f : Ledger → Except LedgerError (α × Ledger)) : Operation α :=
  fun l => match f l with
    | .ok (a, l') => (.ok a, l')
    | .error e => (.error e, l)

/-- Changes the ledger. -/
def update (f : Ledger → Ledger) : Operation Unit := fun l => (.ok (), f l)

/-- Reads from the ledger. -/
def read {α : Type} (f : Ledger → α) : Operation α := look fun l => .ok (f l)

/-- Runs an operation, and goes on with its result whether it stopped or not. -/
def attempt {α : Type} (a : Operation α) : Operation (Except LedgerError α) := fun l =>
  match a l with
  | (r, l') => (.ok r, l')

/-- Changes the book. -/
def changeBook {α : Type} (f : Book → Except LedgerError (α × Book)) : Operation α :=
  change fun l => do
    let (a, book) ← f l.book
    return (a, { l with book })

variable {α β : Type}

@[simp] theorem perform_pure (a : α) (l : Ledger) : (pure a : Operation α).perform l = (.ok a, l) :=
  rfl

@[simp] theorem perform_throw (e : LedgerError) (l : Ledger) :
    (throw e : Operation α).perform l = (.error e, l) := rfl

@[simp] theorem perform_look (f : Ledger → Except LedgerError α) (l : Ledger) :
    (look f).perform l = (f l, l) := rfl

@[simp] theorem perform_update (f : Ledger → Ledger) (l : Ledger) :
    (update f).perform l = (.ok (), f l) := rfl

@[simp] theorem perform_read (f : Ledger → α) (l : Ledger) :
    (read f).perform l = (.ok (f l), l) := rfl

@[simp] theorem perform_attempt (a : Operation α) (l : Ledger) :
    a.attempt.perform l = (.ok (a.perform l).1, (a.perform l).2) := rfl

theorem perform_change (f : Ledger → Except LedgerError (α × Ledger)) (l : Ledger) :
    (change f).perform l = match f l with
      | .ok (a, l') => (.ok a, l')
      | .error e => (.error e, l) := rfl

/-- Two operations in sequence: the second runs on what the first leaves, unless that stopped. -/
theorem perform_bind (a : Operation α) (f : α → Operation β) (l : Ledger) :
    (a >>= f).perform l = match a.perform l with
      | (.ok x, l') => (f x).perform l'
      | (.error e, l') => (.error e, l') := by
  change ExceptT.bindCont f (a l).1 (a l).2 = match a l with
    | (.ok x, l') => f x l'
    | (.error e, l') => (.error e, l')
  rcases a l with ⟨_ | _, l'⟩ <;> rfl

end Operation

end Ledger

end Stakebook
