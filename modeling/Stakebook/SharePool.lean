import Stakebook.OrdMap.Basic
import Stakebook.Proportion

/-!
# Pools of shares

Who deposits into a pool receives shares of it. Rewards raise the balance of a pool without new
shares, so each share redeems for more. `SharePool κ` holds one pool for each key, the shares of all
accounts, and the balance of all pools together.

`quoteDeposit`, `quoteWithdraw` and `checkTransfer` only look; the operations that change a pool
make the same check first.
-/

namespace Stakebook

/-- The totals of a pool. -/
structure Pool where
  totalShares : Shares
  totalBalance : Amount
deriving DecidableEq

namespace Pool

/-- A pool without shares and balance. -/
def empty : Pool := ⟨0, 0⟩

instance : Inhabited Pool := ⟨empty⟩

/-- Whether a pool has neither shares nor balance. -/
def isEmpty (p : Pool) : Bool := p.totalShares = 0 ∧ p.totalBalance = 0

end Pool

/-- Pools by key, the shares of the accounts in them, and the balance of all pools. -/
structure SharePool (κ : Type) [KeyOrder κ] where
  pools : OrdMap κ Pool
  shares : OrdMap (AccountId × κ) Shares
  totalBalance : Amount
deriving DecidableEq

namespace SharePool

variable {κ : Type} [KeyOrder κ]

/-- No pools. -/
def empty : SharePool κ := ⟨∅, ∅, 0⟩

instance : Inhabited (SharePool κ) := ⟨empty⟩

/-- The totals of the pool of a key. -/
def pool (p : SharePool κ) (key : κ) : Pool := p.pools.getD key .empty

/-- The shares of an account in a pool. -/
def sharesOf (p : SharePool κ) (who : AccountId) (key : κ) : Shares := p.shares.getD (who, key) 0

/-- What the shares of an account in a pool redeem for. -/
def balanceOf (p : SharePool κ) (who : AccountId) (key : κ) : Amount :=
  let shares := p.sharesOf who key
  if shares = 0 then 0
  else match balanceFor shares (p.pool key).totalShares (p.pool key).totalBalance with
    | .ok balance => balance
    | .error _ => 0

/-- The shares that a deposit would receive, if it is allowed. A deposit that is too small for a
share is refused, since it would go to the holders. -/
def quoteDeposit (p : SharePool κ) (key : κ) (amount minimum : Amount) :
    Except LedgerError Shares :=
  if amount = 0 then .error .insufficientAmount
  else if amount < minimum then .error (.belowMinDelegateDeposit amount minimum)
  else do
    let pool := p.pool key
    let shares ← sharesFor amount pool.totalShares pool.totalBalance
    if shares = 0 then .error .zeroShares
    else if (pool.totalShares.add? shares).isNone ∨ (pool.totalBalance.add? amount).isNone ∨
        (p.totalBalance.add? amount).isNone then .error .overflow
    else .ok shares

/-- Deposits into a pool, and returns the new shares. -/
def deposit (p : SharePool κ) (who : AccountId) (key : κ) (amount minimum : Amount) :
    Except LedgerError (Shares × SharePool κ) := do
  let shares ← p.quoteDeposit key amount minimum
  let pool := p.pool key
  return (shares,
    { pools := p.pools.insert key ⟨pool.totalShares + shares, pool.totalBalance + amount⟩
      shares := p.shares.insert (who, key) (p.sharesOf who key + shares)
      totalBalance := p.totalBalance + amount })

/-- What some shares of an account would redeem for, if it has them. -/
def quoteWithdraw (p : SharePool κ) (who : AccountId) (key : κ) (shares : Shares) :
    Except LedgerError Amount :=
  if shares = 0 ∨ p.sharesOf who key < shares then .error .insufficientShares
  else balanceFor shares (p.pool key).totalShares (p.pool key).totalBalance

/-- The holdings with some shares of an account taken away; a holding of zero is not kept. -/
def burn (holdings : OrdMap (AccountId × κ) Shares) (who : AccountId) (key : κ) (shares : Shares) :
    OrdMap (AccountId × κ) Shares :=
  match holdings.get? (who, key) with
  | none => holdings
  | some held =>
    let rest := held - shares
    if rest = 0 then holdings.erase (who, key) else holdings.insert (who, key) rest

/-- The pools with some shares and balance taken from one of them; an empty pool is not kept. -/
def shrink (pools : OrdMap κ Pool) (key : κ) (shares : Shares) (amount : Amount) :
    OrdMap κ Pool :=
  match pools.get? key with
  | none => pools
  | some pool =>
    let rest : Pool := ⟨pool.totalShares - shares, pool.totalBalance - amount⟩
    if rest.isEmpty then pools.erase key else pools.insert key rest

/-- Burns shares, and returns the balance that they redeemed for. -/
def withdraw (p : SharePool κ) (who : AccountId) (key : κ) (shares : Shares) :
    Except LedgerError (Amount × SharePool κ) := do
  let amount ← p.quoteWithdraw who key shares
  return (amount,
    { pools := shrink p.pools key shares amount
      shares := burn p.shares who key shares
      totalBalance := p.totalBalance - amount })

/-- Whether a transfer is allowed: what the shares redeem for must reach the minimum deposit, so
that no position is cut into dust. -/
def checkTransfer (p : SharePool κ) (source : AccountId) (key : κ) (shares : Shares)
    (minimum : Amount) : Except LedgerError Unit := do
  let value ← p.quoteWithdraw source key shares
  if value < minimum then .error (.belowMinDelegateDeposit value minimum) else .ok ()

/-- Moves shares from one account to another. -/
def transfer (p : SharePool κ) (source : AccountId) (key : κ) (target : AccountId)
    (shares : Shares) (minimum : Amount) : Except LedgerError (SharePool κ) := do
  p.checkTransfer source key shares minimum
  let burned := burn p.shares source key shares
  return { p with
    shares := burned.insert (target, key) (burned.getD (target, key) 0 + shares) }

/-- Adds a reward to the balance of a pool. A pool without shares refuses it, since the next
deposit would take it whole. -/
def distribute (p : SharePool κ) (key : κ) (amount : Amount) : Except LedgerError (SharePool κ) :=
  let pool := p.pool key
  if amount = 0 then .error .insufficientAmount
  else if pool.totalShares = 0 then .error .insufficientShares
  else if (pool.totalBalance.add? amount).isNone ∨ (p.totalBalance.add? amount).isNone then
    .error .overflow
  else .ok { p with
    pools := p.pools.insert key ⟨pool.totalShares, pool.totalBalance + amount⟩
    totalBalance := p.totalBalance + amount }

/-- The holders of a pool with their shares, in the order of the accounts. -/
def holders [DecidableEq κ] (p : SharePool κ) (key : κ) : List (AccountId × Shares) :=
  (p.shares.toList.filter fun e => e.1.2 = key).map fun e => (e.1.1, e.2)

end SharePool

end Stakebook
