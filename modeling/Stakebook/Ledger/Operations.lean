import Stakebook.Ledger.Basic

/-!
# Operations on the ledger

What accounts can do: stake directly, delegate to the pool of a subnet or of a node, withdraw into
unbonding, claim what has unlocked, and swap from pool to pool by way of the queue. Rewards are
distributed to pools, and overwatch nodes commit and reveal weights.

Each operation first looks at everything that could stop it, and then changes the components one by
one; the changes make their own checks again.
-/

namespace Stakebook

/-- Where a swap ended: in its target pool, or in the unbonding list of its owner. -/
inductive SwapOutcome
  | deposited (shares : Shares)
  | unbonded (unlockBlock : Block)
deriving DecidableEq

namespace Ledger

open Operation

/-! ## Unbonding -/

/-- Adds to a free balance. -/
def creditFree (who : AccountId) (amount : Amount) : Operation Unit :=
  update fun l => { l with registry := l.registry.credit who amount }

/-- Takes from a free balance. -/
def debitFree (who : AccountId) (amount : Amount) : Operation Unit :=
  change fun l => do
    let registry ← l.registry.debit who amount
    return ((), { l with registry })

/-- Enters an amount into the unbonding list of an account. What is released to make room goes to
its free balance. -/
def enterUnbonding (who : AccountId) (amount : Amount) (unlock block : Block) : Operation Unit := do
  let released ← changeBook fun b => do
    let (released, unbonding) ← b.unbonding.enqueue who amount unlock block
    return (released, { b with unbonding })
  if released ≠ 0 then creditFree who released

/-- Moves what has unlocked to the free balance of an account, and returns how much that was. -/
def claimUnbondings (who : AccountId) (block : Block) : Operation Amount := do
  let claimed ← changeBook fun b =>
    let (claimed, unbonding) := b.unbonding.claim who block
    return (claimed, { b with unbonding })
  if claimed ≠ 0 then creditFree who claimed
  return claimed

/-! ## Direct stake -/

/-- Moves an amount from the free balance into direct stake, and returns the stake. -/
def addStake (who : AccountId) (subnet : SubnetId) (amount : Amount) : Operation Amount := do
  let bounds ← look fun l => l.registry.activeSubnet subnet
  let _ ← look fun l => l.book.stakes.checkAdd who subnet amount bounds
  debitFree who amount
  changeBook fun b => do
    let (balance, stakes) ← b.stakes.add who subnet amount bounds
    return (balance, { b with stakes })

/-- Moves an amount of direct stake into unbonding, and returns the block at which it unlocks. -/
def removeStake (who : AccountId) (subnet : SubnetId) (amount : Amount) (block : Block) :
    Operation Block := do
  let bounds ← read fun l => l.registry.leavingParams subnet
  let _ ← look fun l => l.book.stakes.checkRemove who subnet amount bounds
  let unlock := block.satAdd bounds.unbondingPeriod
  look fun l => l.book.unbonding.checkEnqueue who amount unlock block
  let _ ← changeBook fun b => do
    let (remaining, stakes) ← b.stakes.remove who subnet amount bounds
    return (remaining, { b with stakes })
  enterUnbonding who amount unlock block
  return unlock

/-! ## Pools -/

/-- Deposits free balance into an active pool, and returns the new shares. -/
def delegate (who : AccountId) (pool : PoolId) (amount : Amount) : Operation Shares := do
  let _ ← look fun l => l.registry.activePool pool
  let minimum ← read fun l => l.registry.network.minDelegateDeposit
  let _ ← look fun l => l.book.quoteDeposit pool amount minimum
  debitFree who amount
  changeBook fun b => b.deposit who pool amount minimum

/-- Redeems shares of a pool into unbonding, and returns the balance. Shares that redeem for nothing
are burned and enter nothing. -/
def undelegate (who : AccountId) (pool : PoolId) (shares : Shares) (block : Block) :
    Operation Amount := do
  let period ← read fun l => (l.registry.leavingParams pool.subnetId).unbondingPeriod
  let amount ← look fun l => l.book.quoteWithdraw who pool shares
  let unlock := block.satAdd period
  if amount ≠ 0 then look fun l => l.book.unbonding.checkEnqueue who amount unlock block
  let _ ← changeBook fun b => b.withdraw who pool shares
  if amount ≠ 0 then enterUnbonding who amount unlock block
  return amount

/-- Moves shares of a pool to another account. -/
def transfer (source : AccountId) (pool : PoolId) (target : AccountId) (shares : Shares) :
    Operation Unit := do
  let minimum ← read fun l => l.registry.network.minDelegateDeposit
  changeBook fun b => do
    let b ← b.transfer source pool target shares minimum
    return ((), b)

/-- Adds a reward to an active pool. -/
def distribute (pool : PoolId) (amount : Amount) : Operation Unit := do
  let _ ← look fun l => l.registry.activePool pool
  changeBook fun b => do
    let b ← b.distribute pool amount
    return ((), b)

/-! ## Swaps -/

/-- Burns shares of a pool and queues their balance for another, and returns the number of the
swap. -/
def queueSwap (who : AccountId) (source : PoolId) (target : PoolId) (shares : Shares)
    (block : Block) : Operation SwapId := do
  let _ ← look fun l => l.registry.activePool target
  let balance ← look fun l => l.book.quoteWithdraw who source shares
  look fun l => l.book.swaps.checkEnqueue balance
  let delay ← read fun l => l.registry.network.swapDelay
  let _ ← changeBook fun b => b.withdraw who source shares
  changeBook fun b => do
    let (id, swaps) ← b.swaps.enqueue who target balance block delay
    return (id, { b with swaps })

/-- Gives a queued swap another target, which has to be active. -/
def updateSwap (who : AccountId) (id : SwapId) (target : PoolId) (block : Block) :
    Operation Unit := do
  let _ ← look fun l => l.book.swaps.checkUpdate id who block
  let _ ← look fun l => l.registry.activePool target
  changeBook fun b => do
    let swaps ← b.swaps.update id who target block
    return ((), { b with swaps })

/-- Takes a swap out of the queue. -/
def dropSwap (id : SwapId) : Operation Unit :=
  update fun l => { l with book := { l.book with swaps := l.book.swaps.remove id } }

/-- Executes a matured swap. If its target is not active or refuses the deposit, the balance goes
into the unbonding list of its owner, over the fallback period; if that has no room, the swap stays
in the queue. -/
def executeSwap (id : SwapId) (block : Block) : Operation SwapOutcome := do
  let swap ← look fun l => l.book.swaps.checkMatured id block
  let accepted ← read fun l => do
    let _ ← l.registry.activePool swap.target
    l.book.quoteDeposit swap.target swap.balance 0
  match accepted with
  | .ok _ =>
    dropSwap id
    let shares ← changeBook fun b => b.deposit swap.account swap.target swap.balance 0
    return .deposited shares
  | .error _ =>
    let period ← read fun l => l.registry.network.fallbackUnbondingPeriod
    let unlock := block.satAdd period
    look fun l => l.book.unbonding.checkEnqueue swap.account swap.balance unlock block
    dropSwap id
    enterUnbonding swap.account swap.balance unlock block
    return .unbonded unlock

/-- Executes swaps one after the other, and returns what became of each. -/
def executeEach (block : Block) :
    List SwapId → Operation (List (SwapId × Except LedgerError SwapOutcome))
  | [] => return []
  | id :: ids => do
    let outcome ← (executeSwap id block).attempt
    let rest ← executeEach block ids
    return (id, outcome) :: rest

/-- Executes the first matured swaps of the queue; one that fails stays in it. -/
def executeReadySwaps (block : Block) (max : Count) :
    Operation (List (SwapId × Except LedgerError SwapOutcome)) := do
  let ids ← read fun l => l.book.swaps.ready block max
  executeEach block ids

/-! ## Overwatch -/

/-- Records the commits of an overwatch node, and returns their epoch. -/
def commitWeights (who : AccountId) (watcher : WatcherId) (commits : List Commit) (block : Block) :
    Operation Epoch := do
  look fun l => l.registry.checkOwner who watcher
  look fun l => commits.forM fun c => do
    let _ ← l.registry.activeSubnet c.subnet
  let schedule ← read fun l => l.registry.network.schedule
  changeBook fun b => do
    let (epoch, overwatch) ← b.overwatch.commitMany schedule block watcher commits
    return (epoch, { b with overwatch })

/-- Records the revealed weights of an overwatch node, and returns their epoch. -/
def revealWeights (who : AccountId) (watcher : WatcherId) (reveals : List Reveal) (block : Block) :
    Operation Epoch := do
  look fun l => l.registry.checkOwner who watcher
  let schedule ← read fun l => l.registry.network.schedule
  changeBook fun b => do
    let (epoch, overwatch) ← b.overwatch.revealMany schedule block watcher reveals
    return (epoch, { b with overwatch })

/-- Drops the overwatch records of the epochs that are no longer kept, and returns how many there
were. -/
def pruneOverwatch (block : Block) : Operation Nat := do
  let before ← read fun l =>
    (l.registry.network.schedule.epochOf block).satSub l.registry.network.overwatchRetention
  changeBook fun b =>
    let (removed, overwatch) := b.overwatch.prune before
    return (removed, { b with overwatch })

end Ledger

end Stakebook
