import Stakebook.Ledger.Operations

/-!
# Transactions

A transaction is a call with its origin: signed by an account, or from the system. Rewards are
distributed by the system alone, some calls may come from anyone since they only carry out what is
due, and all others need a signature.
-/

namespace Stakebook

/-- Where a call comes from. -/
inductive Origin
  | signed (who : AccountId)
  | system
deriving DecidableEq

/-- The account that signed. -/
def Origin.signer? : Origin → Option AccountId
  | .signed who => some who
  | .system => none

/-- What a transaction asks of the ledger. -/
inductive LedgerCall
  | addStake (subnet : SubnetId) (amount : Amount)
  | removeStake (subnet : SubnetId) (amount : Amount)
  | delegate (pool : PoolId) (amount : Amount)
  | undelegate (pool : PoolId) (shares : Shares)
  | swap (source target : PoolId) (shares : Shares)
  | transfer (pool : PoolId) (target : AccountId) (shares : Shares)
  | updateSwap (id : SwapId) (target : PoolId)
  | updateSwapByTag (id : SwapId) (tag : Word 8) (subnet : SubnetId) (node : NodeId)
  | executeSwap (id : SwapId)
  | executeReadySwaps (max : Count)
  | claimUnbondings
  | commitWeights (watcher : WatcherId) (commits : Batch Commit)
  | revealWeights (watcher : WatcherId) (reveals : Batch Reveal)
  | pruneOverwatch
  | distribute (pool : PoolId) (amount : Amount)
deriving DecidableEq

namespace LedgerCall

/-- The name of a call. Calls on the pool of a node have names of their own. -/
def name : LedgerCall → String
  | .addStake .. => "add_stake"
  | .removeStake .. => "remove_stake"
  | .delegate (.subnet _) _ => "add_delegate_stake"
  | .delegate (.node _) _ => "add_node_delegate_stake"
  | .undelegate (.subnet _) _ => "remove_delegate_stake"
  | .undelegate (.node _) _ => "remove_node_delegate_stake"
  | .swap (.subnet _) (.subnet _) _ => "swap_delegate_stake"
  | .swap (.node _) (.node _) _ => "swap_node_delegate_stake"
  | .swap (.node _) (.subnet _) _ => "swap_from_node_to_subnet"
  | .swap (.subnet _) (.node _) _ => "swap_from_subnet_to_node"
  | .transfer (.subnet _) _ _ => "transfer_delegate_stake"
  | .transfer (.node _) _ _ => "transfer_node_delegate_stake"
  | .updateSwap .. => "update_swap_queue"
  | .updateSwapByTag .. => "update_swap_queue_by_call_type"
  | .executeSwap _ => "execute_swap"
  | .executeReadySwaps _ => "execute_ready_swaps"
  | .claimUnbondings => "claim_unbondings"
  | .commitWeights .. => "commit_overwatch_weights"
  | .revealWeights .. => "reveal_overwatch_weights"
  | .pruneOverwatch => "prune_overwatch"
  | .distribute (.subnet _) _ => "distribute_delegate_rewards"
  | .distribute (.node _) _ => "distribute_node_delegate_rewards"

/-- Whether only the system may make a call. -/
def needsSystem : LedgerCall → Bool
  | .distribute .. => true
  | _ => false

/-- Whether anyone may make a call, the system included. -/
def isPermissionless : LedgerCall → Bool
  | .executeSwap _ => true
  | .executeReadySwaps _ => true
  | .pruneOverwatch => true
  | _ => false

end LedgerCall

/-- A call with its origin. -/
structure Transaction where
  origin : Origin
  call : LedgerCall
deriving DecidableEq

end Stakebook
