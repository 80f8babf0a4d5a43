import Stakebook.Quantity

/-!
# Why a call is refused

Every refusal has a cause of type `LedgerError`. `kind` is its short name, by which scenarios state
what they expect, and `message` says in a sentence what stood in the way.
-/

namespace Stakebook

/-- Why a call is refused. -/
inductive LedgerError
  | insufficientAmount
  | insufficientShares
  | belowMinStake (balance min : Amount)
  | aboveMaxStake (balance max : Amount)
  | subnetNotActive (subnet : SubnetId)
  | subnetNodeNotActive (subnet : SubnetId) (node : NodeId)
  | ledgerFull (capacity : Count)
  | queueLocked (id : SwapId) (executeAfter : Block)
  | notMatured (id : SwapId) (executeAfter : Block)
  | swapNotFound (id : SwapId)
  | invalidCallType (tag : Word 8)
  | noCommit (epoch : Epoch) (subnet : SubnetId)
  | hashMismatch
  | outOfWindow
  | invalidWeight (weight : Weight)
  | unauthorized
  | insufficientBalance
  | belowMinDelegateDeposit (amount min : Amount)
  | zeroShares
  | overflow
  | encoding
deriving DecidableEq

namespace LedgerError

/-- The short name of a cause. -/
def kind : LedgerError → String
  | .insufficientAmount => "InsufficientAmount"
  | .insufficientShares => "InsufficientShares"
  | .belowMinStake .. => "BelowMinStake"
  | .aboveMaxStake .. => "AboveMaxStake"
  | .subnetNotActive _ => "SubnetNotActive"
  | .subnetNodeNotActive .. => "SubnetNodeNotActive"
  | .ledgerFull _ => "LedgerFull"
  | .queueLocked .. => "QueueLocked"
  | .notMatured .. => "NotMatured"
  | .swapNotFound _ => "SwapNotFound"
  | .invalidCallType _ => "InvalidCallType"
  | .noCommit .. => "NoCommit"
  | .hashMismatch => "HashMismatch"
  | .outOfWindow => "OutOfWindow"
  | .invalidWeight _ => "InvalidWeight"
  | .unauthorized => "Unauthorized"
  | .insufficientBalance => "InsufficientBalance"
  | .belowMinDelegateDeposit .. => "BelowMinDelegateDeposit"
  | .zeroShares => "ZeroShares"
  | .overflow => "Overflow"
  | .encoding => "Encoding"

/-- The cause in a sentence. -/
def message : LedgerError → String
  | .insufficientAmount => "amount is zero or exceeds the available balance"
  | .insufficientShares => "share amount is zero or exceeds the account holding"
  | .belowMinStake balance min =>
    s!"resulting stake {balance} is below the subnet minimum {min}"
  | .aboveMaxStake balance max =>
    s!"resulting stake {balance} is above the subnet maximum {max}"
  | .subnetNotActive subnet => s!"subnet {subnet} is not active"
  | .subnetNodeNotActive subnet node => s!"subnet node {node} is not active in subnet {subnet}"
  | .ledgerFull capacity => s!"unbonding ledger is full ({capacity} entries, none claimable)"
  | .queueLocked id executeAfter => s!"swap {id} is locked since block {executeAfter}"
  | .notMatured id executeAfter => s!"swap {id} matures at block {executeAfter}"
  | .swapNotFound id => s!"swap {id} not found"
  | .invalidCallType tag => s!"unknown swap call type {tag}"
  | .noCommit epoch subnet => s!"no commit for subnet {subnet} in overwatch epoch {epoch}"
  | .hashMismatch => "revealed weight does not match the commit"
  | .outOfWindow => "operation is outside its overwatch window"
  | .invalidWeight weight => s!"weight {weight} exceeds 100%"
  | .unauthorized => "caller is not authorized"
  | .insufficientBalance => "free balance is insufficient"
  | .belowMinDelegateDeposit amount min =>
    s!"amount {amount} is below the minimum delegate deposit {min}"
  | .zeroShares => "amount converts to zero shares at the current price"
  | .overflow => "arithmetic overflow"
  | .encoding => "transaction could not be encoded"

end LedgerError

end Stakebook
