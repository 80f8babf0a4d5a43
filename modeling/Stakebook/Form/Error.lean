import Stakebook.Error
import Stakebook.Form.Sum

/-!
# The form of a refusal
-/

namespace Stakebook

open Form

/-- The form of the cause of a refusal. Its variants are named as in `LedgerError.kind`. -/
def LedgerError.form : Form LedgerError :=
  sum
    [ .unit "InsufficientAmount" .insufficientAmount,
      .unit "InsufficientShares" .insufficientShares,
      .fields "BelowMinStake"
        (.cons (.required "balance" word128) <| .cons (.required "min" word128) .nil)
        (fun (balance, min, _) => .belowMinStake balance min)
        (fun | .belowMinStake balance min => some (balance, min, ()) | _ => none),
      .fields "AboveMaxStake"
        (.cons (.required "balance" word128) <| .cons (.required "max" word128) .nil)
        (fun (balance, max, _) => .aboveMaxStake balance max)
        (fun | .aboveMaxStake balance max => some (balance, max, ()) | _ => none),
      .content "SubnetNotActive" word32 .subnetNotActive
        (fun | .subnetNotActive subnet => some subnet | _ => none),
      .fields "SubnetNodeNotActive"
        (.cons (.required "subnet_id" word32) <| .cons (.required "subnet_node_id" word32) .nil)
        (fun (subnet, node, _) => .subnetNodeNotActive subnet node)
        (fun | .subnetNodeNotActive subnet node => some (subnet, node, ()) | _ => none),
      .fields "LedgerFull"
        (.cons (.required "capacity" word64) .nil)
        (fun (capacity, _) => .ledgerFull capacity)
        (fun | .ledgerFull capacity => some (capacity, ()) | _ => none),
      .fields "QueueLocked"
        (.cons (.required "id" word64) <| .cons (.required "execute_after" word64) .nil)
        (fun (id, executeAfter, _) => .queueLocked id executeAfter)
        (fun | .queueLocked id executeAfter => some (id, executeAfter, ()) | _ => none),
      .fields "NotMatured"
        (.cons (.required "id" word64) <| .cons (.required "execute_after" word64) .nil)
        (fun (id, executeAfter, _) => .notMatured id executeAfter)
        (fun | .notMatured id executeAfter => some (id, executeAfter, ()) | _ => none),
      .content "SwapNotFound" word64 .swapNotFound
        (fun | .swapNotFound id => some id | _ => none),
      .content "InvalidCallType" word8 .invalidCallType
        (fun | .invalidCallType tag => some tag | _ => none),
      .fields "NoCommit"
        (.cons (.required "epoch" word64) <| .cons (.required "subnet_id" word32) .nil)
        (fun (epoch, subnet, _) => .noCommit epoch subnet)
        (fun | .noCommit epoch subnet => some (epoch, subnet, ()) | _ => none),
      .unit "HashMismatch" .hashMismatch,
      .unit "OutOfWindow" .outOfWindow,
      .content "InvalidWeight" word128 .invalidWeight
        (fun | .invalidWeight weight => some weight | _ => none),
      .unit "Unauthorized" .unauthorized,
      .unit "InsufficientBalance" .insufficientBalance,
      .fields "BelowMinDelegateDeposit"
        (.cons (.required "amount" word128) <| .cons (.required "min" word128) .nil)
        (fun (amount, min, _) => .belowMinDelegateDeposit amount min)
        (fun | .belowMinDelegateDeposit amount min => some (amount, min, ()) | _ => none),
      .unit "ZeroShares" .zeroShares,
      .unit "Overflow" .overflow,
      .unit "Encoding" .encoding ]

end Stakebook
