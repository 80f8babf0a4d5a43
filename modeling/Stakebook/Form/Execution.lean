import Stakebook.Execution
import Stakebook.Form.Error

/-!
# Forms of reports
-/

namespace Stakebook

open Form

/-- The form of the outcome of a swap. -/
def SwapOutcome.form : Form SwapOutcome :=
  sum
    [ .fields "deposited" (.cons (.required "shares" word128) .nil)
        (fun (shares, _) => .deposited shares)
        (fun | .deposited shares => some (shares, ()) | _ => none),
      .fields "unbonded" (.cons (.required "unlock_block" word64) .nil)
        (fun (unlockBlock, _) => .unbonded unlockBlock)
        (fun | .unbonded unlockBlock => some (unlockBlock, ()) | _ => none) ]

/-- The form of what became of a swap. -/
def SwapResult.form : Form SwapResult :=
  record
    (.cons (.required "id" word64) <|
     .cons (.optional "outcome" SwapOutcome.form) <|
     .cons (.optional "error" LedgerError.form) .nil)
    (fun (id, outcome, error, _) => { id, outcome, error })
    (fun r => (r.id, r.outcome, r.error, ()))

/-- The form of what a call returns. -/
def CallOutput.form : Form CallOutput :=
  sum
    [ .unit "done" .done,
      .fields "stake" (.cons (.required "balance" word128) .nil)
        (fun (balance, _) => .stake balance)
        (fun | .stake balance => some (balance, ()) | _ => none),
      .fields "unbonding" (.cons (.required "unlock_block" word64) .nil)
        (fun (unlockBlock, _) => .unbonding unlockBlock)
        (fun | .unbonding unlockBlock => some (unlockBlock, ()) | _ => none),
      .fields "shares" (.cons (.required "shares" word128) .nil)
        (fun (s, _) => .shares s)
        (fun | .shares s => some (s, ()) | _ => none),
      .fields "withdrawn" (.cons (.required "amount" word128) .nil)
        (fun (amount, _) => .withdrawn amount)
        (fun | .withdrawn amount => some (amount, ()) | _ => none),
      .fields "swap_queued" (.cons (.required "id" word64) .nil)
        (fun (id, _) => .swapQueued id)
        (fun | .swapQueued id => some (id, ()) | _ => none),
      .fields "swap" (.cons (.required "outcome" SwapOutcome.form) .nil)
        (fun (outcome, _) => .swap outcome)
        (fun | .swap outcome => some (outcome, ()) | _ => none),
      .fields "swaps" (.cons (.required "results" (list SwapResult.form)) .nil)
        (fun (results, _) => .swaps results)
        (fun | .swaps results => some (results, ()) | _ => none),
      .fields "claimed" (.cons (.required "amount" word128) .nil)
        (fun (amount, _) => .claimed amount)
        (fun | .claimed amount => some (amount, ()) | _ => none),
      .fields "epoch" (.cons (.required "epoch" word64) .nil)
        (fun (e, _) => .epoch e)
        (fun | .epoch e => some (e, ()) | _ => none),
      .fields "pruned" (.cons (.required "removed" word64) .nil)
        (fun (removed, _) => .pruned removed)
        (fun | .pruned removed => some (removed, ()) | _ => none) ]

/-- The form of the report on a transaction. -/
def ExecutionResult.form : Form ExecutionResult :=
  record
    (.cons (.required "tx_hash" Form.digest) <|
     .cons (.required "call" text) <|
     .cons (.required "block_number" word64) <|
     .cons (.optional "output" CallOutput.form) <|
     .cons (.optional "error" LedgerError.form) .nil)
    (fun (digest, call, block, output, error, _) => { digest, call, block, output, error })
    (fun r => (r.digest, r.call, r.block, r.output, r.error, ()))

end Stakebook
