import Stakebook.Form.Transaction

/-!
# Applying transactions

`apply` carries a transaction out on a ledger at a block and reports what came of it: the output of
the call, or the reason why it was refused.
-/

namespace Stakebook

/-- What became of one swap of a batch. -/
structure SwapResult where
  id : SwapId
  outcome : Option SwapOutcome
  error : Option LedgerError
deriving DecidableEq

/-- The report on the execution of a swap. -/
def SwapResult.of (id : SwapId) : Except LedgerError SwapOutcome → SwapResult
  | .ok outcome => ⟨id, some outcome, none⟩
  | .error e => ⟨id, none, some e⟩

/-- What a call returns. -/
inductive CallOutput
  | done
  | stake (balance : Amount)
  | unbonding (unlockBlock : Block)
  | shares (shares : Shares)
  | withdrawn (amount : Amount)
  | swapQueued (id : SwapId)
  | swap (outcome : SwapOutcome)
  | swaps (results : List SwapResult)
  | claimed (amount : Amount)
  | epoch (epoch : Epoch)
  | pruned (removed : Count)
deriving DecidableEq

/-- The report on a transaction: its digest, the name of its call, the block, and either an output
or an error. -/
structure ExecutionResult where
  digest : Digest
  call : String
  block : Block
  output : Option CallOutput
  error : Option LedgerError
deriving DecidableEq

/-- Whether the transaction was accepted. -/
def ExecutionResult.success (r : ExecutionResult) : Bool := r.error.isNone

namespace Transaction

open Ledger

/-- The signer of a transaction whose call its origin may make; a call that anyone may make needs
none. -/
def checkOrigin (t : Transaction) : Except LedgerError (Option AccountId) :=
  if t.call.isPermissionless then .ok t.origin.signer?
  else match t.origin, t.call.needsSystem with
    | .system, true => .ok none
    | .signed who, false => .ok (some who)
    | _, _ => .error .unauthorized

/-- The account that a call needs as its signer. -/
def sender (signer : Option AccountId) : Operation AccountId :=
  match signer with
  | some who => pure who
  | none => throw .unauthorized

/-- Makes a call. -/
def dispatch (call : LedgerCall) (signer : Option AccountId) (block : Block) : Operation CallOutput :=
  match call with
  | .addStake subnet amount => do
    return .stake (← addStake (← sender signer) subnet amount)
  | .removeStake subnet amount => do
    return .unbonding (← removeStake (← sender signer) subnet amount block)
  | .delegate pool amount => do
    return .shares (← delegate (← sender signer) pool amount)
  | .undelegate pool shares => do
    return .withdrawn (← undelegate (← sender signer) pool shares block)
  | .swap source target shares => do
    return .swapQueued (← queueSwap (← sender signer) source target shares block)
  | .transfer pool target shares => do
    transfer (← sender signer) pool target shares
    return .done
  | .updateSwap id target => do
    updateSwap (← sender signer) id target block
    return .done
  | .updateSwapByTag id tag subnet node => do
    let who ← sender signer
    let target ← Operation.look fun _ => PoolId.ofParts tag subnet node
    updateSwap who id target block
    return .done
  | .executeSwap id => do
    return .swap (← executeSwap id block)
  | .executeReadySwaps max => do
    let results ← executeReadySwaps block max
    return .swaps (results.map fun (id, r) => SwapResult.of id r)
  | .claimUnbondings => do
    return .claimed (← claimUnbondings (← sender signer) block)
  | .commitWeights watcher commits => do
    return .epoch (← commitWeights (← sender signer) watcher commits.items block)
  | .revealWeights watcher reveals => do
    return .epoch (← revealWeights (← sender signer) watcher reveals.items block)
  | .pruneOverwatch => do
    return .pruned (.clamp (← pruneOverwatch block))
  | .distribute pool amount => do
    distribute pool amount
    return .done

/-- Makes the call of a transaction, if its origin may. -/
def run (t : Transaction) (block : Block) : Operation CallOutput := do
  let signer ← Operation.look fun _ => t.checkOrigin
  dispatch t.call signer block

/-- Carries a transaction out on a ledger at a block. -/
def apply (t : Transaction) (block : Block) (l : Ledger) : ExecutionResult × Ledger :=
  let (r, l') := (t.run block).perform l
  let report : ExecutionResult := ⟨t.digest, t.call.name, block, none, none⟩
  match r with
  | .ok output => ({ report with output := some output }, l')
  | .error e => ({ report with error := some e }, l')

end Transaction

end Stakebook
