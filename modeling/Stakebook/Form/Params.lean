import Stakebook.Form.Sum
import Stakebook.Params

/-!
# Forms of the parameters
-/

namespace Stakebook

open Form

/-- The form of the bounds of a subnet. -/
def SubnetParams.form : Form SubnetParams :=
  record
    (.cons (.required "min_stake" word128) <|
     .cons (.required "max_stake" word128) <|
     .cons (.required "unbonding_period" word64) .nil)
    (fun (minStake, maxStake, unbondingPeriod, _) => { minStake, maxStake, unbondingPeriod })
    (fun p => (p.minStake, p.maxStake, p.unbondingPeriod, ()))

/-- The form of the network's parameters; a field that is missing has its default value. -/
def NetworkParams.form : Form NetworkParams :=
  let d : NetworkParams := default
  record
    (.cons (.withDefault "epoch_length" word64 d.epochLength) <|
     .cons (.withDefault "overwatch_epoch_multiplier" word64 d.overwatchMultiplier) <|
     .cons (.withDefault "overwatch_cutoff_percent" word128 d.overwatchCutoff) <|
     .cons (.withDefault "swap_delay" word64 d.swapDelay) <|
     .cons (.withDefault "min_delegate_deposit" word128 d.minDelegateDeposit) <|
     .cons (.withDefault "max_unbondings" word64 d.maxUnbondings) <|
     .cons (.withDefault "fallback_unbonding_period" word64 d.fallbackUnbondingPeriod) <|
     .cons (.withDefault "overwatch_retention_epochs" word64 d.overwatchRetention) .nil)
    (fun (epochLength, overwatchMultiplier, overwatchCutoff, swapDelay, minDelegateDeposit,
        maxUnbondings, fallbackUnbondingPeriod, overwatchRetention, _) =>
      { epochLength, overwatchMultiplier, overwatchCutoff, swapDelay, minDelegateDeposit,
        maxUnbondings, fallbackUnbondingPeriod, overwatchRetention })
    (fun p => (p.epochLength, p.overwatchMultiplier, p.overwatchCutoff, p.swapDelay,
      p.minDelegateDeposit, p.maxUnbondings, p.fallbackUnbondingPeriod, p.overwatchRetention, ()))

/-- The form of a configuration; a part that is missing has its default value. -/
def LedgerConfig.form : Form LedgerConfig :=
  record
    (.cons (.withDefault "network" NetworkParams.form default) <|
     .cons (.withDefault "subnet_defaults" SubnetParams.form default) .nil)
    (fun (network, subnetDefaults, _) => { network, subnetDefaults })
    (fun c => (c.network, c.subnetDefaults, ()))

/-- The form of a schedule. -/
def Schedule.form : Form Schedule :=
  record
    (.cons (.required "epoch_length" word64) <|
     .cons (.required "multiplier" word64) <|
     .cons (.required "cutoff_percent" word128) .nil)
    (fun (epochLength, multiplier, cutoff, _) => { epochLength, multiplier, cutoff })
    (fun s => (s.epochLength, s.multiplier, s.cutoff, ()))

/-- The form of a phase. -/
def Phase.form : Form Phase :=
  sum [.unit "NotStarted" .notStarted, .unit "CommitOpen" .commitOpen,
    .unit "RevealOpen" .revealOpen, .unit "Closed" .closed]

end Stakebook
