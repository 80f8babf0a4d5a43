import Stakebook.Schedule

/-!
# Parameters

The parameters of the network and the bounds of a subnet, with their default values and the
conditions that a configuration has to meet.
-/

namespace Stakebook

/-- Why a configuration cannot be used. -/
inductive ConfigError
  | zeroEpochLength
  | zeroMultiplier
  | invalidCutoff (cutoff : Weight)
  | zeroUnbondingCapacity
  | invalidStakeBounds (min max : Amount)
  | nodeListedTwice (subnet : SubnetId) (node : NodeId)
deriving DecidableEq

namespace ConfigError

/-- The short name of a cause. -/
def kind : ConfigError → String
  | .zeroEpochLength => "ZeroEpochLength"
  | .zeroMultiplier => "ZeroMultiplier"
  | .invalidCutoff _ => "InvalidCutoff"
  | .zeroUnbondingCapacity => "ZeroUnbondingCapacity"
  | .invalidStakeBounds .. => "InvalidStakeBounds"
  | .nodeListedTwice .. => "Genesis"

/-- The cause in a sentence. -/
def message : ConfigError → String
  | .zeroEpochLength => "epoch length must be non-zero"
  | .zeroMultiplier => "overwatch epoch multiplier must be non-zero"
  | .invalidCutoff cutoff => s!"overwatch cutoff {cutoff} must lie strictly between 0 and 1e18"
  | .zeroUnbondingCapacity => "unbonding capacity must be non-zero"
  | .invalidStakeBounds min max => s!"min stake {min} exceeds max stake {max}"
  | .nodeListedTwice subnet node => s!"genesis: subnet {subnet} lists node {node} twice"

end ConfigError

/-- The bounds of a stake on a subnet, and how many blocks a withdrawal waits. -/
structure SubnetParams where
  minStake : Amount
  maxStake : Amount
  unbondingPeriod : Block
deriving DecidableEq

namespace SubnetParams

instance : Inhabited SubnetParams :=
  ⟨100000000000000000000, 1000000000000000000000000, 100⟩

/-- Whether the bounds can be met. -/
def validate (p : SubnetParams) : Except ConfigError Unit :=
  if p.maxStake < p.minStake then .error (.invalidStakeBounds p.minStake p.maxStake) else .ok ()

end SubnetParams

/-- The parameters that all subnets share. -/
structure NetworkParams where
  epochLength : Block
  overwatchMultiplier : Word 64
  overwatchCutoff : Weight
  swapDelay : Block
  minDelegateDeposit : Amount
  maxUnbondings : Count
  fallbackUnbondingPeriod : Block
  overwatchRetention : Word 64
deriving DecidableEq

namespace NetworkParams

instance : Inhabited NetworkParams where
  default :=
    { epochLength := 100
      overwatchMultiplier := 10
      overwatchCutoff := 500000000000000000
      swapDelay := 100
      minDelegateDeposit := 1000
      maxUnbondings := 32
      fallbackUnbondingPeriod := 100
      overwatchRetention := 4 }

/-- How the network cuts the chain into overwatch epochs. -/
def schedule (p : NetworkParams) : Schedule :=
  ⟨p.epochLength, p.overwatchMultiplier, p.overwatchCutoff⟩

/-- Whether the parameters make sense; of several faults the first in the order of the fields is
reported. -/
def validate (p : NetworkParams) : Except ConfigError Unit :=
  if p.epochLength = 0 then .error .zeroEpochLength
  else if p.overwatchMultiplier = 0 then .error .zeroMultiplier
  else if p.overwatchCutoff = 0 ∨ unity ≤ p.overwatchCutoff then
    .error (.invalidCutoff p.overwatchCutoff)
  else if p.maxUnbondings = 0 then .error .zeroUnbondingCapacity
  else .ok ()

end NetworkParams

/-- The configuration of a ledger: the network, and the bounds of the subnets that set none. -/
structure LedgerConfig where
  network : NetworkParams
  subnetDefaults : SubnetParams
deriving DecidableEq, Inhabited

/-- Whether both parts make sense; the network is looked at first. -/
def LedgerConfig.validate (c : LedgerConfig) : Except ConfigError Unit := do
  c.network.validate
  c.subnetDefaults.validate

end Stakebook
