import Stakebook.OrdMap.Basic
import Stakebook.Params

/-!
# Direct stake

The stake of an account on a subnet, held between the bounds of the subnet. A stake of zero is not
kept. Beside the stakes stand the totals of the subnets and the total of all.

`checkAdd` and `checkRemove` only look; `add` and `remove` make the same check first and return the
changed stakes only if it passes.
-/

namespace Stakebook

/-- The direct stakes, with their totals. -/
structure Stakes where
  balances : OrdMap (AccountId × SubnetId) Amount
  subnetTotals : OrdMap SubnetId Amount
  total : Amount
deriving DecidableEq

namespace Stakes

/-- No stakes. -/
def empty : Stakes := ⟨∅, ∅, 0⟩

instance : Inhabited Stakes := ⟨empty⟩

/-- The stake of an account on a subnet. -/
def balanceOf (s : Stakes) (who : AccountId) (subnet : SubnetId) : Amount :=
  s.balances.getD (who, subnet) 0

/-- The total of a subnet. -/
def subnetTotal (s : Stakes) (subnet : SubnetId) : Amount := s.subnetTotals.getD subnet 0

/-- The stake after an addition, if the addition is allowed. -/
def checkAdd (s : Stakes) (who : AccountId) (subnet : SubnetId) (amount : Amount)
    (bounds : SubnetParams) : Except LedgerError Amount :=
  if amount = 0 then .error .insufficientAmount
  else match (s.balanceOf who subnet).add? amount with
    | none => .error .overflow
    | some balance =>
      if balance < bounds.minStake then .error (.belowMinStake balance bounds.minStake)
      else if bounds.maxStake < balance then .error (.aboveMaxStake balance bounds.maxStake)
      else .ok balance

/-- Adds to a stake, and returns it. -/
def add (s : Stakes) (who : AccountId) (subnet : SubnetId) (amount : Amount)
    (bounds : SubnetParams) : Except LedgerError (Amount × Stakes) := do
  let balance ← s.checkAdd who subnet amount bounds
  return (balance,
    { balances := s.balances.insert (who, subnet) balance
      subnetTotals := s.subnetTotals.insert subnet (s.subnetTotal subnet + amount)
      total := s.total.satAdd amount })

/-- The stake after a removal, if the removal is allowed. What is left must be nothing, or no less
than the subnet's minimum. -/
def checkRemove (s : Stakes) (who : AccountId) (subnet : SubnetId) (amount : Amount)
    (bounds : SubnetParams) : Except LedgerError Amount :=
  let balance := s.balanceOf who subnet
  if amount = 0 ∨ balance < amount then .error .insufficientAmount
  else
    let remaining := balance - amount
    if remaining ≠ 0 ∧ remaining < bounds.minStake then
      .error (.belowMinStake remaining bounds.minStake)
    else .ok remaining

/-- The totals of the subnets with `amount` taken from one of them; a total of zero is not kept. -/
def lowerTotal (totals : OrdMap SubnetId Amount) (subnet : SubnetId) (amount : Amount) :
    OrdMap SubnetId Amount :=
  match totals.get? subnet with
  | none => totals
  | some total =>
    let rest := total.satSub amount
    if rest = 0 then totals.erase subnet else totals.insert subnet rest

/-- Takes from a stake, and returns what is left of it. -/
def remove (s : Stakes) (who : AccountId) (subnet : SubnetId) (amount : Amount)
    (bounds : SubnetParams) : Except LedgerError (Amount × Stakes) := do
  let remaining ← s.checkRemove who subnet amount bounds
  return (remaining,
    { balances :=
        if remaining = 0 then s.balances.erase (who, subnet)
        else s.balances.insert (who, subnet) remaining
      subnetTotals := lowerTotal s.subnetTotals subnet amount
      total := s.total.satSub amount })

end Stakes

end Stakebook
