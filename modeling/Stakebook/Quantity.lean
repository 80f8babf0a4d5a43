import Stakebook.Octets

/-!
# What the ledger counts and names

Amounts, shares and weights have 128 bits, blocks and epochs 64, names of subnets and nodes 32. An
amount is counted in units of which `10 ^ 18` make a token; a weight or a percentage is a fraction
with the same denominator.
-/

namespace Stakebook

/-- An amount of units. -/
abbrev Amount := Word 128
/-- A number of shares of a pool. -/
abbrev Shares := Word 128
/-- A fraction of `unity`. -/
abbrev Weight := Word 128
/-- A height of the chain, or a number of blocks. -/
abbrev Block := Word 64
/-- The number of an overwatch epoch. -/
abbrev Epoch := Word 64
/-- The number of a queued swap. -/
abbrev SwapId := Word 64
/-- A count of things. -/
abbrev Count := Word 64
/-- A subnet. -/
abbrev SubnetId := Word 32
/-- A node of a subnet. -/
abbrev NodeId := Word 32
/-- An overwatch node. -/
abbrev WatcherId := Word 32

/-- One token. -/
def token : Amount := 1000000000000000000

/-- The whole, as a weight. -/
def unity : Weight := 1000000000000000000

end Stakebook
