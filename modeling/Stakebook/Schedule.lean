import Stakebook.Proportion

/-!
# Overwatch epochs

The chain is cut into overwatch epochs of equal length. In the first blocks of an epoch weights are
committed, in the rest they are revealed; the cutoff says which part of the epoch is for commits.
-/

namespace Stakebook

/-- What a block is to an epoch. -/
inductive Phase
  | notStarted
  | commitOpen
  | revealOpen
  | closed
deriving DecidableEq, Repr

/-- The name of a phase. -/
def Phase.name : Phase → String
  | .notStarted => "NotStarted"
  | .commitOpen => "CommitOpen"
  | .revealOpen => "RevealOpen"
  | .closed => "Closed"

/-- How the chain is cut: the length of an epoch of the chain, how many of them make an overwatch
epoch, and the part of an overwatch epoch that is open for commits. -/
structure Schedule where
  epochLength : Block
  multiplier : Word 64
  cutoff : Weight
deriving DecidableEq

namespace Schedule

/-- The length of an overwatch epoch, never zero. -/
def length (s : Schedule) : Block :=
  let product := s.epochLength.satMul s.multiplier
  if product = 0 then 1 else product

/-- The epoch that holds a block. -/
def epochOf (s : Schedule) (block : Block) : Epoch := block / s.length

/-- The first block of an epoch. -/
def epochStart (s : Schedule) (epoch : Epoch) : Block := epoch.satMul s.length

/-- How far into an epoch the reveals begin; at most its length. -/
def revealOffset (s : Schedule) : Block :=
  let offset := percentOf (s.length.widen (by decide)) s.cutoff
  ⟨min offset.toNat s.length.toNat, Nat.lt_of_le_of_lt (Nat.min_le_right _ _) s.length.toNat_lt⟩

/-- What a block is to an epoch. -/
def phaseOf (s : Schedule) (epoch : Epoch) (block : Block) : Phase :=
  let start := s.epochStart epoch
  if block < start then .notStarted
  else if block < start.satAdd s.revealOffset then .commitOpen
  else if block < start.satAdd s.length then .revealOpen
  else .closed

/-- The epoch that holds a block, and what the block is to it. -/
def current (s : Schedule) (block : Block) : Epoch × Phase :=
  let epoch := s.epochOf block
  (epoch, s.phaseOf epoch block)

end Schedule

end Stakebook
