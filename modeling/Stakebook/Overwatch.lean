import Stakebook.Batch
import Stakebook.Blake3
import Stakebook.OrdMap.Basic
import Stakebook.Schedule

/-!
# Overwatch weights

Overwatch nodes give weights to subnets, in two steps. While an epoch is open for commits, a node
commits the digest of a weight and a salt; afterwards it reveals both, and the weight is recorded if
it has the committed digest.
-/

namespace Stakebook

/-- The digest that a node commits for a subnet. -/
structure Commit where
  subnet : SubnetId
  digest : Digest
deriving DecidableEq

/-- The weight that a node reveals for a subnet, with its salt. -/
structure Reveal where
  subnet : SubnetId
  weight : Weight
  salt : Batch UInt8
deriving DecidableEq

/-- The byte string that is digested for a weight and a salt: the weight, the length of the salt,
and the salt. -/
def commitPreimage (weight : Weight) (salt : Bytes) : Bytes :=
  Bytes.littleEndian 16 weight.toNat ++ Bytes.littleEndian 8 salt.length ++ salt

/-- The digest that commits to a weight under a salt. -/
def commitDigest (weight : Weight) (salt : Bytes) : Digest :=
  Blake3.digest (commitPreimage weight salt)

/-- The commit that a reveal belongs to. -/
def Reveal.commit (r : Reveal) : Commit := ⟨r.subnet, commitDigest r.weight r.salt.items⟩

/-- The commits and the revealed weights, by epoch. -/
structure Overwatch where
  commits : OrdMap (Epoch × WatcherId × SubnetId) Digest
  reveals : OrdMap (Epoch × SubnetId × WatcherId) Weight
deriving DecidableEq

namespace Overwatch

/-- No records. -/
def empty : Overwatch := ⟨∅, ∅⟩

instance : Inhabited Overwatch := ⟨empty⟩

/-- The digest that a node has committed. -/
def commitOf (o : Overwatch) (epoch : Epoch) (watcher : WatcherId) (subnet : SubnetId) :
    Option Digest := o.commits.get? (epoch, watcher, subnet)

/-- The weight that a node has revealed. -/
def revealOf (o : Overwatch) (epoch : Epoch) (subnet : SubnetId) (watcher : WatcherId) :
    Option Weight := o.reveals.get? (epoch, subnet, watcher)

/-- The weights of a subnet in an epoch, in the order of the nodes. -/
def subnetWeights (o : Overwatch) (epoch : Epoch) (subnet : SubnetId) :
    List (WatcherId × Weight) :=
  (o.reveals.toList.filter fun e => e.1.1 = epoch ∧ e.1.2.1 = subnet).map fun e => (e.1.2.2, e.2)

/-- The epoch that commits fall into at a block, if it is open for them. -/
def checkCommits (schedule : Schedule) (block : Block) (commits : List Commit) :
    Except LedgerError Epoch :=
  let (epoch, phase) := schedule.current block
  if phase ≠ .commitOpen then .error .outOfWindow
  else if commits.isEmpty then .error .insufficientAmount
  else .ok epoch

/-- Records commits, in place of earlier ones of the same epoch, node and subnet. -/
def commitMany (o : Overwatch) (schedule : Schedule) (block : Block) (watcher : WatcherId)
    (commits : List Commit) : Except LedgerError (Epoch × Overwatch) := do
  let epoch ← checkCommits schedule block commits
  return (epoch,
    { o with
      commits := commits.foldl (fun m c => m.insert (epoch, watcher, c.subnet) c.digest) o.commits })

/-- Whether a reveal fits the commit of its epoch. -/
def checkReveal (o : Overwatch) (epoch : Epoch) (watcher : WatcherId) (r : Reveal) :
    Except LedgerError Unit :=
  if unity < r.weight then .error (.invalidWeight r.weight)
  else match o.commitOf epoch watcher r.subnet with
    | none => .error (.noCommit epoch r.subnet)
    | some digest =>
      if commitDigest r.weight r.salt.items = digest then .ok () else .error .hashMismatch

/-- The epoch that reveals fall into at a block, if it is open for them and each fits its
commit. -/
def checkReveals (o : Overwatch) (schedule : Schedule) (block : Block) (watcher : WatcherId)
    (reveals : List Reveal) : Except LedgerError Epoch :=
  let (epoch, phase) := schedule.current block
  if phase ≠ .revealOpen then .error .outOfWindow
  else if reveals.isEmpty then .error .insufficientAmount
  else do
    reveals.forM fun r => o.checkReveal epoch watcher r
    return epoch

/-- Records all revealed weights, or none if one does not fit. -/
def revealMany (o : Overwatch) (schedule : Schedule) (block : Block) (watcher : WatcherId)
    (reveals : List Reveal) : Except LedgerError (Epoch × Overwatch) := do
  let epoch ← o.checkReveals schedule block watcher reveals
  return (epoch,
    { o with
      reveals := reveals.foldl (fun m r => m.insert (epoch, r.subnet, watcher) r.weight) o.reveals })

/-- The records from an epoch on: what is in front of the least key of the epoch is dropped. -/
def since (o : Overwatch) (epoch : Epoch) : Overwatch :=
  ⟨o.commits.dropBefore (epoch, 0, 0), o.reveals.dropBefore (epoch, 0, 0)⟩

/-- Drops the records of the epochs before one, and returns how many there were. -/
def prune (o : Overwatch) (before : Epoch) : Nat × Overwatch :=
  let kept := o.since before
  ((o.commits.size - kept.commits.size) + (o.reveals.size - kept.reveals.size), kept)

end Overwatch

end Stakebook
