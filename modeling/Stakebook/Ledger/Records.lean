import Stakebook.Form.Components
import Stakebook.RecordTree

/-!
# The records of a book

Every stake, pool, holding, unbonding list, queued swap, commit and reveal is a record. The state
root of a ledger is the root of the tree over the binary forms of its records; free balances are not
part of it.
-/

namespace Stakebook

open Form

/-- A record of the book. -/
inductive Record
  | stake (who : AccountId) (subnet : SubnetId) (balance : Amount)
  | delegatePool (subnet : SubnetId) (pool : Pool)
  | delegateShares (who : AccountId) (subnet : SubnetId) (shares : Shares)
  | nodePool (key : NodeKey) (pool : Pool)
  | nodeShares (who : AccountId) (key : NodeKey) (shares : Shares)
  | unbonding (who : AccountId) (entries : List Pending)
  | swap (swap : QueuedSwap)
  | commit (epoch : Epoch) (watcher : WatcherId) (subnet : SubnetId) (digest : Digest)
  | reveal (epoch : Epoch) (subnet : SubnetId) (watcher : WatcherId) (weight : Weight)
deriving DecidableEq

namespace Record

/-- A variant whose content is a tuple. -/
def tupled {α : Type} (name : String) (fields : Fields α) (wrap : α → Record)
    (unwrap? : Record → Option α) : Variant Record :=
  .content name (tuple fields id id) wrap unwrap?

/-- The form of a record. The number of its variant tells the kinds of record apart. -/
def form : Form Record :=
  sum
    [ tupled "Stake"
        (.cons (.unnamed account) <| .cons (.unnamed word32) <| .cons (.unnamed word128) .nil)
        (fun (who, subnet, balance, _) => .stake who subnet balance)
        (fun | .stake who subnet balance => some (who, subnet, balance, ()) | _ => none),
      tupled "DelegatePool" (.cons (.unnamed word32) <| .cons (.unnamed Pool.form) .nil)
        (fun (subnet, pool, _) => .delegatePool subnet pool)
        (fun | .delegatePool subnet pool => some (subnet, pool, ()) | _ => none),
      tupled "DelegateShares"
        (.cons (.unnamed account) <| .cons (.unnamed word32) <| .cons (.unnamed word128) .nil)
        (fun (who, subnet, shares, _) => .delegateShares who subnet shares)
        (fun | .delegateShares who subnet shares => some (who, subnet, shares, ()) | _ => none),
      tupled "NodePool" (.cons (.unnamed NodeKey.form) <| .cons (.unnamed Pool.form) .nil)
        (fun (key, pool, _) => .nodePool key pool)
        (fun | .nodePool key pool => some (key, pool, ()) | _ => none),
      tupled "NodeShares"
        (.cons (.unnamed account) <| .cons (.unnamed NodeKey.form) <|
         .cons (.unnamed word128) .nil)
        (fun (who, key, shares, _) => .nodeShares who key shares)
        (fun | .nodeShares who key shares => some (who, key, shares, ()) | _ => none),
      tupled "Unbonding"
        (.cons (.unnamed account) <| .cons (.unnamed (list Pending.form)) .nil)
        (fun (who, entries, _) => .unbonding who entries)
        (fun | .unbonding who entries => some (who, entries, ()) | _ => none),
      .content "Swap" QueuedSwap.form .swap (fun | .swap s => some s | _ => none),
      tupled "Commit"
        (.cons (.unnamed word64) <| .cons (.unnamed word32) <| .cons (.unnamed word32) <|
         .cons (.unnamed Form.digest) .nil)
        (fun (epoch, watcher, subnet, digest, _) => .commit epoch watcher subnet digest)
        (fun
          | .commit epoch watcher subnet digest => some (epoch, watcher, subnet, digest, ())
          | _ => none),
      tupled "Reveal"
        (.cons (.unnamed word64) <| .cons (.unnamed word32) <| .cons (.unnamed word32) <|
         .cons (.unnamed word128) .nil)
        (fun (epoch, subnet, watcher, weight, _) => .reveal epoch subnet watcher weight)
        (fun
          | .reveal epoch subnet watcher weight => some (epoch, subnet, watcher, weight, ())
          | _ => none) ]

/-- The bytes of a record, a leaf of the tree. -/
def leaf (r : Record) : Bytes := form.encode r

end Record

namespace Book

/-- The records of a book: component after component, the swaps in the order of the queue and all
else in the order of the keys. -/
def records (b : Book) : List Record :=
  b.stakes.balances.toList.map (fun (key, balance) => .stake key.1 key.2 balance) ++
  b.delegate.pools.toList.map (fun (subnet, pool) => .delegatePool subnet pool) ++
  b.delegate.shares.toList.map (fun (key, shares) => .delegateShares key.1 key.2 shares) ++
  b.nodeDelegate.pools.toList.map (fun (key, pool) => .nodePool key pool) ++
  b.nodeDelegate.shares.toList.map (fun (key, shares) => .nodeShares key.1 key.2 shares) ++
  b.unbonding.entries.toList.map (fun (who, entries) => .unbonding who entries) ++
  b.swaps.toList.map (fun s => .swap s) ++
  b.overwatch.commits.toList.map
    (fun (key, digest) => .commit key.1 key.2.1 key.2.2 digest) ++
  b.overwatch.reveals.toList.map
    (fun (key, weight) => .reveal key.1 key.2.1 key.2.2 weight)

/-- The leaves of the tree over the records. -/
def leaves (b : Book) : List Bytes := b.records.map Record.leaf

end Book

/-- A root, with the block at which it was taken. -/
structure StateRoot where
  root : Digest
  block : Block
deriving DecidableEq

/-- The form of a root. -/
def StateRoot.form : Form StateRoot :=
  record
    (.cons (.required "root" Form.digest) <| .cons (.required "block_number" word64) .nil)
    (fun (root, block, _) => { root, block })
    (fun r => (r.root, r.block, ()))

/-- The form of a proof of inclusion. -/
def Inclusion.form : Form Inclusion :=
  record
    (.cons (.required "leaf" (list byte)) <|
     .cons (.required "leaf_index" nat64) <|
     .cons (.required "total_leaves" nat64) <|
     .cons (.required "proof" (list rawOctets)) <|
     .cons (.required "root" Form.digest) .nil)
    (fun (leaf, leafIndex, totalLeaves, siblings, root, _) =>
      { leaf, leafIndex, totalLeaves, siblings, root })
    (fun p => (p.leaf, p.leafIndex, p.totalLeaves, p.siblings, p.root, ()))

namespace Ledger

/-- The state root of a ledger at a block. -/
def stateRoot (l : Ledger) (block : Block) : StateRoot :=
  ⟨RecordTree.root Blake3.digest l.book.leaves, block⟩

/-- The proof that the stake of an account is among the records, if it has one. -/
def proveStake (l : Ledger) (who : AccountId) (subnet : SubnetId) : Option Inclusion :=
  let balance := l.book.stakes.balanceOf who subnet
  if balance = 0 then none
  else do
    let leaves := l.book.leaves
    let i ← RecordTree.position? leaves (Record.stake who subnet balance).leaf
    RecordTree.prove? Blake3.digest leaves i

end Ledger

end Stakebook
