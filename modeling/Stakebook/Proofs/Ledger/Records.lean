import Mathlib.Data.List.Basic
import Stakebook.Proofs.FormSize
import Stakebook.Ledger.Records

/-!
# The bytes of a record determine it

The nine kinds of record take from 36 bytes on, and none takes sixty-four. Their first four bytes
tell the kinds apart, so that the leaves of a book determine its records, and these its components.

Headlines:
* **`Record.takes_form`**: the size of a record, and that it is read back.
* **`Record.size_ne`**: no record has the size of two digests.
* **`Book.records_of_leaves`**, **`Book.sameRecords_iff`**: from the leaves to the components.
-/

namespace Stakebook

open Form

/-! ## The parts of a record -/

theorem NodeKey.takes_form (key : NodeKey) : NodeKey.form.Takes 8 key :=
  takes_record
    (.cons rfl (takes_word 4 key.subnet) <| .cons rfl (takes_word 4 key.node) <| .nil ()) rfl rfl

theorem Pool.takes_form (p : Pool) : Pool.form.Takes 32 p :=
  takes_record
    (.cons rfl (takes_word 16 p.totalShares) <| .cons rfl (takes_word 16 p.totalBalance) <|
     .nil ()) rfl rfl

theorem Pending.takes_form (e : Pending) : Pending.form.Takes 24 e :=
  takes_record
    (.cons rfl (takes_word 16 e.amount) <| .cons rfl (takes_word 8 e.unlockBlock) <| .nil ())
    rfl rfl

/-- The size of the name of a pool, where it stands as the target of a swap. -/
def PoolId.size : PoolId → Nat
  | subnet _ => 8
  | node _ => 12

theorem PoolId.takes_targetForm (pool : PoolId) : PoolId.targetForm.Takes pool.size pool := by
  cases pool with
  | subnet id =>
    exact takes_sum 0 rfl rfl rfl rfl (by decide)
      (takes_record (.cons rfl (takes_word 4 id) <| .nil ()) rfl rfl) rfl
  | node key =>
    exact takes_sum 1 rfl rfl rfl rfl (by decide)
      (takes_record
        (.cons rfl (takes_word 4 key.subnet) <| .cons rfl (takes_word 4 key.node) <| .nil ())
        rfl rfl) rfl

theorem QueuedSwap.takes_form (s : QueuedSwap) :
    QueuedSwap.form.Takes (114 + s.target.size) s :=
  takes_record
    (.cons rfl (takes_word 8 s.id) <| .cons rfl (takes_account s.account) <|
     .cons rfl s.target.takes_targetForm <| .cons rfl (takes_word 16 s.balance) <|
     .cons rfl (takes_word 8 s.queuedAt) <| .cons rfl (takes_word 8 s.executeAfter) <| .nil ())
    rfl (by omega)

namespace Record

/-- Whether the length of an unbonding list can be written. -/
def Fits : Record → Prop
  | unbonding _ entries => entries.length < 2 ^ 64
  | _ => True

/-- The size of a record. -/
def size : Record → Nat
  | stake .. => 98
  | delegatePool .. => 40
  | delegateShares .. => 98
  | nodePool .. => 44
  | nodeShares .. => 102
  | unbonding _ entries => 86 + 24 * entries.length
  | swap s => 118 + s.target.size
  | commit .. => 94
  | reveal .. => 36

/-- **The size of a record, and that it is read back.** -/
theorem takes_form {r : Record} (h : r.Fits) : form.Takes r.size r := by
  cases r with
  | stake who subnet balance =>
    exact takes_sum 0 rfl rfl rfl rfl (by decide)
      (takes_tuple <| .cons rfl (takes_account who) <| .cons rfl (takes_word 4 subnet) <|
        .cons rfl (takes_word 16 balance) <| .nil ()) rfl
  | delegatePool subnet pool =>
    exact takes_sum 1 rfl rfl rfl rfl (by decide)
      (takes_tuple <| .cons rfl (takes_word 4 subnet) <| .cons rfl pool.takes_form <| .nil ()) rfl
  | delegateShares who subnet shares =>
    exact takes_sum 2 rfl rfl rfl rfl (by decide)
      (takes_tuple <| .cons rfl (takes_account who) <| .cons rfl (takes_word 4 subnet) <|
        .cons rfl (takes_word 16 shares) <| .nil ()) rfl
  | nodePool key pool =>
    exact takes_sum 3 rfl rfl rfl rfl (by decide)
      (takes_tuple <| .cons rfl key.takes_form <| .cons rfl pool.takes_form <| .nil ()) rfl
  | nodeShares who key shares =>
    exact takes_sum 4 rfl rfl rfl rfl (by decide)
      (takes_tuple <| .cons rfl (takes_account who) <| .cons rfl key.takes_form <|
        .cons rfl (takes_word 16 shares) <| .nil ()) rfl
  | unbonding who entries =>
    exact takes_sum 5 rfl rfl rfl rfl (by decide)
      (takes_tuple <| .cons rfl (takes_account who) <|
        .cons rfl (takes_list (fun e _ => e.takes_form) h) <| .nil ())
      (by simp only [size]; omega)
  | swap s =>
    exact takes_sum 6 rfl rfl rfl rfl (by decide) s.takes_form (by simp only [size]; omega)
  | commit epoch watcher subnet digest =>
    exact takes_sum 7 rfl rfl rfl rfl (by decide)
      (takes_tuple <| .cons rfl (takes_word 8 epoch) <| .cons rfl (takes_word 4 watcher) <|
        .cons rfl (takes_word 4 subnet) <| .cons rfl (takes_octets digest) <| .nil ()) rfl
  | reveal epoch subnet watcher weight =>
    exact takes_sum 8 rfl rfl rfl rfl (by decide)
      (takes_tuple <| .cons rfl (takes_word 8 epoch) <| .cons rfl (takes_word 4 subnet) <|
        .cons rfl (takes_word 4 watcher) <| .cons rfl (takes_word 16 weight) <| .nil ()) rfl

/-- **No record has the size of two digests.** -/
theorem size_ne (r : Record) : r.size ≠ 64 := by
  cases r with
  | unbonding | swap =>
    simp only [size]
    omega
  | stake | delegatePool | delegateShares | nodePool | nodeShares | commit | reveal => nofun

theorem length_leaf_ne {r : Record} (h : r.Fits) : r.leaf.length ≠ 64 := by
  rw [leaf, (takes_form h).length]
  exact r.size_ne

/-! ## The records of one kind -/

/-- The entry of a direct stake. -/
def stake? : Record → Option ((AccountId × SubnetId) × Amount)
  | stake who subnet balance => some ((who, subnet), balance)
  | _ => none

/-- The entry of a pool of a subnet. -/
def delegatePool? : Record → Option (SubnetId × Pool)
  | delegatePool subnet pool => some (subnet, pool)
  | _ => none

/-- The entry of a holding in a pool of a subnet. -/
def delegateShares? : Record → Option ((AccountId × SubnetId) × Shares)
  | delegateShares who subnet shares => some ((who, subnet), shares)
  | _ => none

/-- The entry of a pool of a node. -/
def nodePool? : Record → Option (NodeKey × Pool)
  | nodePool key pool => some (key, pool)
  | _ => none

/-- The entry of a holding in a pool of a node. -/
def nodeShares? : Record → Option ((AccountId × NodeKey) × Shares)
  | nodeShares who key shares => some ((who, key), shares)
  | _ => none

/-- The entry of an unbonding list. -/
def unbonding? : Record → Option (AccountId × List Pending)
  | unbonding who entries => some (who, entries)
  | _ => none

/-- The swap that is queued. -/
def swap? : Record → Option QueuedSwap
  | swap s => some s
  | _ => none

/-- The entry of a commit. -/
def commit? : Record → Option ((Epoch × WatcherId × SubnetId) × Digest)
  | commit epoch watcher subnet digest => some ((epoch, watcher, subnet), digest)
  | _ => none

/-- The entry of a reveal. -/
def reveal? : Record → Option ((Epoch × SubnetId × WatcherId) × Weight)
  | reveal epoch subnet watcher weight => some ((epoch, subnet, watcher), weight)
  | _ => none

end Record

namespace Book

variable {b b' : Book}

/-- The books have the same records: they agree in all but what is derived from it. -/
structure SameRecords (b b' : Book) : Prop where
  stakes : b.stakes.balances = b'.stakes.balances
  delegatePools : b.delegate.pools = b'.delegate.pools
  delegateShares : b.delegate.shares = b'.delegate.shares
  nodePools : b.nodeDelegate.pools = b'.nodeDelegate.pools
  nodeShares : b.nodeDelegate.shares = b'.nodeDelegate.shares
  unbonding : b.unbonding.entries = b'.unbonding.entries
  swaps : b.swaps.toList = b'.swaps.toList
  commits : b.overwatch.commits = b'.overwatch.commits
  reveals : b.overwatch.reveals = b'.overwatch.reveals

/-- What is picked from the records of a book is picked from its components, one after the other. -/
theorem filterMap_records {α : Type} (pick : Record → Option α) (b : Book) :
    b.records.filterMap pick =
      b.stakes.balances.toList.filterMap (fun e => pick (.stake e.1.1 e.1.2 e.2)) ++
      b.delegate.pools.toList.filterMap (fun e => pick (.delegatePool e.1 e.2)) ++
      b.delegate.shares.toList.filterMap (fun e => pick (.delegateShares e.1.1 e.1.2 e.2)) ++
      b.nodeDelegate.pools.toList.filterMap (fun e => pick (.nodePool e.1 e.2)) ++
      b.nodeDelegate.shares.toList.filterMap (fun e => pick (.nodeShares e.1.1 e.1.2 e.2)) ++
      b.unbonding.entries.toList.filterMap (fun e => pick (.unbonding e.1 e.2)) ++
      b.swaps.toList.filterMap (fun s => pick (.swap s)) ++
      b.overwatch.commits.toList.filterMap (fun e => pick (.commit e.1.1 e.1.2.1 e.1.2.2 e.2)) ++
      b.overwatch.reveals.toList.filterMap
        (fun e => pick (.reveal e.1.1 e.1.2.1 e.1.2.2 e.2)) := by
  simp only [records, List.filterMap_append, List.filterMap_map]
  rfl

/-- **The records of a book determine its components**, and the other way round. -/
theorem sameRecords_iff : SameRecords b b' ↔ b.records = b'.records := by
  constructor
  · intro h
    unfold records
    rw [h.stakes, h.delegatePools, h.delegateShares, h.nodePools, h.nodeShares, h.unbonding, h.swaps,
      h.commits, h.reveals]
  intro h
  have picked {α : Type} (pick : Record → Option α) :
      b.records.filterMap pick = b'.records.filterMap pick := by rw [h]
  simp only [filterMap_records] at picked
  constructor
  · simpa [Record.stake?, OrdMap.toList_inj] using picked Record.stake?
  · simpa [Record.delegatePool?, OrdMap.toList_inj] using picked Record.delegatePool?
  · simpa [Record.delegateShares?, OrdMap.toList_inj] using picked Record.delegateShares?
  · simpa [Record.nodePool?, OrdMap.toList_inj] using picked Record.nodePool?
  · simpa [Record.nodeShares?, OrdMap.toList_inj] using picked Record.nodeShares?
  · simpa [Record.unbonding?, OrdMap.toList_inj] using picked Record.unbonding?
  · simpa [Record.swap?] using picked Record.swap?
  · simpa [Record.commit?, OrdMap.toList_inj] using picked Record.commit?
  · simpa [Record.reveal?, OrdMap.toList_inj] using picked Record.reveal?

/-- The records of a book can be written if the lengths of its unbonding lists can. -/
theorem fits_of_mem_records
    (h : ∀ who list, b.unbonding.entries.get? who = some list → list.length < 2 ^ 64) {r : Record}
    (hr : r ∈ b.records) : r.Fits := by
  cases r with
  | unbonding who entries =>
    refine h who entries (OrdMap.mem_toList_iff.mp ?_)
    simpa [records] using hr
  | stake | delegatePool | delegateShares | nodePool | nodeShares | swap | commit | reveal =>
    trivial

/-- **The leaves of a book determine its records.** -/
theorem records_of_leaves (hb : ∀ r ∈ b.records, r.Fits) (hb' : ∀ r ∈ b'.records, r.Fits)
    (h : b.leaves = b'.leaves) : b.records = b'.records := by
  have read {c : Book} (hc : ∀ r ∈ c.records, r.Fits) :
      c.leaves.map Record.form.decode? = c.records.map some := by
    rw [leaves, List.map_map]
    exact List.map_congr_left fun r hr => (Record.takes_form (hc r hr)).decode?_encode
  have hread := read hb
  rw [h, read hb'] at hread
  exact ((List.map_inj_right fun _ _ => Option.some.inj).mp hread).symm

end Book

end Stakebook
