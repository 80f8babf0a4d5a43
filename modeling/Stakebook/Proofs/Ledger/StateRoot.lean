import Stakebook.Proofs.Ledger.Records
import Stakebook.Proofs.Ledger.Runs
import Stakebook.Proofs.RecordTree

/-!
# The state root binds the records

A state root fixes the tree that it is the digest of, the tree its leaves, and the leaves the records
of the book. What rests on the digest is assumed of the byte strings that are digested for the two
roots in question: they do not collide, and none has the digest zero, which is the root of an empty
book.

Headlines:
* **`Reachable.fits`**: the records of a reachable ledger can be written.
* **`stateRoot_binds`**: two reachable ledgers with one root have the same records.
-/

namespace Stakebook.Ledger

variable {l l' : Ledger}

/-- All that is digested for the state root of a ledger: its leaves, and the nodes above them. -/
def rootInputs (l : Ledger) : List Bytes := RecordTree.inputs Blake3.digest l.book.leaves

/-- **The records of a reachable ledger can be written**: its unbonding lists keep within a capacity
that is a word of eight bytes. -/
theorem Reachable.fits (h : l.Reachable) : ∀ r ∈ l.book.records, r.Fits :=
  fun _ => Book.fits_of_mem_records fun who list hlist =>
    Nat.lt_of_le_of_lt (h.withinCapacity who list hlist) l.book.unbonding.capacity.toNat_lt

theorem Reachable.length_leaf_ne (h : l.Reachable) : ∀ leaf ∈ l.book.leaves, leaf.length ≠ 64 := by
  intro leaf hleaf
  obtain ⟨r, hr, rfl⟩ := List.mem_map.mp hleaf
  exact Record.length_leaf_ne (h.fits r hr)

/-- **The state root binds the records.** If no two of the byte strings that are digested for the
state roots of two reachable ledgers collide and none of them has the digest zero, equal roots, taken
at any blocks, mean equal stakes, pools, holdings, unbonding lists, queued swaps in their order,
commits and reveals, and so as many records. -/
theorem stateRoot_binds (h : l.Reachable) (h' : l'.Reachable)
    (hfree : CollisionFree Blake3.digest (l.rootInputs ++ l'.rootInputs))
    (hzero : ∀ x ∈ l.rootInputs ++ l'.rootInputs, Blake3.digest x ≠ .zero) {block block' : Block}
    (hroot : (l.stateRoot block).root = (l'.stateRoot block').root) :
    l.book.SameRecords l'.book ∧ l.book.records.length = l'.book.records.length := by
  unfold rootInputs at hfree hzero
  simp only [stateRoot] at hroot
  have hleaves : l.book.leaves = l'.book.leaves :=
    RecordTree.root_inj hfree hzero h.length_leaf_ne h'.length_leaf_ne hroot
  have hrecords := Book.records_of_leaves h.fits h'.fits hleaves
  exact ⟨Book.sameRecords_iff.mpr hrecords, congrArg List.length hrecords⟩

/-- Two accounts with free balances, and a subnet. -/
def staking (free : Amount) : Registry :=
  (((Registry.empty ⟨10, 2, 500000000000000000, 3, 1, 1, 2, 4⟩).setBalance (.dev 1)
    free).setBalance (.dev 2) free).registerSubnet 1 ⟨0, .max, 2⟩

/-- One account stakes, then the other one delegates. -/
def stakeFirst : List Event :=
  [.transaction ⟨.signed (.dev 1), .addStake 1 30⟩ 0,
   .transaction ⟨.signed (.dev 2), .delegate (.subnet 1) 50⟩ 1]

/-- They do the same the other way round. -/
def delegateFirst : List Event :=
  [.transaction ⟨.signed (.dev 2), .delegate (.subnet 1) 50⟩ 3,
   .transaction ⟨.signed (.dev 1), .addStake 1 30⟩ 4]

theorem stateRoot_binds_reordered :
    (((new (staking 100)).run stakeFirst).stateRoot 5).root =
        (((new (staking 200)).run delegateFirst).stateRoot 6).root ∧
      ((new (staking 100)).run stakeFirst).book.SameRecords
        ((new (staking 200)).run delegateFirst).book ∧
      ((new (staking 100)).run stakeFirst).book.records.length = 3 := by
  have h : ((new (staking 100)).run stakeFirst).Reachable := ⟨staking 100, stakeFirst, rfl⟩
  have h' : ((new (staking 200)).run delegateFirst).Reachable := ⟨staking 200, delegateFirst, rfl⟩
  have hroot : (((new (staking 100)).run stakeFirst).stateRoot 5).root =
      (((new (staking 200)).run delegateFirst).stateRoot 6).root := by decide +kernel
  have hfree : CollisionFree Blake3.digest (((new (staking 100)).run stakeFirst).rootInputs ++
      ((new (staking 200)).run delegateFirst).rootInputs) := by decide +kernel
  have hzero : ∀ x ∈ ((new (staking 100)).run stakeFirst).rootInputs ++
      ((new (staking 200)).run delegateFirst).rootInputs, Blake3.digest x ≠ .zero := by
    decide +kernel
  exact ⟨hroot, (stateRoot_binds h h' hfree hzero hroot).1, by decide +kernel⟩

end Stakebook.Ledger
