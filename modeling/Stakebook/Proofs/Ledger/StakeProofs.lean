import Stakebook.Proofs.Inclusion
import Stakebook.Proofs.Ledger.StateRoot

/-!
# Proofs of stakes

A ledger proves a direct stake by the inclusion of its record. Every account with a stake gets an
accepted proof, and whatever proof is accepted for the state root says the truth: no record is as
long as a node, and no record of another kind has the bytes of a stake.

Headlines:
* **`proofs_complete`**: the proofs that are made are accepted, for lists of leaves and for stakes.
* **`proven_stake`**: an accepted proof of a stake names the stake of the account.
-/

namespace Stakebook

namespace Record

/-- Records of the same bytes are equal. -/
theorem leaf_inj {r r' : Record} (h : r.Fits) (h' : r'.Fits) (heq : r.leaf = r'.leaf) : r = r' := by
  have hread := (takes_form h).decode?_encode
  have hread' := (takes_form h').decode?_encode
  unfold leaf at heq
  rw [heq, hread'] at hread
  exact (Option.some.inj hread).symm

end Record

namespace Book

variable {b : Book} {who : AccountId} {subnet : SubnetId} {balance : Amount}

theorem stake_mem_records :
    Record.stake who subnet balance ∈ b.records ↔
      b.stakes.balances.get? (who, subnet) = some balance := by
  rw [← OrdMap.mem_toList_iff]
  simp [records]

/-- A stake that is not zero has a record. -/
theorem stake_leaf_mem (h : b.stakes.balanceOf who subnet ≠ 0) :
    (Record.stake who subnet (b.stakes.balanceOf who subnet)).leaf ∈ b.leaves := by
  refine List.mem_map_of_mem (stake_mem_records.mpr ?_)
  unfold Stakes.balanceOf at h ⊢
  cases hget : b.stakes.balances.get? (who, subnet) with
  | none =>
    rw [OrdMap.getD_of_none hget] at h
    exact absurd rfl h
  | some balance => rw [OrdMap.getD_of_some hget]

end Book

namespace Ledger

variable {l : Ledger} {who : AccountId} {subnet : SubnetId} {balance : Amount} {block : Block}
  {p : Inclusion}

/-! ## Every stake has an accepted proof -/

/-- A ledger proves a stake that is not zero, at a place where its record stands. -/
theorem proveStake_cases (l : Ledger) (who : AccountId) (subnet : SubnetId) :
    l.book.stakes.balanceOf who subnet = 0 ∧ l.proveStake who subnet = none ∨
    l.book.stakes.balanceOf who subnet ≠ 0 ∧
      ∃ i p, l.book.leaves[i]? =
          some (Record.stake who subnet (l.book.stakes.balanceOf who subnet)).leaf ∧
        RecordTree.prove? Blake3.digest l.book.leaves i = some p ∧
        l.proveStake who subnet = some p := by
  unfold proveStake
  by_cases hzero : l.book.stakes.balanceOf who subnet = 0
  · exact .inl ⟨hzero, if_pos hzero⟩
  · obtain ⟨i, hposition, hleaf⟩ := Inclusion.exists_position? (Book.stake_leaf_mem hzero)
    obtain ⟨p, hproof⟩ : ∃ p, RecordTree.prove? Blake3.digest l.book.leaves i = some p :=
      ⟨_, Inclusion.prove?_eq_some_iff.mpr ⟨_, hleaf, rfl⟩⟩
    refine .inr ⟨hzero, i, p, hleaf, hproof, ?_⟩
    simp only [if_neg hzero, hposition, Option.bind_eq_bind, Option.bind_some, hproof]

/-- **The proofs that are made are accepted.** For every place of a list of leaves, and for no other,
there is a proof; it is of the leaf at the place, and the list accepts it. For every stake of a
ledger that is not zero, and for no other, there is a proof; it is of the record of the stake, names
the number of records, and leads to the state root. -/
theorem proofs_complete :
    (∀ (hash : Bytes → Digest) (leaves : List Bytes) (i : Nat),
      (i < leaves.length → ∃ p, RecordTree.prove? hash leaves i = some p ∧
        p.verifyAgainst hash leaves = true ∧ leaves[i]? = some p.leaf ∧ p.leafIndex = i ∧
        p.totalLeaves = leaves.length) ∧
      (leaves.length ≤ i → RecordTree.prove? hash leaves i = none)) ∧
    ∀ (l : Ledger) (who : AccountId) (subnet : SubnetId) (block : Block),
      (l.proveStake who subnet = none ↔ l.book.stakes.balanceOf who subnet = 0) ∧
      ∀ p, l.proveStake who subnet = some p →
        p.verify Blake3.digest = true ∧ p.root = (l.stateRoot block).root ∧
        p.leaf = (Record.stake who subnet (l.book.stakes.balanceOf who subnet)).leaf ∧
        p.totalLeaves = l.book.records.length := by
  constructor
  · intro hash leaves i
    refine ⟨fun hi => ?_, Inclusion.prove?_eq_none_iff.mpr⟩
    have hleaf := List.getElem?_eq_getElem hi
    obtain ⟨p, hproof⟩ : ∃ p, RecordTree.prove? hash leaves i = some p :=
      ⟨_, Inclusion.prove?_eq_some_iff.mpr ⟨_, hleaf, rfl⟩⟩
    obtain ⟨leaf, hleaf', rfl⟩ := Inclusion.prove?_eq_some_iff.mp hproof
    exact ⟨_, hproof, Inclusion.verifyAgainst_of_prove? hproof, hleaf', rfl, rfl⟩
  · intro l who subnet block
    rcases l.proveStake_cases who subnet with ⟨hzero, hnone⟩ | ⟨hne, i, q, hleaf, hproof, hsome⟩
    · rw [hnone]
      exact ⟨iff_of_true rfl hzero, nofun⟩
    · rw [hsome]
      refine ⟨iff_of_false nofun hne, fun p hp => ?_⟩
      cases hp
      obtain ⟨hroot, hverify⟩ :=
        Inclusion.verifyAgainst_eq_true_iff.mp (Inclusion.verifyAgainst_of_prove? hproof)
      obtain ⟨leaf, hleaf', rfl⟩ := Inclusion.prove?_eq_some_iff.mp hproof
      rw [hleaf] at hleaf'
      exact ⟨hverify, hroot, (Option.some.inj hleaf').symm, List.length_map _⟩

theorem proofs_complete_staked :
    (∃ p, RecordTree.prove? Blake3.digest (Inclusion.bytewise 5) 4 = some p ∧
      p.verifyAgainst Blake3.digest (Inclusion.bytewise 5) = true) ∧
    ∃ p, ((new (staking 100)).run stakeFirst).proveStake (.dev 1) 1 = some p ∧
      p.verify Blake3.digest = true ∧ p.leaf = (Record.stake (.dev 1) 1 30).leaf ∧
      p.totalLeaves = 3 := by
  obtain ⟨p, hp, hverify, -⟩ :=
    (proofs_complete.1 Blake3.digest (Inclusion.bytewise 5) 4).1 (by decide)
  have hstake : ((new (staking 100)).run stakeFirst).book.stakes.balanceOf (.dev 1) 1 = 30 := by
    decide +kernel
  obtain ⟨hnone, hsome⟩ :=
    proofs_complete.2 ((new (staking 100)).run stakeFirst) (.dev 1) 1 7
  cases hq : ((new (staking 100)).run stakeFirst).proveStake (.dev 1) 1 with
  | none =>
    rw [hnone.mp hq] at hstake
    cases hstake
  | some q =>
    obtain ⟨hverify', -, hleaf, htotal⟩ := hsome q hq
    rw [hstake] at hleaf
    exact ⟨⟨p, hp, hverify⟩, q, rfl, hverify', hleaf, htotal.trans (by decide +kernel)⟩

/-! ## An accepted proof is true -/

/-- **An accepted proof of a stake is true.** If no two of the byte strings that are digested for the
state root of a reachable ledger and for a proof collide and none of the proof has the digest zero, a
proof that leads from the record of a stake to the state root names the stake that the account has,
whatever place and size it names and whatever siblings it brings. -/
theorem proven_stake (h : l.Reachable)
    (hfree : CollisionFree Blake3.digest (l.rootInputs ++ p.inputs Blake3.digest))
    (hzero : ∀ x ∈ p.inputs Blake3.digest, Blake3.digest x ≠ .zero)
    (hverify : p.verify Blake3.digest = true) (hroot : p.root = (l.stateRoot block).root)
    (hleaf : p.leaf = (Record.stake who subnet balance).leaf) :
    l.book.stakes.balanceOf who subnet = balance := by
  have hfits : (Record.stake who subnet balance).Fits := trivial
  have hmem : p.leaf ∈ l.book.leaves :=
    Inclusion.mem_of_verifyAgainst hfree (fun _ => hzero) (hleaf ▸ Record.length_leaf_ne hfits)
      h.length_leaf_ne (Inclusion.verifyAgainst_eq_true_iff.mpr ⟨hroot, hverify⟩)
  obtain ⟨r, hr, heq⟩ := List.mem_map.mp hmem
  obtain rfl := Record.leaf_inj (h.fits r hr) hfits (heq.trans hleaf)
  exact OrdMap.getD_of_some (Book.stake_mem_records.mp hr) _

/-- A proof of the first of three records that names a place past the end. -/
def displaced (l : Ledger) : Inclusion :=
  ⟨(Record.stake (.dev 1) 1 30).leaf, 4, 3,
    RecordTree.siblings Blake3.digest 3 (l.book.leaves.map Blake3.digest) 0,
    (l.stateRoot 0).root⟩

theorem proven_stake_displaced :
    (displaced ((new (staking 100)).run stakeFirst)).verify Blake3.digest = true ∧
      ((new (staking 100)).run stakeFirst).book.stakes.balanceOf (.dev 1) 1 = 30 := by
  have h : ((new (staking 100)).run stakeFirst).Reachable := ⟨staking 100, stakeFirst, rfl⟩
  have hfree : CollisionFree Blake3.digest (((new (staking 100)).run stakeFirst).rootInputs ++
      (displaced ((new (staking 100)).run stakeFirst)).inputs Blake3.digest) := by decide +kernel
  have hzero : ∀ x ∈ (displaced ((new (staking 100)).run stakeFirst)).inputs Blake3.digest,
      Blake3.digest x ≠ .zero := by decide +kernel
  have hverify : (displaced ((new (staking 100)).run stakeFirst)).verify Blake3.digest = true := by
    decide +kernel
  have hroot : (displaced ((new (staking 100)).run stakeFirst)).root =
      (((new (staking 100)).run stakeFirst).stateRoot 0).root := rfl
  exact ⟨hverify, proven_stake h hfree hzero hverify hroot rfl⟩

end Ledger

end Stakebook
