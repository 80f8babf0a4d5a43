import Stakebook.Blake3

/-!
# The tree over records

A list of records has a root: the records are digested, and the digests folded pairwise by the
digest of the two together. `prove?` gives the siblings on the way from a record to the root, and
`Inclusion.verify` goes that way.

Every function takes the digest as a parameter, so that what is said about the tree can name the
property of the digest that it needs.
-/

namespace Stakebook

/-- The claim that a record stands at a place of a list, with the siblings on the way to the
root. -/
structure Inclusion where
  leaf : Bytes
  leafIndex : Nat
  totalLeaves : Nat
  siblings : List Digest
  root : Digest
deriving DecidableEq

namespace RecordTree

variable (hash : Bytes → Digest)

/-- The digest of two digests together. -/
def join (a b : Digest) : Digest := hash (a.bytes ++ b.bytes)

/-- The root of a list of records; that of no records is zero. -/
def root (leaves : List Bytes) : Digest :=
  (PairTree.fold? (join hash) (leaves.map hash)).getD .zero

/-- The siblings on the way up from a place, through as many layers. -/
def siblings : Nat → List Digest → Nat → List Digest
  | 0, _, _ => []
  | n + 1, layer, i =>
    layer[i ^^^ 1]?.toList ++ siblings n (PairTree.joinPairs (join hash) layer) (i / 2)

/-- The proof that the record at a place is in the list, if there is one. -/
def prove? (leaves : List Bytes) (i : Nat) : Option Inclusion :=
  leaves[i]?.map fun leaf =>
    { leaf
      leafIndex := i
      totalLeaves := leaves.length
      siblings := siblings hash leaves.length (leaves.map hash) i
      root := root hash leaves }

/-- The place of the first record that is equal to a given one. -/
def position? (leaves : List Bytes) (leaf : Bytes) : Option Nat := leaves.findIdx? (· = leaf)

/-- Goes up as many layers from a place in a layer of `n` digests. The last digest of an odd layer
has no sibling; every other place takes the next of the siblings. -/
def climb : (layers n i : Nat) → Digest → List Digest → Option Digest
  | 0, _, _, digest, _ => some digest
  | layers + 1, n, i, digest, siblings =>
    if n % 2 = 1 ∧ i = n - 1 then climb layers ((n + 1) / 2) (i / 2) digest siblings
    else match siblings with
      | [] => none
      | sibling :: siblings =>
        let up := if i % 2 = 0 then join hash digest sibling else join hash sibling digest
        climb layers ((n + 1) / 2) (i / 2) up siblings

end RecordTree

/-- Whether the siblings lead from the record to the root. A tree of `n` records is taken to have as
many layers as `n` has binary digits; siblings that are left over do not count. -/
def Inclusion.verify (hash : Bytes → Digest) (p : Inclusion) : Bool :=
  p.totalLeaves ≠ 0 &&
    RecordTree.climb hash (p.totalLeaves.log2 + 1) p.totalLeaves p.leafIndex (hash p.leaf)
      p.siblings = some p.root

/-- Whether a proof is right and its root is that of a list of records. -/
def Inclusion.verifyAgainst (hash : Bytes → Digest) (p : Inclusion) (leaves : List Bytes) : Bool :=
  p.root = RecordTree.root hash leaves && p.verify hash

end Stakebook
