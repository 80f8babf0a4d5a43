import Stakebook.Proofs.Collision
import Stakebook.RecordTree

/-!
# The root binds the records

A list of records has one tree, with the records at its leaves from left to right, and the root of
the list is the digest of that tree. A leaf is digested as it is and a node as its two digests, side
by side: nothing but the length of sixty-four bytes tells a node from a leaf.

Headlines:
* **`PairTree.flatMap_fold?`**: a pairwise fold keeps what stands at its leaves, and its order.
* **`Tree.eq_of_digest_eq`**: trees of one digest are equal, if no record is as long as a node.
* **`root_inj`**: and so are lists of records with one root, if no digest is zero.
-/

namespace Stakebook

namespace PairTree

variable {α β : Type} {join : α → α → α}

/-! ## Pairwise folds -/

/-- What takes one way to join to another commutes with joining neighbours. -/
theorem joinPairs_map {join' : β → β → β} {f : α → β} (h : ∀ a b, f (join a b) = join' (f a) (f b))
    (l : List α) : joinPairs join' (l.map f) = (joinPairs join l).map f := by
  fun_induction joinPairs join l with
  | case1 a b rest ih => simp only [List.map_cons, joinPairs, h, ih]
  | case2 rest hshort =>
    match rest with
    | [] => rfl
    | [_] => rfl
    | a :: b :: r => exact absurd rfl (hshort a b r)

theorem layer_map {join' : β → β → β} {f : α → β} (h : ∀ a b, f (join a b) = join' (f a) (f b))
    (n : Nat) (l : List α) : layer join' n (l.map f) = (layer join n l).map f := by
  induction n generalizing l with
  | zero => rfl
  | succ n ih => rw [layer, layer, joinPairs_map h, ih]

/-- **A fold commutes with what takes one way to join to the other.** -/
theorem fold?_map {join' : β → β → β} {f : α → β} (h : ∀ a b, f (join a b) = join' (f a) (f b))
    (l : List α) : fold? join' (l.map f) = (fold? join l).map f := by
  unfold fold?
  rw [List.length_map, layer_map h, List.head?_map]

theorem flatMap_joinPairs {g : α → List β} (h : ∀ a b, g (join a b) = g a ++ g b) (l : List α) :
    (joinPairs join l).flatMap g = l.flatMap g := by
  fun_induction joinPairs join l with
  | case1 a b rest ih => simp only [List.flatMap_cons, h, ih, List.append_assoc]
  | case2 => rfl

theorem flatMap_layer {g : α → List β} (h : ∀ a b, g (join a b) = g a ++ g b) (n : Nat)
    (l : List α) : (layer join n l).flatMap g = l.flatMap g := by
  induction n generalizing l with
  | zero => rfl
  | succ n ih => rw [layer, ih, flatMap_joinPairs h]

/-- Each round halves the list, so that few rounds leave at most one value. -/
theorem length_layer_le_one {n : Nat} {l : List α} (h : l.length ≤ 2 ^ n) :
    (layer join n l).length ≤ 1 := by
  induction n generalizing l with
  | zero => exact h
  | succ n ih =>
    refine ih ?_
    rw [Nat.pow_succ] at h
    rw [length_joinPairs]
    omega

/-- **A fold keeps what stands at its leaves, and its order.** -/
theorem flatMap_fold? {g : α → List β} (h : ∀ a b, g (join a b) = g a ++ g b) (l : List α) :
    (fold? join l).toList.flatMap g = l.flatMap g := by
  rw [← flatMap_layer h l.length l, fold?]
  have hle : (layer join l.length l).length ≤ 1 :=
    length_layer_le_one (Nat.le_of_lt Nat.lt_two_pow_self)
  match layer join l.length l, hle with
  | [], _ => rfl
  | [_], _ => rfl

end PairTree

namespace RecordTree

/-! ## Trees -/

/-- The tree that a root is the digest of. -/
inductive Tree
  | leaf (record : Bytes)
  | node (left right : Tree)
deriving DecidableEq

namespace Tree

variable (hash : Bytes → Digest)

/-- The records at the leaves, from left to right. -/
def records : Tree → List Bytes
  | leaf record => [record]
  | node left right => left.records ++ right.records

/-- What is digested at the top: a record, or the digests of the two trees below. -/
def input : Tree → Bytes
  | leaf record => record
  | node left right => (hash (input left)).bytes ++ (hash (input right)).bytes

/-- The digest of a tree. -/
def digest (t : Tree) : Digest := hash (t.input hash)

/-- All that is digested in a tree, the top first. -/
def inputs : Tree → List Bytes
  | leaf record => [record]
  | node left right => (node left right).input hash :: (inputs left ++ inputs right)

variable {hash}

theorem digest_node (left right : Tree) :
    (node left right).digest hash = join hash (left.digest hash) (right.digest hash) := rfl

theorem input_mem_inputs (t : Tree) : t.input hash ∈ t.inputs hash := by
  cases t with
  | leaf => exact List.mem_singleton_self _
  | node => exact List.mem_cons_self

theorem left_inputs_subset (left right : Tree) :
    left.inputs hash ⊆ (node left right).inputs hash :=
  fun _ h => List.mem_cons_of_mem _ (List.mem_append_left _ h)

theorem right_inputs_subset (left right : Tree) :
    right.inputs hash ⊆ (node left right).inputs hash :=
  fun _ h => List.mem_cons_of_mem _ (List.mem_append_right _ h)

/-- A record whose bytes are what is digested for a node is as long as two digests. -/
theorem length_eq_of_eq_input {record : Bytes} {left right : Tree}
    (h : record = (node left right).input hash) : record.length = 64 := by
  rw [h, input, List.length_append, Octets.length_bytes, Octets.length_bytes]

/-- Trees of one digest have the same at the top. -/
theorem input_eq_of_digest_eq {t t' : Tree}
    (hfree : CollisionFree hash (t.inputs hash ++ t'.inputs hash))
    (h : t.digest hash = t'.digest hash) : t.input hash = t'.input hash :=
  hfree _ (List.mem_append_left _ t.input_mem_inputs) _
    (List.mem_append_right _ t'.input_mem_inputs) h

/-- **Trees of one digest are equal**, if no two of the byte strings that are digested collide and no
record is as long as two digests. -/
theorem eq_of_digest_eq {t t' : Tree} (hfree : CollisionFree hash (t.inputs hash ++ t'.inputs hash))
    (hlength : ∀ r ∈ t.records, r.length ≠ 64) (hlength' : ∀ r ∈ t'.records, r.length ≠ 64)
    (h : t.digest hash = t'.digest hash) : t = t' := by
  have hinput := input_eq_of_digest_eq hfree h
  clear h
  induction t generalizing t' with
  | leaf record =>
    cases t' with
    | leaf record' => exact congrArg leaf hinput
    | node left' right' =>
      exact absurd (length_eq_of_eq_input hinput) (hlength record List.mem_cons_self)
  | node left right ihleft ihright =>
    cases t' with
    | leaf record' =>
      exact absurd (length_eq_of_eq_input hinput.symm) (hlength' record' List.mem_cons_self)
    | node left' right' =>
      obtain ⟨hl, hr⟩ := Octets.append_bytes_inj hinput
      have hfreel := hfree.mono_append (left_inputs_subset ..) (left_inputs_subset ..)
      have hfreer := hfree.mono_append (right_inputs_subset ..) (right_inputs_subset ..)
      have hleft : left = left' :=
        ihleft hfreel (fun r hr => hlength r (List.mem_append_left _ hr))
          (fun r hr => hlength' r (List.mem_append_left _ hr))
          (input_eq_of_digest_eq hfreel hl)
      have hright : right = right' :=
        ihright hfreer (fun r hr => hlength r (List.mem_append_right _ hr))
          (fun r hr => hlength' r (List.mem_append_right _ hr))
          (input_eq_of_digest_eq hfreer hr)
      rw [hleft, hright]

end Tree

/-! ## The tree of a list -/

/-- The tree of a list of records, if there are any. -/
def tree? (records : List Bytes) : Option Tree := PairTree.fold? .node (records.map .leaf)

/-- All that is digested for the root of a list of records. -/
def inputs (hash : Bytes → Digest) (records : List Bytes) : List Bytes :=
  (tree? records).toList.flatMap (Tree.inputs hash)

variable {hash : Bytes → Digest}

/-- The digests of the records fold to the digest of their tree. -/
theorem fold?_digests (hash : Bytes → Digest) (records : List Bytes) :
    PairTree.fold? (join hash) (records.map hash) = (tree? records).map (Tree.digest hash) := by
  unfold tree?
  rw [← PairTree.fold?_map (f := Tree.digest hash) Tree.digest_node, List.map_map]
  rfl

/-- **The records are the leaves of their tree.** -/
theorem records_tree? (records : List Bytes) :
    (tree? records).toList.flatMap Tree.records = records := by
  unfold tree?
  rw [PairTree.flatMap_fold? fun _ _ => rfl, List.flatMap_map]
  exact List.flatMap_singleton' records

/-- There are no records and the root is zero, or there is a tree and the root is its digest. -/
theorem tree_cases (hash : Bytes → Digest) (records : List Bytes) :
    records = [] ∧ root hash records = .zero ∨
    ∃ t : Tree, tree? records = some t ∧ t.records = records ∧
      t.inputs hash = inputs hash records ∧ root hash records = t.digest hash := by
  have hrecords := records_tree? records
  unfold root inputs
  rw [fold?_digests]
  cases ht : tree? records with
  | none =>
    rw [ht] at hrecords
    exact .inl ⟨hrecords.symm, rfl⟩
  | some t =>
    rw [ht] at hrecords
    simp only [Option.toList_some, List.flatMap_singleton] at hrecords ⊢
    exact .inr ⟨t, rfl, hrecords, rfl, rfl⟩

/-- **Lists of records with one root are equal**, if no two of the byte strings that are digested for
the roots collide, none has the digest zero, and no record is as long as two digests. -/
theorem root_inj {xs ys : List Bytes} (hfree : CollisionFree hash (inputs hash xs ++ inputs hash ys))
    (hzero : ∀ x ∈ inputs hash xs ++ inputs hash ys, hash x ≠ .zero)
    (hxs : ∀ r ∈ xs, r.length ≠ 64) (hys : ∀ r ∈ ys, r.length ≠ 64)
    (h : root hash xs = root hash ys) : xs = ys := by
  rcases tree_cases hash xs with ⟨rfl, hx⟩ | ⟨t, -, rfl, hinputs, hx⟩ <;>
    rcases tree_cases hash ys with ⟨rfl, hy⟩ | ⟨t', -, rfl, hinputs', hy⟩
  · rfl
  · have hmem : t'.input hash ∈ inputs hash t'.records := hinputs' ▸ t'.input_mem_inputs
    exact absurd (hy.symm.trans (h.symm.trans hx)) (hzero _ (List.mem_append_right _ hmem))
  · have hmem : t.input hash ∈ inputs hash t.records := hinputs ▸ t.input_mem_inputs
    exact absurd (hx.symm.trans (h.trans hy)) (hzero _ (List.mem_append_left _ hmem))
  · rw [← hinputs, ← hinputs'] at hfree
    rw [Tree.eq_of_digest_eq hfree hxs hys (hx.symm.trans (h.trans hy))]

end RecordTree

end Stakebook
