import Mathlib.Data.Nat.Bitwise
import Stakebook.Proofs.RecordTree

/-!
# Proofs of inclusion

A proof of inclusion names a place, a number of leaves, and siblings. Place and number give a route:
the side of its sibling on which each digest on the way up stands. The verifier takes this way
without a look at the tree, and digests leaves and nodes alike. So an accepted proof binds its place
only if it names a place in a tree of the right size, and otherwise binds its leaf only if no leaf
can be taken for a node.

Headlines:
* **`PairTree.ascend_siblings_eq_fold?`**: from any place of a list, the siblings on the way up lead
  to the value that the list folds to.
* **`verifyAgainst_of_prove?`**: the proof that is made for a place is accepted.
* **`getElem?_of_verifyAgainst`**, **`mem_of_verifyAgainst`**: what an accepted proof says of the
  leaves; **`accepted_beside_place`** shows that it says no more.
-/

namespace Stakebook

namespace PairTree

/-! ## Routes -/

/-- The side of its sibling on which a value stands. -/
inductive Side
  | left
  | right
deriving DecidableEq

variable {α : Type}

/-- Joins a value with its sibling. -/
def Side.attach (join : α → α → α) : Side → α → α → α
  | left, a, sibling => join a sibling
  | right, a, sibling => join sibling a

/-- The sides on the way up from a place in a list of `n` values, through as many layers. The last
value of an odd layer has no sibling. -/
def route : (layers n i : Nat) → List Side
  | 0, _, _ => []
  | layers + 1, n, i =>
    if n % 2 = 1 ∧ i = n - 1 then route layers ((n + 1) / 2) (i / 2)
    else (if i % 2 = 0 then .left else .right) :: route layers ((n + 1) / 2) (i / 2)

/-- The siblings on the way up from a place, through as many layers. -/
def siblings (join : α → α → α) : Nat → List α → Nat → List α
  | 0, _, _ => []
  | n + 1, layer, i => layer[i ^^^ 1]?.toList ++ siblings join n (joinPairs join layer) (i / 2)

/-- Joins a value with one sibling after the other, each on its side; none if there are too few. -/
def ascend (join : α → α → α) : List Side → α → List α → Option α
  | [], a, _ => some a
  | _ :: _, _, [] => none
  | side :: sides, a, sibling :: siblings => ascend join sides (side.attach join a sibling) siblings

variable {join : α → α → α}

/-! ## The siblings of a place lead to the top -/

/-- A joined value is that of two neighbours, or a last value that has none. -/
theorem getElem?_joinPairs (join : α → α → α) (l : List α) (j : Nat) :
    (joinPairs join l)[j]? = l[2 * j]?.map fun a => l[2 * j + 1]?.elim a (join a) := by
  fun_induction joinPairs join l generalizing j with
  | case1 a b rest ih =>
    cases j with
    | zero => rfl
    | succ j =>
      rw [List.getElem?_cons_succ, ih]
      rfl
  | case2 rest hshort =>
    rcases rest with _ | ⟨a, _ | ⟨b, r⟩⟩
    · rfl
    · cases j with
      | zero => rfl
      | succ j => rfl
    · exact absurd rfl (hshort a b r)

/-- **Going up from a place** with the siblings on the way leads, layer by layer, to the value above
it. -/
theorem ascend_siblings {k m : Nat} (hkm : k ≤ m) {l : List α} {i : Nat} {a : α}
    (h : l[i]? = some a) :
    ascend join (route k l.length i) a (siblings join m l i) = (layer join k l)[i / 2 ^ k]? := by
  induction k generalizing m l i a with
  | zero => rw [route, ascend, layer, Nat.pow_zero, Nat.div_one, h]
  | succ k ih =>
    obtain ⟨m, rfl⟩ := Nat.exists_eq_add_of_le' (Nat.le_trans (Nat.le_add_left 1 k) hkm)
    have hi : i < l.length := (List.getElem?_eq_some_iff.mp h).1
    have above {b : α} (hb : (joinPairs join l)[i / 2]? = some b) :
        ascend join (route k ((l.length + 1) / 2) (i / 2)) b
          (siblings join m (joinPairs join l) (i / 2)) =
        (layer join (k + 1) l)[i / 2 ^ (k + 1)]? := by
      rw [← length_joinPairs join, ih (Nat.le_of_succ_le_succ hkm) hb, layer, Nat.div_div_eq_div_mul,
        Nat.pow_succ']
    have hjoin := getElem?_joinPairs join l (i / 2)
    rw [route, siblings]
    rcases Nat.mod_two_eq_zero_or_one i with heven | hodd
    · have hdouble : 2 * (i / 2) = i := by omega
      rw [hdouble, h] at hjoin
      rw [Nat.xor_one_of_even (Nat.even_iff.mpr heven)]
      by_cases hlast : i + 1 < l.length
      · rw [List.getElem?_eq_getElem hlast] at hjoin ⊢
        rw [if_neg (by omega), if_pos heven]
        exact above hjoin
      · rw [List.getElem?_eq_none (Nat.not_lt.mp hlast)] at hjoin ⊢
        rw [if_pos (by omega)]
        exact above hjoin
    · have hdouble : 2 * (i / 2) = i - 1 := by omega
      have hsucc : i - 1 + 1 = i := by omega
      have hbefore : i - 1 < l.length := by omega
      rw [hdouble, hsucc, h, List.getElem?_eq_getElem hbefore] at hjoin
      rw [Nat.xor_one_of_odd (Nat.odd_iff.mpr hodd), List.getElem?_eq_getElem hbefore,
        if_neg (by omega), if_neg (by omega)]
      exact above hjoin

/-- A list of at most one value is not joined any further. -/
theorem layer_of_length_le_one {l : List α} (h : l.length ≤ 1) (n : Nat) : layer join n l = l := by
  have hjoin : joinPairs join l = l := by
    match l, h with
    | [], _ => rfl
    | [_], _ => rfl
  induction n with
  | zero => rfl
  | succ n ih => rw [layer, hjoin, ih]

theorem layer_add (m n : Nat) (l : List α) :
    layer join (m + n) l = layer join n (layer join m l) := by
  induction m generalizing l with
  | zero => rw [Nat.zero_add, layer]
  | succ m ih => rw [Nat.add_right_comm, layer, layer, ih]

/-- **From any place of a list, the siblings on the way up lead to the value that the list folds
to.** As many layers as its length has binary digits are enough. -/
theorem ascend_siblings_eq_fold? (join : α → α → α) {l : List α} {i : Nat} {a : α}
    (h : l[i]? = some a) :
    ascend join (route (l.length.log2 + 1) l.length i) a (siblings join l.length l i) =
      fold? join l := by
  have hi : i < l.length := (List.getElem?_eq_some_iff.mp h).1
  have hlog : l.length.log2 + 1 ≤ l.length :=
    (Nat.log2_lt (Nat.ne_of_gt (Nat.zero_lt_of_lt hi))).mpr Nat.lt_two_pow_self
  have hpow : l.length < 2 ^ (l.length.log2 + 1) := Nat.lt_log2_self
  have hone : (layer join (l.length.log2 + 1) l).length ≤ 1 :=
    length_layer_le_one (Nat.le_of_lt hpow)
  have hall : layer join l.length l = layer join (l.length.log2 + 1) l := by
    conv_lhs => rw [← Nat.add_sub_cancel' hlog]
    rw [layer_add, layer_of_length_le_one hone]
  rw [ascend_siblings hlog h, Nat.div_eq_of_lt (Nat.lt_trans hi hpow), fold?, hall,
    List.head?_eq_getElem?]

end PairTree

namespace RecordTree

open PairTree (Side route ascend)

variable {hash : Bytes → Digest}

/-! ## What the verifier digests -/

/-- All that is digested on the way up from a byte string, the string first. -/
def ascent (hash : Bytes → Digest) : List Side → Bytes → List Digest → List Bytes
  | side :: sides, x, sibling :: siblings =>
    x :: ascent hash sides (side.attach (· ++ ·) (hash x).bytes sibling.bytes) siblings
  | _, x, _ => [x]

theorem mem_ascent (sides : List Side) (x : Bytes) (siblings : List Digest) :
    x ∈ ascent hash sides x siblings := by
  fun_cases ascent hash sides x siblings with
  | case1 => exact List.mem_cons_self
  | case2 => exact List.mem_singleton_self _

/-- A digest joined with its sibling is the digest of the two side by side. -/
theorem attach_join (side : Side) (a b : Digest) :
    side.attach (join hash) a b = hash (side.attach (· ++ ·) a.bytes b.bytes) := by
  cases side <;> rfl

/-- What going up leads to is the digest of something on the way. -/
theorem exists_digest_of_ascend {sides : List Side} {x : Bytes} {siblings : List Digest}
    {top : Digest} (h : ascend (join hash) sides (hash x) siblings = some top) :
    ∃ y ∈ ascent hash sides x siblings, hash y = top := by
  induction sides generalizing x siblings with
  | nil => exact ⟨x, mem_ascent .., Option.some.inj h⟩
  | cons side sides ih =>
    cases siblings with
    | nil => cases h
    | cons sibling siblings =>
      rw [ascend, attach_join] at h
      obtain ⟨y, hy, htop⟩ := ih h
      exact ⟨y, List.mem_cons_of_mem _ hy, htop⟩

/-- The verifier goes along the route of the place that is named. -/
theorem climb_eq_ascend (hash : Bytes → Digest) (layers n i : Nat) (digest : Digest)
    (siblings : List Digest) :
    climb hash layers n i digest siblings =
      ascend (join hash) (route layers n i) digest siblings := by
  induction layers generalizing n i digest siblings with
  | zero => rfl
  | succ layers ih =>
    unfold climb route
    split
    · exact ih ..
    · cases siblings with
      | nil => rfl
      | cons sibling siblings =>
        simp only [ascend, ih]
        by_cases hi : i % 2 = 0
        · rw [if_pos hi, if_pos hi]
          rfl
        · rw [if_neg hi, if_neg hi]
          rfl

theorem siblings_eq (hash : Bytes → Digest) (n : Nat) (layer : List Digest) (i : Nat) :
    siblings hash n layer i = PairTree.siblings (join hash) n layer i := by
  induction n generalizing layer i with
  | zero => rfl
  | succ n ih => rw [siblings, PairTree.siblings, ih]

/-! ## Going up in a tree -/

namespace Tree

/-- What is digested in a tree is one of its records, or two digests from it side by side. -/
theorem mem_inputs_cases {t : Tree} {y : Bytes} (h : y ∈ t.inputs hash) :
    y ∈ t.records ∨
      ∃ a ∈ t.inputs hash, ∃ b ∈ t.inputs hash, y = (hash a).bytes ++ (hash b).bytes := by
  induction t with
  | leaf record => exact .inl h
  | node left right ihleft ihright =>
    have hleft : left.inputs hash ⊆ (node left right).inputs hash := left_inputs_subset left right
    have hright : right.inputs hash ⊆ (node left right).inputs hash := right_inputs_subset left right
    rcases List.mem_cons.mp h with rfl | h
    · exact .inr ⟨_, hleft left.input_mem_inputs, _, hright right.input_mem_inputs, rfl⟩
    · rcases List.mem_append.mp h with h | h
      · rcases ihleft h with h | ⟨a, ha, b, hb, heq⟩
        · exact .inl (List.mem_append_left _ h)
        · exact .inr ⟨a, hleft ha, b, hleft hb, heq⟩
      · rcases ihright h with h | ⟨a, ha, b, hb, heq⟩
        · exact .inl (List.mem_append_right _ h)
        · exact .inr ⟨a, hright ha, b, hright hb, heq⟩

/-- What is digested with a string joined to its sibling, and with the string itself. -/
theorem ascent_subset (t : Tree) (side : Side) (sides : List Side) (x : Bytes) (sibling : Digest)
    (siblings : List Digest) :
    t.inputs hash ++
        ascent hash sides (side.attach (· ++ ·) (hash x).bytes sibling.bytes) siblings ⊆
      t.inputs hash ++ ascent hash (side :: sides) x (sibling :: siblings) :=
  List.append_subset.mpr
    ⟨List.subset_append_left _ _,
      fun _ h => List.mem_append_right _ (List.mem_cons_of_mem _ h)⟩

/-- **What leads up to a tree is digested in it**, along whatever route and with whatever siblings,
if no record is as long as two digests. -/
theorem mem_inputs_of_ascend {t : Tree} {sides : List Side} {x : Bytes} {siblings : List Digest}
    (hfree : CollisionFree hash (t.inputs hash ++ ascent hash sides x siblings))
    (hlength : ∀ r ∈ t.records, r.length ≠ 64)
    (h : ascend (join hash) sides (hash x) siblings = some (t.digest hash)) :
    x ∈ t.inputs hash := by
  have hx : x ∈ t.inputs hash ++ ascent hash sides x siblings :=
    List.mem_append_right _ (mem_ascent ..)
  induction sides generalizing x siblings with
  | nil =>
    rw [hfree x hx _ (List.mem_append_left _ t.input_mem_inputs) (Option.some.inj h)]
    exact t.input_mem_inputs
  | cons side sides ih =>
    cases siblings with
    | nil => cases h
    | cons sibling siblings =>
      rw [ascend, attach_join] at h
      have hmem := ih (hfree.mono (ascent_subset ..)) h (List.mem_append_right _ (mem_ascent ..))
      -- two digests side by side are no record, so they are those of two parts of the tree
      rcases mem_inputs_cases hmem with hrecord | ⟨a, ha, b, hb, heq⟩
      · refine absurd ?_ (hlength _ hrecord)
        cases side <;> simp only [Side.attach, List.length_append, Octets.length_bytes]
      · cases side with
        | left =>
          rw [hfree x hx a (List.mem_append_left _ ha) (Octets.append_bytes_inj heq).1]
          exact ha
        | right =>
          rw [hfree x hx b (List.mem_append_left _ hb) (Octets.append_bytes_inj heq).2]
          exact hb

/-- What stands on the way up to a tree is a part of it. -/
theorem inputs_subset_of_ascend {sides : List Side} {a t : Tree} {parts : List Tree}
    (h : ascend .node sides a parts = some t) : a.inputs hash ⊆ t.inputs hash := by
  induction sides generalizing a parts with
  | nil =>
    cases h
    exact List.Subset.refl _
  | cons side sides ih =>
    cases parts with
    | nil => cases h
    | cons part parts =>
      refine List.Subset.trans ?_ (ih h)
      cases side with
      | left => exact left_inputs_subset a part
      | right => exact right_inputs_subset part a

/-- **What leads up to a tree on the route of one of its parts is that part.** -/
theorem eq_input_of_ascend {sides : List Side} {a t : Tree} {parts : List Tree} {x : Bytes}
    {siblings : List Digest} (hpart : ascend .node sides a parts = some t)
    (hfree : CollisionFree hash (t.inputs hash ++ ascent hash sides x siblings))
    (h : ascend (join hash) sides (hash x) siblings = some (t.digest hash)) :
    x = a.input hash := by
  have ha : a.input hash ∈ t.inputs hash ++ ascent hash sides x siblings :=
    List.mem_append_left _ (inputs_subset_of_ascend hpart a.input_mem_inputs)
  refine hfree x (List.mem_append_right _ (mem_ascent ..)) _ ha ?_
  clear ha
  induction sides generalizing a x parts siblings with
  | nil =>
    cases hpart
    exact Option.some.inj h
  | cons side sides ih =>
    cases parts with
    | nil => cases hpart
    | cons part parts =>
      cases siblings with
      | nil => cases h
      | cons sibling siblings =>
        rw [ascend, attach_join] at h
        rw [ascend] at hpart
        have hjoined := hfree.mono (ascent_subset ..)
        have heq := hjoined _ (List.mem_append_right _ (mem_ascent ..)) _
          (List.mem_append_left _ (inputs_subset_of_ascend hpart (input_mem_inputs _)))
          (ih hpart hjoined h)
        cases side with
        | left => exact (Octets.append_bytes_inj heq).1
        | right => exact (Octets.append_bytes_inj heq).2

end Tree

end RecordTree

/-! ## What an accepted proof says -/

namespace Inclusion

open RecordTree

/-- The route of the place that a proof names. -/
def route (p : Inclusion) : List PairTree.Side :=
  PairTree.route (p.totalLeaves.log2 + 1) p.totalLeaves p.leafIndex

/-- All that is digested to verify a proof. -/
def inputs (hash : Bytes → Digest) (p : Inclusion) : List Bytes :=
  ascent hash p.route p.leaf p.siblings

variable {hash : Bytes → Digest} {p : Inclusion} {leaves : List Bytes}

/-- A proof is verified by going up the route of its place. -/
theorem verify_eq_true_iff :
    p.verify hash = true ↔
      p.totalLeaves ≠ 0 ∧
        PairTree.ascend (join hash) p.route (hash p.leaf) p.siblings = some p.root := by
  rw [verify, climb_eq_ascend, Bool.and_eq_true, decide_eq_true_iff, decide_eq_true_iff, route]

theorem verifyAgainst_eq_true_iff :
    p.verifyAgainst hash leaves = true ↔
      p.root = RecordTree.root hash leaves ∧ p.verify hash = true := by
  rw [verifyAgainst, Bool.and_eq_true, decide_eq_true_iff]

/-! ### The proof for a place -/

theorem prove?_eq_some_iff {i : Nat} :
    prove? hash leaves i = some p ↔
      ∃ leaf, leaves[i]? = some leaf ∧
        p = { leaf
              leafIndex := i
              totalLeaves := leaves.length
              siblings := RecordTree.siblings hash leaves.length (leaves.map hash) i
              root := RecordTree.root hash leaves } := by
  unfold prove?
  rw [Option.map_eq_some_iff]
  exact exists_congr fun _ => and_congr_right fun _ => eq_comm

theorem prove?_eq_none_iff {i : Nat} : prove? hash leaves i = none ↔ leaves.length ≤ i := by
  unfold prove?
  rw [Option.map_eq_none_iff, List.getElem?_eq_none_iff]

/-- A member of a list is found at a place where it stands. -/
theorem exists_position? {leaf : Bytes} (h : leaf ∈ leaves) :
    ∃ i, position? leaves leaf = some i ∧ leaves[i]? = some leaf := by
  unfold position?
  cases hfound : leaves.findIdx? (· = leaf) with
  | none => simpa using List.findIdx?_eq_none_iff.mp hfound leaf h
  | some i =>
    obtain ⟨hi, heq, -⟩ := List.findIdx?_eq_some_iff_getElem.mp hfound
    exact ⟨i, rfl, List.getElem?_eq_some_iff.mpr ⟨hi, of_decide_eq_true heq⟩⟩

/-- **The proof that is made for a place is accepted.** -/
theorem verifyAgainst_of_prove? {i : Nat} (h : prove? hash leaves i = some p) :
    p.verifyAgainst hash leaves = true := by
  obtain ⟨leaf, hleaf, rfl⟩ := prove?_eq_some_iff.mp h
  have hi : i < leaves.length := (List.getElem?_eq_some_iff.mp hleaf).1
  have hdigest : (leaves.map hash)[i]? = some (hash leaf) := by
    rw [List.getElem?_map, hleaf, Option.map_some]
  have hfold := PairTree.ascend_siblings_eq_fold? (join hash) hdigest
  rw [List.length_map, fold?_digests] at hfold
  rcases tree_cases hash leaves with ⟨rfl, -⟩ | ⟨t, htree, -, -, hroot⟩
  · exact absurd hi (Nat.not_lt_zero i)
  · rw [htree, Option.map_some, ← hroot] at hfold
    rw [verifyAgainst_eq_true_iff, verify_eq_true_iff, siblings_eq]
    exact ⟨rfl, Nat.ne_of_gt (Nat.zero_lt_of_lt hi), hfold⟩

/-! ### An accepted proof -/

/-- **A proof binds its leaf to the place of a list whose route it takes**, whatever the bytes. -/
theorem getElem?_of_verifyAgainst
    (hfree : CollisionFree hash (RecordTree.inputs hash leaves ++ p.inputs hash))
    (h : p.verifyAgainst hash leaves = true) {i : Nat} (hi : i < leaves.length)
    (hroute : p.route = PairTree.route (leaves.length.log2 + 1) leaves.length i) :
    leaves[i]? = some p.leaf := by
  obtain ⟨hroot, hverify⟩ := verifyAgainst_eq_true_iff.mp h
  obtain ⟨-, hascend⟩ := verify_eq_true_iff.mp hverify
  rcases tree_cases hash leaves with ⟨rfl, -⟩ | ⟨t, htree, -, hinputs, hdigest⟩
  · exact absurd hi (Nat.not_lt_zero i)
  · have hleaf := List.getElem?_eq_getElem hi
    have hpart : (leaves.map RecordTree.Tree.leaf)[i]? = some (.leaf leaves[i]) := by
      rw [List.getElem?_map, hleaf, Option.map_some]
    have hfold := PairTree.ascend_siblings_eq_fold? RecordTree.Tree.node hpart
    rw [List.length_map, ← hroute] at hfold
    rw [hroot, hdigest] at hascend
    rw [← hinputs] at hfree
    rw [hleaf, RecordTree.Tree.eq_input_of_ascend (hfold.trans htree) hfree hascend]
    rfl

/-- **A proof of any place in a tree of any size binds its leaf to the list**, if neither it nor any
other leaf is as long as two digests. -/
theorem mem_of_verifyAgainst
    (hfree : CollisionFree hash (RecordTree.inputs hash leaves ++ p.inputs hash))
    (hzero : leaves = [] → ∀ x ∈ p.inputs hash, hash x ≠ .zero)
    (hleaf : p.leaf.length ≠ 64) (hleaves : ∀ leaf ∈ leaves, leaf.length ≠ 64)
    (h : p.verifyAgainst hash leaves = true) : p.leaf ∈ leaves := by
  obtain ⟨hroot, hverify⟩ := verifyAgainst_eq_true_iff.mp h
  obtain ⟨-, hascend⟩ := verify_eq_true_iff.mp hverify
  rcases tree_cases hash leaves with ⟨rfl, hdigest⟩ | ⟨t, -, rfl, hinputs, hdigest⟩
  · obtain ⟨x, hx, hlast⟩ := exists_digest_of_ascend hascend
    exact absurd (hlast.trans (hroot.trans hdigest)) (hzero rfl x hx)
  · rw [hroot, hdigest] at hascend
    rw [← hinputs] at hfree
    have hinput := RecordTree.Tree.mem_inputs_of_ascend hfree hleaves hascend
    rcases RecordTree.Tree.mem_inputs_cases hinput with hmem | ⟨a, -, b, -, heq⟩
    · exact hmem
    · refine absurd ?_ hleaf
      rw [heq, List.length_append, Octets.length_bytes, Octets.length_bytes]

/-- **What an accepted proof binds.** If no two of the byte strings that are digested for the root of
a list and for an accepted proof collide, the leaf stands at the place that the proof names, provided
that the proof names the size of the list and a place in it. If neither the leaf nor those of the
list are as long as two digests, the leaf is in the list, whatever place and size the proof names;
for an empty list this needs that nothing on the way has the digest zero. -/
theorem verifyAgainst_binds
    (hfree : CollisionFree hash (RecordTree.inputs hash leaves ++ p.inputs hash))
    (h : p.verifyAgainst hash leaves = true) :
    (p.totalLeaves = leaves.length → p.leafIndex < leaves.length →
      leaves[p.leafIndex]? = some p.leaf) ∧
    ((leaves = [] → ∀ x ∈ p.inputs hash, hash x ≠ .zero) → p.leaf.length ≠ 64 →
      (∀ leaf ∈ leaves, leaf.length ≠ 64) → p.leaf ∈ leaves) := by
  constructor
  · intro hsize hplace
    refine getElem?_of_verifyAgainst hfree h hplace ?_
    rw [route, hsize]
  · intro hzero hleaf hleaves
    exact mem_of_verifyAgainst hfree hzero hleaf hleaves h

/-- As many leaves, of one byte each. -/
def bytewise (n : Nat) : List Bytes := (List.range n).map fun i => [UInt8.ofNat i]

/-- The first of three leaves, at a place. -/
def firstOfThree (place : Nat) : Inclusion :=
  ⟨[0], place, 3, [Blake3.digest [1], Blake3.digest [2]],
    RecordTree.root Blake3.digest (bytewise 3)⟩

theorem verifyAgainst_binds_first :
    (firstOfThree 0).verifyAgainst Blake3.digest (bytewise 3) = true ∧
      (bytewise 3)[0]? = some [0] ∧ [0] ∈ bytewise 3 := by
  have h : (firstOfThree 0).verifyAgainst Blake3.digest (bytewise 3) = true := by decide +kernel
  have hfree : CollisionFree Blake3.digest (RecordTree.inputs Blake3.digest (bytewise 3) ++
      (firstOfThree 0).inputs Blake3.digest) := by decide +kernel
  exact ⟨h, (verifyAgainst_binds hfree h).1 rfl (by decide),
    (verifyAgainst_binds hfree h).2 nofun (by decide) (by decide)⟩

/-- The second of two leaves, as the third of three. -/
def secondAsThird : Inclusion :=
  ⟨[1], 2, 3, [Blake3.digest [0]], RecordTree.root Blake3.digest (bytewise 2)⟩

/-- The node over two leaves, as the only leaf. -/
def nodeAsLeaf : Inclusion :=
  ⟨(Blake3.digest [0]).bytes ++ (Blake3.digest [1]).bytes, 0, 1, [],
    RecordTree.root Blake3.digest (bytewise 2)⟩

/-- An accepted proof may name another size than that of the list, or a place past its end; and its
leaf may be a node. -/
theorem accepted_beside_place :
    (CollisionFree Blake3.digest (RecordTree.inputs Blake3.digest (bytewise 2) ++
        secondAsThird.inputs Blake3.digest) ∧
      secondAsThird.verifyAgainst Blake3.digest (bytewise 2) = true ∧
      secondAsThird.totalLeaves ≠ (bytewise 2).length) ∧
    (CollisionFree Blake3.digest (RecordTree.inputs Blake3.digest (bytewise 3) ++
        (firstOfThree 4).inputs Blake3.digest) ∧
      (firstOfThree 4).verifyAgainst Blake3.digest (bytewise 3) = true ∧
      ¬(firstOfThree 4).leafIndex < (bytewise 3).length) ∧
    (CollisionFree Blake3.digest (RecordTree.inputs Blake3.digest (bytewise 2) ++
        nodeAsLeaf.inputs Blake3.digest) ∧
      nodeAsLeaf.verifyAgainst Blake3.digest (bytewise 2) = true ∧
      nodeAsLeaf.leaf ∉ bytewise 2) := by
  refine ⟨⟨?_, ?_, ?_⟩, ⟨?_, ?_, ?_⟩, ?_, ?_, ?_⟩ <;> decide +kernel

end Inclusion

end Stakebook
