import Stakebook.KeyOrder

/-!
# Maps in key order

`OrdMap κ ν` is a finite map as the list of its pairs in strictly ascending key order. A map has one
such list, so two maps with the same entries are equal (`ext_get?` in the module of lemmas).
-/

namespace Stakebook

open KeyOrder (before)

/-- Whether pairs stand in strictly ascending order of their keys. -/
abbrev Ascending {κ ν : Type} [KeyOrder κ] (l : List (κ × ν)) : Prop :=
  l.Pairwise fun a b => before a.1 b.1 = true

/-- A finite map, as its pairs in strictly ascending order of their keys. -/
structure OrdMap (κ ν : Type) [KeyOrder κ] where
  toList : List (κ × ν)
  ascending : Ascending toList

namespace OrdMap

variable {κ ν μ : Type} [KeyOrder κ]

/-! ## Ascending lists of pairs -/

/-- The value at `k` in an ascending list. -/
def lookup (k : κ) : List (κ × ν) → Option ν
  | [] => none
  | (a, v) :: rest =>
    if before k a then none else if before a k then lookup k rest else some v

/-- Puts `v` at `k`, in place of the value there. -/
def place (k : κ) (v : ν) : List (κ × ν) → List (κ × ν)
  | [] => [(k, v)]
  | (a, u) :: rest =>
    if before k a then (k, v) :: (a, u) :: rest
    else if before a k then (a, u) :: place k v rest
    else (k, v) :: rest

/-- Drops the pair at `k`. -/
def drop (k : κ) : List (κ × ν) → List (κ × ν)
  | [] => []
  | (a, u) :: rest =>
    if before k a then (a, u) :: rest
    else if before a k then (a, u) :: drop k rest
    else rest

theorem mem_place {k : κ} {v : ν} {l : List (κ × ν)} {e : κ × ν} (h : e ∈ place k v l) :
    e = (k, v) ∨ e ∈ l := by
  fun_induction place k v l <;> grind

theorem mem_of_mem_drop {k : κ} {l : List (κ × ν)} {e : κ × ν} (h : e ∈ drop k l) : e ∈ l := by
  fun_induction drop k l <;> grind

theorem ascending_place (k : κ) (v : ν) {l : List (κ × ν)} (h : Ascending l) :
    Ascending (place k v l) := by
  fun_induction place k v l with
  | case1 => simp
  | case2 a u rest hka =>
    refine List.pairwise_cons.2 ⟨?_, h⟩
    intro e he
    rcases List.mem_cons.1 he with rfl | he
    · exact hka
    · exact KeyOrder.trans hka ((List.pairwise_cons.1 h).1 e he)
  | case3 a u rest hka hak ih =>
    obtain ⟨h₁, h₂⟩ := List.pairwise_cons.1 h
    refine List.pairwise_cons.2 ⟨fun e he => ?_, ih h₂⟩
    rcases mem_place he with rfl | he
    · exact hak
    · exact h₁ e he
  | case4 a u rest hka hak =>
    obtain ⟨h₁, h₂⟩ := List.pairwise_cons.1 h
    have : k = a := KeyOrder.connex (by simpa using hka) (by simpa using hak)
    exact List.pairwise_cons.2 ⟨fun e he => this ▸ h₁ e he, h₂⟩

theorem ascending_drop (k : κ) {l : List (κ × ν)} (h : Ascending l) : Ascending (drop k l) := by
  fun_induction drop k l with
  | case1 => simp
  | case2 => exact h
  | case3 a u rest _ _ ih =>
    obtain ⟨h₁, h₂⟩ := List.pairwise_cons.1 h
    exact List.pairwise_cons.2 ⟨fun e he => h₁ e (mem_of_mem_drop he), ih h₂⟩
  | case4 a u rest => exact (List.pairwise_cons.1 h).2

/-! ## Maps -/

/-- The map without entries. -/
def empty : OrdMap κ ν := ⟨[], .nil⟩

instance : EmptyCollection (OrdMap κ ν) := ⟨empty⟩
instance : Inhabited (OrdMap κ ν) := ⟨empty⟩

/-- The value at a key. -/
def get? (m : OrdMap κ ν) (k : κ) : Option ν := lookup k m.toList

/-- The value at a key, or `d` where there is none. -/
def getD (m : OrdMap κ ν) (k : κ) (d : ν) : ν := (m.get? k).getD d

/-- Whether there is a value at a key. -/
def contains (m : OrdMap κ ν) (k : κ) : Bool := (m.get? k).isSome

/-- Puts a value at a key, in place of the one there. -/
def insert (m : OrdMap κ ν) (k : κ) (v : ν) : OrdMap κ ν :=
  ⟨place k v m.toList, ascending_place k v m.ascending⟩

/-- Takes a key out. -/
def erase (m : OrdMap κ ν) (k : κ) : OrdMap κ ν := ⟨drop k m.toList, ascending_drop k m.ascending⟩

/-- Keeps the entries that pass a test. -/
def filter (m : OrdMap κ ν) (p : κ → ν → Bool) : OrdMap κ ν :=
  ⟨m.toList.filter fun e => p e.1 e.2, m.ascending.filter _⟩

/-- Drops the entries in front of a key. -/
def dropBefore (m : OrdMap κ ν) (k : κ) : OrdMap κ ν :=
  ⟨m.toList.dropWhile fun e => before e.1 k, m.ascending.sublist (List.dropWhile_sublist _)⟩

/-- How many entries there are. -/
def size (m : OrdMap κ ν) : Nat := m.toList.length

/-- The map of a list of pairs, where a later pair replaces an earlier one. -/
def ofList (l : List (κ × ν)) : OrdMap κ ν := l.foldl (fun m e => m.insert e.1 e.2) ∅

/-- The keys, ascending. -/
def keys (m : OrdMap κ ν) : List κ := m.toList.map Prod.fst

/-- The values, in the order of their keys. -/
def values (m : OrdMap κ ν) : List ν := m.toList.map Prod.snd

instance [DecidableEq κ] [DecidableEq ν] : DecidableEq (OrdMap κ ν) := fun a b =>
  decidable_of_iff (a.toList = b.toList) ⟨fun h => by cases a; cases b; simp_all, fun h => h ▸ rfl⟩

end OrdMap

/-- A finite set of keys. -/
abbrev OrdSet (κ : Type) [KeyOrder κ] := OrdMap κ Unit

end Stakebook
