import Stakebook.OrdMap.Basic

/-!
# Lookups in maps

A map is known by its lookups. `get?_insert`, `get?_erase`, `get?_filter`, `get?_dropBefore` and
`get?_foldl_insert` say what each operation does to them, **`ext_get?`** that two maps with the same
lookups are equal, **`filterMap_get?_keys`** that those of all keys are the values, and
**`ofList_toList`** that a map is rebuilt from its pairs.
-/

namespace Stakebook.OrdMap

open KeyOrder (before)

variable {κ ν : Type} [KeyOrder κ]

/-! ## Ascending lists of pairs -/

/-- Where neither key is before the other they are equal. -/
theorem eq_of_not_before {a b : κ} (h₁ : ¬before a b = true) (h₂ : ¬before b a = true) : a = b :=
  KeyOrder.connex (Bool.not_eq_true _ ▸ h₁) (Bool.not_eq_true _ ▸ h₂)

theorem lookup_eq_some_iff {l : List (κ × ν)} (h : Ascending l) {k : κ} {v : ν} :
    lookup k l = some v ↔ (k, v) ∈ l := by
  fun_induction lookup k l with
  | case1 => simp
  | case2 a u rest hka =>
    refine ⟨nofun, fun hmem => ?_⟩
    rcases List.mem_cons.1 hmem with he | hmem
    · cases he
      simp [KeyOrder.irrefl] at hka
    · have := KeyOrder.trans hka ((List.pairwise_cons.1 h).1 _ hmem)
      simp [KeyOrder.irrefl] at this
  | case3 a u rest _ hak ih =>
    rw [ih (List.pairwise_cons.1 h).2, List.mem_cons]
    refine ⟨.inr, fun hmem => hmem.resolve_left fun he => ?_⟩
    cases he
    simp [KeyOrder.irrefl] at hak
  | case4 a u rest hka hak =>
    obtain rfl := eq_of_not_before hka hak
    refine ⟨fun he => by cases he; exact List.mem_cons_self, fun hmem => ?_⟩
    rcases List.mem_cons.1 hmem with he | hmem
    · cases he
      rfl
    · have := (List.pairwise_cons.1 h).1 _ hmem
      simp [KeyOrder.irrefl] at this

theorem mem_place_iff {l : List (κ × ν)} (h : Ascending l) {k : κ} {v : ν} {e : κ × ν} :
    e ∈ place k v l ↔ e = (k, v) ∨ e ∈ l ∧ e.1 ≠ k := by
  fun_induction place k v l with
  | case1 => simp
  | case2 a u rest hka =>
    have hne : ∀ e ∈ (a, u) :: rest, e.1 ≠ k := by
      intro e he
      rcases List.mem_cons.1 he with rfl | he
      · exact (KeyOrder.ne_of_before hka).symm
      · exact (KeyOrder.ne_of_before
          (KeyOrder.trans hka ((List.pairwise_cons.1 h).1 _ he))).symm
    rw [List.mem_cons]
    exact or_congr_right ⟨fun he => ⟨he, hne e he⟩, And.left⟩
  | case3 a u rest _ hak ih =>
    have hne : a ≠ k := KeyOrder.ne_of_before hak
    rw [List.mem_cons, ih (List.pairwise_cons.1 h).2, List.mem_cons]
    constructor
    · rintro (rfl | he | ⟨he, hk⟩)
      · exact .inr ⟨.inl rfl, hne⟩
      · exact .inl he
      · exact .inr ⟨.inr he, hk⟩
    · rintro (he | ⟨rfl | he, hk⟩)
      · exact .inr (.inl he)
      · exact .inl rfl
      · exact .inr (.inr ⟨he, hk⟩)
  | case4 a u rest hka hak =>
    obtain rfl := eq_of_not_before hka hak
    rw [List.mem_cons, List.mem_cons]
    constructor
    · rintro (rfl | he)
      · exact .inl rfl
      · exact .inr ⟨.inr he, (KeyOrder.ne_of_before ((List.pairwise_cons.1 h).1 _ he)).symm⟩
    · rintro (rfl | ⟨rfl | he, hk⟩)
      · exact .inl rfl
      · exact absurd rfl hk
      · exact .inr he

theorem mem_drop_iff {l : List (κ × ν)} (h : Ascending l) {k : κ} {e : κ × ν} :
    e ∈ drop k l ↔ e ∈ l ∧ e.1 ≠ k := by
  fun_induction drop k l with
  | case1 => simp
  | case2 a u rest hka =>
    refine ⟨fun he => ⟨he, ?_⟩, And.left⟩
    rcases List.mem_cons.1 he with rfl | he
    · exact (KeyOrder.ne_of_before hka).symm
    · exact (KeyOrder.ne_of_before (KeyOrder.trans hka ((List.pairwise_cons.1 h).1 _ he))).symm
  | case3 a u rest _ hak ih =>
    rw [List.mem_cons, ih (List.pairwise_cons.1 h).2, List.mem_cons]
    constructor
    · rintro (rfl | ⟨he, hk⟩)
      · exact ⟨.inl rfl, KeyOrder.ne_of_before hak⟩
      · exact ⟨.inr he, hk⟩
    · rintro ⟨he | he, hk⟩
      · exact .inl he
      · exact .inr ⟨he, hk⟩
  | case4 a u rest hka hak =>
    obtain rfl := eq_of_not_before hka hak
    rw [List.mem_cons]
    constructor
    · exact fun he => ⟨.inr he, (KeyOrder.ne_of_before ((List.pairwise_cons.1 h).1 _ he)).symm⟩
    · rintro ⟨rfl | he, hk⟩
      · exact absurd rfl hk
      · exact he

/-- An ascending list is known by its members. -/
theorem eq_of_mem_iff {l l' : List (κ × ν)} (h : Ascending l) (h' : Ascending l')
    (hm : ∀ e, e ∈ l ↔ e ∈ l') : l = l' := by
  induction l generalizing l' with
  | nil => exact (List.eq_nil_iff_forall_not_mem.2 fun e he => by simpa using (hm e).2 he).symm
  | cons e l ih =>
    obtain ⟨he, hl⟩ := List.pairwise_cons.1 h
    cases l' with
    | nil => simpa using (hm e).1 List.mem_cons_self
    | cons e' l' =>
      obtain ⟨he', hl'⟩ := List.pairwise_cons.1 h'
      have heq : e = e' := by
        rcases List.mem_cons.1 ((hm e).1 List.mem_cons_self) with heq | hmem
        · exact heq
        rcases List.mem_cons.1 ((hm e').2 List.mem_cons_self) with heq | hmem'
        · exact heq.symm
        have := KeyOrder.trans (he' e hmem) (he e' hmem')
        simp [KeyOrder.irrefl] at this
      subst heq
      refine congrArg (e :: ·) (ih hl hl' fun x => ⟨fun hx => ?_, fun hx => ?_⟩)
      · refine (List.mem_cons.1 ((hm x).1 (List.mem_cons_of_mem _ hx))).resolve_left fun hxe => ?_
        have := he x hx
        simp [hxe, KeyOrder.irrefl] at this
      · refine (List.mem_cons.1 ((hm x).2 (List.mem_cons_of_mem _ hx))).resolve_left fun hxe => ?_
        have := he' x hx
        simp [hxe, KeyOrder.irrefl] at this

/-- A key behind all others is placed at the end. -/
theorem place_eq_append {l : List (κ × ν)} {k : κ} (v : ν)
    (h : ∀ e ∈ l, before e.1 k = true) : place k v l = l ++ [(k, v)] := by
  induction l with
  | nil => rfl
  | cons e l ih =>
    have he := h e List.mem_cons_self
    rw [place, if_neg (by simp [KeyOrder.asymm he]), if_pos he,
      ih fun e he => h e (List.mem_cons_of_mem _ he), List.cons_append]

/-- What stands in front of a key in an ascending list is all that is before it. -/
theorem dropWhile_before {l : List (κ × ν)} (h : Ascending l) (k : κ) :
    l.dropWhile (fun e => before e.1 k) = l.filter fun e => !before e.1 k := by
  induction l with
  | nil => rfl
  | cons e l ih =>
    obtain ⟨he, hl⟩ := List.pairwise_cons.1 h
    rw [List.dropWhile_cons]
    cases hek : before e.1 k with
    | true => simp [hek, ih hl]
    | false =>
      -- all that follows is behind the first entry, and so not before the key either
      have hall : ∀ x ∈ e :: l, (!before x.1 k) = true := by
        intro x hx
        rw [Bool.not_eq_true']
        rcases List.mem_cons.1 hx with rfl | hx
        · exact hek
        · cases hxk : before x.1 k with
          | false => rfl
          | true => exact absurd (KeyOrder.trans (he x hx) hxk) (by simp [hek])
      exact (List.filter_eq_self.2 hall).symm

/-! ## Maps -/

theorem mem_toList_iff {m : OrdMap κ ν} {k : κ} {v : ν} :
    (k, v) ∈ m.toList ↔ m.get? k = some v := (lookup_eq_some_iff m.ascending).symm

theorem toList_inj {m m' : OrdMap κ ν} : m.toList = m'.toList ↔ m = m' := by
  cases m
  cases m'
  simp

/-- **Maps with the same lookups are equal.** -/
theorem ext_get? {m m' : OrdMap κ ν} (h : ∀ k, m.get? k = m'.get? k) : m = m' :=
  toList_inj.1 <| eq_of_mem_iff m.ascending m'.ascending fun (k, v) => by
    rw [mem_toList_iff, mem_toList_iff, h]

@[simp] theorem get?_empty (k : κ) : (∅ : OrdMap κ ν).get? k = none := rfl

/-- **Looking up after a write.** -/
theorem get?_insert [DecidableEq κ] (m : OrdMap κ ν) (k : κ) (v : ν) (q : κ) :
    (m.insert k v).get? q = if q = k then some v else m.get? q := by
  ext u
  rw [← mem_toList_iff, insert, mem_place_iff m.ascending, mem_toList_iff, Prod.mk.injEq]
  split
  · next h => simp [h, eq_comm]
  · next h => simp [h]

@[simp] theorem get?_insert_self (m : OrdMap κ ν) (k : κ) (v : ν) :
    (m.insert k v).get? k = some v :=
  mem_toList_iff.1 ((mem_place_iff m.ascending).2 (.inl rfl))

/-- **Looking up after a removal.** -/
theorem get?_erase [DecidableEq κ] (m : OrdMap κ ν) (k q : κ) :
    (m.erase k).get? q = if q = k then none else m.get? q := by
  ext u
  rw [← mem_toList_iff, erase, mem_drop_iff m.ascending, mem_toList_iff]
  split
  · next h => simp [h]
  · next h => simp [h]

theorem getD_of_some {m : OrdMap κ ν} {k : κ} {v : ν} (h : m.get? k = some v) (d : ν) :
    m.getD k d = v := by
  rw [getD, h, Option.getD_some]

theorem getD_of_none {m : OrdMap κ ν} {k : κ} (h : m.get? k = none) (d : ν) : m.getD k d = d := by
  rw [getD, h, Option.getD_none]

theorem getD_insert [DecidableEq κ] (m : OrdMap κ ν) (k : κ) (v : ν) (q : κ) (d : ν) :
    (m.insert k v).getD q d = if q = k then v else m.getD q d := by
  rw [getD, get?_insert]
  split <;> rfl

theorem getD_erase [DecidableEq κ] (m : OrdMap κ ν) (k q : κ) (d : ν) :
    (m.erase k).getD q d = if q = k then d else m.getD q d := by
  rw [getD, get?_erase]
  split <;> rfl

/-- **Looking up after a selection.** -/
theorem get?_filter (m : OrdMap κ ν) (p : κ → ν → Bool) (k : κ) :
    (m.filter p).get? k = (m.get? k).filter (p k) := by
  ext u
  rw [← mem_toList_iff, filter, List.mem_filter, mem_toList_iff, Option.filter_eq_some_iff]

/-- To drop what is in front of a key is a selection. -/
theorem dropBefore_eq_filter (m : OrdMap κ ν) (k : κ) :
    m.dropBefore k = m.filter fun q _ => !before q k :=
  toList_inj.1 (dropWhile_before m.ascending k)

/-- **Looking up after the entries in front of a key are dropped.** -/
theorem get?_dropBefore (m : OrdMap κ ν) (k q : κ) :
    (m.dropBefore k).get? q = if before q k then none else m.get? q := by
  rw [dropBefore_eq_filter, get?_filter]
  cases before q k <;> cases m.get? q <;> rfl

/-- What is left agrees exactly if the lookups from the key on do. -/
theorem dropBefore_eq_iff {m m' : OrdMap κ ν} {k : κ} :
    m.dropBefore k = m'.dropBefore k ↔ ∀ q, before q k = false → m.get? q = m'.get? q := by
  constructor
  · intro h q hq
    have hget := congrArg (fun m => m.get? q) h
    simp only [get?_dropBefore, hq] at hget
    exact hget
  · intro h
    refine ext_get? fun q => ?_
    rw [get?_dropBefore, get?_dropBefore]
    cases hq : before q k with
    | true => rfl
    | false => exact h q hq

/-- A write at a key that is not dropped may come before or after. -/
theorem dropBefore_insert [DecidableEq κ] {k cut : κ} (h : before k cut = false) (m : OrdMap κ ν)
    (v : ν) : (m.insert k v).dropBefore cut = (m.dropBefore cut).insert k v := by
  refine ext_get? fun q => ?_
  rw [get?_dropBefore, get?_insert, get?_insert, get?_dropBefore]
  by_cases hq : q = k
  · simp [hq, h]
  · simp [hq]

/-- So may many. -/
theorem dropBefore_foldl_insert [DecidableEq κ] {α : Type} {cut : κ} (key : α → κ)
    (value : α → ν) (h : ∀ x, before (key x) cut = false) (xs : List α) (m : OrdMap κ ν) :
    (xs.foldl (fun m x => m.insert (key x) (value x)) m).dropBefore cut =
      xs.foldl (fun m x => m.insert (key x) (value x)) (m.dropBefore cut) := by
  induction xs generalizing m with
  | nil => rfl
  | cons x xs ih => rw [List.foldl_cons, List.foldl_cons, ih, dropBefore_insert (h x)]

/-- Dropping leaves less by the number of entries in front of the key. -/
theorem size_sub_size_dropBefore (m : OrdMap κ ν) (k : κ) :
    m.size - (m.dropBefore k).size = m.toList.countP fun e => before e.1 k := by
  have hsplit := List.length_eq_countP_add_countP (fun e => before e.1 k) (l := m.toList)
  have hkept : (m.dropBefore k).size = m.toList.countP fun e => !before e.1 k := by
    rw [dropBefore_eq_filter, List.countP_eq_length_filter]
    rfl
  simp only [Bool.not_eq_true, Bool.decide_eq_false] at hsplit
  rw [hkept, size, hsplit, Nat.add_sub_cancel]

/-- **Looking up after many writes**: where none was to the key the old value stands, and else the
value of one of them. -/
theorem get?_foldl_insert [DecidableEq κ] {α : Type} (key : α → κ) (value : α → ν) (xs : List α)
    (m : OrdMap κ ν) (k : κ) :
    (∀ x ∈ xs, key x ≠ k) ∧
        (xs.foldl (fun m x => m.insert (key x) (value x)) m).get? k = m.get? k ∨
      ∃ x ∈ xs, key x = k ∧
        (xs.foldl (fun m x => m.insert (key x) (value x)) m).get? k = some (value x) := by
  induction xs generalizing m with
  | nil => exact .inl ⟨nofun, rfl⟩
  | cons x xs ih =>
    rw [List.foldl_cons]
    rcases ih (m.insert (key x) (value x)) with ⟨hne, hget⟩ | ⟨y, hy, hkey, hget⟩
    · rw [get?_insert] at hget
      by_cases hx : k = key x
      · rw [if_pos hx] at hget
        exact .inr ⟨x, List.mem_cons_self, hx.symm, hget⟩
      · rw [if_neg hx] at hget
        exact .inl ⟨List.forall_mem_cons.2 ⟨Ne.symm hx, hne⟩, hget⟩
    · exact .inr ⟨y, List.mem_cons_of_mem _ hy, hkey, hget⟩

theorem mem_keys_iff {m : OrdMap κ ν} {k : κ} : k ∈ m.keys ↔ ∃ v, m.get? k = some v := by
  simp only [← mem_toList_iff, keys, List.mem_map, Prod.exists, exists_and_right, exists_eq_right]

theorem keys_ascending (m : OrdMap κ ν) : m.keys.Pairwise fun a b => before a b = true :=
  List.pairwise_map.2 m.ascending

/-- **Looking up all keys gives the values.** -/
theorem filterMap_get?_keys (m : OrdMap κ ν) : m.keys.filterMap m.get? = m.values := by
  have read : ∀ l : List (κ × ν), (∀ e ∈ l, m.get? e.1 = some e.2) →
      (l.map Prod.fst).filterMap m.get? = l.map Prod.snd := by
    intro l hl
    induction l with
    | nil => rfl
    | cons e l ih =>
      obtain ⟨he, hl⟩ := List.forall_mem_cons.1 hl
      rw [List.map_cons, List.filterMap_cons_some he, ih hl, List.map_cons]
  exact read m.toList fun _ he => mem_toList_iff.1 he

/-- **A map is rebuilt from its pairs.** -/
theorem ofList_toList (m : OrdMap κ ν) : ofList m.toList = m := by
  have build : ∀ (l : List (κ × ν)) (acc : OrdMap κ ν), Ascending (acc.toList ++ l) →
      (l.foldl (fun m e => m.insert e.1 e.2) acc).toList = acc.toList ++ l := by
    intro l
    induction l with
    | nil => simp
    | cons e l ih =>
      intro acc h
      have hacc : ∀ x ∈ acc.toList, before x.1 e.1 = true := fun x hx =>
        (List.pairwise_append.1 h).2.2 x hx e List.mem_cons_self
      have hins : (acc.insert e.1 e.2).toList = acc.toList ++ [e] := place_eq_append e.2 hacc
      rw [List.foldl_cons, ih _ (by rw [hins, List.append_assoc]; exact h), hins,
        List.append_assoc, List.singleton_append]
  exact toList_inj.1 (build m.toList ∅ m.ascending)

end Stakebook.OrdMap
