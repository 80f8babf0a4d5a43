import Stakebook.Form.RoundTrip

/-!
# Every value has its document

A form may lack a document for a value, since not every map has keys that can be written.
`RoundTrips` says of one value that it has a document and is read back from it; then it is read back
from the compact and from the pretty text of it (**`RoundTrips.readsTexts`**). As with `ReadsJson`,
every way of putting forms together keeps it.

A value that may be missing is written as `null` when it is, so its form must not write `null` for a
value that is there: records and sums do not (`record_ne_null`, `sum_ne_null`).
-/

namespace Stakebook.Form

variable {α β κ ν : Type}

/-- The value has a document, and is read back from it. -/
structure RoundTrips (f : Form α) (a : α) : Prop where
  written : (f.toJson a).isSome
  read : f.ReadsJson a

/-- The value is read back from both texts of its document. -/
def ReadsTexts (f : Form α) (a : α) : Prop :=
  ∃ compact pretty, f.compact? a = some compact ∧ f.parse? compact = some a ∧
    f.pretty? a = some pretty ∧ f.parse? pretty = some a

/-- **A value that has a document is read back from its texts.** -/
theorem RoundTrips.readsTexts {f : Form α} {a : α} (h : f.RoundTrips a) : f.ReadsTexts a := by
  obtain ⟨j, hj⟩ := Option.isSome_iff_exists.mp h.written
  have hcompact : f.compact? a = some j.compact := by rw [compact?, hj, Option.map_some]
  have hpretty : f.pretty? a = some j.pretty := by rw [pretty?, hj, Option.map_some]
  exact ⟨_, _, hcompact, parse?_of_compact? h.read hcompact, hpretty,
    parse?_of_pretty? h.read hpretty⟩

/-! ## Simple values, lists and maps -/

theorem roundTrips_refine {f : Form α} {wrap? : α → Option β} {unwrap : β → α} {b : β}
    (h : f.RoundTrips (unwrap b)) (hb : wrap? (unwrap b) = some b) :
    (f.refine wrap? unwrap).RoundTrips b :=
  ⟨h.written, readsJson_refine h.read hb⟩

theorem roundTrips_word (bytes : Nat) (a : Word (8 * bytes)) : (word bytes).RoundTrips a :=
  ⟨rfl, readsJson_word bytes a⟩

theorem roundTrips_byte (b : UInt8) : byte.RoundTrips b := ⟨rfl, readsJson_byte b⟩

theorem roundTrips_text (s : String) : text.RoundTrips s := ⟨rfl, readsJson_text s⟩

theorem roundTrips_octets (o : Octets) : octets.RoundTrips o := ⟨rfl, readsJson_octets o⟩

theorem roundTrips_account (a : AccountId) : account.RoundTrips a := ⟨rfl, readsJson_account a⟩

/-- What can be written item by item can be written. -/
theorem isSome_mapM {f : α → Option β} {as : List α} (h : ∀ a ∈ as, (f a).isSome) :
    (as.mapM f).isSome := by
  induction as with
  | nil => rfl
  | cons a as ih =>
    obtain ⟨b, hb⟩ := Option.isSome_iff_exists.mp (h a List.mem_cons_self)
    obtain ⟨bs, hbs⟩ := Option.isSome_iff_exists.mp (ih fun x hx => h x (List.mem_cons_of_mem _ hx))
    rw [List.mapM_cons, hb, hbs]
    rfl

theorem roundTrips_list {f : Form α} {as : List α} (h : ∀ a ∈ as, f.RoundTrips a) :
    (list f).RoundTrips as where
  written := by
    show ((as.mapM f.toJson).map Json.array).isSome
    rw [Option.isSome_map]
    exact isSome_mapM fun a ha => (h a ha).written
  read := readsJson_list fun a ha => (h a ha).read

theorem roundTrips_batch {f : Form α} {b : Batch α} (h : ∀ a ∈ b.items, f.RoundTrips a) :
    (batch f).RoundTrips b :=
  roundTrips_refine (roundTrips_list h) (Batch.ofList?_items b)

theorem roundTrips_option {f : Form α} {o : Option α} (h : ∀ a ∈ o, f.RoundTrips a)
    (hn : ∀ a, f.toJson a ≠ some .null) : (option f).RoundTrips o where
  written := by
    cases o with
    | none => rfl
    | some a => exact (h a rfl).written
  read := readsJson_option fun a ha => ⟨(h a ha).read, hn a⟩

/-- The key can be written, and is read back. -/
structure KeyText.RoundTrips (names : KeyText κ) (k : κ) : Prop where
  written : (names.write k).isSome
  read : names.Reads k

theorem KeyText.roundTrips_word {w : Nat} (a : Word w) : KeyText.word.RoundTrips a :=
  ⟨rfl, reads_word a⟩

theorem KeyText.roundTrips_account (a : AccountId) : KeyText.account.RoundTrips a :=
  ⟨rfl, reads_account a⟩

theorem roundTrips_map [KeyOrder κ] {key : Form κ} {names : KeyText κ} {value : Form ν}
    {m : OrdMap κ ν} (hk : ∀ k, names.RoundTrips k) (hv : ∀ v, value.RoundTrips v) :
    (map key names value).RoundTrips m where
  written := by
    show ((m.toList.mapM (toMember names value)).map Json.object).isSome
    rw [Option.isSome_map]
    refine isSome_mapM fun e _ => ?_
    obtain ⟨name, hname⟩ := Option.isSome_iff_exists.mp (hk e.1).written
    obtain ⟨j, hj⟩ := Option.isSome_iff_exists.mp (hv e.2).written
    unfold toMember
    rw [hname, hj]
    rfl
  read := readsJson_map fun e _ => ⟨(hk e.1).read, (hv e.2).read⟩

/-! ## Records -/

/-- The fields of a record have documents, and are read back from them. -/
structure Fields.RoundTrips (fields : Fields α) (a : α) : Prop where
  written : (fields.toMembers a).isSome
  read : fields.ReadsMembers a

theorem Fields.RoundTrips.nil (u : Unit) : Fields.nil.RoundTrips u := ⟨rfl, readsMembers_nil u⟩

/-- One more field, of another name. If it is left out, its value is the one that it has when it is
absent. -/
theorem Fields.RoundTrips.cons {f : Field α} {fields : Fields β} {x : α × β}
    (hf : f.omits x.1 = true → f.absent = some x.1) (hn : f.name ∉ fields.names)
    (h : f.form.RoundTrips x.1) (hs : fields.RoundTrips x.2) :
    (Fields.cons f fields).RoundTrips x where
  written := by
    obtain ⟨members, hmembers⟩ := Option.isSome_iff_exists.mp hs.written
    obtain ⟨j, hj⟩ := Option.isSome_iff_exists.mp h.written
    unfold Fields.cons
    simp only
    rw [hmembers, hj]
    show (if f.omits x.1 = true then _ else _ : Option _).isSome
    split <;> rfl
  read := readsMembers_cons hf hn h.read hs.read

theorem roundTrips_record {fields : Fields α} {wrap : α → β} {unwrap : β → α} {b : β}
    (h : fields.RoundTrips (unwrap b)) (hb : wrap (unwrap b) = b) :
    (record fields wrap unwrap).RoundTrips b where
  written := by
    show ((fields.toMembers (unwrap b)).map Json.object).isSome
    rw [Option.isSome_map]
    exact h.written
  read := readsJson_record h.read hb

/-- A record is written as an object. -/
theorem record_ne_null (fields : Fields α) (wrap : α → β) (unwrap : β → α) (b : β) :
    (record fields wrap unwrap).toJson b ≠ some .null := by
  intro h
  obtain ⟨members, -, hmembers⟩ := Option.map_eq_some_iff.mp h
  cases hmembers

/-! ## Sums -/

/-- A value of a sum is written as an object or as a string. -/
theorem sum_ne_null (variants : List (Variant α)) (a : α) :
    (sum variants).toJson a ≠ some .null := by
  show variantToJson a variants ≠ some .null
  induction variants with
  | nil => exact (Option.some_ne_none _).symm
  | cons v vs ih =>
    unfold variantToJson
    cases v.toJson? a with
    | none => exact ih
    | some content =>
      simp only
      intro h
      split at h
      · obtain ⟨j, -, hj⟩ := Option.map_eq_some_iff.mp h
        cases hj
      · cases h

/-- The value is of the variant, has a document by it, and is read back from that. -/
structure Variant.RoundTrips (v : Variant α) (a : α) : Prop where
  written : (variantToJson a [v]).isSome
  read : v.ReadsJson a

theorem Variant.roundTrips_unit [DecidableEq α] (name : String) (a : α) :
    (Variant.unit name a).RoundTrips a where
  written := by simp [variantToJson, Variant.unit]
  read := readsJson_unit name a

theorem Variant.roundTrips_content {name : String} {f : Form β} {wrap : β → α}
    {unwrap? : α → Option β} {a : α} {b : β} (hb : unwrap? a = some b) (ha : wrap b = a)
    (h : f.RoundTrips b) : (Variant.content name f wrap unwrap?).RoundTrips a where
  written := by simp [variantToJson, Variant.content, hb, h.written]
  read := readsJson_content hb ha h.read

/-- The first variant that the value is of has a document for it, from which it is read back. -/
structure FirstRoundTrips (a : α) (variants : List (Variant α)) : Prop where
  written : (variantToJson a variants).isSome
  read : FirstReadsJson a variants

theorem roundTrips_sum {variants : List (Variant α)} {a : α} (h : FirstRoundTrips a variants)
    (hn : (variants.map Variant.name).Nodup) : (sum variants).RoundTrips a :=
  ⟨h.written, readsJson_sum h.read hn⟩

namespace FirstRoundTrips

/-- The variant at a place is the first that a value is of, if the value is of none before it. -/
theorem of_getElem? {variants : List (Variant α)} {v : Variant α} {a : α} {i : Nat}
    (hv : variants[i]? = some v) (hbefore : (variants.take i).all fun u => (u.toJson? a).isNone)
    (h : v.RoundTrips a) : FirstRoundTrips a variants := by
  induction variants generalizing i with
  | nil => cases hv
  | cons u us ih =>
    cases i with
    | zero =>
      cases hv
      obtain ⟨content, hcontent, -⟩ := h.read
      have hwritten := h.written
      unfold variantToJson at hwritten
      rw [hcontent] at hwritten
      refine ⟨?_, .inl h.read⟩
      unfold variantToJson
      rw [hcontent]
      exact hwritten
    | succ i =>
      rw [List.take_succ_cons, List.all_cons, Bool.and_eq_true, Option.isNone_iff_eq_none] at hbefore
      obtain ⟨hwritten, hread⟩ := ih hv hbefore.2
      refine ⟨?_, .inr ⟨hbefore.1, hread⟩⟩
      unfold variantToJson
      rw [hbefore.1]
      exact hwritten

variable {variants : List (Variant α)} {a : α} {b : β} {name : String} {wrap : β → α}
  {unwrap? : α → Option β}

/-- **A value of a sum round-trips**, if its content does. -/
theorem content {f : Form β} (i : Nat) (hv : variants[i]? = some (.content name f wrap unwrap?))
    (hbefore : (variants.take i).all fun u => (u.toJson? a).isNone) (hb : unwrap? a = some b)
    (ha : wrap b = a) (h : f.RoundTrips b) : FirstRoundTrips a variants :=
  of_getElem? hv hbefore (Variant.roundTrips_content hb ha h)

theorem fields {fields : Fields β} (i : Nat)
    (hv : variants[i]? = some (.fields name fields wrap unwrap?))
    (hbefore : (variants.take i).all fun u => (u.toJson? a).isNone) (hb : unwrap? a = some b)
    (ha : wrap b = a) (h : fields.RoundTrips b) : FirstRoundTrips a variants :=
  content i hv hbefore hb ha (roundTrips_record h rfl)

theorem unit [DecidableEq α] (i : Nat) (hv : variants[i]? = some (.unit name a))
    (hbefore : (variants.take i).all fun u => (u.toJson? a).isNone) : FirstRoundTrips a variants :=
  of_getElem? hv hbefore (Variant.roundTrips_unit name a)

end FirstRoundTrips

end Stakebook.Form
