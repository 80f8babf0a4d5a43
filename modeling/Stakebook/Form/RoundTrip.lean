import Stakebook.Form.Sum
import Stakebook.Json.RoundTrip
import Stakebook.OrdMap.Lemmas

/-!
# What is written is read back

`ReadsBytes` and `ReadsJson` say of one value that its binary form and its document are read back.
Every way of putting forms together keeps them: if the parts of a value are read back, so is the
value. Lists need a length that fits into eight bytes, since the length is written in front of their
bytes. **`parse?_of_compact?`** and **`parse?_of_pretty?`** say the same of the texts of documents.

A record is read back field by field, and a sum by the first variant that a value is of:
`Fields.ReadsBytes`, `Fields.ReadsMembers`, `FirstReadsBytes` and `FirstReadsJson` are the conditions
on the parts.
-/

namespace Stakebook.Form

variable {α β κ ν : Type}

/-! ## Bytes -/

/-- What is written as bytes is read back, whatever follows. -/
def ReadsBytes (f : Form α) (a : α) : Prop :=
  ∀ rest, f.decode (f.encode a ++ rest) = some (a, rest)

theorem takeBytes_append (front rest : Bytes) :
    takeBytes front.length (front ++ rest) = some (front, rest) := by
  simp [takeBytes]

theorem decodeNat_littleEndian {width n : Nat} (h : n < 256 ^ width) (rest : Bytes) :
    decodeNat width (Bytes.littleEndian width n ++ rest) = some (n, rest) := by
  have ht := takeBytes_append (Bytes.littleEndian width n) rest
  rw [Bytes.length_littleEndian] at ht
  simp [decodeNat, ht, Bytes.value_littleEndian, Nat.mod_eq_of_lt h]

theorem decodeSized_encodeSized {bs : Bytes} (h : bs.length < 2 ^ 64) (rest : Bytes) :
    decodeSized (encodeSized bs ++ rest) = some (bs, rest) := by
  unfold decodeSized encodeSized
  rw [List.append_assoc, decodeNat_littleEndian (by omega)]
  exact takeBytes_append bs rest

theorem readsBytes_imap {f : Form α} {wrap : α → β} {unwrap : β → α} {b : β}
    (h : f.ReadsBytes (unwrap b)) (hb : wrap (unwrap b) = b) :
    (f.imap wrap unwrap).ReadsBytes b := fun rest => by
  simp [imap, h rest, hb]

theorem readsBytes_refine {f : Form α} {wrap? : α → Option β} {unwrap : β → α} {b : β}
    (h : f.ReadsBytes (unwrap b)) (hb : wrap? (unwrap b) = some b) :
    (f.refine wrap? unwrap).ReadsBytes b := fun rest => by
  simp [refine, h rest, hb]

theorem readsBytes_word (bytes : Nat) (a : Word (8 * bytes)) : (word bytes).ReadsBytes a := by
  intro rest
  have ha : a.toNat < 256 ^ bytes := by
    have := a.toNat_lt
    rwa [Nat.pow_mul] at this
  simp [word, decodeNat_littleEndian ha]

theorem readsBytes_byte (b : UInt8) : byte.ReadsBytes b :=
  readsBytes_imap (readsBytes_word 1 _) UInt8.ofNat_toNat

theorem readsBytes_text {s : String} (h : (Bytes.utf8 s).length < 2 ^ 64) :
    text.ReadsBytes s := fun rest => by
  simp [text, decodeSized_encodeSized h, Bytes.ofUtf8?_utf8]

theorem readsBytes_octets (o : Octets) : octets.ReadsBytes o := by
  intro rest
  have h : o.written.length < 2 ^ 64 := by
    rw [Octets.length_written]
    decide
  simp [octets, decodeSized_encodeSized h, Octets.parseBytes_written, Except.toOption]

theorem readsBytes_account (a : AccountId) : account.ReadsBytes a :=
  readsBytes_imap (readsBytes_octets _) rfl

theorem readsBytes_rawOctets (o : Octets) : rawOctets.ReadsBytes o := by
  intro rest
  have h := takeBytes_append o.bytes rest
  rw [o.length_bytes] at h
  simp [rawOctets, h, Octets.ofBytes?, o.length_bytes]

theorem decodeMany_flatMap {f : Form α} {as : List α} (h : ∀ a ∈ as, f.ReadsBytes a)
    (rest : Bytes) : decodeMany f as.length (as.flatMap f.encode ++ rest) = some (as, rest) := by
  induction as with
  | nil => rfl
  | cons a as ih =>
    have ha := h a List.mem_cons_self (as.flatMap f.encode ++ rest)
    simp [decodeMany, ha, ih fun x hx => h x (List.mem_cons_of_mem _ hx)]

theorem readsBytes_list {f : Form α} {as : List α} (h : ∀ a ∈ as, f.ReadsBytes a)
    (hl : as.length < 2 ^ 64) : (list f).ReadsBytes as := by
  intro rest
  unfold list
  simp only [List.append_assoc]
  rw [decodeNat_littleEndian (by omega)]
  exact decodeMany_flatMap h rest

theorem readsBytes_batch {f : Form α} {b : Batch α} (h : ∀ a ∈ b.items, f.ReadsBytes a) :
    (batch f).ReadsBytes b :=
  readsBytes_refine (readsBytes_list h b.length_lt) (Batch.ofList?_items b)

theorem readsBytes_option {f : Form α} {o : Option α} (h : ∀ a ∈ o, f.ReadsBytes a) :
    (option f).ReadsBytes o := by
  intro rest
  cases o with
  | none => rfl
  | some a => simp [option, h a rfl rest]

theorem readsBytes_entry {key : Form κ} {value : Form ν} {e : κ × ν} (hk : key.ReadsBytes e.1)
    (hv : value.ReadsBytes e.2) : (entry key value).ReadsBytes e := by
  intro rest
  simp [entry, hk _, hv _]

theorem readsBytes_map [KeyOrder κ] {key : Form κ} {names : KeyText κ} {value : Form ν}
    {m : OrdMap κ ν} (h : ∀ e ∈ m.toList, key.ReadsBytes e.1 ∧ value.ReadsBytes e.2)
    (hl : m.toList.length < 2 ^ 64) : (map key names value).ReadsBytes m := by
  intro rest
  have := readsBytes_list (f := entry key value) (fun e he => readsBytes_entry (h e he).1 (h e he).2)
    hl rest
  simp [map, this, OrdMap.ofList_toList]

theorem readsBytes_set [KeyOrder κ] {key : Form κ} {s : OrdSet κ} (h : ∀ k, key.ReadsBytes k)
    (hl : s.toList.length < 2 ^ 64) : (set key).ReadsBytes s := by
  refine readsBytes_imap (readsBytes_list (fun k _ => h k) (by simpa [OrdMap.keys] using hl)) ?_
  rw [OrdMap.keys, List.map_map]
  exact (congrArg OrdMap.ofList (List.map_id _)).trans (OrdMap.ofList_toList s)

/-- Whether the fields of a record are read back. -/
def Fields.ReadsBytes (fields : Fields α) (a : α) : Prop :=
  ∀ rest, fields.decode (fields.encode a ++ rest) = some (a, rest)

theorem Fields.ReadsBytes.nil (u : Unit) : Fields.nil.ReadsBytes u := fun _ => rfl

theorem Fields.ReadsBytes.cons {f : Field α} {fields : Fields β} {x : α × β}
    (hf : f.omits x.1 = false) (h : f.form.ReadsBytes x.1) (hs : fields.ReadsBytes x.2) :
    (Fields.cons f fields).ReadsBytes x := by
  intro rest
  simp [Fields.cons, hf, h _, hs _]

theorem readsBytes_record {fields : Fields α} {wrap : α → β} {unwrap : β → α} {b : β}
    (h : fields.ReadsBytes (unwrap b)) (hb : wrap (unwrap b) = b) :
    (record fields wrap unwrap).ReadsBytes b := fun rest => by
  simp [record, h rest, hb]

theorem readsBytes_tuple {fields : Fields α} {wrap : α → β} {unwrap : β → α} {b : β}
    (h : fields.ReadsBytes (unwrap b)) (hb : wrap (unwrap b) = b) :
    (tuple fields wrap unwrap).ReadsBytes b := fun rest => by
  simp [tuple, h rest, hb]

/-- Whether a value is of a variant, and its content is read back. -/
def Variant.ReadsBytes (v : Variant α) (a : α) : Prop :=
  ∃ content, v.encode? a = some content ∧ ∀ rest, v.decode (content ++ rest) = some (a, rest)

theorem Variant.ReadsBytes.unit [DecidableEq α] (name : String) (a : α) :
    (Variant.unit name a).ReadsBytes a := ⟨[], by simp [Variant.unit], fun _ => rfl⟩

theorem Variant.ReadsBytes.content {name : String} {f : Form β} {wrap : β → α}
    {unwrap? : α → Option β} {a : α} {b : β} (hb : unwrap? a = some b) (ha : wrap b = a)
    (h : f.ReadsBytes b) : (Variant.content name f wrap unwrap?).ReadsBytes a :=
  ⟨f.encode b, by simp [Variant.content, hb], fun rest => by
    simp [Variant.content, h rest, ha]⟩

/-- Whether the first of some variants that a value is of is read back. -/
def FirstReadsBytes (a : α) : List (Variant α) → Prop
  | [] => False
  | v :: vs => v.ReadsBytes a ∨ v.encode? a = none ∧ FirstReadsBytes a vs

theorem readsBytes_sum {variants : List (Variant α)} {a : α} (h : FirstReadsBytes a variants)
    (hl : variants.length < 2 ^ 32) : (sum variants).ReadsBytes a := by
  have go : ∀ (i : Nat) (vs : List (Variant α)), i + vs.length < 2 ^ 32 → FirstReadsBytes a vs →
      ∃ (j : Nat) (v : Variant α) (content : Bytes), vs[j]? = some v ∧ i + j < 2 ^ 32 ∧
        encodeVariant a i vs = Bytes.littleEndian 4 (i + j) ++ content ∧
        ∀ rest, v.decode (content ++ rest) = some (a, rest) := by
    intro i vs
    induction vs generalizing i with
    | nil => exact fun _ h => h.elim
    | cons v vs ih =>
      rintro hi (⟨content, hc, hr⟩ | ⟨hn, h⟩)
      · exact ⟨0, v, content, rfl, by omega, by simp [encodeVariant, hc], hr⟩
      · rw [List.length_cons] at hi
        obtain ⟨j, u, content, hj, hlt, he, hr⟩ := ih (i + 1) (by omega) h
        refine ⟨j + 1, u, content, by simpa using hj, by omega, ?_, hr⟩
        rw [encodeVariant, hn]
        simp only [he]
        rw [show i + 1 + j = i + (j + 1) by omega]
  obtain ⟨j, v, content, hj, hlt, he, hr⟩ := go 0 variants (by omega) h
  intro rest
  unfold sum
  simp only [he, List.append_assoc]
  rw [decodeNat_littleEndian (by omega)]
  simp [hj, hr]

/-- The variant at a place is the first that a value is of, if the value is of none before it. -/
theorem firstReadsBytes_of_getElem? {variants : List (Variant α)} {v : Variant α} {a : α} {i : Nat}
    (hv : variants[i]? = some v) (hbefore : (variants.take i).all fun u => (u.encode? a).isNone)
    (h : v.ReadsBytes a) : FirstReadsBytes a variants := by
  induction variants generalizing i with
  | nil => cases hv
  | cons u us ih =>
    cases i with
    | zero =>
      cases hv
      exact .inl h
    | succ i =>
      rw [List.take_succ_cons, List.all_cons, Bool.and_eq_true, Option.isNone_iff_eq_none] at hbefore
      exact .inr ⟨hbefore.1, ih hv hbefore.2⟩

/-- **A value of a sum is read back**, if its content is. -/
theorem readsBytes_content {variants : List (Variant α)} {a : α} {f : Form β} {wrap : β → α}
    {unwrap? : α → Option β} {name : String} {b : β} (i : Nat)
    (hv : variants[i]? = some (.content name f wrap unwrap?))
    (hbefore : (variants.take i).all fun u => (u.encode? a).isNone) (hb : unwrap? a = some b)
    (ha : wrap b = a) (hl : variants.length < 2 ^ 32) (h : f.ReadsBytes b) :
    (sum variants).ReadsBytes a :=
  readsBytes_sum (firstReadsBytes_of_getElem? hv hbefore (.content hb ha h)) hl

theorem readsBytes_fields {variants : List (Variant α)} {a : α} {fields : Fields β} {wrap : β → α}
    {unwrap? : α → Option β} {name : String} {b : β} (i : Nat)
    (hv : variants[i]? = some (.fields name fields wrap unwrap?))
    (hbefore : (variants.take i).all fun u => (u.encode? a).isNone) (hb : unwrap? a = some b)
    (ha : wrap b = a) (hl : variants.length < 2 ^ 32) (h : fields.ReadsBytes b) :
    (sum variants).ReadsBytes a :=
  readsBytes_content i hv hbefore hb ha hl (readsBytes_record h rfl)

theorem readsBytes_unit [DecidableEq α] {variants : List (Variant α)} {a : α} {name : String}
    (i : Nat) (hv : variants[i]? = some (.unit name a))
    (hbefore : (variants.take i).all fun u => (u.encode? a).isNone)
    (hl : variants.length < 2 ^ 32) : (sum variants).ReadsBytes a :=
  readsBytes_sum (firstReadsBytes_of_getElem? hv hbefore (.unit name a)) hl

/-- **No value is written as the beginning of another**: what is read from its bytes is the value,
whatever follows. -/
theorem ReadsBytes.eq_of_prefix {f : Form α} {a b : α} (ha : f.ReadsBytes a) (hb : f.ReadsBytes b)
    (h : f.encode a <+: f.encode b) : a = b := by
  obtain ⟨rest, hrest⟩ := h
  have hread := hb []
  rw [List.append_nil, ← hrest, ha rest, Option.some.injEq, Prod.mk.injEq] at hread
  exact hread.1

/-! ## Documents -/

/-- What is written as a document is legible and read back. -/
def ReadsJson (f : Form α) (a : α) : Prop :=
  ∀ j, f.toJson a = some j → j.Legible ∧ f.ofJson j = some a

/-- **The compact text of a value is read back.** -/
theorem parse?_of_compact? {f : Form α} {a : α} (h : f.ReadsJson a) {text : String}
    (ht : f.compact? a = some text) : f.parse? text = some a := by
  obtain ⟨j, hj, rfl⟩ := Option.map_eq_some_iff.1 ht
  rw [parse?, Json.parse?_compact (h j hj).1, Option.bind_some, (h j hj).2]

/-- **The pretty text of a value is read back.** -/
theorem parse?_of_pretty? {f : Form α} {a : α} (h : f.ReadsJson a) {text : String}
    (ht : f.pretty? a = some text) : f.parse? text = some a := by
  obtain ⟨j, hj, rfl⟩ := Option.map_eq_some_iff.1 ht
  rw [parse?, Json.parse?_pretty (h j hj).1, Option.bind_some, (h j hj).2]

/-- What is written item by item is read item by item. -/
theorem mapM_eq_some {f : α → Option β} {g : β → Option α} {as : List α} {bs : List β}
    {p : β → Prop} (h : ∀ a ∈ as, ∀ b, f a = some b → p b ∧ g b = some a)
    (hf : as.mapM f = some bs) : (∀ b ∈ bs, p b) ∧ bs.mapM g = some as := by
  induction as generalizing bs with
  | nil =>
    obtain rfl : [] = bs := by simpa using hf
    exact ⟨nofun, rfl⟩
  | cons a as ih =>
    simp only [List.mapM_cons, Option.pure_def, Option.bind_eq_bind, Option.bind_eq_some_iff,
      Option.some.injEq] at hf
    obtain ⟨b, hb, bs, hbs, rfl⟩ := hf
    obtain ⟨hp, hg⟩ := h a List.mem_cons_self b hb
    obtain ⟨hps, hgs⟩ := ih (fun x hx => h x (List.mem_cons_of_mem _ hx)) hbs
    exact ⟨by simpa using ⟨hp, hps⟩, by simp [hg, hgs]⟩

theorem readsJson_imap {f : Form α} {wrap : α → β} {unwrap : β → α} {b : β}
    (h : f.ReadsJson (unwrap b)) (hb : wrap (unwrap b) = b) :
    (f.imap wrap unwrap).ReadsJson b := fun j hj =>
  ⟨(h j hj).1, by simp [imap, (h j hj).2, hb]⟩

theorem readsJson_refine {f : Form α} {wrap? : α → Option β} {unwrap : β → α} {b : β}
    (h : f.ReadsJson (unwrap b)) (hb : wrap? (unwrap b) = some b) :
    (f.refine wrap? unwrap).ReadsJson b := fun j hj =>
  ⟨(h j hj).1, by simp [refine, (h j hj).2, hb]⟩

theorem readsJson_word (bytes : Nat) (a : Word (8 * bytes)) : (word bytes).ReadsJson a := by
  rintro j ⟨⟩
  exact ⟨Json.legible_ofNat _, by simp [word, natural?, Json.ofNat, Json.natural?_digits]⟩

theorem readsJson_nat64 {n : Nat} (h : n < 2 ^ 64) : nat64.ReadsJson n := by
  rintro j ⟨⟩
  refine ⟨Json.legible_ofNat _, ?_⟩
  simp only [nat64, natural?, Json.ofNat, Json.natural?_digits, Option.bind_some, if_pos h]

theorem readsJson_byte (b : UInt8) : byte.ReadsJson b :=
  readsJson_imap (readsJson_word 1 _) UInt8.ofNat_toNat

theorem readsJson_text (s : String) : text.ReadsJson s := by
  rintro j ⟨⟩
  exact ⟨Json.legible_ofString _, Json.unescape_escape s⟩

theorem readsJson_octets (o : Octets) : octets.ReadsJson o := by
  rintro j ⟨⟩
  refine ⟨Json.legible_ofString _, ?_⟩
  simp [octets, string?, Json.ofString, Json.unescape_escape, Octets.parse_hex, Except.toOption]

theorem readsJson_account (a : AccountId) : account.ReadsJson a :=
  readsJson_imap (readsJson_octets _) rfl

theorem readsJson_list {f : Form α} {as : List α} (h : ∀ a ∈ as, f.ReadsJson a) :
    (list f).ReadsJson as := by
  intro j hj
  obtain ⟨items, hi, rfl⟩ := Option.map_eq_some_iff.1 hj
  obtain ⟨hl, hr⟩ := mapM_eq_some h hi
  exact ⟨.array hl, hr⟩

theorem readsJson_batch {f : Form α} {b : Batch α} (h : ∀ a ∈ b.items, f.ReadsJson a) :
    (batch f).ReadsJson b :=
  readsJson_refine (readsJson_list h) (Batch.ofList?_items b)

theorem readsJson_rawOctets (o : Octets) : rawOctets.ReadsJson o := by
  intro j hj
  obtain ⟨hl, hr⟩ := readsJson_list (fun b _ => readsJson_byte b) j hj
  exact ⟨hl, by simp [rawOctets, hr, Octets.ofBytes?, o.length_bytes]⟩

theorem readsJson_option {f : Form α} {o : Option α}
    (h : ∀ a ∈ o, f.ReadsJson a ∧ f.toJson a ≠ some .null) : (option f).ReadsJson o := by
  intro j hj
  cases o with
  | none =>
    obtain rfl : Json.null = j := by simpa [option] using hj
    exact ⟨.null, rfl⟩
  | some a =>
    obtain ⟨ha, hn⟩ := h a rfl
    have hj : f.toJson a = some j := hj
    obtain ⟨hl, hr⟩ := ha j hj
    refine ⟨hl, ?_⟩
    cases j with
    | null => exact absurd hj hn
    | _ => simp [option, hr]

/-- Whether a key that is written may stand between quotes and is read back. -/
def KeyText.Reads (names : KeyText κ) (k : κ) : Prop :=
  ∀ written, names.write k = some written →
    Json.StringBody written ∧ names.read written = some k

theorem KeyText.reads_none (k : κ) : (KeyText.none : KeyText κ).Reads k := nofun

theorem KeyText.reads_word {w : Nat} (a : Word w) : KeyText.word.Reads a := by
  rintro written ⟨⟩
  exact ⟨Json.stringBody_digits _, by simp [KeyText.word, Json.natural?_digits]⟩

theorem KeyText.reads_account (a : AccountId) : KeyText.account.Reads a := by
  rintro written ⟨⟩
  refine ⟨Json.stringBody_escape _, ?_⟩
  simp [KeyText.account, Json.unescape_escape, AccountId.parse, AccountId.hex, Octets.parse_hex,
    Except.map, Except.toOption]

theorem readsJson_map [KeyOrder κ] {key : Form κ} {names : KeyText κ} {value : Form ν}
    {m : OrdMap κ ν} (h : ∀ e ∈ m.toList, names.Reads e.1 ∧ value.ReadsJson e.2) :
    (map key names value).ReadsJson m := by
  intro j hj
  obtain ⟨members, hm, rfl⟩ := Option.map_eq_some_iff.1 hj
  obtain ⟨hl, hr⟩ := mapM_eq_some (g := ofMember names value)
    (p := fun m : List Char × Json => Json.StringBody m.1 ∧ m.2.Legible) (fun e he b hb => by
      simp only [toMember, Option.pure_def, Option.bind_eq_bind, Option.bind_eq_some_iff,
        Option.some.injEq] at hb
      obtain ⟨k, hk, v, hv, rfl⟩ := hb
      obtain ⟨hkl, hkr⟩ := (h e he).1 k hk
      obtain ⟨hvl, hvr⟩ := (h e he).2 v hv
      exact ⟨⟨hkl, hvl⟩, by simp [ofMember, hkr, hvr]⟩) hm
  exact ⟨.object (fun m hm => (hl m hm).1) fun m hm => (hl m hm).2,
    by simp [map, members?, hr, OrdMap.ofList_toList]⟩

/-- Whether the fields of a record are read back from the members of an object, where other members
may stand in front. -/
def Fields.ReadsMembers (fields : Fields α) (a : α) : Prop :=
  ∀ members, fields.toMembers a = some members →
    ∃ named : List (String × Json),
      members = named.map writeName ∧
      (∀ m ∈ named, m.1 ∈ fields.names ∧ m.2.Legible) ∧
      ∀ front : List (String × Json), (∀ m ∈ front, m.1 ∉ fields.names) →
        fields.ofMembers (front ++ named) = some a

theorem Fields.readsMembers_nil (u : Unit) : Fields.nil.ReadsMembers u := by
  rintro members ⟨⟩
  exact ⟨[], rfl, by simp, fun _ _ => rfl⟩

theorem Fields.readsMembers_cons {f : Field α} {fields : Fields β} {x : α × β}
    (hf : f.omits x.1 = true → f.absent = some x.1) (hn : f.name ∉ fields.names)
    (h : f.form.ReadsJson x.1) (hs : fields.ReadsMembers x.2) :
    (Fields.cons f fields).ReadsMembers x := by
  intro members hm
  simp only [Fields.cons, Option.pure_def, Option.bind_eq_bind, Option.bind_eq_some_iff] at hm
  obtain ⟨ms, hms, hm⟩ := hm
  obtain ⟨named, rfl, hnames, hread⟩ := hs ms hms
  have other {l : List (String × Json)} (hl : ∀ m ∈ l, m.1 ≠ f.name) :
      l.filter (fun m => m.1 = f.name) = [] := by
    simpa [List.filter_eq_nil_iff] using fun a b hab => hl (a, b) hab
  have hnamed : ∀ m ∈ named, m.1 ≠ f.name := fun m hm he => hn (he ▸ (hnames m hm).1)
  split at hm
  · next ho =>
    obtain rfl := Option.some.inj hm
    refine ⟨named, rfl, fun m hm => ⟨List.mem_cons_of_mem _ (hnames m hm).1, (hnames m hm).2⟩,
      fun front hfront => ?_⟩
    have hfilter := other (l := front ++ named) fun m hm he => by
      rcases List.mem_append.1 hm with hm | hm
      · exact hfront m hm (he ▸ List.mem_cons_self)
      · exact hnamed m hm he
    simp only [Fields.cons, hfilter, hf ho,
      hread front fun m hm hk => hfront m hm (List.mem_cons_of_mem _ hk)]
    rfl
  · simp only [Option.bind_eq_some_iff, Option.some.injEq] at hm
    obtain ⟨j, hj, rfl⟩ := hm
    refine ⟨(f.name, j) :: named, rfl, fun m hm => ?_, fun front hfront => ?_⟩
    · rcases List.mem_cons.1 hm with rfl | hm
      · exact ⟨List.mem_cons_self, (h j hj).1⟩
      · exact ⟨List.mem_cons_of_mem _ (hnames m hm).1, (hnames m hm).2⟩
    · have hfilter : (front ++ (f.name, j) :: named).filter (fun m => m.1 = f.name) =
          [(f.name, j)] := by
        rw [List.filter_append, List.filter_cons_of_pos (by simp), other hnamed,
          other fun m hm he => hfront m hm (he ▸ List.mem_cons_self)]
        rfl
      have hrest := hread (front ++ [(f.name, j)]) fun m hm hk => by
        rcases List.mem_append.1 hm with hm | hm
        · exact hfront m hm (List.mem_cons_of_mem _ hk)
        · obtain rfl := List.mem_singleton.1 hm
          exact hn hk
      rw [List.append_assoc, List.singleton_append] at hrest
      simp only [Fields.cons, hfilter, (h j hj).2, hrest]
      rfl

theorem readsJson_record {fields : Fields α} {wrap : α → β} {unwrap : β → α} {b : β}
    (h : fields.ReadsMembers (unwrap b)) (hb : wrap (unwrap b) = b) :
    (record fields wrap unwrap).ReadsJson b := by
  intro j hj
  obtain ⟨members, hm, rfl⟩ := Option.map_eq_some_iff.1 hj
  obtain ⟨named, rfl, hl, hread⟩ := h members hm
  have hnames : ∀ l : List (String × Json), (l.map writeName).mapM readName = some l := by
    intro l
    induction l with
    | nil => rfl
    | cons m l ih => simp [readName, writeName, Json.unescape_escape, ih]
  have hmembers := hread [] (by simp)
  rw [List.nil_append] at hmembers
  refine ⟨.object (fun m hm => ?_) (fun m hm => ?_), by simp [record, hnames, hmembers, hb]⟩
  · obtain ⟨n, _, rfl⟩ := List.mem_map.1 hm
    exact Json.stringBody_escape _
  · obtain ⟨n, hn, rfl⟩ := List.mem_map.1 hm
    exact (hl n hn).2

/-- Whether a value is of a variant, and its content is read back. -/
def Variant.ReadsJson (v : Variant α) (a : α) : Prop :=
  ∃ content, v.toJson? a = some content ∧ (v.hasContent = false → content = some .null) ∧
    ∀ j, content = some j → j.Legible ∧ v.ofJson j = some a

theorem Variant.readsJson_unit [DecidableEq α] (name : String) (a : α) :
    (Variant.unit name a).ReadsJson a :=
  ⟨some .null, by simp [Variant.unit], fun _ => rfl, by rintro j ⟨⟩; exact ⟨.null, rfl⟩⟩

theorem Variant.readsJson_content {name : String} {f : Form β} {wrap : β → α}
    {unwrap? : α → Option β} {a : α} {b : β} (hb : unwrap? a = some b) (ha : wrap b = a)
    (h : f.ReadsJson b) : (Variant.content name f wrap unwrap?).ReadsJson a :=
  ⟨f.toJson b, by simp [Variant.content, hb], nofun, fun j hj =>
    ⟨(h j hj).1, by simp [Variant.content, (h j hj).2, ha]⟩⟩

/-- Whether the first of some variants that a value is of is read back. -/
def FirstReadsJson (a : α) : List (Variant α) → Prop
  | [] => False
  | v :: vs => v.ReadsJson a ∨ v.toJson? a = none ∧ FirstReadsJson a vs

theorem readsJson_sum {variants : List (Variant α)} {a : α} (h : FirstReadsJson a variants)
    (hn : (variants.map Variant.name).Nodup) : (sum variants).ReadsJson a := by
  have go : ∀ vs : List (Variant α), (vs.map Variant.name).Nodup → FirstReadsJson a vs →
      ∃ v, vs.find? (fun u => u.name = v.name) = some v ∧ v.ReadsJson a ∧
        variantToJson a vs = variantToJson a [v] := by
    intro vs
    induction vs with
    | nil => exact fun _ h => h.elim
    | cons v vs ih =>
      rintro hd (hv | ⟨hnone, h⟩)
      · exact ⟨v, by simp, hv, by obtain ⟨content, hc, _⟩ := hv; simp [variantToJson, hc]⟩
      · obtain ⟨hv, hd⟩ := List.nodup_cons.1 (List.map_cons ▸ hd)
        obtain ⟨u, hf, hr, he⟩ := ih hd h
        refine ⟨u, ?_, hr, by simp [variantToJson, hnone, he]⟩
        have hne : v.name ≠ u.name := fun he => hv <|
          he ▸ List.mem_map_of_mem (List.mem_of_find?_eq_some hf)
        rw [List.find?_cons_of_neg (by simpa using hne), hf]
  obtain ⟨v, hf, ⟨content, hc, hu, hr⟩, he⟩ := go variants hn h
  intro j hj
  have hj : variantToJson a [v] = some j := he ▸ hj
  simp only [variantToJson, hc] at hj
  split at hj
  · obtain ⟨k, hk, rfl⟩ := Option.map_eq_some_iff.1 hj
    obtain ⟨hl, hr⟩ := hr k hk
    refine ⟨.object (fun m hm => ?_) (fun m hm => ?_), ?_⟩
    · exact List.mem_singleton.1 hm ▸ Json.stringBody_escape _
    · exact List.mem_singleton.1 hm ▸ hl
    · simp [sum, Json.unescape_escape, hf, hr]
  · next hcontent =>
    have hcontent : v.hasContent = false := by simpa using hcontent
    obtain rfl := Option.some.inj hj
    obtain ⟨_, hr⟩ := hr .null (hu hcontent)
    exact ⟨Json.legible_ofString _, by
      simp [sum, Json.ofString, Json.unescape_escape, hf, hcontent, hr]⟩

end Stakebook.Form
