import Stakebook.Form.RoundTrip

/-!
# How much a value takes

`Form.Takes f n a` says that the value `a` takes `n` bytes in the form `f` and is read back from
them. Forms that are put together keep it, with the sum of the sizes of their parts: `takes_list`,
`Fields.Takes.cons`, `takes_record` and **`takes_sum`**.
-/

namespace Stakebook

namespace Form

variable {α β : Type}

/-- A value takes as many bytes, and is read back from them. -/
structure Takes (f : Form α) (n : Nat) (a : α) : Prop where
  length : (f.encode a).length = n
  reads : f.ReadsBytes a

theorem takes_word (bytes : Nat) (a : Word (8 * bytes)) : (word bytes).Takes bytes a :=
  ⟨Bytes.length_littleEndian _ _, readsBytes_word bytes a⟩

theorem takes_octets (o : Octets) : octets.Takes 74 o := by
  refine ⟨?_, readsBytes_octets o⟩
  simp only [octets, encodeSized, List.length_append, Bytes.length_littleEndian,
    Octets.length_written]

theorem takes_account (a : AccountId) : account.Takes 74 a :=
  ⟨(takes_octets a.octets).length, readsBytes_account a⟩

theorem takes_list {f : Form α} {n : Nat} {as : List α} (h : ∀ a ∈ as, f.Takes n a)
    (hl : as.length < 2 ^ 64) : (list f).Takes (8 + n * as.length) as := by
  refine ⟨?_, readsBytes_list (fun a ha => (h a ha).reads) hl⟩
  have hsum : as.map (fun a => (f.encode a).length) = as.map fun _ => n :=
    List.map_congr_left fun a ha => (h a ha).length
  simp only [list, List.length_append, Bytes.length_littleEndian, List.length_flatMap, hsum,
    List.map_const', List.sum_replicate_nat, Nat.mul_comm]

/-- The fields of a record take as many bytes, and are read back from them. -/
structure Fields.Takes (fields : Fields α) (n : Nat) (a : α) : Prop where
  length : (fields.encode a).length = n
  reads : fields.ReadsBytes a

theorem Fields.Takes.nil (u : Unit) : Fields.nil.Takes 0 u := ⟨rfl, Fields.ReadsBytes.nil u⟩

theorem Fields.Takes.cons {f : Field α} {fields : Fields β} {m n : Nat} {x : α × β}
    (hf : f.omits x.1 = false) (h : f.form.Takes m x.1) (hs : fields.Takes n x.2) :
    (Fields.cons f fields).Takes (m + n) x := by
  refine ⟨?_, hs.reads.cons hf h.reads⟩
  simp only [Fields.cons, hf, Bool.false_eq_true, if_false, List.length_append, h.length, hs.length]

theorem takes_record {fields : Fields α} {wrap : α → β} {unwrap : β → α} {k n : Nat}
    {b : β} (h : fields.Takes n (unwrap b)) (hb : wrap (unwrap b) = b) (hk : k = n) :
    (record fields wrap unwrap).Takes k b := ⟨hk ▸ h.length, readsBytes_record h.reads hb⟩

theorem takes_tuple {fields : Fields α} {n : Nat} {a : α} (h : fields.Takes n a) :
    (tuple fields id id).Takes n a := ⟨h.length, readsBytes_tuple h.reads rfl⟩

theorem encodeVariant_of_getElem? {variants : List (Variant α)} {v : Variant α} {a : α} {i : Nat}
    {content : Bytes} (hv : variants[i]? = some v)
    (hbefore : (variants.take i).all fun u => (u.encode? a).isNone)
    (hcontent : v.encode? a = some content) (first : Nat) :
    encodeVariant a first variants = Bytes.littleEndian 4 (first + i) ++ content := by
  induction variants generalizing i first with
  | nil => cases hv
  | cons u us ih =>
    cases i with
    | zero =>
      cases hv
      simp only [encodeVariant, hcontent, Nat.add_zero]
    | succ i =>
      rw [List.take_succ_cons, List.all_cons, Bool.and_eq_true, Option.isNone_iff_eq_none] at hbefore
      rw [encodeVariant, hbefore.1, ih hv hbefore.2 (first + 1), Nat.add_right_comm, Nat.add_assoc]

/-- **A value of a sum takes four bytes for its variant, and its content.** -/
theorem takes_sum {variants : List (Variant α)} {a : α} {f : Form β} {wrap : β → α}
    {unwrap? : α → Option β} {name : String} {k n : Nat} {b : β} (i : Nat)
    (hv : variants[i]? = some (.content name f wrap unwrap?))
    (hbefore : (variants.take i).all fun u => (u.encode? a).isNone) (hb : unwrap? a = some b)
    (ha : wrap b = a) (hl : variants.length < 2 ^ 32) (h : f.Takes n b) (hk : k = 4 + n) :
    (sum variants).Takes k a := by
  have hcontent : (Variant.content name f wrap unwrap?).encode? a = some (f.encode b) := by
    simp only [Variant.content, hb, Option.map_some]
  have hencode : (sum variants).encode a = Bytes.littleEndian 4 i ++ f.encode b :=
    (encodeVariant_of_getElem? hv hbefore hcontent 0).trans (by rw [Nat.zero_add])
  refine ⟨?_, readsBytes_content i hv hbefore hb ha hl h.reads⟩
  rw [hencode, List.length_append, Bytes.length_littleEndian, h.length, hk]

/-- A value is the one that its bytes decode to. -/
theorem Takes.decode?_encode {f : Form α} {n : Nat} {a : α} (h : f.Takes n a) :
    f.decode? (f.encode a) = some a := by
  have hread := h.reads []
  rw [List.append_nil] at hread
  rw [decode?, hread, Option.map_some]

end Form

end Stakebook
