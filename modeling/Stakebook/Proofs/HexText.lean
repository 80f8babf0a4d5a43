import Mathlib.Data.Bool.AllAny
import Stakebook.Octets

/-!
# Texts that name thirty-two bytes

A digest or an account is named by 64 hexadecimal digits of either case, behind at most one `0x`.
The reader works on the bytes of a text; here the grammar is said on its characters.
`Hex.digitChars` are the digits, `Hex.denoted` is what a row of them denotes, and `Octets.unmarked`
is a text without its mark.

Headlines:
* **`Hex.decode_eq_ok_iff`**: a text is read exactly if it is an even number of digits, and as the
  bytes that these denote.
* **`Hex.text_denoted`**: those bytes are written as the same digits in lower case.
* **`digests_and_accounts_named`**: digests and accounts are read by this grammar, a refusal says
  whether the number of digits is wrong or they are no pairs of digits, and what is written is read
  back.
-/

namespace Stakebook

/-! ## The bytes of a character -/

namespace Bytes

variable {c : Char}

/-- The form of a list of characters, one after the other. -/
def ofChars (cs : List Char) : Bytes := cs.flatMap String.utf8EncodeChar

theorem utf8EncodeChar_of_lt (h : c.toNat < 128) :
    String.utf8EncodeChar c = [UInt8.ofNat c.toNat] := by
  have hc := utf8EncodeChar_ofNat h
  rw [Char.ofNat_toNat] at hc
  exact hc

/-- A character beyond ASCII starts with a byte beyond ASCII. -/
theorem utf8EncodeChar_of_le (h : 128 ≤ c.toNat) :
    ∃ b rest, String.utf8EncodeChar c = b :: rest ∧ 128 ≤ b.toNat := by
  have hlt : ¬c.val.toNat ≤ 127 := Nat.not_le.mpr h
  unfold String.utf8EncodeChar
  simp only [if_neg hlt]
  split
  · refine ⟨_, _, rfl, ?_⟩
    rw [UInt8.toNat_ofNat']
    omega
  · split
    · refine ⟨_, _, rfl, ?_⟩
      rw [UInt8.toNat_ofNat']
      omega
    · refine ⟨_, _, rfl, ?_⟩
      rw [UInt8.toNat_ofNat']
      omega

/-- Where a text starts with an ASCII byte, it starts with that character. -/
theorem ofChars_eq_cons {cs : List Char} {b : UInt8} {rest : Bytes} (hb : b.toNat < 128)
    (h : ofChars cs = b :: rest) : ∃ ds, cs = Char.ofNat b.toNat :: ds ∧ ofChars ds = rest := by
  cases cs with
  | nil => cases h
  | cons c ds =>
    rw [ofChars, List.flatMap_cons] at h
    by_cases hc : c.toNat < 128
    · rw [utf8EncodeChar_of_lt hc] at h
      obtain ⟨rfl, hrest⟩ := List.cons.inj h
      refine ⟨ds, ?_, hrest⟩
      rw [UInt8.toNat_ofNat', Nat.mod_eq_of_lt (Nat.lt_trans hc (by decide)), Char.ofNat_toNat]
    · obtain ⟨b', t, hb', hle⟩ := utf8EncodeChar_of_le (Nat.not_lt.mp hc)
      rw [hb'] at h
      obtain ⟨rfl, -⟩ := List.cons.inj h
      omega

end Bytes

/-! ## Digits and what they denote -/

namespace Hex

/-- The digits of zero to fifteen, in lower case. -/
def lowerDigits : List Char :=
  ['0', '1', '2', '3', '4', '5', '6', '7', '8', '9', 'a', 'b', 'c', 'd', 'e', 'f']

/-- The digits of either case. -/
def digitChars : List Char := lowerDigits ++ ['A', 'B', 'C', 'D', 'E', 'F']

/-- The number that a digit stands for is its place among the digits. -/
def digitPlace (c : Char) : Nat := lowerDigits.idxOf c.toLower

/-- The bytes that digits denote: each pair is a byte, its high half first. -/
def denoted : List Char → Bytes
  | [] => []
  | [_] => []
  | a :: b :: rest => UInt8.ofNat (16 * digitPlace a + digitPlace b) :: denoted rest

/-- A row of pairs of digits. -/
inductive DigitPairs : List Char → Prop
  | nil : DigitPairs []
  | cons {a b : Char} {rest : List Char} (high : a ∈ digitChars) (low : b ∈ digitChars)
      (pairs : DigitPairs rest) : DigitPairs (a :: b :: rest)

variable {c : Char} {cs : List Char}

/-- Pairs of digits are an even number of digits. -/
theorem digitPairs_iff : DigitPairs cs ↔ (∀ c ∈ cs, c ∈ digitChars) ∧ cs.length % 2 = 0 := by
  constructor
  · intro h
    induction h with
    | nil => exact ⟨nofun, rfl⟩
    | cons high low _ ih =>
      refine ⟨List.forall_mem_cons.mpr ⟨high, List.forall_mem_cons.mpr ⟨low, ih.1⟩⟩, ?_⟩
      rw [List.length_cons, List.length_cons]
      omega
  · rintro ⟨hall, heven⟩
    induction cs using denoted.induct with
    | case1 => exact .nil
    | case2 => cases heven
    | case3 a b rest ih =>
      obtain ⟨ha, hall⟩ := List.forall_mem_cons.mp hall
      obtain ⟨hb, hrest⟩ := List.forall_mem_cons.mp hall
      rw [List.length_cons, List.length_cons] at heven
      exact .cons ha hb (ih hrest (by omega))

theorem length_denoted (h : DigitPairs cs) : cs.length = 2 * (denoted cs).length := by
  induction h with
  | nil => rfl
  | cons _ _ _ ih =>
    rw [denoted, List.length_cons, List.length_cons, List.length_cons, ih]
    omega

/-! ### One digit -/

theorem toNat_digit : ∀ c ∈ digitChars, c.toNat < 128 :=
  List.all_iff_forall_prop.mp (by decide)

theorem digitPlace_lt : ∀ c ∈ digitChars, digitPlace c < 16 :=
  List.all_iff_forall_prop.mp (by decide)

theorem digitValue?_ofNat_digit :
    ∀ c ∈ digitChars, digitValue? (UInt8.ofNat c.toNat) = some (digitPlace c) :=
  List.all_iff_forall_prop.mp (by decide)

theorem ofNat_digit_digitPlace :
    ∀ c ∈ digitChars, Char.ofNat (digit (digitPlace c)).toNat = c.toLower :=
  List.all_iff_forall_prop.mp (by decide)

theorem digitValue?_eq_none_of_lt :
    ∀ n < 128, Char.ofNat n ∉ digitChars → digitValue? (UInt8.ofNat n) = none := by decide

theorem digitValue?_eq_none_of_le {b : UInt8} (h : 128 ≤ b.toNat) : digitValue? b = none := by
  unfold digitValue?
  simp only [show ¬(48 ≤ b.toNat ∧ b.toNat ≤ 57) by omega,
    show ¬(97 ≤ b.toNat ∧ b.toNat ≤ 102) by omega, show ¬(65 ≤ b.toNat ∧ b.toNat ≤ 70) by omega,
    if_false]

/-- The bytes of a character are digits only if it is one. -/
theorem exists_digitValue?_eq_none (h : c ∉ digitChars) :
    ∃ b ∈ String.utf8EncodeChar c, digitValue? b = none := by
  by_cases hc : c.toNat < 128
  · rw [Bytes.utf8EncodeChar_of_lt hc]
    refine ⟨_, List.mem_cons_self, digitValue?_eq_none_of_lt c.toNat hc ?_⟩
    rw [Char.ofNat_toNat]
    exact h
  · obtain ⟨b, rest, hb, hle⟩ := Bytes.utf8EncodeChar_of_le (Nat.not_lt.mp hc)
    rw [hb]
    exact ⟨b, List.mem_cons_self, digitValue?_eq_none_of_le hle⟩

/-! ### Rows of digits -/

/-- Digits have one byte each. -/
theorem ofChars_of_digits (h : ∀ c ∈ cs, c ∈ digitChars) :
    Bytes.ofChars cs = cs.map fun c => UInt8.ofNat c.toNat := by
  induction cs with
  | nil => rfl
  | cons c cs ih =>
    obtain ⟨hc, hcs⟩ := List.forall_mem_cons.mp h
    have hrest := ih hcs
    unfold Bytes.ofChars at hrest ⊢
    rw [List.flatMap_cons, hrest, Bytes.utf8EncodeChar_of_lt (toNat_digit c hc)]
    rfl

/-- Pairs of digits are read as what they denote. -/
theorem decodeFrom_of_digitPairs (h : DigitPairs cs) (position : Nat) (done : Bytes) :
    decodeFrom position done (cs.map fun c => UInt8.ofNat c.toNat) =
      .ok (done.reverse ++ denoted cs) := by
  induction h generalizing position done with
  | nil => rw [List.map_nil, decodeFrom, denoted, List.append_nil]
  | @cons a b rest high low _ ih =>
    rw [List.map_cons, List.map_cons, decodeFrom, digitValue?_ofNat_digit a high,
      digitValue?_ofNat_digit b low]
    simp only [ih, denoted, List.reverse_cons, List.append_assoc, List.singleton_append]

/-- Every byte of what is read is a digit. -/
theorem ne_none_of_decodeFrom {position : Nat} {done ds bs : Bytes}
    (h : decodeFrom position done ds = .ok bs) : ∀ b ∈ ds, digitValue? b ≠ none := by
  fun_induction decodeFrom position done ds with
  | case1 => nofun
  | case2 => cases h
  | case3 => cases h
  | case4 => cases h
  | case5 position done a b rest x y ha hb ih =>
    have hhigh := Option.ne_none_iff_exists'.mpr ⟨_, hb⟩
    have hlow := Option.ne_none_iff_exists'.mpr ⟨_, ha⟩
    exact List.forall_mem_cons.mpr ⟨hhigh, List.forall_mem_cons.mpr ⟨hlow, ih h⟩⟩

/-- What is read is a row of pairs of digits. -/
theorem digitPairs_of_decode {bs : Bytes} (h : decode (Bytes.ofChars cs) = .ok bs) :
    DigitPairs cs := by
  rw [decode] at h
  split at h
  · cases h
  · next hodd =>
    have hall : ∀ c ∈ cs, c ∈ digitChars := by
      intro c hc
      refine Decidable.byContradiction fun hno => ?_
      obtain ⟨b, hb, hnone⟩ := exists_digitValue?_eq_none hno
      exact ne_none_of_decodeFrom h b (List.mem_flatMap.mpr ⟨c, hc, hb⟩) hnone
    -- the reader counts bytes, and digits have one each
    rw [ofChars_of_digits hall, List.length_map] at hodd
    exact digitPairs_iff.mpr ⟨hall, Nat.mod_two_ne_one.mp hodd⟩

theorem decode_of_digitPairs (h : DigitPairs cs) :
    decode (Bytes.ofChars cs) = .ok (denoted cs) := by
  obtain ⟨hall, heven⟩ := digitPairs_iff.mp h
  rw [decode, ofChars_of_digits hall, List.length_map, if_neg (Nat.mod_two_ne_one.mpr heven),
    decodeFrom_of_digitPairs h]
  rfl

/-- **A text is read exactly if it is a row of pairs of digits, and as what these denote.** -/
theorem decode_eq_ok_iff {bs : Bytes} :
    decode (Bytes.ofChars cs) = .ok bs ↔ DigitPairs cs ∧ denoted cs = bs := by
  constructor
  · intro h
    have hpairs := digitPairs_of_decode h
    rw [decode_of_digitPairs hpairs, Except.ok.injEq] at h
    exact ⟨hpairs, h⟩
  · rintro ⟨hpairs, rfl⟩
    exact decode_of_digitPairs hpairs

/-- **What digits denote is written as the same digits in lower case.** -/
theorem text_denoted (h : DigitPairs cs) :
    text (denoted cs) = String.ofList (cs.map Char.toLower) := by
  rw [text, Bytes.latin]
  congr 1
  induction h with
  | nil => rfl
  | @cons a b rest high low _ ih =>
    have hlt := digitPlace_lt a high
    have hlt' := digitPlace_lt b low
    have hbyte : (UInt8.ofNat (16 * digitPlace a + digitPlace b)).toNat =
        16 * digitPlace a + digitPlace b := by
      rw [UInt8.toNat_ofNat', Nat.mod_eq_of_lt (by omega)]
    have hhigh : (16 * digitPlace a + digitPlace b) / 16 = digitPlace a := by omega
    have hlow : (16 * digitPlace a + digitPlace b) % 16 = digitPlace b := by omega
    unfold encode at ih ⊢
    rw [denoted, List.flatMap_cons, hbyte, hhigh, hlow]
    simp only [List.cons_append, List.nil_append, List.map_cons, ih,
      ofNat_digit_digitPlace a high, ofNat_digit_digitPlace b low]

end Hex

/-! ## Texts of thirty-two bytes -/

namespace Octets

open Hex (digitChars denoted DigitPairs digitPairs_iff)

/-- The characters of a text behind its mark: one leading `0x` is taken away, if there is one. -/
def unmarked (text : String) : List Char :=
  match text.toList with
  | '0' :: 'x' :: rest => rest
  | cs => cs

variable {text : String} {o : Octets} {k : Nat}

/-- The reader takes away the mark of the text. -/
theorem strip_utf8 (text : String) :
    Hex.strip (Bytes.utf8 text) = Bytes.ofChars (unmarked text) := by
  show Hex.strip (Bytes.ofChars text.toList) = _
  unfold unmarked
  generalize text.toList = cs
  unfold Hex.strip
  split
  · next rest h =>
    -- both bytes of the mark are ASCII, so they are the characters of the text
    obtain ⟨ds, rfl, hds⟩ := Bytes.ofChars_eq_cons (by decide) h
    obtain ⟨es, rfl, hes⟩ := Bytes.ofChars_eq_cons (by decide) hds
    exact hes.symm
  · next hmark =>
    split
    · next rest => exact absurd rfl (hmark (Bytes.ofChars rest))
    · rfl

theorem parse_of_digitPairs (h : DigitPairs (unmarked text)) :
    parse text =
      if h32 : (denoted (unmarked text)).length = 32 then .ok ⟨denoted (unmarked text), h32⟩
      else .error (.wrongLength (denoted (unmarked text)).length) := by
  rw [parse, parseBytes, strip_utf8, Hex.decode_eq_ok_iff.mpr ⟨h, rfl⟩]

theorem parse_of_not_digitPairs (h : ¬DigitPairs (unmarked text)) :
    ∃ e, parse text = .error (.malformed e) := by
  rw [parse, parseBytes, strip_utf8]
  cases hd : Hex.decode (Bytes.ofChars (unmarked text)) with
  | error e => exact ⟨e, rfl⟩
  | ok bs => exact absurd (Hex.decode_eq_ok_iff.mp hd).1 h

theorem parse_eq_ok_iff :
    parse text = .ok o ↔ DigitPairs (unmarked text) ∧ denoted (unmarked text) = o.bytes := by
  by_cases h : DigitPairs (unmarked text)
  · rw [parse_of_digitPairs h]
    split
    · simp [h, Octets.ext_iff]
    · next h32 =>
      refine ⟨nofun, fun ⟨_, ho⟩ => ?_⟩
      rw [ho] at h32
      exact absurd o.length_bytes h32
  · obtain ⟨e, he⟩ := parse_of_not_digitPairs h
    simp [he, h]

theorem parse_eq_wrongLength_iff :
    parse text = .error (.wrongLength k) ↔
      DigitPairs (unmarked text) ∧ (denoted (unmarked text)).length = k ∧ k ≠ 32 := by
  by_cases h : DigitPairs (unmarked text)
  · rw [parse_of_digitPairs h]
    split
    · next h32 =>
      refine ⟨nofun, fun ⟨_, hk, hne⟩ => ?_⟩
      rw [h32] at hk
      exact absurd hk.symm hne
    · next h32 =>
      simp only [Except.error.injEq, ParseError.wrongLength.injEq, h, true_and]
      exact ⟨fun hk => ⟨hk, hk ▸ h32⟩, And.left⟩
  · obtain ⟨e, he⟩ := parse_of_not_digitPairs h
    simp [he, h]

theorem parse_eq_malformed_iff :
    (∃ e, parse text = .error (.malformed e)) ↔ ¬DigitPairs (unmarked text) := by
  refine ⟨fun ⟨e, he⟩ h => ?_, parse_of_not_digitPairs⟩
  rw [parse_of_digitPairs h] at he
  split at he <;> cases he

/-- Values of thirty-two bytes are named by their digits. A text is read exactly if it is 64 digits
behind at most one mark, and then as the bytes that they denote; the written form is read back, and
is that of the text in lower case. A refusal says whether there are digits of another even number,
or no row of pairs of digits at all. -/
structure NamedByDigits {α : Type} (parse : String → Except ParseError α) (hex : α → String)
    (bytes : α → Bytes) : Prop where
  accepts_iff : ∀ text, (∃ a, parse text = .ok a) ↔
    (∀ c ∈ unmarked text, c ∈ digitChars) ∧ (unmarked text).length = 64
  bytes_eq : ∀ text a, parse text = .ok a → bytes a = denoted (unmarked text)
  parse_hex : ∀ a, parse (hex a) = .ok a
  hex_eq : ∀ text a, parse text = .ok a →
    hex a = "0x" ++ String.ofList ((unmarked text).map Char.toLower)
  wrongLength_iff : ∀ text k, parse text = .error (.wrongLength k) ↔
    (∀ c ∈ unmarked text, c ∈ digitChars) ∧ (unmarked text).length = 2 * k ∧ 2 * k ≠ 64
  malformed_iff : ∀ text, (∃ e, parse text = .error (.malformed e)) ↔
    ¬((∀ c ∈ unmarked text, c ∈ digitChars) ∧ (unmarked text).length % 2 = 0)

/-- Thirty-two bytes are named by their digits. -/
theorem namedByDigits : NamedByDigits parse hex bytes where
  accepts_iff text := by
    constructor
    · rintro ⟨o, ho⟩
      obtain ⟨hpairs, hbytes⟩ := parse_eq_ok_iff.mp ho
      refine ⟨(digitPairs_iff.mp hpairs).1, ?_⟩
      rw [Hex.length_denoted hpairs, hbytes, o.length_bytes]
    · rintro ⟨hall, h64⟩
      have hpairs : DigitPairs (unmarked text) := digitPairs_iff.mpr ⟨hall, by rw [h64]⟩
      have hlength := Hex.length_denoted hpairs
      rw [parse_of_digitPairs hpairs, dif_pos (by omega)]
      exact ⟨_, rfl⟩
  bytes_eq text o ho := (parse_eq_ok_iff.mp ho).2.symm
  parse_hex := parse_hex
  hex_eq text o ho := by
    obtain ⟨hpairs, hbytes⟩ := parse_eq_ok_iff.mp ho
    rw [hex, ← hbytes, Hex.text_denoted hpairs]
  wrongLength_iff text k := by
    rw [parse_eq_wrongLength_iff, digitPairs_iff, and_assoc]
    refine and_congr_right fun hall => ?_
    constructor
    · rintro ⟨heven, hk, hne⟩
      have hlength := Hex.length_denoted (digitPairs_iff.mpr ⟨hall, heven⟩)
      omega
    · rintro ⟨hk, hne⟩
      have heven : (unmarked text).length % 2 = 0 := by omega
      have hlength := Hex.length_denoted (digitPairs_iff.mpr ⟨hall, heven⟩)
      omega
  malformed_iff text := by rw [parse_eq_malformed_iff, digitPairs_iff]

end Octets

namespace AccountId

variable {text : String} {a : AccountId} {e : Octets.ParseError}

theorem parse_eq_ok_iff : parse text = .ok a ↔ Octets.parse text = .ok a.octets := by
  unfold parse
  cases Octets.parse text with
  | error => exact ⟨nofun, nofun⟩
  | ok o => simp [Except.map, AccountId.ext_iff]

theorem parse_eq_error_iff : parse text = .error e ↔ Octets.parse text = .error e := by
  unfold parse
  cases Octets.parse text with
  | error => simp [Except.map]
  | ok o => exact ⟨nofun, nofun⟩

/-- Accounts are named as thirty-two bytes are. -/
theorem namedByDigits : Octets.NamedByDigits parse hex fun a => a.octets.bytes where
  accepts_iff text := by
    rw [← Octets.namedByDigits.accepts_iff]
    simp only [parse_eq_ok_iff]
    exact ⟨fun ⟨a, ha⟩ => ⟨a.octets, ha⟩, fun ⟨o, ho⟩ => ⟨⟨o⟩, ho⟩⟩
  bytes_eq text a ha := Octets.namedByDigits.bytes_eq text a.octets (parse_eq_ok_iff.mp ha)
  parse_hex a := parse_eq_ok_iff.mpr (Octets.parse_hex a.octets)
  hex_eq text a ha := Octets.namedByDigits.hex_eq text a.octets (parse_eq_ok_iff.mp ha)
  wrongLength_iff text k := by rw [parse_eq_error_iff, Octets.namedByDigits.wrongLength_iff]
  malformed_iff text := by
    simp only [parse_eq_error_iff]
    exact Octets.namedByDigits.malformed_iff text

end AccountId

/-- **Digests and accounts are named by 64 digits** of either case behind at most one `0x`: exactly
these texts are read, and as what the digits denote; what is written is read back, and is what was
read in lower case. Digits of another even number are refused with the bytes that they make, and all
other texts as malformed. -/
theorem digests_and_accounts_named :
    Octets.NamedByDigits Octets.parse Octets.hex Octets.bytes ∧
      Octets.NamedByDigits AccountId.parse AccountId.hex fun a => a.octets.bytes :=
  ⟨Octets.namedByDigits, AccountId.namedByDigits⟩

/-- A marked text of 64 digits, in both cases. -/
def bothCases : String := String.ofList ('0' :: 'x' :: (List.replicate 32 ['a', 'B']).flatten)

theorem digests_and_accounts_named_bothCases :
    (∀ c ∈ Octets.unmarked bothCases, c ∈ Hex.digitChars) ∧
      (Octets.unmarked bothCases).length = 64 ∧
      AccountId.parse bothCases = .ok (.dev 0xab) ∧
      (AccountId.dev 0xab).hex = "0x" ++ String.ofList (List.replicate 32 ['a', 'b']).flatten := by
  have hall : ∀ c ∈ Octets.unmarked bothCases, c ∈ Hex.digitChars :=
    List.all_iff_forall_prop.mp (by decide +kernel)
  have h64 : (Octets.unmarked bothCases).length = 64 := by decide +kernel
  obtain ⟨a, ha⟩ := (digests_and_accounts_named.2.accepts_iff bothCases).mpr ⟨hall, h64⟩
  have hbytes := digests_and_accounts_named.2.bytes_eq bothCases a ha
  have hdev : a = .dev 0xab := AccountId.ext (Octets.ext (hbytes.trans (by decide +kernel)))
  have hhex := digests_and_accounts_named.2.hex_eq bothCases a ha
  rw [hdev] at ha hhex
  exact ⟨hall, h64, ha, hhex.trans (by decide +kernel)⟩

end Stakebook
