import Stakebook.Json.Parser
import Stakebook.Json.Spelling
import Stakebook.Json.Text

/-!
# Documents are read back

A document is `Legible` if its numbers are numbers and its strings can stand between quotes. Of a
legible document both the compact and the pretty text spell its tokens, and the parser makes the
document of them: **`parse?_compact`** and **`parse?_pretty`**. Texts and natural numbers are written
as legible documents.
-/

namespace Stakebook.Json

/-- Whether a document can be written: its numbers are numbers, and its strings and names can stand
between quotes. -/
inductive Legible : Json → Prop
  | null : Legible .null
  | bool (b : Bool) : Legible (.bool b)
  | number {written : List Char} (h : isNumber written = true) : Legible (.number written)
  | string {written : List Char} (h : StringBody written) : Legible (.string written)
  | array {items : List Json} (h : ∀ j ∈ items, Legible j) : Legible (.array items)
  | object {members : List (List Char × Json)} (hk : ∀ m ∈ members, StringBody m.1)
    (hv : ∀ m ∈ members, Legible m.2) : Legible (.object members)

/-! ## Numbers and strings -/

theorem isWordChar_of_isDigits {cs : List Char} (h : isDigits cs = true) :
    ∀ c ∈ cs, isWordChar c = true := by
  intro c hc
  have := List.all_eq_true.1 (Bool.and_eq_true _ _ ▸ h).2 c hc
  simp [isWordChar, Char.isAlphanum, this]

theorem isWordChar_of_isExponent {cs : List Char} (h : isExponent cs = true) :
    ∀ c ∈ cs, isWordChar c = true := by
  cases cs with
  | nil => simp
  | cons e cs =>
    obtain ⟨he, hd⟩ := (Bool.and_eq_true _ _ ▸ h :)
    have he : isWordChar e = true := by
      rcases (Bool.or_eq_true _ _ ▸ he :) with he | he <;>
        · rw [of_decide_eq_true he]
          decide
    intro c hc
    rcases List.mem_cons.1 hc with rfl | hc
    · exact he
    split at hd
    · rcases List.mem_cons.1 hc with rfl | hc
      · decide
      · exact isWordChar_of_isDigits hd c hc
    · rcases List.mem_cons.1 hc with rfl | hc
      · decide
      · exact isWordChar_of_isDigits hd c hc
    · exact isWordChar_of_isDigits hd c hc

/-- A number has only characters of words. -/
theorem isWordChar_of_isNumber {cs : List Char} (h : isNumber cs = true) :
    ∀ c ∈ cs, isWordChar c = true := by
  have digits : ∀ cs : List Char, ∀ c ∈ cs.takeWhile Char.isDigit, isWordChar c = true := by
    intro cs c hc
    have := List.all_eq_true.1 (List.all_takeWhile (p := Char.isDigit) (l := cs)) c hc
    simp [isWordChar, Char.isAlphanum, this]
  have tail : ∀ cs : List Char, isTail cs = true → ∀ c ∈ cs, isWordChar c = true := by
    intro cs h
    unfold isTail at h
    split at h
    · next cs =>
      intro c hc
      rcases List.mem_cons.1 hc with rfl | hc
      · decide
      rw [← List.takeWhile_append_dropWhile (p := Char.isDigit) (l := cs)] at hc
      rcases List.mem_append.1 hc with hc | hc
      · exact digits cs c hc
      · exact isWordChar_of_isExponent (Bool.and_eq_true _ _ ▸ h).2 c hc
    · exact isWordChar_of_isExponent h
  have unsigned : ∀ cs : List Char, isUnsigned cs = true → ∀ c ∈ cs, isWordChar c = true := by
    intro cs h c hc
    rw [← List.takeWhile_append_dropWhile (p := Char.isDigit) (l := cs)] at hc
    rcases List.mem_append.1 hc with hc | hc
    · exact digits cs c hc
    · exact tail _ (Bool.and_eq_true _ _ ▸ h).2 c hc
  unfold isNumber at h
  split at h
  · intro c hc
    rcases List.mem_cons.1 hc with rfl | hc
    · decide
    · exact unsigned _ h c hc
  · exact unsigned _ h

theorem ofWord?_number {written : List Char} (h : isNumber written = true) :
    ofWord? written = some (.number written) := by
  have hn : written ≠ ['n', 'u', 'l', 'l'] := by rintro rfl; revert h; decide
  have ht : written ≠ ['t', 'r', 'u', 'e'] := by rintro rfl; revert h; decide
  have hf : written ≠ ['f', 'a', 'l', 's', 'e'] := by rintro rfl; revert h; decide
  simp [ofWord?, hn, ht, hf, h]

theorem isNumber_digits (n : Nat) : isNumber (digits n) = true := by
  have hd := isDigits_digits n
  have hall : ∀ c ∈ digits n, c.isDigit = true := List.all_eq_true.1 (Bool.and_eq_true _ _ ▸ hd).2
  have ht : (digits n ++ []).takeWhile Char.isDigit = _ := List.takeWhile_append_of_pos hall
  have hd : (digits n ++ []).dropWhile Char.isDigit = _ := List.dropWhile_append_of_pos hall
  rw [List.append_nil] at ht hd
  have hu : isUnsigned (digits n) = true := by
    simp [isUnsigned, ht, hd, isWhole_digits, isTail, isExponent]
  unfold isNumber
  split
  · next cs heq =>
    have := hall '-' (heq ▸ List.mem_cons_self)
    exact absurd this (by decide)
  · exact hu

/-- A natural number is written as a legible document. -/
theorem legible_ofNat (n : Nat) : Legible (ofNat n) := .number (isNumber_digits n)

theorem stringBody_digits (n : Nat) : StringBody (digits n) := by
  have h : ∀ c ∈ digits n, c.isDigit = true :=
    List.all_eq_true.1 (Bool.and_eq_true _ _ ▸ isDigits_digits n).2
  generalize digits n = ds at h
  induction ds with
  | nil => exact .nil
  | cons d ds ih =>
    have hd := h d List.mem_cons_self
    refine .plain ?_ ?_ ?_ (ih fun c hc => h c (List.mem_cons_of_mem _ hc))
    · rintro rfl
      exact absurd hd (by decide)
    · rintro rfl
      exact absurd hd (by decide)
    · have : 48 ≤ d.toNat := by
        simp only [Char.isDigit, Bool.and_eq_true, decide_eq_true_eq, ge_iff_le,
          UInt32.le_iff_toNat_le] at hd
        exact hd.1
      omega

theorem stringBody_escapeChar (c : Char) {cs : List Char} (h : StringBody cs) :
    StringBody (escapeChar c ++ cs) := by
  unfold escapeChar
  iterate 7
    split
    · exact .short (by decide) h
  split
  · next hc =>
    have hex : ∀ n : Fin 16, isHexDigit (hexDigit n.val) = true := by decide
    exact .code rfl rfl (hex ⟨c.toNat / 16, by omega⟩) (hex ⟨c.toNat % 16, by omega⟩) h
  · next hq hb _ _ _ _ _ hc => exact .plain hq hb (Nat.not_lt.1 hc) h

theorem stringBody_escape (s : String) : StringBody (escape s) := by
  unfold escape
  induction s.toList with
  | nil => exact .nil
  | cons c cs ih => exact stringBody_escapeChar c ih

/-- A text is written as a legible document. -/
theorem legible_ofString (s : String) : Legible (ofString s) := .string (stringBody_escape s)

/-! ## Both printers spell the tokens -/

theorem wordEnds_of_mark {c : Char} {t : Token} (h : mark? c = some t) (cs : List Char) :
    WordEnds (c :: cs) := by
  have hc : c = '[' ∨ c = ']' ∨ c = '\x7b' ∨ c = '\x7d' ∨ c = ':' ∨ c = ',' := by
    unfold mark? at h
    split at h <;> simp_all
  rintro _ ⟨⟩
  rcases hc with rfl | rfl | rfl | rfl | rfl | rfl <;> decide

theorem spells_newline (depth : Nat) {cs : List Char} {ts : List Token} (h : Spells cs ts) :
    Spells (newline depth ++ cs) ts := by
  refine .blank (by decide) ?_
  induction 2 * depth with
  | zero => exact h
  | succ n ih => exact .blank (by decide) ih

theorem wordEnds_newline (depth : Nat) (cs : List Char) : WordEnds (newline depth ++ cs) := by
  rintro _ ⟨⟩
  decide

theorem spells_string {body : List Char} (hb : StringBody body) {cs : List Char}
    {ts : List Token} (h : Spells cs ts) :
    Spells ((Token.string body).text ++ cs) (.string body :: ts) := by
  simpa [Token.text] using Spells.string hb h

theorem spells_compact {j : Json} (hj : Legible j) :
    ∀ {cs : List Char} {ts : List Token}, Spells cs ts → WordEnds cs →
      Spells (j.tokens.flatMap Token.text ++ cs) (j.tokens ++ ts) := by
  induction hj with
  | null => exact fun h he => .word (w := ['n', 'u', 'l', 'l']) (by simp) (List.all_eq_true.1 rfl) he h
  | bool b =>
    cases b
    · exact fun h he => .word (w := ['f', 'a', 'l', 's', 'e']) (by simp) (List.all_eq_true.1 rfl) he h
    · exact fun h he => .word (w := ['t', 'r', 'u', 'e']) (by simp) (List.all_eq_true.1 rfl) he h
  | number hn =>
    intro cs ts h he
    simpa [tokens, Token.text] using
      Spells.word (by rintro rfl; revert hn; decide) (isWordChar_of_isNumber hn) he h
  | string hs =>
    intro cs ts h _
    simpa [tokens] using spells_string hs h
  | @array items _ ih =>
    intro cs ts h he
    have close : Spells (']' :: cs) (.arrayClose :: ts) := .mark rfl h
    cases items with
    | nil => exact .mark rfl close
    | cons item items =>
      have rest : ∀ l : List Json, (∀ j ∈ l, j ∈ item :: items) →
          Spells ((tokensOfItems l).flatMap Token.text ++ cs) (tokensOfItems l ++ ts) ∧
            WordEnds ((tokensOfItems l).flatMap Token.text ++ cs) := by
        intro l hl
        induction l with
        | nil => exact ⟨close, wordEnds_of_mark rfl _⟩
        | cons j l ihl =>
          obtain ⟨hs, hw⟩ := ihl fun x hx => hl x (List.mem_cons_of_mem _ hx)
          have := ih j (hl j List.mem_cons_self) hs hw
          refine ⟨?_, wordEnds_of_mark rfl _⟩
          simpa [tokensOfItems, Token.text] using Spells.mark (c := ',') rfl this
      obtain ⟨hs, hw⟩ := rest items fun j hj => List.mem_cons_of_mem _ hj
      have := ih item List.mem_cons_self hs hw
      simpa [tokens, Token.text] using Spells.mark (c := '[') rfl this
  | @object members hk _ ih =>
    intro cs ts h he
    have close : Spells ('\x7d' :: cs) (.objectClose :: ts) := .mark rfl h
    cases members with
    | nil => exact .mark rfl close
    | cons m members =>
      have rest : ∀ l : List (List Char × Json), (∀ x ∈ l, x ∈ m :: members) →
          Spells ((tokensOfMembers l).flatMap Token.text ++ cs) (tokensOfMembers l ++ ts) ∧
            WordEnds ((tokensOfMembers l).flatMap Token.text ++ cs) := by
        intro l hl
        induction l with
        | nil => exact ⟨close, wordEnds_of_mark rfl _⟩
        | cons x l ihl =>
          obtain ⟨hs, hw⟩ := ihl fun y hy => hl y (List.mem_cons_of_mem _ hy)
          have hx := hl x List.mem_cons_self
          have := spells_string (hk x hx) (Spells.mark (c := ':') rfl (ih x hx hs hw))
          refine ⟨?_, wordEnds_of_mark rfl _⟩
          simpa [tokensOfMembers, Token.text] using Spells.mark (c := ',') rfl this
      obtain ⟨hs, hw⟩ := rest members fun x hx => List.mem_cons_of_mem _ hx
      have := spells_string (hk m List.mem_cons_self)
        (Spells.mark (c := ':') rfl (ih m List.mem_cons_self hs hw))
      simpa [tokens, Token.text] using Spells.mark (c := '\x7b') rfl this

theorem spells_pretty {j : Json} (hj : Legible j) :
    ∀ (depth : Nat) {cs : List Char} {ts : List Token}, Spells cs ts → WordEnds cs →
      Spells (prettyChars depth j ++ cs) (j.tokens ++ ts) := by
  induction hj with
  | null => exact fun _ _ _ h he => .word (w := ['n', 'u', 'l', 'l']) (by simp) (List.all_eq_true.1 rfl) he h
  | bool b =>
    cases b
    · exact fun _ _ _ h he => .word (w := ['f', 'a', 'l', 's', 'e']) (by simp) (List.all_eq_true.1 rfl) he h
    · exact fun _ _ _ h he => .word (w := ['t', 'r', 'u', 'e']) (by simp) (List.all_eq_true.1 rfl) he h
  | number hn =>
    intro depth cs ts h he
    simpa [tokens, prettyChars] using
      Spells.word (by rintro rfl; revert hn; decide) (isWordChar_of_isNumber hn) he h
  | string hs =>
    intro depth cs ts h _
    simpa [tokens, prettyChars] using spells_string hs h
  | @array items _ ih =>
    intro depth cs ts h he
    have close : Spells (']' :: cs) (.arrayClose :: ts) := .mark rfl h
    cases items with
    | nil => exact .mark rfl close
    | cons item items =>
      have rest : ∀ l : List Json, (∀ j ∈ l, j ∈ item :: items) →
          Spells (prettyItems depth l ++ cs) (tokensOfItems l ++ ts) ∧
            WordEnds (prettyItems depth l ++ cs) := by
        intro l hl
        induction l with
        | nil =>
          refine ⟨?_, wordEnds_newline depth (']' :: cs)⟩
          simpa [prettyItems, tokensOfItems] using spells_newline depth close
        | cons j l ihl =>
          obtain ⟨hs, hw⟩ := ihl fun x hx => hl x (List.mem_cons_of_mem _ hx)
          have := spells_newline (depth + 1) (ih j (hl j List.mem_cons_self) (depth + 1) hs hw)
          refine ⟨?_, wordEnds_of_mark rfl _⟩
          simpa [tokensOfItems, prettyItems] using Spells.mark (c := ',') rfl this
      obtain ⟨hs, hw⟩ := rest items fun j hj => List.mem_cons_of_mem _ hj
      have := spells_newline (depth + 1) (ih item List.mem_cons_self (depth + 1) hs hw)
      simpa [tokens, prettyChars] using Spells.mark (c := '[') rfl this
  | @object members hk _ ih =>
    intro depth cs ts h he
    have close : Spells ('\x7d' :: cs) (.objectClose :: ts) := .mark rfl h
    cases members with
    | nil => exact .mark rfl close
    | cons m members =>
      have member {x : List Char × Json} (hx : x ∈ m :: members) {cs : List Char}
          {ts : List Token} (hs : Spells cs ts) (hw : WordEnds cs) :
          Spells (newline (depth + 1) ++ ((Token.string x.1).text ++
            ':' :: ' ' :: (prettyChars (depth + 1) x.2 ++ cs)))
            (.string x.1 :: .colon :: (x.2.tokens ++ ts)) :=
        spells_newline _ (spells_string (hk x hx)
          (.mark rfl (.blank (by decide) (ih x hx _ hs hw))))
      have rest : ∀ l : List (List Char × Json), (∀ x ∈ l, x ∈ m :: members) →
          Spells (prettyMembers depth l ++ cs) (tokensOfMembers l ++ ts) ∧
            WordEnds (prettyMembers depth l ++ cs) := by
        intro l hl
        induction l with
        | nil =>
          refine ⟨?_, wordEnds_newline depth ('\x7d' :: cs)⟩
          simpa [prettyMembers, tokensOfMembers] using spells_newline depth close
        | cons x l ihl =>
          obtain ⟨hs, hw⟩ := ihl fun y hy => hl y (List.mem_cons_of_mem _ hy)
          have := member (hl x List.mem_cons_self) hs hw
          refine ⟨?_, wordEnds_of_mark rfl _⟩
          simpa [tokensOfMembers, prettyMembers] using Spells.mark (c := ',') rfl this
      obtain ⟨hs, hw⟩ := rest members fun x hx => List.mem_cons_of_mem _ hx
      have := member List.mem_cons_self hs hw
      simpa [tokens, prettyChars] using Spells.mark (c := '\x7b') rfl this

/-! ## The parser makes the document of its tokens -/

/-- A document begins with a token that closes nothing. -/
theorem tokens_eq_cons (j : Json) : ∃ t ts, j.tokens = t :: ts ∧ t ≠ .arrayClose := by
  cases j with
  | null => exact ⟨_, _, rfl, nofun⟩
  | bool b => cases b <;> exact ⟨_, _, rfl, nofun⟩
  | number w => exact ⟨_, _, rfl, nofun⟩
  | string w => exact ⟨_, _, rfl, nofun⟩
  | array items => cases items <;> exact ⟨_, _, rfl, nofun⟩
  | object members => cases members <;> exact ⟨_, _, rfl, nofun⟩

theorem Parsing.run_firstItem (j : Json) (stack : List Frame) (ts : List Token) :
    run (.firstItem stack) (j.tokens ++ ts) = run (.value (.items [] :: stack)) (j.tokens ++ ts) := by
  obtain ⟨t, us, h, ht⟩ := tokens_eq_cons j
  rw [h, List.cons_append]
  cases t <;> simp_all [run, step]

theorem Parsing.run_tokens {j : Json} (hj : Legible j) :
    ∀ (stack : List Frame) (ts : List Token),
      run (.value stack) (j.tokens ++ ts) = run (.after j stack) ts := by
  induction hj with
  | null => exact fun _ _ => rfl
  | bool b => cases b <;> exact fun _ _ => rfl
  | number hn =>
    intro stack ts
    simp [tokens, run, step, start, ofWord?_number hn]
  | string hs => exact fun _ _ => rfl
  | @array items _ ih =>
    intro stack ts
    cases items with
    | nil => rfl
    | cons item items =>
      have rest : ∀ (l : List Json), (∀ j ∈ l, j ∈ item :: items) →
          ∀ (v : Json) (done : List Json),
            run (.after v (.items done :: stack)) (tokensOfItems l ++ ts) =
              run (.after (.array (done.reverse ++ v :: l)) stack) ts := by
        intro l hl
        induction l with
        | nil =>
          intro v done
          simp [tokensOfItems, run, step]
        | cons j l ihl =>
          intro v done
          have hj := ih j (hl j List.mem_cons_self) (.items (v :: done) :: stack)
            (tokensOfItems l ++ ts)
          have hl := ihl (fun x hx => hl x (List.mem_cons_of_mem _ hx)) j (v :: done)
          simp only [tokensOfItems, List.cons_append, List.append_assoc, run, step, hj, hl,
            List.reverse_cons, List.nil_append]
      have hitem := ih item List.mem_cons_self (.items [] :: stack) (tokensOfItems items ++ ts)
      have hrest := rest items (fun j hj => List.mem_cons_of_mem _ hj) item []
      simp only [tokens, List.cons_append, List.append_assoc]
      rw [run]
      simp only [step, start]
      rw [run_firstItem, hitem, hrest]
      rfl
  | @object members _ _ ih =>
    intro stack ts
    cases members with
    | nil => rfl
    | cons m members =>
      have rest : ∀ (l : List (List Char × Json)), (∀ x ∈ l, x ∈ m :: members) →
          ∀ (k : List Char) (v : Json) (done : List (List Char × Json)),
            run (.after v (.members done k :: stack)) (tokensOfMembers l ++ ts) =
              run (.after (.object (done.reverse ++ (k, v) :: l)) stack) ts := by
        intro l hl
        induction l with
        | nil =>
          intro k v done
          simp [tokensOfMembers, run, step]
        | cons x l ihl =>
          intro k v done
          have hx := ih x (hl x List.mem_cons_self) (.members ((k, v) :: done) x.1 :: stack)
            (tokensOfMembers l ++ ts)
          have hl := ihl (fun y hy => hl y (List.mem_cons_of_mem _ hy)) x.1 x.2 ((k, v) :: done)
          simp only [tokensOfMembers, List.cons_append, List.append_assoc, run, step, hx, hl,
            List.reverse_cons, List.nil_append]
      have hm := ih m List.mem_cons_self (.members [] m.1 :: stack) (tokensOfMembers members ++ ts)
      have hrest := rest members (fun x hx => List.mem_cons_of_mem _ hx) m.1 m.2 []
      simp only [tokens, List.cons_append, List.append_assoc, run, step, start, hm, hrest]
      rfl

/-- The parser makes a legible document of its tokens. -/
theorem run_tokens_eq_some {j : Json} (hj : Legible j) :
    Parsing.run (.value []) j.tokens = some j := by
  have := Parsing.run_tokens hj [] []
  rwa [List.append_nil] at this

theorem parse?_of_spells {j : Json} (hj : Legible j) {text : String}
    (h : Spells text.toList j.tokens) : parse? text = some j := by
  rw [parse?, tokens?_eq_some h, Option.bind_some, run_tokens_eq_some hj]

/-- **The compact text of a document is read back.** -/
theorem parse?_compact {j : Json} (hj : Legible j) : parse? j.compact = some j := by
  refine parse?_of_spells hj ?_
  have := spells_compact hj .nil nofun
  simpa [compact] using this

/-- **The pretty text of a document is read back.** -/
theorem parse?_pretty {j : Json} (hj : Legible j) : parse? j.pretty = some j := by
  refine parse?_of_spells hj ?_
  have := spells_pretty hj 0 .nil nofun
  simpa [pretty] using this

end Stakebook.Json
