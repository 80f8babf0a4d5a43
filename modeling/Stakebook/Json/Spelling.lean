import Stakebook.Json.Lexer

/-!
# How a text spells tokens

`Spells` says that a text consists of the texts of some tokens, in their order, with blanks between
them as anybody likes; only two words need a blank between them. **`tokens?_eq_some`**: of a text
that spells tokens the lexer returns these tokens.
-/

namespace Stakebook.Json

/-- What may stand between quotes: characters that are no control characters, no quotes and no
backslashes, short escapes, and codes of four digits. -/
inductive StringBody : List Char → Prop
  | nil : StringBody []
  | plain {c : Char} {cs : List Char} (hq : c ≠ '"') (hb : c ≠ '\\') (hc : 32 ≤ c.toNat) :
    StringBody cs → StringBody (c :: cs)
  | short {c : Char} {cs : List Char} (hc : c ∈ ['"', '\\', '/', 'b', 'f', 'n', 'r', 't']) :
    StringBody cs → StringBody ('\\' :: c :: cs)
  | code {w x y z : Char} {cs : List Char} (hw : isHexDigit w = true) (hx : isHexDigit x = true)
    (hy : isHexDigit y = true) (hz : isHexDigit z = true) :
    StringBody cs → StringBody ('\\' :: 'u' :: w :: x :: y :: z :: cs)

/-- No word goes on here. -/
def WordEnds (cs : List Char) : Prop := ∀ c ∈ cs.head?, isWordChar c = false

/-- A text that consists of the texts of tokens, with blanks between them. -/
inductive Spells : List Char → List Token → Prop
  | nil : Spells [] []
  | blank {c : Char} {cs : List Char} {ts : List Token} (hc : isBlank c = true) :
    Spells cs ts → Spells (c :: cs) ts
  | mark {c : Char} {t : Token} {cs : List Char} {ts : List Token} (hc : mark? c = some t) :
    Spells cs ts → Spells (c :: cs) (t :: ts)
  | string {body cs : List Char} {ts : List Token} (hb : StringBody body) :
    Spells cs ts → Spells ('"' :: (body ++ '"' :: cs)) (.string body :: ts)
  | word {w cs : List Char} {ts : List Token} (hne : w ≠ []) (hw : ∀ c ∈ w, isWordChar c = true)
    (he : WordEnds cs) : Spells cs ts → Spells (w ++ cs) (.word w :: ts)

namespace Lexing

theorem mark_start {c : Char} {t : Token} (h : mark? c = some t) : start c = some ([t], .between) := by
  have hc : c = '[' ∨ c = ']' ∨ c = '\x7b' ∨ c = '\x7d' ∨ c = ':' ∨ c = ',' := by
    unfold mark? at h
    split at h <;> simp_all
  rcases hc with rfl | rfl | rfl | rfl | rfl | rfl <;> cases h <;> rfl

/-- Between quotes the lexer goes on to the closing quote. -/
theorem tokens_body {body : List Char} (h : StringBody body) (read : List Char)
    (done : List Token) (cs : List Char) :
    tokens (.string read) done (body ++ '"' :: cs) =
      tokens .between (.string (read.reverse ++ body) :: done) cs := by
  induction h generalizing read with
  | nil => simp [tokens, step]
  | plain hq hb hc _ ih =>
    simp [tokens, step, hq, hb, Nat.not_lt.2 hc, ih]
  | @short c cs' hc _ ih =>
    have hu : c ≠ 'u' := by
      rintro rfl
      simp at hc
    have hs : step (.escape ('\\' :: read)) c = some ([], .string (c :: '\\' :: read)) := by
      rw [step, if_neg hu, if_pos hc]
    have hb : step (.string read) '\\' = some ([], .escape ('\\' :: read)) := rfl
    simp [tokens, hb, hs, ih]
  | code hw hx hy hz _ ih => simp [tokens, step, hw, hx, hy, hz, ih]

/-- A word is read to its end. -/
theorem tokens_word {w : List Char} (hw : ∀ c ∈ w, isWordChar c = true) (read : List Char)
    (done : List Token) {cs : List Char} (he : WordEnds cs) :
    tokens (.word read) done (w ++ cs) =
      tokens .between (.word (read.reverse ++ w) :: done) cs := by
  induction w generalizing read with
  | nil =>
    cases cs with
    | nil => simp [tokens]
    | cons c cs =>
      have hc : isWordChar c = false := he c rfl
      simp only [List.nil_append, List.append_nil, tokens, step, hc]
      cases start c <;> simp
  | cons c w ih =>
    have hc := hw c List.mem_cons_self
    simp [tokens, step, hc, ih fun x hx => hw x (List.mem_cons_of_mem _ hx)]

theorem start_word {c : Char} (h : isWordChar c = true) : start c = some ([], .word [c]) := by
  have hb : isBlank c = false := by
    rw [Bool.eq_false_iff]
    intro hb
    have : c = ' ' ∨ c = '\t' ∨ c = '\n' ∨ c = '\x0d' := by simpa [isBlank, or_assoc] using hb
    rcases this with rfl | rfl | rfl | rfl <;> revert h <;> decide
  have hq : c ≠ '"' := by
    rintro rfl
    revert h
    decide
  simp [start, hb, hq, h]

/-- The lexer returns what a text spells, after what is read already. -/
theorem tokens_of_spells {cs : List Char} {ts : List Token} (h : Spells cs ts)
    (done : List Token) : tokens .between done cs = some (done.reverse ++ ts) := by
  induction h generalizing done with
  | nil => simp [tokens]
  | blank hc _ ih => simp [tokens, step, start, hc, ih]
  | mark hc _ ih => simp [tokens, step, mark_start hc, ih]
  | @string body cs ts hb _ ih =>
    have hs : step .between '"' = some ([], .string []) := rfl
    rw [tokens, hs]
    simp [tokens_body hb, ih]
  | @word w cs ts hne hw he _ ih =>
    obtain ⟨c, w, rfl⟩ := List.exists_cons_of_ne_nil hne
    simp [tokens, step, start_word (hw c List.mem_cons_self),
      tokens_word (fun x hx => hw x (List.mem_cons_of_mem _ hx)) [c] done he, ih]

end Lexing

/-- **Tokens that a text spells are found in it.** -/
theorem tokens?_eq_some {text : String} {ts : List Token} (h : Spells text.toList ts) :
    tokens? text = some ts := Lexing.tokens_of_spells h []

end Stakebook.Json
