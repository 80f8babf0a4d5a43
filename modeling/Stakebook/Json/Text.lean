import Stakebook.Json.Basic

/-!
# Strings in documents

`escape` writes a text between quotes: a quote and a backslash get a backslash before them, control
characters are written by their short escape or by their code in four digits, and everything else
stands for itself. `unescape` reads what stands between quotes. It knows all escapes, joins two
halves of a surrogate pair into one character, and refuses a half without its other half.

`unescape_escape` says that what is written reads back.
-/

namespace Stakebook.Json

/-! ## Reading -/

/-- The value of a hexadecimal digit of either case. -/
def hexValue? (c : Char) : Option Nat :=
  if '0' ≤ c ∧ c ≤ '9' then some (c.toNat - 48)
  else if 'a' ≤ c ∧ c ≤ 'f' then some (c.toNat - 87)
  else if 'A' ≤ c ∧ c ≤ 'F' then some (c.toNat - 55)
  else none

/-- The number that four digits write. -/
def hex4? (a b c d : Char) : Option Nat := do
  return 4096 * (← hexValue? a) + 256 * (← hexValue? b) + 16 * (← hexValue? c) + (← hexValue? d)

/-- Whether a code is the first half of a surrogate pair. -/
def isHigh (n : Nat) : Bool := 0xD800 ≤ n ∧ n < 0xDC00

/-- Whether a code is the second half of a surrogate pair. -/
def isLow (n : Nat) : Bool := 0xDC00 ≤ n ∧ n < 0xE000

/-- The character that a short escape stands for. -/
def shortEscape? : Char → Option Char
  | '"' => some '"'
  | '\\' => some '\\'
  | '/' => some '/'
  | 'b' => some '\x08'
  | 'f' => some '\x0c'
  | 'n' => some '\n'
  | 'r' => some '\x0d'
  | 't' => some '\t'
  | _ => none

/-- How far an escape has been read. -/
inductive Escape
  | outside
  | backslash
  | code (digits : List Char)
  | highHalf (high : Nat)
  | highBackslash (high : Nat)
  | highCode (high : Nat) (digits : List Char)

/-- What follows when the four digits of a code are read. -/
def Escape.ofCode (n : Nat) : Option (List Char × Escape) :=
  if isHigh n then some ([], .highHalf n)
  else if isLow n then none
  else some ([Char.ofNat n], .outside)

/-- Reads one character: what it adds to the text, at most one character, and how far the escape is
then. -/
def Escape.step : Escape → Char → Option (List Char × Escape)
  | .outside, '\\' => some ([], .backslash)
  | .outside, c => some ([c], .outside)
  | .backslash, 'u' => some ([], .code [])
  | .backslash, c => (shortEscape? c).map fun d => ([d], .outside)
  | .code [x, y, z], c => (hex4? x y z c).bind Escape.ofCode
  | .code digits, c => some ([], .code (digits ++ [c]))
  | .highHalf high, '\\' => some ([], .highBackslash high)
  | .highHalf _, _ => none
  | .highBackslash high, 'u' => some ([], .highCode high [])
  | .highBackslash _, _ => none
  | .highCode high [x, y, z], c => do
    let low ← hex4? x y z c
    if isLow low then
      return ([Char.ofNat (0x10000 + 1024 * (high - 0xD800) + (low - 0xDC00))], .outside)
    else none
  | .highCode high digits, c => some ([], .highCode high (digits ++ [c]))

/-- Reads a text, of which some characters are read already; those come last one first. -/
def unescapeFrom : Escape → List Char → List Char → Option (List Char)
  | .outside, done, [] => some done.reverse
  | _, _, [] => none
  | state, done, c :: cs =>
    match state.step c with
    | none => none
    | some (out, state) => unescapeFrom state (out ++ done) cs

/-- The text that stands between quotes, if it is one. -/
def unescape (written : List Char) : Option String :=
  (unescapeFrom .outside [] written).map String.ofList

/-! ## Writing -/

/-- The lower-case digit of a number below sixteen. -/
def hexDigit (n : Nat) : Char := Char.ofNat (if n < 10 then 48 + n else 87 + n)

/-- The written form of a character. -/
def escapeChar (c : Char) : List Char :=
  if c = '"' then ['\\', '"']
  else if c = '\\' then ['\\', '\\']
  else if c = '\x08' then ['\\', 'b']
  else if c = '\x0c' then ['\\', 'f']
  else if c = '\n' then ['\\', 'n']
  else if c = '\x0d' then ['\\', 'r']
  else if c = '\t' then ['\\', 't']
  else if c.toNat < 32 then ['\\', 'u', '0', '0', hexDigit (c.toNat / 16), hexDigit (c.toNat % 16)]
  else [c]

/-- The written form of a text, without the quotes. -/
def escape (s : String) : List Char := s.toList.flatMap escapeChar

/-- A text as a document. -/
def ofString (s : String) : Json := .string (escape s)

/-! ## Reading what is written -/

theorem hexValue?_hexDigit {n : Nat} (h : n < 16) : hexValue? (hexDigit n) = some n := by
  have : ∀ n : Fin 16, hexValue? (hexDigit n) = some n.val := by decide
  exact this ⟨n, h⟩

/-- A character is read back from its written form. -/
theorem unescapeFrom_escapeChar (c : Char) (done rest : List Char) :
    unescapeFrom .outside done (escapeChar c ++ rest) = unescapeFrom .outside (c :: done) rest := by
  unfold escapeChar
  iterate 7
    split
    · subst c
      rfl
  split
  · next h =>
    have hv : hex4? '0' '0' (hexDigit (c.toNat / 16)) (hexDigit (c.toNat % 16)) = some c.toNat := by
      have h0 : hexValue? '0' = some 0 := rfl
      simp [hex4?, h0, hexValue?_hexDigit (show c.toNat / 16 < 16 by omega),
        hexValue?_hexDigit (show c.toNat % 16 < 16 by omega)]
      omega
    have hh : isHigh c.toNat = false := by simp [isHigh]; omega
    have hl : isLow c.toNat = false := by simp [isLow]; omega
    simp [unescapeFrom, Escape.step, hv, Escape.ofCode, hh, hl]
  · simp [unescapeFrom, Escape.step]

/-- What is written between quotes is read back. -/
theorem unescape_escape (s : String) : unescape (escape s) = some s := by
  have h : ∀ cs done : List Char,
      unescapeFrom .outside done (cs.flatMap escapeChar) = some (done.reverse ++ cs) := by
    intro cs
    induction cs with
    | nil => simp [unescapeFrom]
    | cons c cs ih =>
      intro done
      rw [List.flatMap_cons, unescapeFrom_escapeChar, ih]
      simp
  simp [unescape, escape, h]

end Stakebook.Json
