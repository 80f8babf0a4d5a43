import Stakebook.Json.Basic

/-!
# From text to tokens

A lexer that reads one character at a time. Blanks, tabs and line ends separate tokens; a string
runs to its closing quote and has no control characters and only known escapes; every other run of
letters, digits, signs and points is a word.
-/

namespace Stakebook.Json

/-- How far a token has been read; its characters so far, the last one first. -/
inductive Lexing
  | between
  | word (read : List Char)
  | string (read : List Char)
  | escape (read : List Char)
  | code (left : Nat) (read : List Char)

/-- Whether a character separates tokens. -/
def isBlank (c : Char) : Bool := c = ' ' || c = '\t' || c = '\n' || c = '\x0d'

/-- Whether a character is part of a word. -/
def isWordChar (c : Char) : Bool := c.isAlphanum || c = '+' || c = '-' || c = '.'

/-- Whether a character is a hexadecimal digit. -/
def isHexDigit (c : Char) : Bool :=
  c.isDigit || 'a' ≤ c && c ≤ 'f' || 'A' ≤ c && c ≤ 'F'

/-- The bracket, colon or comma that a character is. -/
def mark? : Char → Option Token
  | '[' => some .arrayOpen
  | ']' => some .arrayClose
  | '\x7b' => some .objectOpen
  | '\x7d' => some .objectClose
  | ':' => some .colon
  | ',' => some .comma
  | _ => none

namespace Lexing

/-- Reads a character that is not part of a token: the tokens it completes, and the state. -/
def start (c : Char) : Option (List Token × Lexing) :=
  if isBlank c then some ([], .between)
  else if c = '"' then some ([], .string [])
  else if isWordChar c then some ([], .word [c])
  else (mark? c).map fun t => ([t], .between)

/-- Reads a character: the tokens it completes, and the state. -/
def step : Lexing → Char → Option (List Token × Lexing)
  | .between, c => start c
  | .word read, c =>
    if isWordChar c then some ([], .word (c :: read))
    else (start c).map fun (ts, s) => (.word read.reverse :: ts, s)
  | .string read, c =>
    if c = '"' then some ([.string read.reverse], .between)
    else if c = '\\' then some ([], .escape (c :: read))
    else if c.toNat < 32 then none
    else some ([], .string (c :: read))
  | .escape read, c =>
    if c = 'u' then some ([], .code 3 (c :: read))
    else if c ∈ ['"', '\\', '/', 'b', 'f', 'n', 'r', 't'] then some ([], .string (c :: read))
    else none
  | .code left read, c =>
    if isHexDigit c then
      some ([], match left with
        | 0 => .string (c :: read)
        | left + 1 => .code left (c :: read))
    else none

/-- The tokens of a text, of which some are read already; those come last one first. -/
def tokens : Lexing → List Token → List Char → Option (List Token)
  | .between, done, [] => some done.reverse
  | .word read, done, [] => some (.word read.reverse :: done).reverse
  | _, _, [] => none
  | s, done, c :: cs =>
    match s.step c with
    | none => none
    | some (ts, s) => tokens s (ts.reverse ++ done) cs

end Lexing

/-- The tokens of a text. -/
def tokens? (text : String) : Option (List Token) := Lexing.tokens .between [] text.toList

end Stakebook.Json
