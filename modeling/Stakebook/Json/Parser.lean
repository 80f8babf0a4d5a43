import Stakebook.Json.Lexer
import Stakebook.Json.Number

/-!
# From tokens to documents

A parser that reads one token at a time and keeps the open brackets on a stack, so that it needs no
bound on how deep brackets are nested.
-/

namespace Stakebook.Json

/-- An open bracket, with what stands in it before the value that is read next. The last item comes
first. -/
inductive Frame
  | items (done : List Json)
  | members (done : List (List Char × Json)) (key : List Char)

/-- What the parser waits for. -/
inductive Parsing
  | value (stack : List Frame)
  | firstItem (stack : List Frame)
  | key (done : List (List Char × Json)) (mayClose : Bool) (stack : List Frame)
  | colon (done : List (List Char × Json)) (key : List Char) (stack : List Frame)
  | after (value : Json) (stack : List Frame)

/-- The document that a word is. -/
def ofWord? (written : List Char) : Option Json :=
  if written = ['n', 'u', 'l', 'l'] then some .null
  else if written = ['t', 'r', 'u', 'e'] then some (.bool true)
  else if written = ['f', 'a', 'l', 's', 'e'] then some (.bool false)
  else if isNumber written then some (.number written)
  else none

namespace Parsing

/-- Reads the first token of a value. -/
def start (stack : List Frame) : Token → Option Parsing
  | .word written => (ofWord? written).map fun j => .after j stack
  | .string written => some (.after (.string written) stack)
  | .arrayOpen => some (.firstItem stack)
  | .objectOpen => some (.key [] true stack)
  | _ => none

/-- Reads a token. -/
def step : Parsing → Token → Option Parsing
  | .value stack, t => start stack t
  | .firstItem stack, .arrayClose => some (.after (.array []) stack)
  | .firstItem stack, t => start (.items [] :: stack) t
  | .key done _ stack, .string k => some (.colon done k stack)
  | .key done true stack, .objectClose => some (.after (.object done.reverse) stack)
  | .key _ _ _, _ => none
  | .colon done k stack, .colon => some (.value (.members done k :: stack))
  | .colon _ _ _, _ => none
  | .after v (.items done :: stack), .comma => some (.value (.items (v :: done) :: stack))
  | .after v (.items done :: stack), .arrayClose =>
    some (.after (.array (v :: done).reverse) stack)
  | .after v (.members done k :: stack), .comma => some (.key ((k, v) :: done) false stack)
  | .after v (.members done k :: stack), .objectClose =>
    some (.after (.object ((k, v) :: done).reverse) stack)
  | .after _ _, _ => none

/-- Reads tokens to their end. -/
def run : Parsing → List Token → Option Json
  | .after v [], [] => some v
  | _, [] => none
  | s, t :: ts =>
    match s.step t with
    | none => none
    | some s => run s ts

end Parsing

/-- The document that a text writes. -/
def parse? (text : String) : Option Json := (tokens? text).bind (Parsing.run (.value []))

end Stakebook.Json
