/-!
# JSON documents

A `Json` is a document as it is written: a number and a string keep the characters that stand in the
text, and an object keeps all its members in their order. What a string or a number means is the
business of whoever reads it; a part that nobody reads may mean nothing at all.

`tokens` lists the tokens of a document, and the compact form is their texts one after the other.
The pretty form puts each item and member on a line of its own, two blanks deeper than its bracket.
-/

namespace Stakebook

/-- A document as it is written. -/
inductive Json
  | null
  | bool (b : Bool)
  | number (written : List Char)
  | string (written : List Char)
  | array (items : List Json)
  | object (members : List (List Char × Json))
deriving Inhabited

/-- A token of a document. A word is a number or one of `null`, `true` and `false`. -/
inductive Token
  | arrayOpen
  | arrayClose
  | objectOpen
  | objectClose
  | colon
  | comma
  | string (written : List Char)
  | word (written : List Char)
deriving DecidableEq, Inhabited

/-- The text of a token. -/
def Token.text : Token → List Char
  | .arrayOpen => ['[']
  | .arrayClose => [']']
  | .objectOpen => ['\x7b']
  | .objectClose => ['\x7d']
  | .colon => [':']
  | .comma => [',']
  | .string written => '"' :: (written ++ ['"'])
  | .word written => written

namespace Json

mutual

/-- The tokens of a document. -/
def tokens : Json → List Token
  | .null => [.word ['n', 'u', 'l', 'l']]
  | .bool true => [.word ['t', 'r', 'u', 'e']]
  | .bool false => [.word ['f', 'a', 'l', 's', 'e']]
  | .number written => [.word written]
  | .string written => [.string written]
  | .array [] => [.arrayOpen, .arrayClose]
  | .array (item :: items) => .arrayOpen :: (item.tokens ++ tokensOfItems items)
  | .object [] => [.objectOpen, .objectClose]
  | .object ((key, value) :: members) =>
    .objectOpen :: .string key :: .colon :: (value.tokens ++ tokensOfMembers members)

/-- The tokens of the further items of an array, with its closing bracket. -/
def tokensOfItems : List Json → List Token
  | [] => [.arrayClose]
  | item :: items => .comma :: (item.tokens ++ tokensOfItems items)

/-- The tokens of the further members of an object, with its closing bracket. -/
def tokensOfMembers : List (List Char × Json) → List Token
  | [] => [.objectClose]
  | (key, value) :: members =>
    .comma :: .string key :: .colon :: (value.tokens ++ tokensOfMembers members)

end

/-- The compact text of a document. -/
def compact (j : Json) : String := String.ofList (j.tokens.flatMap Token.text)

/-- A line break and as many indents of two blanks. -/
def newline (depth : Nat) : List Char := '\n' :: List.replicate (2 * depth) ' '

mutual

/-- The pretty text of a document inside as many brackets. -/
def prettyChars (depth : Nat) : Json → List Char
  | .array (item :: items) =>
    '[' :: newline (depth + 1) ++ prettyChars (depth + 1) item ++ prettyItems depth items
  | .object ((key, value) :: members) =>
    '\x7b' :: newline (depth + 1) ++ (Token.string key).text ++ ':' :: ' ' ::
      prettyChars (depth + 1) value ++ prettyMembers depth members
  | .array [] => ['[', ']']
  | .object [] => ['\x7b', '\x7d']
  | .null => ['n', 'u', 'l', 'l']
  | .bool true => ['t', 'r', 'u', 'e']
  | .bool false => ['f', 'a', 'l', 's', 'e']
  | .number written => written
  | .string written => (Token.string written).text

/-- The pretty text of the further items of an array, with its closing bracket. -/
def prettyItems (depth : Nat) : List Json → List Char
  | [] => newline depth ++ [']']
  | item :: items =>
    ',' :: newline (depth + 1) ++ prettyChars (depth + 1) item ++ prettyItems depth items

/-- The pretty text of the further members of an object, with its closing bracket. -/
def prettyMembers (depth : Nat) : List (List Char × Json) → List Char
  | [] => newline depth ++ ['\x7d']
  | (key, value) :: members =>
    ',' :: newline (depth + 1) ++ (Token.string key).text ++ ':' :: ' ' ::
      prettyChars (depth + 1) value ++ prettyMembers depth members

end

/-- The pretty text of a document. -/
def pretty (j : Json) : String := String.ofList (prettyChars 0 j)

end Json

end Stakebook
