/-! # The marks of a JSON text

A JSON text is cut into marks: brackets, braces, commas and colons, quoted
texts, and words, which are runs of other characters.  The cut is one pass over
the characters with a small state.
-/

namespace TableQuery.Json

/-- One piece of a quoted text: a character, or a unit written as four hexadecimal digits. -/
inductive Piece where
  | char (c : Char)
  | unit (value : Nat)
deriving DecidableEq

/-- The smallest meaningful parts of a JSON text. -/
inductive Mark where
  | leftBracket | rightBracket | leftBrace | rightBrace | comma | colon
  | quoted (pieces : List Piece)
  | word (cs : List Char)
deriving DecidableEq

def isSpace (c : Char) : Bool := c == ' ' || c == '\t' || c == '\n' || c == '\r'

def punctuation? : Char → Option Mark
  | '[' => some .leftBracket
  | ']' => some .rightBracket
  | '{' => some .leftBrace
  | '}' => some .rightBrace
  | ',' => some .comma
  | ':' => some .colon
  | _ => none

def escaped? : Char → Option Char
  | '"' => some '"'
  | '\\' => some '\\'
  | '/' => some '/'
  | 'b' => some '\x08'
  | 'f' => some '\x0c'
  | 'n' => some '\n'
  | 'r' => some '\r'
  | 't' => some '\t'
  | _ => none

def hexDigit? (c : Char) : Option Nat :=
  if '0' ≤ c ∧ c ≤ '9' then some (c.toNat - '0'.toNat)
  else if 'a' ≤ c ∧ c ≤ 'f' then some (c.toNat - 'a'.toNat + 10)
  else if 'A' ≤ c ∧ c ≤ 'F' then some (c.toNat - 'A'.toNat + 10)
  else none

/-- Where a pass over a JSON text stands; what has been read of a mark is kept backwards. -/
inductive Place where
  | between
  | inWord (read : List Char)
  | inQuotes (read : List Piece)
  | afterBackslash (read : List Piece)
  /-- Inside a unit, with its value so far and the number of digits still due. -/
  | inUnit (read : List Piece) (value due : Nat)

/-- Reads a character that no mark before it takes in, after some marks have ended. -/
def Place.start (c : Char) (ended : List Mark) : List Mark × Place :=
  if isSpace c then (ended, .between)
  else if c = '"' then (ended, .inQuotes [])
  else match punctuation? c with
    | some mark => (ended ++ [mark], .between)
    | none => (ended, .inWord [c])

/-- The marks that end with the next character, and the place after it. -/
def Place.next (c : Char) : Place → Option (List Mark × Place)
  | .between => some (start c [])
  | .inWord read =>
    if isSpace c || c == '"' || (punctuation? c).isSome then some (start c [.word read.reverse])
    else some ([], .inWord (c :: read))
  | .inQuotes read =>
    if c = '"' then some ([.quoted read.reverse], .between)
    else if c = '\\' then some ([], .afterBackslash read)
    else if c.toNat < 0x20 then none
    else some ([], .inQuotes (.char c :: read))
  | .afterBackslash read =>
    if c = 'u' then some ([], .inUnit read 0 4)
    else (escaped? c).map fun e => ([], .inQuotes (.char e :: read))
  | .inUnit read value due =>
    (hexDigit? c).map fun d =>
      let value := 16 * value + d
      if due ≤ 1 then ([], .inQuotes (.unit value :: read)) else ([], .inUnit read value (due - 1))

/-- A pass over a text: the marks that have ended, the last one first, and the place. -/
def Place.pass (state : List Mark × Place) (c : Char) : Option (List Mark × Place) :=
  (state.2.next c).map fun (ended, place) => (ended.reverse ++ state.1, place)

/-- The marks of a text.  A word may end with the text, a quote may not. -/
def marks? (cs : List Char) : Option (List Mark) := do
  match ← cs.foldlM Place.pass ([], .between) with
  | (marks, .between) => pure marks.reverse
  | (marks, .inWord read) => pure (.word read.reverse :: marks).reverse
  | _ => none

end TableQuery.Json
