import TableQuery.Decimal.Numeral
import TableQuery.Json.Mark

/-! # JSON as written

A `Term` is a JSON document before numbers and texts are given their values, so
that a part whose value does not matter can be read although its numbers are
out of range or its texts are no Unicode.  Documents are read by a machine with
a stack of open arrays and objects, which takes one mark at a time.
-/

namespace TableQuery.Json

open Decimal (Numeral)

/-- A JSON document with its numbers and texts as written. -/
inductive Term where
  | null
  | bool (value : Bool)
  | number (numeral : Numeral)
  | text (pieces : List Piece)
  | array (items : List Term)
  | object (fields : List (List Piece × Term))

/-- Whether the parts of a numeral make a JSON number: no plus sign, no leading zero before other
digits, and digits on both sides of a point and in an exponent. -/
def isNumber (n : Numeral) : Bool :=
  n.sign != some '+' && !n.whole.isEmpty && (n.whole.length == 1 || n.whole.head? != some '0')
    && !n.fraction.any List.isEmpty && !n.exponent.any (·.2.isEmpty)

def word? (cs : List Char) : Option Term :=
  if cs = ['n', 'u', 'l', 'l'] then some .null
  else if cs = ['t', 'r', 'u', 'e'] then some (.bool true)
  else if cs = ['f', 'a', 'l', 's', 'e'] then some (.bool false)
  else (Numeral.read? cs).bind fun n => if isNumber n then some (.number n) else none

/-- An array or object that is not closed yet, with what it holds so far, the last part first. -/
inductive Open where
  | array (items : List Term)
  | object (fields : List (List Piece × Term))
  /-- An object together with the name of the field whose value comes next. -/
  | field (fields : List (List Piece × Term)) (name : List Piece)

inductive Due where
  | value
  /-- A value, or the end of an empty array. -/
  | firstItem
  /-- A name, or the end of an empty object. -/
  | firstName
  | name
  | colon
  /-- A comma, or the end of the innermost array or object. -/
  | separator

/-- The machine between two marks, or the document that it has read. -/
inductive Reading where
  | due (next : Due) (inside : List Open)
  | done (term : Term)

/-- Hands a finished value to the innermost open array or object. -/
def Reading.put (term : Term) : List Open → Option Reading
  | [] => some (.done term)
  | .array items :: rest => some (.due .separator (.array (term :: items) :: rest))
  | .field fields name :: rest => some (.due .separator (.object ((name, term) :: fields) :: rest))
  | .object _ :: _ => none

def Reading.value (inside : List Open) : Mark → Option Reading
  | .leftBracket => some (.due .firstItem (.array [] :: inside))
  | .leftBrace => some (.due .firstName (.object [] :: inside))
  | .quoted pieces => Reading.put (.text pieces) inside
  | .word cs => (word? cs).bind (Reading.put · inside)
  | _ => none

def Reading.step : Reading → Mark → Option Reading
  | .due .value inside, mark => Reading.value inside mark
  | .due .firstItem (.array items :: inside), .rightBracket =>
    Reading.put (.array items.reverse) inside
  | .due .firstItem inside, mark => Reading.value inside mark
  | .due .firstName (.object fields :: inside), .rightBrace =>
    Reading.put (.object fields.reverse) inside
  | .due .firstName (.object fields :: inside), .quoted name
  | .due .name (.object fields :: inside), .quoted name =>
    some (.due .colon (.field fields name :: inside))
  | .due .colon inside, .colon => some (.due .value inside)
  | .due .separator (.array items :: inside), .comma => some (.due .value (.array items :: inside))
  | .due .separator (.array items :: inside), .rightBracket =>
    Reading.put (.array items.reverse) inside
  | .due .separator (.object fields :: inside), .comma =>
    some (.due .name (.object fields :: inside))
  | .due .separator (.object fields :: inside), .rightBrace =>
    Reading.put (.object fields.reverse) inside
  | _, _ => none

/-- The document that a text holds, with nothing after it. -/
def Term.read? (cs : List Char) : Option Term := do
  let marks ← marks? cs
  match ← marks.foldlM Reading.step (.due .value []) with
  | .done term => pure term
  | .due .. => none

end TableQuery.Json
