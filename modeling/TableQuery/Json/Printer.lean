import TableQuery.Decimal.Style
import TableQuery.Json.Basic

/-! # JSON texts

Values are written without spaces.
-/

namespace TableQuery.Json

/-- Floats in JSON: a whole number ends in `.0`, and an exponent with its sign is written below
`1e-5` and from `1e16` on. -/
def floatStyle : Decimal.Style where
  tie := .even
  isPlain place := -5 ≤ place && place < 16
  wholeMark := ['.', '0']
  notANumber := ['n', 'u', 'l', 'l']
  infinite := ['n', 'u', 'l', 'l']

def hexDigit (n : Nat) : Char := Nat.digitChar n

/-- A character inside quotes: quotes, backslashes and controls are escaped. -/
def escape (c : Char) : List Char :=
  match c with
  | '"' => ['\\', '"']
  | '\\' => ['\\', '\\']
  | '\x08' => ['\\', 'b']
  | '\x0c' => ['\\', 'f']
  | '\n' => ['\\', 'n']
  | '\r' => ['\\', 'r']
  | '\t' => ['\\', 't']
  | _ =>
    if c.toNat < 0x20 then
      ['\\', 'u', '0', '0', hexDigit (c.toNat / 16), hexDigit (c.toNat % 16)]
    else [c]

def writeText (text : String) : String :=
  String.ofList ('"' :: text.toList.flatMap escape ++ ['"'])

def writeInteger (i : Int) : String :=
  String.ofList (if i < 0 then '-' :: Decimal.digitsOf i.natAbs else Decimal.digitsOf i.natAbs)

mutual

def write : Json → String
  | .null => "null"
  | .bool b => if b then "true" else "false"
  | .integer i => writeInteger i
  | .float f => floatStyle.write f
  | .text s => writeText s
  | .array items => "[" ++ ",".intercalate (writeItems items) ++ "]"
  | .object fields => "\x7b" ++ ",".intercalate (writeFields fields) ++ "\x7d"

def writeItems : List Json → List String
  | [] => []
  | v :: vs => v.write :: writeItems vs

def writeFields : List (String × Json) → List String
  | [] => []
  | (name, v) :: fields => (writeText name ++ ":" ++ v.write) :: writeFields fields

end

end TableQuery.Json
