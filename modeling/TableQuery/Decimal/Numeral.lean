/-! # Numerals

The parts of a decimal number as written: a sign, digits, digits after a point
and an exponent.  Both readers of numbers, for literals and for JSON, start
from these parts and differ in which parts they ask for.
-/

namespace TableQuery.Decimal

structure Numeral where
  sign : Option Char
  whole : List Char
  /-- The digits after the point, `none` when there is no point. -/
  fraction : Option (List Char)
  /-- The sign and the digits of the exponent, `none` when there is none. -/
  exponent : Option (Option Char × List Char)
deriving DecidableEq

def ofDigits (digits : List Char) : Nat :=
  digits.foldl (fun n c => 10 * n + (c.toNat - '0'.toNat)) 0

def splitSign : List Char → Option Char × List Char
  | '+' :: cs => (some '+', cs)
  | '-' :: cs => (some '-', cs)
  | cs => (none, cs)

/-- Cuts a text into the parts of a numeral.  Any of the digit lists may be empty, but all of the
text has to belong to a part. -/
def Numeral.read? (cs : List Char) : Option Numeral :=
  let (sign, cs) := splitSign cs
  let (whole, cs) := cs.span Char.isDigit
  let (fraction, cs) := match cs with
    | '.' :: rest => let (digits, rest) := rest.span Char.isDigit; (some digits, rest)
    | _ => (none, cs)
  match cs with
  | [] => some ⟨sign, whole, fraction, none⟩
  | mark :: rest =>
    let (exponentSign, digits) := splitSign rest
    if (mark == 'e' || mark == 'E') && digits.all Char.isDigit then
      some ⟨sign, whole, fraction, some (exponentSign, digits)⟩
    else none

def Numeral.isNegative (n : Numeral) : Bool := n.sign == some '-'

def Numeral.exponentValue (n : Numeral) : Int :=
  match n.exponent with
  | none => 0
  | some (sign, digits) => if sign = some '-' then -(ofDigits digits : Int) else ofDigits digits

end TableQuery.Decimal
