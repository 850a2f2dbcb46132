import TableQuery.Decimal.Numeral

/-! # Numbers in literals

Reading a comparison literal as a float and a row limit as a count.
-/

namespace TableQuery.Decimal

/-- The float nearest to `digits * 10 ^ scale`. -/
def nearest (digits : Nat) (scale : Int) : Float :=
  if 0 ≤ scale then Float.ofScientific digits false scale.toNat
  else Float.ofScientific digits true (-scale).toNat

/-- Reads the words for the values that are no finite number, in any letter case. -/
def word? (cs : List Char) : Option Float :=
  let word := cs.map Char.toLower
  if word = ['n', 'a', 'n'] then some (Float.ofBits 0x7FF8000000000000)
  else if word = ['i', 'n', 'f'] || word = ['i', 'n', 'f', 'i', 'n', 'i', 't', 'y'] then
    some (Float.ofBits 0x7FF0000000000000)
  else none

/-- The float nearest to a numeral, an infinity when it is too large.  There has to be a digit on
one side of the point at least, and one in the exponent if there is an exponent. -/
def Numeral.toFloat? (n : Numeral) : Option Float :=
  let digits := n.whole ++ n.fraction.getD []
  if digits.isEmpty || n.exponent.any fun e => e.2.isEmpty then none
  else some (nearest (ofDigits digits) (n.exponentValue - (n.fraction.getD []).length))

def float? (cs : List Char) : Option Float :=
  let (sign, unsigned) := splitSign cs
  let size := match word? unsigned with
    | some f => some f
    | none => (Numeral.read? cs).bind Numeral.toFloat?
  size.map fun f => if sign = some '-' then -f else f

/-- Reads a count of at most 64 bits: an optional plus sign and at least one digit. -/
def count? (cs : List Char) : Option Nat :=
  let digits := match cs with
    | '+' :: rest => rest
    | _ => cs
  if digits.isEmpty || !digits.all Char.isDigit then none
  else if ofDigits digits < UInt64.size then some (ofDigits digits)
  else none

end TableQuery.Decimal
