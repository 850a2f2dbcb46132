import TableQuery.Decimal.Shortest

/-! # Written floats

A `Style` holds the choices that one output format makes when it writes a
float: when a number is written without an exponent, what follows a whole
number, and how the values that are no numbers read.  `Style.write` is the one
writer for all styles.
-/

namespace TableQuery.Decimal

structure Style where
  tie : Tie
  /-- Whether a number whose leading digit counts `10 ^ place` is written without an exponent. -/
  isPlain : Int → Bool
  /-- What follows the digits of a whole number written without an exponent. -/
  wholeMark : List Char
  notANumber : List Char
  infinite : List Char

def digitsOf (n : Nat) : List Char := Nat.toDigits 10 n

def Style.plain (style : Style) (digits : List Char) (scale : Int) : List Char :=
  let split := scale + digits.length
  if 0 ≤ scale then digits ++ List.replicate scale.toNat '0' ++ style.wholeMark
  else if 0 < split then digits.take split.toNat ++ '.' :: digits.drop split.toNat
  else '0' :: '.' :: List.replicate (-split).toNat '0' ++ digits

def withExponent (digits : List Char) (place : Int) : List Char :=
  let significand := match digits with
    | first :: second :: rest => first :: '.' :: second :: rest
    | _ => digits
  significand ++ 'e' :: (if place < 0 then '-' else '+') :: digitsOf place.natAbs

def Style.write (style : Style) (f : Float) : String :=
  let magnitude := Binary64.magnitude f
  let unsigned :=
    if magnitude = Binary64.infinity then style.infinite
    else if magnitude = 0 then '0' :: style.wholeMark
    else
      let (m, q) := Binary64.scaled magnitude
      let ⟨n, scale⟩ := shortest style.tie m q
      let digits := digitsOf n
      let place := scale + digits.length - 1
      if style.isPlain place then style.plain digits scale else withExponent digits place
  if Binary64.infinity < magnitude then String.ofList style.notANumber
  else String.ofList (if Binary64.isNegative f then '-' :: unsigned else unsigned)

end TableQuery.Decimal
