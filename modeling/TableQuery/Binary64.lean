/-! # Floats as points on a line

A float is read through its 64 bits, a sign and a magnitude.  The `rank` of a
float is its magnitude taken with its sign: an integer that grows with the
number, is `0` for both zeros and is missing for the values that are no
numbers.  Order and sameness of floats are those of their ranks, so that facts
about them are facts about integers.
-/

namespace TableQuery.Binary64

def signBit : Nat := 0x8000000000000000

/-- The bit of a significand that an encoding leaves out, one place above the fraction. -/
def leadingBit : Nat := 0x10000000000000

/-- The magnitude of the two infinities; the magnitudes above it encode no number. -/
def infinity : Nat := 0x7FF0000000000000

def magnitude (f : Float) : Nat := f.toBits.toNat % signBit

def isNegative (f : Float) : Bool := signBit ≤ f.toBits.toNat

/-- The place of a float in the order of the numbers, with both zeros at `0`; `none` for what is
not a number. -/
def rank (f : Float) : Option Int :=
  if infinity < magnitude f then none
  else if isNegative f then some (-(magnitude f : Int))
  else some (magnitude f)

def order (x y : Float) : Option Ordering :=
  match rank x, rank y with
  | some m, some n => some (compare m n)
  | _, _ => none

/-- Sameness of floats as keys: both zeros are one key, and so are all values that are no
numbers. -/
def same (x y : Float) : Bool := rank x == rank y

/-- The float nearest to an integer, the one with the even significand of two equally near. -/
def ofInt64 (i : Int64) : Float := Float.ofModel (.ofInt64 i)

/-- A number as `m * 2 ^ q` with whole `m` and `q`, from the magnitude of a finite float. -/
def scaled (magnitude : Nat) : Nat × Int :=
  let exponent : Nat := magnitude / leadingBit
  let fraction : Nat := magnitude % leadingBit
  if exponent = 0 then (fraction, -1074) else (leadingBit + fraction, (exponent : Int) - 1075)

end TableQuery.Binary64
