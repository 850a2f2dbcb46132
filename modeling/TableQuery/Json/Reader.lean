import TableQuery.Decimal.Reading
import TableQuery.Json.Basic
import TableQuery.Json.Term

/-! # Values of JSON documents

Numbers, texts and objects of a document get their values.  A number is refused
when it is too large for a float, and a text when it holds half of a surrogate
pair.
-/

namespace TableQuery.Json

open Decimal (Numeral)

/-- The characters of a text: a high and a low surrogate unit in a row make one character, and
neither may stand alone. -/
def characters? : List Piece → Option (List Char)
  | [] => some []
  | .char c :: rest => (characters? rest).map (c :: ·)
  | .unit value :: rest =>
    if 0xD800 ≤ value ∧ value < 0xDC00 then
      match rest with
      | .unit low :: rest =>
        if 0xDC00 ≤ low ∧ low < 0xE000 then
          let c := Char.ofNat (0x10000 + (value - 0xD800) * 0x400 + (low - 0xDC00))
          (characters? rest).map (c :: ·)
        else none
      | _ => none
    else if 0xDC00 ≤ value ∧ value < 0xE000 then none
    else (characters? rest).map (Char.ofNat value :: ·)

def text? (pieces : List Piece) : Option String := (characters? pieces).map String.ofList

/-- Appends digits to a number of 64 bits as long as it stays one; the number, and how many digits
were left over. -/
def accumulate (n : Nat) : List Char → Nat × Nat
  | [] => (n, 0)
  | d :: ds =>
    let longer := 10 * n + (d.toNat - '0'.toNat)
    if longer < UInt64.size then accumulate longer ds else (n, ds.length + 1)

/-- A significand of 64 bits times a power of ten, rounded once for the significand, once for
the power and once for every scaling by at most 308 places; `none` when it is too large. -/
def scale? (significand : Nat) (exponent : Int) : Option Float :=
  let f := significand.toUInt64.toFloat
  let power (places : Int) : Float := Decimal.nearest 1 places
  if 308 < exponent then if significand = 0 then some f else none
  else if 0 ≤ exponent then
    let scaled := f * power exponent
    if scaled.isInf then none else some scaled
  else if -308 ≤ exponent then some (f / power (-exponent))
  else if -616 ≤ exponent then some (f / power 308 / power (-exponent - 308))
  else some (Float.ofBits 0)

/-- The value of a number.  Digits before the point that a significand of 64 bits cannot take count
as places; digits after the point that it cannot take are dropped. -/
def number? (n : Numeral) : Option Json :=
  let (whole, places) := accumulate 0 n.whole
  if n.fraction.isNone && n.exponent.isNone && places == 0 then
    if !n.isNegative then some (.integer whole)
    else if 0 < whole && whole ≤ 0x8000000000000000 then some (.integer (-whole))
    else some (.float (-whole.toUInt64.toFloat))
  else
    let fraction := n.fraction.getD []
    let (significand, dropped) := accumulate whole fraction
    let taken := fraction.length - dropped
    (scale? significand (places - taken + n.exponentValue)).map fun f =>
      .float (if n.isNegative then -f else f)

mutual

def Term.value? : Term → Option Json
  | .null => some .null
  | .bool b => some (.bool b)
  | .number n => number? n
  | .text pieces => (text? pieces).map .text
  | .array items => (Term.values? items).map .array
  | .object fields => (Term.fields? fields).map fun fs => .object (sortFields fs)

def Term.values? : List Term → Option (List Json)
  | [] => some []
  | t :: ts => do
    let v ← t.value?
    let vs ← Term.values? ts
    pure (v :: vs)

def Term.fields? : List (List Piece × Term) → Option (List (String × Json))
  | [] => some []
  | (name, t) :: fields => do
    let n ← text? name
    let v ← t.value?
    let rest ← Term.fields? fields
    pure ((n, v) :: rest)

end

def read? (text : String) : Option Json := (Term.read? text.toList).bind Term.value?

end TableQuery.Json
