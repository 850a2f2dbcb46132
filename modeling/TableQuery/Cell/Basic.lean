import TableQuery.Binary64
import TableQuery.Decimal.Style

/-! # Cells

A cell holds an integer of 64 bits, a float, a text, or nothing.  Cells are
equal within one kind only: a number is never equal to a text, and an integer
never to a float.  Floats are equal as `Binary64.same` says, so that every cell
is equal to itself and cells can be keys.
-/

namespace TableQuery

inductive Cell where
  | int (value : Int64)
  | float (value : Float)
  | text (value : String)
  | null

namespace Cell

def same : Cell → Cell → Bool
  | .int i, .int j => i == j
  | .float x, .float y => Binary64.same x y
  | .text s, .text t => s == t
  | .null, .null => true
  | _, _ => false

instance : BEq Cell := ⟨same⟩

def isNull : Cell → Bool
  | .null => true
  | _ => false

/-- The number in a cell as a float, the nearest one for an integer. -/
def number? : Cell → Option Float
  | .int i => some (Binary64.ofInt64 i)
  | .float f => some f
  | _ => none

def isNumeric (c : Cell) : Bool := c.number?.isSome

/-- The integers that a cell can hold. -/
def IsInt (i : Int) : Prop := -0x8000000000000000 ≤ i ∧ i < 0x8000000000000000

instance (i : Int) : Decidable (IsInt i) := inferInstanceAs (Decidable (_ ∧ _))

/-- The cell of an integer, reduced to 64 bits. -/
def ofInt (i : Int) : Cell := .int (Int64.ofInt i)

/-- Floats in cells are written without an exponent, and whole numbers without a point. -/
def floatStyle : Decimal.Style where
  tie := .away
  isPlain _ := true
  wholeMark := []
  notANumber := ['N', 'a', 'N']
  infinite := ['i', 'n', 'f']

def display : Cell → String
  | .int i => toString i.toInt
  | .float f => floatStyle.write f
  | .text s => s
  | .null => "NULL"

end Cell

abbrev Row := List Cell

/-- The cell at a position; a row is empty beyond its end. -/
def Row.cell (row : Row) (position : Nat) : Cell := row.getD position .null

end TableQuery
