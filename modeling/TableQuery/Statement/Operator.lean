import TableQuery.Text

/-! # Operators of a statement

Comparisons, the two connectives that join conditions, and sorting directions,
each with the code that names it in a statement.
-/

namespace TableQuery

inductive Comparison where
  | eq | ne | gt | ge | lt | le
deriving DecidableEq

namespace Comparison

def all : List Comparison := [.eq, .ne, .gt, .ge, .lt, .le]

/-- Whether a comparison holds of two things in the given order.  Two things without an order
differ, and nothing else holds of them. -/
def holds : Comparison → Option Ordering → Bool
  | .eq, some o => o.isEq
  | .ne, some o => o.isNe
  | .gt, some o => o.isGT
  | .ge, some o => o.isGE
  | .lt, some o => o.isLT
  | .le, some o => o.isLE
  | .ne, none => true
  | _, none => false

def code : Comparison → String
  | .eq => "EQ"
  | .ne => "NEQ"
  | .gt => "GT"
  | .ge => "GTE"
  | .lt => "LT"
  | .le => "LTE"

def symbol : Comparison → String
  | .eq => "="
  | .ne => "<>"
  | .gt => ">"
  | .ge => ">="
  | .lt => "<"
  | .le => "<="

def ofCode? (code : String) : Option Comparison := all.find? fun c => c.code == code

/-- The comparison with a sign, which may stand between blanks.  Equality may be doubled, and
inequality written with an exclamation mark. -/
def ofSymbol? (text : String) : Option Comparison :=
  let sign := Text.trim text.toList
  if sign = ['=', '='] then some .eq
  else if sign = ['!', '='] then some .ne
  else all.find? fun c => c.symbol.toList == sign

def describe (c : Comparison) : String := "ComparisonOperator(" ++ c.code ++ ")"

def unknownSymbol (text : String) : String := "Invalid comparison operator: '" ++ text ++ "'"

end Comparison

inductive Connective where
  | and | or
deriving DecidableEq

def Connective.code : Connective → String
  | .and => "AND"
  | .or => "OR"

def Connective.ofCode? (code : String) : Option Connective :=
  [Connective.and, .or].find? fun c => c.code == code

inductive Direction where
  | ascending | descending
deriving DecidableEq

def Direction.code : Direction → String
  | .ascending => "ASC"
  | .descending => "DESC"

def Direction.ofCode? (code : String) : Option Direction :=
  [Direction.ascending, .descending].find? fun d => d.code == code

end TableQuery
