import TableQuery.Decimal.Reading
import TableQuery.Statement.Parts

/-! # Conditions

A comparison sets a cell against a literal: a number against the number that
the literal stands for, every other cell by its text.  A condition of a
statement is a formula over comparisons, which is made once and then evaluated
on rows or on groups.
-/

namespace TableQuery

namespace Cell

/-- The order of a cell and a literal.  A number is refused against a literal that is no number,
blanks around it aside; it has no order with a value that is no number.  Texts are ordered by their
code points. -/
def order (cell : Cell) (literal : String) : Except Refusal (Option Ordering) :=
  match cell.number? with
  | some number =>
    match Decimal.float? (Text.trim literal.toList) with
    | some value => pure (Binary64.order number value)
    | none => throw (.literalNotNumeric literal)
  | none => pure (some (compare cell.display literal))

/-- Whether a cell passes a comparison with a literal; an empty cell passes none. -/
def satisfies (cell : Cell) (comparison : Comparison) (literal : String) : Except Refusal Bool :=
  if cell.isNull then pure false
  else return comparison.holds (← cell.order literal)

end Cell

inductive Formula (τ : Type) where
  | test (t : τ)
  | both (left right : Formula τ)
  | either (left right : Formula τ)

def Connective.join {τ : Type} : Connective → Formula τ → Formula τ → Formula τ
  | .and => .both
  | .or => .either

namespace Formula

variable {α τ : Type}

/-- The formula of a condition.  Tests are made from left to right, and the first refusal counts. -/
def ofNode (make : Node α → Except Refusal τ) : Node α → Except Refusal (Formula τ)
  | ⟨mark, kind, children⟩ =>
    let n : Node α := ⟨mark, kind, children⟩
    match kind with
    | .filterItem => do return .test (← make n)
    | .logicalOperation connective =>
      match children with
      | [left, right] => do
        let l ← ofNode make left
        let r ← ofNode make right
        pure (connective.join l r)
      | _ => throw (.operandCount connective children.length)
    | _ => throw (n.malformed .condition)

/-- Whether a formula holds, given what its tests say.  The right side is looked at only if the
left side leaves the answer open. -/
def holds (passes : τ → Except Refusal Bool) : Formula τ → Except Refusal Bool
  | .test t => passes t
  | .both left right => do
    if ← left.holds passes then right.holds passes else pure false
  | .either left right => do
    if ← left.holds passes then pure true else right.holds passes

end Formula

end TableQuery
