import TableQuery.Refusal

/-! # Aggregates

An aggregate is a named function from the cells of a column to one cell.  Most
are computed by an accumulator, a state that takes one cell after the other.
-/

namespace TableQuery

structure Aggregate where
  name : String
  reduce : List Cell → Except Refusal Cell

structure Accumulator (σ : Type) where
  start : σ
  step : σ → Cell → Except Refusal σ
  value : σ → Cell

/-- The value after all cells of a column; the first refused cell refuses the column. -/
def Accumulator.reduce {σ : Type} (acc : Accumulator σ) (cells : List Cell) :
    Except Refusal Cell := do
  return acc.value (← cells.foldlM acc.step acc.start)

def Accumulator.aggregate {σ : Type} (acc : Accumulator σ) (name : String) : Aggregate :=
  ⟨name, acc.reduce⟩

namespace Aggregate

/-- The answers after each further cell, and the last value.  A refused cell is answered with the
refusal and leaves no trace. -/
def answersAfter (a : Aggregate) (accepted : List Cell) :
    List Cell → List (Except Refusal Cell) × Except Refusal Cell
  | [] => ([], a.reduce accepted)
  | cell :: cells =>
    let answer := a.reduce (accepted ++ [cell])
    let (answers, last) := match answer with
      | .ok _ => a.answersAfter (accepted ++ [cell]) cells
      | .error _ => a.answersAfter accepted cells
    (answer :: answers, last)

/-- The value of no cells at all, followed by the answers after each cell, and the last value. -/
def answers (a : Aggregate) (cells : List Cell) :
    List (Except Refusal Cell) × Except Refusal Cell :=
  let (answers, last) := a.answersAfter [] cells
  (a.reduce [] :: answers, last)

end Aggregate

end TableQuery
