import TableQuery.Aggregate.Basic

/-! # Built-in aggregates

`count` counts all cells; the others pass over empty cells and are empty
themselves when nothing is left.  `sum` and `avg` take numbers only; `min` and
`max` take numbers or texts, but not both.
-/

namespace TableQuery.Aggregate

def count : Aggregate :=
  Accumulator.aggregate { start := 0, step := fun n _ => pure (n + 1), value := Cell.ofInt } "count"

/-- A sum so far: of nothing, exact, or rounded. -/
inductive Total where
  | none
  | exact (sum : Int64)
  | rounded (sum : Float)

/-- Adds two integers; a sum beyond 64 bits is rounded. -/
def Total.addExact (i j : Int64) : Total :=
  let sum := i.toInt + j.toInt
  if Cell.IsInt sum then .exact (Int64.ofInt sum)
  else .rounded (Binary64.ofInt64 i + Binary64.ofInt64 j)

/-- Adds a cell to a sum.  A sum is rounded from its first float on. -/
def Total.add : Total → Cell → Except Refusal Total
  | total, .null => pure total
  | .none, .int i => pure (.exact i)
  | .none, .float f => pure (.rounded f)
  | .exact sum, .int i => pure (addExact sum i)
  | .exact sum, .float f => pure (.rounded (Binary64.ofInt64 sum + f))
  | .rounded sum, .int i => pure (.rounded (sum + Binary64.ofInt64 i))
  | .rounded sum, .float f => pure (.rounded (sum + f))
  | _, .text s => throw (.notNumeric "sum" (.text s))

def Total.cell : Total → Cell
  | .none => .null
  | .exact sum => .int sum
  | .rounded sum => .float sum

def sum : Aggregate :=
  Accumulator.aggregate { start := Total.none, step := Total.add, value := Total.cell } "sum"

/-- The numbers so far, as their rounded sum and their count.  The count has no bound, since no
column is long enough to take a count of 64 bits past its end. -/
structure Mean where
  sum : Float
  count : Nat

def Mean.add (m : Mean) (cell : Cell) : Except Refusal Mean :=
  match cell with
  | .null => pure m
  | .int i => pure ⟨m.sum + Binary64.ofInt64 i, m.count + 1⟩
  | .float f => pure ⟨m.sum + f, m.count + 1⟩
  | .text s => throw (.notNumeric "avg" (.text s))

def Mean.cell (m : Mean) : Cell :=
  if m.count = 0 then .null else .float (m.sum / Binary64.ofInt64 (Int64.ofNat m.count))

def avg : Aggregate :=
  Accumulator.aggregate { start := Mean.mk 0 0, step := Mean.add, value := Mean.cell } "avg"

inductive Extreme where
  | least | greatest
deriving DecidableEq

namespace Extreme

def name : Extreme → String
  | .least => "min"
  | .greatest => "max"

/-- Whether a candidate beats the present cell, given how the present cell compares with it. -/
def beats : Extreme → Ordering → Bool
  | .least, o => o == .gt
  | .greatest, o => o == .lt

/-- How two cells compare: texts with texts, numbers with numbers, where a value that is no number
counts as equal to all. -/
def order? : Cell → Cell → Option Ordering
  | .text s, .text t => some (compare s t)
  | a, b =>
    match a.number?, b.number? with
    | some x, some y => some ((Binary64.order x y).getD .eq)
    | _, _ => none

/-- Takes a cell into account.  Of cells that compare as equal, the first one stays. -/
def add (e : Extreme) (present : Option Cell) (cell : Cell) : Except Refusal (Option Cell) :=
  if cell.isNull then pure present
  else match present with
    | none => pure (some cell)
    | some best =>
      match order? best cell with
      | some o => pure (some (if e.beats o then cell else best))
      | none => throw (.notNumeric e.name cell)

def aggregate (e : Extreme) : Aggregate :=
  Accumulator.aggregate { start := none, step := e.add, value := fun c => c.getD .null } e.name

end Extreme

def min : Aggregate := Extreme.least.aggregate

def max : Aggregate := Extreme.greatest.aggregate

end TableQuery.Aggregate
