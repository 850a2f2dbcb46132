import TableQuery.Condition
import TableQuery.Settings
import TableQuery.Sift
import TableQuery.Table.Basic
import TableQuery.Text

/-! # Conditions on rows

A WHERE condition is turned into a formula whose tests know the positions that
they read, and then tried on every row.  It compares columns only, since rows
have no aggregates.
-/

namespace TableQuery

structure RowTest where
  position : Nat
  comparison : Comparison
  literal : String

def RowTest.passes (row : Row) (t : RowTest) : Except Refusal Bool :=
  (row.cell t.position).satisfies t.comparison t.literal

namespace Table

variable {α : Type}

def rowTest (header : Header) (settings : Settings) (n : Node α) : Except Refusal RowTest := do
  let test ← n.test
  if test.operand.tag = .column then
    let position ← header.position (← test.operand.name)
    pure ⟨position, test.comparison, Text.unquote settings.literalQuotes test.literal⟩
  else throw (n.malformed .columnOperand)

def keep (t : Table) (formula : Formula RowTest) : Except Refusal Table :=
  match sifted : sift (fun row => formula.holds (RowTest.passes row)) t.rows with
  | .ok rows => pure ⟨t.header, rows, t.fits.of_subset (sublist_of_sift sifted).subset⟩
  | .error refusal => throw refusal

/-- The rows that satisfy the condition of a WHERE clause, or the condition itself. -/
def filterBy (t : Table) (settings : Settings) (clause : Node α) : Except Refusal Table := do
  let condition ← clause.conditionOf .whereClause
  let formula ← Formula.ofNode (rowTest t.header settings) condition
  t.keep formula

end Table

end TableQuery
