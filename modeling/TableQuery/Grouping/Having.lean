import TableQuery.Condition
import TableQuery.Grouping.Expression
import TableQuery.Sift

/-! # Conditions on groups

A HAVING condition is turned into a formula whose tests read expressions off
groups.  Each side of a connective is evaluated on all groups, and the groups
that are left are then joined as sets: both sides are always evaluated, and the
order of the groups follows the left side.
-/

namespace TableQuery

structure GroupTest where
  operand : GroupExpression
  comparison : Comparison
  literal : String

def GroupTest.passes (t : GroupTest) (group : Key × List Row) : Except Refusal Bool := do
  let cell ← t.operand.evaluate group.1 group.2
  cell.satisfies t.comparison t.literal

def Groups.sift (groups : Groups) (passes : Key × List Row → Except Refusal Bool) :
    Except Refusal Groups :=
  match sifted : TableQuery.sift passes groups.entries with
  | .ok entries => pure ⟨entries, groups.distinct.sublist (sublist_of_sift sifted)⟩
  | .error refusal => throw refusal

/-- The groups for which a formula holds, found by sets. -/
def Groups.satisfying (groups : Groups) : Formula GroupTest → Except Refusal Groups
  | .test t => groups.sift t.passes
  | .both left right => do
    let l ← groups.satisfying left
    let r ← groups.satisfying right
    pure (l.inter r)
  | .either left right => do
    let l ← groups.satisfying left
    let r ← groups.satisfying right
    pure (l.union r)

namespace Grouping

variable {α : Type}

/-- The expression that an operand stands for.  A column has to be grouped by. -/
def operand (g : Grouping) (n : Node α) : Except Refusal GroupExpression :=
  if n.tag = .function then do return .call (← g.call n)
  else do
    let name ← n.name
    match (g.header.column? name).bind fun column => g.keyPlace? column.2 with
    | some place => pure (.key place)
    | none => throw (.notGrouped name)

def groupTest (g : Grouping) (n : Node α) : Except Refusal GroupTest := do
  let test ← n.test
  let operand ← g.operand test.operand
  pure ⟨operand, test.comparison, Text.unquote g.settings.literalQuotes test.literal⟩

/-- The groups that satisfy the condition of a HAVING clause, or the condition itself. -/
def having (g : Grouping) (clause : Node α) : Except Refusal Grouping := do
  let condition ← clause.conditionOf .havingClause
  let formula ← Formula.ofNode g.groupTest condition
  return { g with groups := ← g.groups.satisfying formula }

end Grouping

end TableQuery
