import TableQuery.Grouping.Basic
import TableQuery.Statement.Parts

/-! # Expressions on groups

What a query can read off a group: a cell of its key, or the value of an
aggregate.  Expressions are made from statement nodes before any group is
looked at, so that whether a node makes an expression does not depend on the
rows.
-/

namespace TableQuery

inductive Call where
  /-- Of the numbers from one to the size of the group. -/
  | ofOrdinals (aggregate : Aggregate)
  /-- Of the cells at a position. -/
  | ofColumn (aggregate : Aggregate) (position : Nat)
  /-- Of the one value of another call. -/
  | ofCall (aggregate : Aggregate) (inner : Call)

def Call.evaluate (rows : List Row) : Call → Except Refusal Cell
  | .ofOrdinals a => a.reduce ((List.range' 1 rows.length).map fun n : Nat => Cell.ofInt n)
  | .ofColumn a position => a.reduce (rows.map fun row => row.cell position)
  | .ofCall a inner => do a.reduce [← inner.evaluate rows]

inductive GroupExpression where
  | key (place : Nat)
  | call (c : Call)

def GroupExpression.evaluate (key : Key) (rows : List Row) :
    GroupExpression → Except Refusal Cell
  | .key place => pure (key.getD place .null)
  | .call c => c.evaluate rows

namespace Grouping

variable {α : Type}

/-- The call that a function node makes.  Its argument is looked up before its own name. -/
def call (g : Grouping) : Node α → Except Refusal Call
  | ⟨mark, kind, children⟩ =>
    let n : Node α := ⟨mark, kind, children⟩
    match children with
    | [first, arg] =>
      if Node.isCall first arg then
        match arg.kind with
        | .column => do
          let position ← g.header.position (← arg.name)
          return .ofColumn (← g.catalog.resolve g.settings (← n.name)) position
        | .star _ => return .ofOrdinals (← g.catalog.resolve g.settings (← n.name))
        | _ => do
          let inner ← g.call arg
          return .ofCall (← g.catalog.resolve g.settings (← n.name)) inner
      else throw (n.malformed .call)
    | _ => throw (n.malformed .call)

end Grouping

end TableQuery
