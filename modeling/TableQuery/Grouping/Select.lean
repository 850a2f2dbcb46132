import TableQuery.Grouping.Expression

/-! # Selecting from groups

Every group gives one row, with a cell for each selected item.
-/

namespace TableQuery.Grouping

variable {α : Type}

/-- A selected item: the name of its column, and what is read off each group. -/
structure Item where
  name : String
  expression : GroupExpression

/-- The item that a node selects.  A column has to be grouped by, and is named as in the table; a
function is named by its heading; a star is no item. -/
def item (g : Grouping) (n : Node α) : Except Refusal Item := do
  let expression ← if n.tag = .selectItem then n.itemExpression else pure n
  match expression.kind with
  | .column =>
    let name ← expression.name
    let (column, position) ← g.header.column name
    match g.keyPlace? position with
    | some place => pure ⟨column, .key place⟩
    | none => throw (.notGrouped name)
  | .function =>
    let heading ← expression.heading
    pure ⟨heading, .call (← g.call expression)⟩
  | .star _ => throw (.notGrouped (Kind.starText none))
  | _ => throw (expression.malformed .expression)

def row (items : List Item) (key : Key) (rows : List Row) : Except Refusal Row :=
  items.mapM fun item => item.expression.evaluate key rows

/-- The table of the selected items, with a row for every group. -/
def select (g : Grouping) (nodes : List (Node α)) : Except Refusal Table := do
  let items ← nodes.mapM g.item
  let rows ← g.groups.entries.mapM fun (key, rows) => row items key rows
  Table.ofRows (Header.ofNamesFirst (items.map (·.name)) g.header.aliases) rows

end TableQuery.Grouping
