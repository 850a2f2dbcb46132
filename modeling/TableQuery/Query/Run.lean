import TableQuery.Grouping.Having
import TableQuery.Grouping.Select
import TableQuery.Query.Basic
import TableQuery.Table.Filter

/-! # Running queries

A query is run on a table clause by clause: WHERE, the aliases of the selected
items, GROUP BY, HAVING and SELECT.  Sorting and the limit are left to whoever
asked.
-/

namespace TableQuery

namespace Node

variable {α : Type}

/-- The alias that a selected item adds to a table, with the name that it stands for: the column of
the table behind the name of a column, or the heading of a function. -/
def itemAlias (header : Header) (item : Node α) : Except Refusal (Option (String × String)) :=
  match item.alias? with
  | none => pure none
  | some added => do
    let expression ← item.itemExpression
    match expression.kind with
    | .column =>
      let name ← expression.name
      pure (some (added, ((header.column? name).map (·.1)).getD name))
    | .function => return some (added, ← expression.heading)
    | _ => pure none

/-- A table with the aliases of the selected items added to its own; later ones win. -/
def addAliases (items : List (Node α)) (t : Table) : Except Refusal Table := do
  let added ← items.mapM fun item => item.itemAlias t.header
  pure (t.withAliases ((added.filterMap id).foldl (fun m e => m.insert e.1 e.2) t.header.aliases))

def selectsFunction (item : Node α) : Bool :=
  item.children.head?.any fun expression => expression.tag == .function

/-- Whether a query forms groups: by clause, or because it selects a function. -/
def isGrouped (n : Node α) (items : List (Node α)) : Bool :=
  (n.clause? .groupByClause).isSome || (n.clause? .havingClause).isSome
    || items.any selectsFunction

def groupPositions (n : Node α) (header : Header) : Except Refusal (List Nat) :=
  match n.clause? .groupByClause with
  | some clause => clause.children.mapM fun column => do header.position (← column.name)
  | none => pure []

def selectGroups (n : Node α) (items : List (Node α)) (settings : Settings) (catalog : Catalog)
    (t : Table) : Except Refusal Table := do
  let positions ← n.groupPositions t.header
  let groups := { ← t.groupAt positions with settings, catalog }
  let groups ← match n.clause? .havingClause with
    | some clause => groups.having clause
    | none => pure groups
  groups.select items

def selectedNames (header : Header) (item : Node α) : Except Refusal (List String) := do
  let expression ← item.itemExpression
  match expression.kind with
  | .star _ => pure header.names
  | _ => return [← expression.name]

def selectRows (items : List (Node α)) (t : Table) : Except Refusal Table := do
  let names ← items.mapM (selectedNames t.header)
  t.project names.flatten

def run (n : Node α) (settings : Settings) (catalog : Catalog) (t : Table) :
    Except Refusal Table := do
  n.validate
  let items ← n.selectItems
  let t ← match n.clause? .whereClause with
    | some clause => t.filterBy settings clause
    | none => pure t
  let t ← addAliases items t
  if n.isGrouped items then n.selectGroups items settings catalog t else selectRows items t

end Node

def Query.run (q : Query) (settings : Settings) (catalog : Catalog) (t : Table) :
    Except Refusal Table :=
  q.root.run settings catalog t

end TableQuery
