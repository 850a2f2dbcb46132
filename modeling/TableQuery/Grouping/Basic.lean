import TableQuery.Aggregate.Catalog
import TableQuery.Table.Basic

/-! # Groupings

The rows of a table parted by their cells at some positions.  The cells are the
key of the group; keys are equal as cells are, and groups come in the order in
which their keys first occurred.  With no positions, all rows make one group.
-/

namespace TableQuery

abbrev Key := List Cell

abbrev Groups := OrderedMap Key (List Row)

def Row.key (positions : List Nat) (row : Row) : Key := positions.map row.cell

def Groups.add (positions : List Nat) (groups : Groups) (row : Row) : Groups :=
  groups.alter (row.key positions) fun rows => rows.getD [] ++ [row]

def Groups.ofRows (positions : List Nat) (rows : List Row) : Groups :=
  rows.foldl (Groups.add positions) ∅

/-- The groups of a table, with what is needed to evaluate aggregates on them. -/
structure Grouping where
  positions : List Nat
  header : Header
  groups : Groups
  settings : Settings := {}
  catalog : Catalog := .builtin

namespace Grouping

def withSettings (g : Grouping) (settings : Settings) : Grouping := { g with settings }

def withCatalog (g : Grouping) (catalog : Catalog) : Grouping := { g with catalog }

def keyPlace? (g : Grouping) (position : Nat) : Option Nat := g.positions.idxOf? position

end Grouping

namespace Table

/-- The width of the rows; without rows, the least one that takes in all named positions. -/
def width (t : Table) : Nat := (t.rows.head?.map List.length).getD t.header.width

/-- The rows grouped by their cells at some positions, which have to be inside the rows. -/
def groupAt (t : Table) (positions : List Nat) : Except Refusal Grouping :=
  match positions.find? fun position => t.width ≤ position with
  | some position => throw (.invalidTable (.groupingPosition position t.width))
  | none => pure { positions, header := t.header, groups := Groups.ofRows positions t.rows }

def groupBy (t : Table) (names : List String) : Except Refusal Grouping := do
  t.groupAt (← names.mapM t.header.position)

end Table

end TableQuery
