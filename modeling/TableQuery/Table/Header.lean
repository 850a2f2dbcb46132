import TableQuery.OrderedMap
import TableQuery.Refusal

/-! # Headers

A header names positions of a row.  A name that is no column may be an alias,
which stands for the column that it names; the name behind an alias is not
looked up as an alias again.
-/

namespace TableQuery

abbrev Aliases := OrderedMap String String

structure Header where
  columns : OrderedMap String Nat
  aliases : Aliases

namespace Header

/-- The columns numbered in order; a repeated name is refused. -/
def ofNames (names : List String) (aliases : Aliases) : Except Refusal Header := do
  let columns ← names.zipIdx.foldlM (fun columns (name, position) =>
    if columns.contains name then throw (.invalidTable (.duplicateColumn name))
    else pure (columns.insert name position)) (∅ : OrderedMap String Nat)
  pure ⟨columns, aliases⟩

/-- The columns numbered in order; a repeated name keeps its first position. -/
def ofNamesFirst (names : List String) (aliases : Aliases) : Header :=
  ⟨OrderedMap.ofListFirst names.zipIdx, aliases⟩

/-- The columns at given positions; a repeated name takes its last position. -/
def ofPositions (positions : List (String × Nat)) (aliases : Aliases) : Header :=
  ⟨OrderedMap.ofList positions, aliases⟩

/-- The column that a name stands for, with its position: the column of this name, and otherwise
the column that the alias of this name names. -/
def column? (h : Header) (name : String) : Option (String × Nat) :=
  (h.columns.find? name).or ((h.aliases.get? name).bind h.columns.find?)

def column (h : Header) (name : String) : Except Refusal (String × Nat) :=
  match h.column? name with
  | some column => pure column
  | none => throw (.columnNotFound name)

def position (h : Header) (name : String) : Except Refusal Nat := return (← h.column name).2

/-- The names in the order of their positions; of names for one position, the earlier column comes
first. -/
def names (h : Header) : List String :=
  (h.columns.entries.mergeSort fun a b => a.2 ≤ b.2).map (·.1)

/-- The least width of a row that has all named positions. -/
def width (h : Header) : Nat := h.columns.values.foldl (fun w position => max w (position + 1)) 0

/-- Whether two headers have the same columns and aliases, in any order. -/
def same (h k : Header) : Bool :=
  h.columns.sameEntries k.columns && h.aliases.sameEntries k.aliases

end Header

end TableQuery
