import TableQuery.Aggregate.Builtin
import TableQuery.OrderedMap
import TableQuery.Settings
import TableQuery.Text

/-! # Catalogs of aggregates

A catalog finds aggregates by name.  It files them under their names in lower
case, and a query's settings say whether the name it asks for is put into lower
case as well.
-/

namespace TableQuery

/-- A name with the letters of the Latin alphabet in lower case; other letters stay. -/
def foldCase (name : String) : String := String.ofList (name.toList.map Char.toLower)

/-- Aggregates under their folded names. -/
structure Catalog where
  aggregates : OrderedMap String Aggregate

namespace Catalog

def empty : Catalog := ⟨∅⟩

/-- Files an aggregate, in place of an earlier one with the same folded name. -/
def register (c : Catalog) (a : Aggregate) : Catalog :=
  ⟨c.aggregates.insert (foldCase a.name) a⟩

def ofList (aggregates : List Aggregate) : Catalog := aggregates.foldl register empty

def builtin : Catalog := ofList [.count, .sum, .avg, .min, .max]

def get? (c : Catalog) (name : String) : Option Aggregate := c.aggregates.get? name

def resolve (c : Catalog) (settings : Settings) (name : String) : Except Refusal Aggregate :=
  match c.get? (if settings.foldFunctionNames then foldCase name else name) with
  | some a => pure a
  | none => throw (.unknownFunction name)

/-- The folded names in alphabetical order. -/
def names (c : Catalog) : List String := c.aggregates.keys.mergeSort fun a b => a ≤ b

def describe (c : Catalog) : String :=
  "AggregateRegistry \x7b functions: [" ++ ", ".intercalate (c.names.map Text.quoted) ++ "] \x7d"

end Catalog

end TableQuery
