import TableQuery.Statement.Grammar

/-! # Queries

A query is a statement tree with a name.  Its clauses are the children of the
root, found by their tags.  A query need not be well formed: whether it is, is
asked when it is built or run.
-/

namespace TableQuery

namespace Node

variable {α : Type}

/-- The first clause with a tag. -/
def clause? (n : Node α) (tag : Tag) : Option (Node α) := n.children.find? fun c => c.tag == tag

def selectItems (n : Node α) : Except Refusal (List (Node α)) :=
  return (← n.childWith .selectClause 0).children

/-- The greatest number of rows that the query asks for, if its limit is a count. -/
def limit? (n : Node α) : Option Nat :=
  (n.clause? .limitClause).bind fun limit => limit.children.head?.bind count?

end Node

structure Query where
  name : String
  tree : Tree

namespace Query

def root (q : Query) : Node Nat := q.tree.root

/-- Whether two queries have the same statement, whatever their names and the order in which their
nodes were appended. -/
def same (q r : Query) : Bool := q.root.same r.root

end Query

end TableQuery
