import TableQuery.Refusal

/-! # Several trees under construction

A forest holds the trees that have been started or copied so far, and gives
each new tree a family of its own.
-/

namespace TableQuery

namespace Tree

def node (t : Tree) (id : NodeId) : Except Refusal (Node Nat) :=
  match t.find? id with
  | some n => pure n
  | none => throw (.unknownNode id)

def appendBelow (t : Tree) (parent : NodeId) (kind : Kind) : Except Refusal (NodeId × Tree) :=
  match t.append? parent kind with
  | some grown => pure grown
  | none => throw (.unknownNode parent)

end Tree

/-- The trees in order of their start, and the number of families so far. -/
structure Forest where
  trees : List Tree := []
  families : Nat := 0

namespace Forest

def empty : Forest := {}

def plant (f : Forest) (kind : Kind) : NodeId × Forest :=
  let tree := Tree.new f.families kind
  (tree.rootId, ⟨f.trees ++ [tree], f.families + 1⟩)

/-- Copies a tree; the copy belongs to the same family. -/
def copy (f : Forest) (tree : Nat) : Forest :=
  { f with trees := f.trees ++ (f.trees[tree]?).toList }

/-- Appends a node to one of the trees; no other tree changes. -/
def append (f : Forest) (tree : Nat) (parent : NodeId) (kind : Kind) :
    Option (Except Refusal (NodeId × Forest)) :=
  (f.trees[tree]?).map fun t =>
    (t.appendBelow parent kind).map fun (id, t) => (id, { f with trees := f.trees.set tree t })

end Forest

end TableQuery
