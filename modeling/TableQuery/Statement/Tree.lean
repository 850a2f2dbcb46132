import TableQuery.Statement.Node

/-! # Trees under construction

A tree grows by appending a node as the last child of a node that is already
there.  Its nodes are numbered in the order in which they were appended, the
root first, and the number together with the family of the tree is the name by
which a node is referred to.  A copy of a tree stays in its family, so that a
reference is good for all copies that have grown far enough.
-/

namespace TableQuery

/-- A reference to a node: the family of the tree that gave it out, and the number of the node. -/
structure NodeId where
  family : Nat
  index : Nat
deriving DecidableEq

namespace Node

mutual

def find? (index : Nat) : Node Nat → Option (Node Nat)
  | ⟨mark, kind, children⟩ =>
    if mark = index then some ⟨mark, kind, children⟩ else findAmong? index children

def findAmong? (index : Nat) : List (Node Nat) → Option (Node Nat)
  | [] => none
  | n :: ns => (n.find? index).or (findAmong? index ns)

end

mutual

/-- The tree with a new last child under the node with a number. -/
def graft (parent : Nat) (child : Node Nat) : Node Nat → Node Nat
  | ⟨mark, kind, children⟩ =>
    let children := graftAmong parent child children
    ⟨mark, kind, if mark = parent then children ++ [child] else children⟩

def graftAmong (parent : Nat) (child : Node Nat) : List (Node Nat) → List (Node Nat)
  | [] => []
  | n :: ns => graft parent child n :: graftAmong parent child ns

end

end Node

/-- A tree under construction; `size` is the number of the next node. -/
structure Tree where
  family : Nat
  size : Nat
  root : Node Nat

namespace Tree

def new (family : Nat) (kind : Kind) : Tree := ⟨family, 1, ⟨0, kind, []⟩⟩

def rootId (t : Tree) : NodeId := ⟨t.family, 0⟩

/-- The node that a reference points to, if it is a reference to a node of this tree. -/
def find? (t : Tree) (id : NodeId) : Option (Node Nat) :=
  if id.family = t.family then t.root.find? id.index else none

def contains (t : Tree) (id : NodeId) : Bool := (t.find? id).isSome

/-- Appends a node as the last child of a node of this tree; the reference to the new node, and the
tree with it. -/
def append (t : Tree) (parent : Nat) (kind : Kind) : NodeId × Tree :=
  (⟨t.family, t.size⟩, ⟨t.family, t.size + 1, Node.graft parent ⟨t.size, kind, []⟩ t.root⟩)

def append? (t : Tree) (parent : NodeId) (kind : Kind) : Option (NodeId × Tree) :=
  if t.contains parent then some (t.append parent.index kind) else none

end Tree

end TableQuery
