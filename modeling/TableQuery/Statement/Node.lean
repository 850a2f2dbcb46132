import TableQuery.Statement.Kind

/-! # Statement trees

A node has a kind and any number of children, and carries a mark: the number it
got when it was appended, or nothing at all.  Everything that a query does with
a statement is defined for nodes with any marks and never looks at them;
`erase` takes the marks away, and `same` is equality of what is left.
-/

namespace TableQuery

/-- A node of a statement tree, with a mark of type `α` on every node. -/
structure Node (α : Type) where
  mark : α
  kind : Kind
  children : List (Node α)

namespace Node

variable {α β : Type}

def tag (n : Node α) : Tag := n.kind.tag

def label (n : Node α) : String := n.kind.label

def identifier? (n : Node α) : Option String :=
  match n.kind with
  | .identifier value => some value
  | _ => none

def comparison? (n : Node α) : Option Comparison :=
  match n.kind with
  | .comparator comparison => some comparison
  | _ => none

def childTags (n : Node α) : List Tag := n.children.map tag

def hasChild (n : Node α) (t : Tag) : Bool := n.children.any fun c => c.tag == t

mutual

def erase : Node α → Node Unit
  | ⟨_, kind, children⟩ => ⟨(), kind, eraseAll children⟩

def eraseAll : List (Node α) → List (Node Unit)
  | [] => []
  | n :: ns => n.erase :: eraseAll ns

end

mutual

/-- Whether two trees are equal up to their marks: the same kinds with the same values, and as many
children, pairwise the same. -/
def same : Node α → Node β → Bool
  | ⟨_, kind, children⟩, ⟨_, kind', children'⟩ => kind == kind' && sameAll children children'

def sameAll : List (Node α) → List (Node β) → Bool
  | [], [] => true
  | n :: ns, m :: ms => n.same m && sameAll ns ms
  | _, _ => false

end

mutual

def size : Node α → Nat
  | ⟨_, _, children⟩ => 1 + sizeAll children

def sizeAll : List (Node α) → Nat
  | [] => 0
  | n :: ns => n.size + sizeAll ns

end

end Node

end TableQuery
