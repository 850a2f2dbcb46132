import TableQuery.Statement.Node

/-! # Texts of statement trees

Two texts show a tree by its labels: an outline, with one line for every node,
and a nested form on one line.
-/

namespace TableQuery.Node

variable {α : Type}

mutual

/-- The lines of a tree at a depth: every node on a line of its own, indented by twice its depth,
with its children after it. -/
def outlineAt (depth : Nat) : Node α → List String
  | ⟨_, kind, children⟩ =>
    (String.ofList (List.replicate (2 * depth) ' ') ++ kind.label)
      :: outlineAllAt (depth + 1) children

def outlineAllAt (depth : Nat) : List (Node α) → List String
  | [] => []
  | n :: ns => n.outlineAt depth ++ outlineAllAt depth ns

end

def outline (n : Node α) : String := String.join ((n.outlineAt 0).map (· ++ "\n"))

mutual

/-- The label of a node, with the nested forms of its children in brackets if it has any; after an
empty label, a comma follows the brackets. -/
def nested : Node α → String
  | ⟨_, kind, []⟩ => kind.label
  | ⟨_, kind, child :: children⟩ =>
    kind.label ++ "([" ++ ", ".intercalate (child.nested :: nestedAll children)
      ++ (if kind.label.isEmpty then "],)" else "])")

def nestedAll : List (Node α) → List String
  | [] => []
  | n :: ns => n.nested :: nestedAll ns

end

end TableQuery.Node
