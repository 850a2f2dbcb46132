import TableQuery.Refusal

/-! # Parts of statement nodes

How a query reads a node: the name that a column or function holds, the
argument and the heading of a function, the comparison that a filter item
makes, the operands of a connective.  Each part is refused when the children of
the node do not give it.
-/

namespace TableQuery

structure Test (α : Type) where
  operand : Node α
  comparison : Comparison
  literal : String

namespace Node

variable {α : Type}

def malformed (n : Node α) (expected : Expectation) : Refusal := .malformedNode n.label expected

/-- The child with a tag at a position among the children with that tag. -/
def childWith (n : Node α) (tag : Tag) (position : Nat) : Except Refusal (Node α) :=
  match (n.children.filter fun c => c.tag == tag)[position]? with
  | some child => pure child
  | none => throw (.missingChild n.label tag position)

/-- The name of a column or function: the value of its first identifier. -/
def name (n : Node α) : Except Refusal String :=
  match n.children.findSome? identifier? with
  | some value => pure value
  | none => throw (.missingChild n.label .identifier 0)

/-- Whether two nodes make a call: a name, and a column, star or function for an argument. -/
def isCall (name argument : Node α) : Bool := name.tag == .identifier && argument.tag.isExpression

/-- The argument of a function, the one child after its name. -/
def argument (n : Node α) : Except Refusal (Node α) :=
  match n.children with
  | [name, arg] => if isCall name arg then pure arg else throw (n.malformed .call)
  | _ => throw (n.malformed .call)

/-- The heading of a function: its name as written, and the heading of its argument in parentheses.
A column stands for its name, and a star for its text. -/
def heading : Node α → Except Refusal String
  | ⟨mark, kind, children⟩ => do
    let n : Node α := ⟨mark, kind, children⟩
    let name ← n.name
    match children with
    | [first, arg] =>
      if isCall first arg then
        let inner ← match arg.kind with
          | .column => arg.name
          | .star owner => pure (Kind.starText owner)
          | _ => arg.heading
        pure (name ++ "(" ++ inner ++ ")")
      else throw (n.malformed .call)
    | _ => throw (n.malformed .call)

/-- The comparison that a filter item makes: its first child, its first comparator and its first
identifier. -/
def test (n : Node α) : Except Refusal (Test α) :=
  match n.children.head? with
  | none => throw (n.malformed .operand)
  | some operand =>
    if operand.tag.isOperand then
      match n.children.findSome? comparison? with
      | none => throw (.missingChild n.label .comparator 0)
      | some comparison =>
        match n.children.findSome? identifier? with
        | none => throw (.missingChild n.label .identifier 0)
        | some literal => pure ⟨operand, comparison, literal⟩
    else throw (n.malformed .operand)

def operands (n : Node α) (connective : Connective) : Except Refusal (Node α × Node α) :=
  match n.children with
  | [left, right] => pure (left, right)
  | children => throw (.operandCount connective children.length)

/-- The condition that a clause holds; any other node is a condition itself. -/
def conditionOf (clause : Tag) (n : Node α) : Except Refusal (Node α) :=
  if n.tag = clause then
    match n.children.head? with
    | some condition => pure condition
    | none => throw (n.malformed .conditionBelow)
  else pure n

def itemExpression (n : Node α) : Except Refusal (Node α) :=
  match n.children.head? with
  | some expression => pure expression
  | none => throw (n.malformed .expressionBelow)

def alias? (n : Node α) : Option String := n.children[1]?.bind identifier?

end Node

end TableQuery
