import TableQuery.Decimal.Reading
import TableQuery.Statement.Parts

/-! # The grammar of statements

Which children a node of each kind may have.  `validate` checks a whole tree,
every node before its children and children from left to right, and reports the
first node whose children have the wrong shape.
-/

namespace TableQuery

/-- Whether there is a tag at all and every tag is one of some. -/
def someOf (allowed : Tag → Bool) (tags : List Tag) : Bool := !tags.isEmpty && tags.all allowed

/-- Whether tags begin with one of some, with nothing but an identifier after it. -/
def thenAlias (allowed : Tag → Bool) : List Tag → Bool
  | [t] | [t, .identifier] => allowed t
  | _ => false

def Tag.clausePlace? : Tag → Option Nat
  | .selectClause => some 0
  | .fromItem => some 1
  | .whereClause => some 2
  | .groupByClause => some 3
  | .havingClause => some 4
  | .orderByClause => some 5
  | .limitClause => some 6
  | _ => none

/-- Whether tags are clauses whose places rise, all of them above a place. -/
def clausesAbove (place : Nat) : List Tag → Bool
  | [] => true
  | t :: ts =>
    match t.clausePlace? with
    | some p => place < p && clausesAbove p ts
    | none => false

def Node.count? {α : Type} (n : Node α) : Option Nat :=
  n.identifier?.bind fun value => Decimal.count? (Text.trim value.toList)

/-- Whether the children of a limit are a single identifier that is a count. -/
def isLimit {α : Type} : List (Node α) → Bool
  | [n] => n.count?.isSome
  | _ => false

namespace Node

variable {α : Type}

/-- What the children of a node fail to be. -/
def fault? (n : Node α) : Option Expectation :=
  let tags := n.childTags
  let check (holds : Bool) (shape : Shape) : Option Expectation :=
    if holds then none else some (.children shape tags)
  match n.kind with
  | .query =>
    match tags with
    | .selectClause :: rest => check (clausesAbove 0 rest) .clauseOrder
    | _ => check false .leadingSelect
  | .selectClause => check (someOf (· == .selectItem) tags) .selectItems
  | .selectItem => check (thenAlias Tag.isExpression tags) .selectItem
  | .column | .table => check (tags == [.identifier]) .named
  | .function =>
    match tags with
    | [.identifier, arg] => check arg.isExpression .call
    | _ => check false .call
  | .identifier _ | .star _ | .orderingDirection _ => check tags.isEmpty .leaf
  | .comparator _ => check (tags.isEmpty || tags == [.identifier]) .comparator
  | .filterItem =>
    match tags with
    | [operand, .comparator, .identifier] => check operand.isOperand .filterItem
    | _ => check false .filterItem
  | .logicalOperation _ =>
    if tags.length = 2 then check (tags.all Tag.isCondition) .operands
    else some (.twoOperands tags.length)
  | .whereClause | .havingClause =>
    match tags with
    | [condition] => check condition.isCondition .condition
    | _ => check false .condition
  | .fromItem => check (thenAlias (· == .table) tags) .source
  | .groupByClause => check (someOf (· == .column) tags) .groupColumns
  | .orderByClause => check (someOf (· == .orderItem) tags) .sortItems
  | .orderItem =>
    match tags with
    | [operand] | [.orderingDirection, operand] => check operand.isOperand .sortItem
    | _ => check false .sortItem
  | .limitClause => check (isLimit n.children) .limit

mutual

/-- Refuses the first node of a tree whose children have the wrong shape. -/
def validate : Node α → Except Refusal Unit
  | ⟨mark, kind, children⟩ =>
    let n : Node α := ⟨mark, kind, children⟩
    match n.fault? with
    | some expected => throw (n.malformed expected)
    | none => validateAll children

def validateAll : List (Node α) → Except Refusal Unit
  | [] => pure ()
  | n :: ns => do
    n.validate
    validateAll ns

end

end Node

end TableQuery
