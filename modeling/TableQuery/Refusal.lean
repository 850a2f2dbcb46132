import TableQuery.Cell.Basic
import TableQuery.Statement.Tree

/-! # Refusals

Every cause for which a table, a statement or a query is refused, and the
message for each.  Causes hold what a message says, as values of the domain.
-/

namespace TableQuery

/-- The shapes that the children of a node may be asked to have. -/
inductive Shape where
  | leadingSelect | clauseOrder | selectItems | selectItem | named | call | leaf | comparator
  | filterItem | operands | condition | source | groupColumns | sortItems | sortItem | limit
deriving DecidableEq

def Shape.describe : Shape → String
  | .leadingSelect => "a leading SELECT_CLAUSE"
  | .clauseOrder =>
    "clauses in SELECT, FROM, WHERE, GROUP BY, HAVING, ORDER BY, LIMIT order, each at most once"
  | .selectItems => "one or more SELECT_ITEM children"
  | .selectItem => "COLUMN, FUNCTION or STAR optionally followed by an alias IDENTIFIER"
  | .named => "a single IDENTIFIER child"
  | .call => "a name IDENTIFIER followed by one COLUMN, STAR or FUNCTION argument"
  | .leaf => "no children"
  | .comparator => "at most one operator IDENTIFIER"
  | .filterItem => "operand (COLUMN or FUNCTION), COMPARATOR and literal IDENTIFIER, in that order"
  | .operands => "FILTER_ITEM or LOGICAL_OPERATION operands"
  | .condition => "a single FILTER_ITEM or LOGICAL_OPERATION child"
  | .source => "a TABLE optionally followed by an alias IDENTIFIER"
  | .groupColumns => "one or more COLUMN children"
  | .sortItems => "one or more ORDER_ITEM children"
  | .sortItem => "an optional ORDERING_DIRECTION followed by a COLUMN or FUNCTION"
  | .limit => "a single non-negative integer IDENTIFIER"

/-- What a node was expected to be or to have. -/
inductive Expectation where
  | children (shape : Shape) (found : List Tag)
  | twoOperands (found : Nat)
  | conditionBelow
  | expressionBelow
  | operand
  | columnOperand
  | condition
  | expression
  | call
deriving DecidableEq

def Expectation.describe : Expectation → String
  | .children shape found =>
    shape.describe ++ ", found [" ++ ", ".intercalate (found.map Tag.name) ++ "]"
  | .twoOperands found => "exactly 2 operand children, found " ++ toString found
  | .conditionBelow => "a condition child"
  | .expressionBelow => "an expression child"
  | .operand => "a COLUMN or FUNCTION operand"
  | .columnOperand => "a COLUMN operand outside HAVING"
  | .condition => "FILTER_ITEM or LOGICAL_OPERATION"
  | .expression => "COLUMN, FUNCTION or STAR"
  | .call => Shape.call.describe

/-- The ways in which rows and columns do not make a table. -/
inductive TableFault where
  | duplicateColumn (name : String)
  | narrowRows (width needed : Nat)
  | raggedRow (row width expected : Nat)
  | notAnObject (record : Nat)
  | groupingPosition (position width : Nat)
deriving DecidableEq

def TableFault.describe : TableFault → String
  | .duplicateColumn name => "duplicate column " ++ name
  | .narrowRows width needed =>
    "rows have " ++ toString width ++ " cells but columns need " ++ toString needed
  | .raggedRow row width expected =>
    "row " ++ toString row ++ " has " ++ toString width ++ " cells, expected "
      ++ toString expected
  | .notAnObject record => "record " ++ toString record ++ " is not a JSON object"
  | .groupingPosition position width =>
    "grouping position " ++ toString position ++ " is outside rows of " ++ toString width
      ++ " cells"

inductive Refusal where
  | malformedNode (label : String) (expected : Expectation)
  | missingChild (label : String) (tag : Tag) (position : Nat)
  /-- A reference to a node of another tree, or to one that is not there yet. -/
  | unknownNode (id : NodeId)
  | columnNotFound (name : String)
  | notGrouped (name : String)
  | unknownFunction (name : String)
  | operandCount (connective : Connective) (found : Nat)
  | notNumeric (function : String) (cell : Cell)
  | literalNotNumeric (literal : String)
  | invalidTable (fault : TableFault)
  | aboveRoot
  | settings

def Refusal.message : Refusal → String
  | .malformedNode label expected =>
    "Invalid " ++ label ++ " node: expected " ++ expected.describe
  | .missingChild label tag position =>
    label ++ " has no " ++ tag.name ++ " child at position " ++ toString position
  | .unknownNode id => "Node " ++ toString id.index ++ " does not belong to this plan"
  | .columnNotFound name => "Column " ++ name ++ " doesn't exist in table"
  | .notGrouped name => "Column " ++ name ++ " must appear in GROUP BY clause"
  | .unknownFunction name => "Unidentified function: " ++ name
  | .operandCount connective found =>
    "Logical operation " ++ connective.code ++ " should have two boolean expressions, found "
      ++ toString found
  | .notNumeric function cell => function ++ " got non numeric value: " ++ cell.display
  | .literalNotNumeric literal =>
    "Literal '" ++ literal ++ "' cannot be compared with a numeric value"
  | .invalidTable fault => "Invalid frame: " ++ fault.describe
  | .aboveRoot => "Plan builder cannot ascend above the query root"
  | .settings => "Config error"

end TableQuery
