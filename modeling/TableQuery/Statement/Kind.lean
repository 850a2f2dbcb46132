import TableQuery.Statement.Operator

/-! # Kinds of statement nodes

A `Kind` says what a node of a statement tree is, with its value where it has
one; a `Tag` is a kind without the value.  Labels and messages name nodes by
the texts given here.
-/

namespace TableQuery

/-- What a node is, its value left out. -/
inductive Tag where
  | query | selectClause | selectItem | column | identifier | star | function | comparator
  | filterItem | logicalOperation | fromItem | table | whereClause | groupByClause
  | havingClause | orderByClause | orderItem | orderingDirection | limitClause
deriving DecidableEq

namespace Tag

def all : List Tag :=
  [.query, .selectClause, .selectItem, .column, .identifier, .star, .function, .comparator,
    .filterItem, .logicalOperation, .fromItem, .table, .whereClause, .groupByClause,
    .havingClause, .orderByClause, .orderItem, .orderingDirection, .limitClause]

def name : Tag → String
  | .query => "QUERY"
  | .selectClause => "SELECT_CLAUSE"
  | .selectItem => "SELECT_ITEM"
  | .column => "COLUMN"
  | .identifier => "IDENTIFIER"
  | .star => "STAR"
  | .function => "FUNCTION"
  | .comparator => "COMPARATOR"
  | .filterItem => "FILTER_ITEM"
  | .logicalOperation => "LOGICAL_OPERATION"
  | .fromItem => "FROM_ITEM"
  | .table => "TABLE"
  | .whereClause => "WHERE_CLAUSE"
  | .groupByClause => "GROUP_BY_CLAUSE"
  | .havingClause => "HAVING_CLAUSE"
  | .orderByClause => "ORDER_BY_CLAUSE"
  | .orderItem => "ORDER_ITEM"
  | .orderingDirection => "ORDERING_DIRECTION"
  | .limitClause => "LIMIT_CLAUSE"

def ofName? (name : String) : Option Tag := all.find? fun t => t.name == name

def isOperand (t : Tag) : Bool := t == .column || t == .function

/-- Whether a node may be selected, or be the argument of a function. -/
def isExpression (t : Tag) : Bool := t == .column || t == .function || t == .star

def isCondition (t : Tag) : Bool := t == .filterItem || t == .logicalOperation

end Tag

/-- What a node is, with its value. -/
inductive Kind where
  | query
  | selectClause
  | selectItem
  | column
  /-- A name or a literal. -/
  | identifier (value : String)
  /-- All columns, or all columns of a named table. -/
  | star (owner : Option String)
  | function
  | comparator (comparison : Comparison)
  | filterItem
  | logicalOperation (connective : Connective)
  | fromItem
  | table
  | whereClause
  | groupByClause
  | havingClause
  | orderByClause
  | orderItem
  | orderingDirection (direction : Direction)
  | limitClause
deriving DecidableEq

namespace Kind

def tag : Kind → Tag
  | .query => .query
  | .selectClause => .selectClause
  | .selectItem => .selectItem
  | .column => .column
  | .identifier _ => .identifier
  | .star _ => .star
  | .function => .function
  | .comparator _ => .comparator
  | .filterItem => .filterItem
  | .logicalOperation _ => .logicalOperation
  | .fromItem => .fromItem
  | .table => .table
  | .whereClause => .whereClause
  | .groupByClause => .groupByClause
  | .havingClause => .havingClause
  | .orderByClause => .orderByClause
  | .orderItem => .orderItem
  | .orderingDirection _ => .orderingDirection
  | .limitClause => .limitClause

def starText : Option String → String
  | none => "*"
  | some owner => owner ++ ".*"

/-- The label of a node: its tag and its value, and the value alone for an identifier. -/
def label : Kind → String
  | .identifier value => value
  | .star owner => Tag.star.name ++ ":" ++ starText owner
  | .comparator comparison => Tag.comparator.name ++ ":" ++ comparison.code
  | .logicalOperation connective => Tag.logicalOperation.name ++ ":" ++ connective.code
  | .orderingDirection direction => Tag.orderingDirection.name ++ ":" ++ direction.code
  | kind => kind.tag.name

/-- The kind with a tag and a value in text form; a missing value is the empty identifier, the star
without a table, or the ascending direction. -/
def ofTag? (tag : Tag) (value : Option String) : Option Kind :=
  match tag with
  | .query => some .query
  | .selectClause => some .selectClause
  | .selectItem => some .selectItem
  | .column => some .column
  | .identifier => some (.identifier (value.getD ""))
  | .star => some (.star value)
  | .function => some .function
  | .comparator => (value.bind Comparison.ofCode?).map .comparator
  | .filterItem => some .filterItem
  | .logicalOperation => (value.bind Connective.ofCode?).map .logicalOperation
  | .fromItem => some .fromItem
  | .table => some .table
  | .whereClause => some .whereClause
  | .groupByClause => some .groupByClause
  | .havingClause => some .havingClause
  | .orderByClause => some .orderByClause
  | .orderItem => some .orderItem
  | .orderingDirection =>
    match value with
    | none => some (.orderingDirection .ascending)
    | some code => (Direction.ofCode? code).map .orderingDirection
  | .limitClause => some .limitClause

end Kind

end TableQuery
