import TableQuery.Query.Basic
import TableQuery.Statement.Forest

/-! # Drafts of queries

A draft builds the statement of a query with a cursor.  Nodes are added below
the cursor; entering a node moves the cursor to it, and leaving it moves the
cursor back.  The root cannot be left.  A desk holds several drafts, each with
a family of nodes of its own.
-/

namespace TableQuery

structure Draft where
  name : String
  tree : Tree
  /-- The numbers of the nodes entered and not left, the innermost first. -/
  entered : List Nat

namespace Draft

def new (family : Nat) (name : String) : Draft := ⟨name, Tree.new family .query, []⟩

def depth (d : Draft) : Nat := d.entered.length

def current (d : Draft) : NodeId := ⟨d.tree.family, d.entered.head?.getD d.tree.rootId.index⟩

def add (d : Draft) (kind : Kind) : NodeId × Draft :=
  let (id, tree) := d.tree.append d.current.index kind
  (id, { d with tree })

def addTo (d : Draft) (parent : NodeId) (kind : Kind) : Except Refusal (NodeId × Draft) := do
  let (id, tree) ← d.tree.appendBelow parent kind
  pure (id, { d with tree })

/-- Appends a node below the cursor, and a leaf below that node. -/
def addWith (d : Draft) (kind leaf : Kind) : NodeId × Draft :=
  let (id, tree) := d.tree.append d.current.index kind
  let (_, tree) := tree.append id.index leaf
  (id, { d with tree })

def enter (d : Draft) (kind : Kind) : NodeId × Draft :=
  let (id, d) := d.add kind
  (id, { d with entered := id.index :: d.entered })

/-- Moves the cursor back to where it was before the node under it was entered. -/
def leave (d : Draft) : Except Refusal (NodeId × Draft) :=
  match d.entered with
  | [] => throw .aboveRoot
  | index :: entered => pure (⟨d.tree.family, index⟩, { d with entered })

def column (d : Draft) (name : String) : NodeId × Draft := d.addWith .column (.identifier name)

def literal (d : Draft) (value : String) : NodeId × Draft := d.add (.identifier value)

def star (d : Draft) : NodeId × Draft := d.add (.star none)

def comparator (d : Draft) (c : Comparison) : NodeId × Draft :=
  d.addWith (.comparator c) (.identifier c.symbol)

/-- Enters a function and appends its name. -/
def enterFunction (d : Draft) (name : String) : NodeId × Draft :=
  let (id, d) := d.enter .function
  (id, (d.literal name).2)

inductive Step where
  | add (kind : Kind)
  | addTo (parent : NodeId) (kind : Kind)
  | enter (kind : Kind)
  | leave
  | column (name : String)
  | literal (value : String)
  | star
  | comparator (c : Comparison)
  | enterFunction (name : String)

def step (d : Draft) : Step → Except Refusal (NodeId × Draft)
  | .add kind => pure (d.add kind)
  | .addTo parent kind => d.addTo parent kind
  | .enter kind => pure (d.enter kind)
  | .leave => d.leave
  | .column name => pure (d.column name)
  | .literal value => pure (d.literal value)
  | .star => pure d.star
  | .comparator c => pure (d.comparator c)
  | .enterFunction name => pure (d.enterFunction name)

def finish (d : Draft) : Query := ⟨d.name, d.tree⟩

/-- The query, if its statement is well formed. -/
def build (d : Draft) : Except Refusal Query := do
  d.tree.root.validate
  return d.finish

end Draft

structure Desk where
  drafts : List Draft := []

namespace Desk

def empty : Desk := {}

def begin (desk : Desk) (name : String) : Desk :=
  ⟨desk.drafts ++ [Draft.new desk.drafts.length name]⟩

/-- Takes a step with one of the drafts: what the step yields, and the desk after it.  A refused
step changes nothing. -/
def step (desk : Desk) (draft : Nat) (s : Draft.Step) : Option (Except Refusal NodeId × Desk) :=
  (desk.drafts[draft]?).map fun d =>
    match d.step s with
    | .ok (id, d) => (.ok id, ⟨desk.drafts.set draft d⟩)
    | .error refusal => (.error refusal, desk)

end Desk

end TableQuery
