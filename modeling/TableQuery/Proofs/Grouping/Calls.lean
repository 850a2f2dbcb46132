import TableQuery.Proofs.Aggregate.Catalog
import TableQuery.Proofs.Grouping.Value

/-! # Calls of functions

A function is a name with one argument.  What its call applies is settled by the
name, which may be spelled in several ways, and by the kind of its argument: the
aggregate is applied to the numbers of the rows for a star, to the cells of a
column, or to the one value of another function.
-/

namespace TableQuery

variable {α : Type}

/-- The name under which an aggregate is looked up, for the name of a function in a query. -/
def Settings.filedName (settings : Settings) (name : String) : String :=
  if settings.foldFunctionNames then foldCase name else name

namespace Catalog

variable {c : Catalog} {settings : Settings} {name : String} {a : Aggregate}

theorem resolve_of_get? (filed : c.get? (settings.filedName name) = some a) :
    c.resolve settings name = .ok a :=
  resolve_eq_ok.2 filed

end Catalog

namespace Node

/-- Whether a node is the function of a name, applied to an argument. -/
structure Calls (n : Node α) (name : String) (arg : Node α) : Prop where
  isFunction : n.kind = .function
  children : ∃ first, n.children = [first, arg] ∧ first.identifier? = some name

variable {n first arg : Node α} {name : String}

theorem tag_of_identifier? (named : first.identifier? = some name) : first.tag = .identifier := by
  unfold identifier? at named
  split at named
  · next isIdentifier => rw [tag, isIdentifier, Kind.tag]
  · cases named

theorem Calls.argument_eq (calls : n.Calls name arg)
    (isExpression : arg.tag.isExpression = true) : n.argument = .ok arg := by
  obtain ⟨_, first, children, named⟩ := calls
  refine argument_eq_ok.2 ⟨first, children, ?_⟩
  rw [isCall, tag_of_identifier? named, isExpression]
  rfl

theorem Calls.name_eq (calls : n.Calls name arg) : n.name = .ok name := by
  obtain ⟨_, first, children, named⟩ := calls
  rw [Node.name, children, List.findSome?_cons, named]
  rfl

end Node

namespace Grouping

/-- What a function has on the rows of a group: its value, or what it is refused for. -/
def outcome (g : Grouping) (rows : List Row) (n : Node α) : Except Refusal Cell := do
  (← g.call n).evaluate rows

variable {g : Grouping} {n arg : Node α} {name : String} {a : Aggregate}

theorem resolve_of_builtin (builtin : g.catalog = .builtin)
    (filed : Catalog.builtin.get? a.name = some a) (named : g.settings.filedName name = a.name) :
    g.catalog.resolve g.settings name = .ok a := by
  apply Catalog.resolve_of_get?
  rw [builtin, named, filed]

theorem call_of_calls (calls : n.Calls name arg) (isExpression : arg.tag.isExpression = true)
    (found : g.catalog.resolve g.settings name = .ok a) :
    g.call n = do return (← g.callOn arg) a := by
  rw [call_eq, calls.argument_eq isExpression, ok_bind]
  simp only [calls.name_eq, ok_bind, found]

theorem call_of_function (calls : n.Calls name arg) (isFunction : arg.kind = .function)
    (found : g.catalog.resolve g.settings name = .ok a) :
    g.call n = do return .ofCall a (← g.call arg) := by
  rw [call_of_calls calls (by rw [Node.tag, isFunction]; rfl) found, callOn, isFunction]
  simp only [bind_assoc, pure_bind]

theorem call_of_star {owner : Option String} (calls : n.Calls name arg)
    (isStar : arg.kind = .star owner) (found : g.catalog.resolve g.settings name = .ok a) :
    g.call n = .ok (.ofOrdinals a) := by
  rw [call_of_calls calls (by rw [Node.tag, isStar]; rfl) found, callOn, isStar]
  rfl

theorem call_of_column {column : String} {position : Nat} (calls : n.Calls name arg)
    (isColumn : arg.kind = .column) (columnNamed : arg.name = .ok column)
    (resolved : g.header.position column = .ok position)
    (found : g.catalog.resolve g.settings name = .ok a) :
    g.call n = .ok (.ofColumn a position) := by
  rw [call_of_calls calls (by rw [Node.tag, isColumn]; rfl) found, callOn, isColumn]
  simp only [columnNamed, resolved, ok_bind]
  rfl

end Grouping

end TableQuery
