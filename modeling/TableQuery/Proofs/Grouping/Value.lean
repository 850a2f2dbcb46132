import TableQuery.Grouping.Expression
import TableQuery.Proofs.Statement.Nodes
import TableQuery.Proofs.Statement.Parts

/-! # Values of functions on groups

The value of a function on the rows of a group, read off the statement: the
aggregate of that name, applied to the column that its argument stands for.  A
call, which is made once and then evaluated on every group, has this value.
-/

namespace TableQuery

namespace Grouping

variable {α : Type}

def applied? (g : Grouping) (name : String) (column : List Cell) : Option Cell := do
  let aggregate ← (g.catalog.resolve g.settings name).toOption
  (aggregate.reduce column).toOption

/-- The value of a function on rows, if it has one: the aggregate that its name stands for, on the
numbers of the rows for a star, on the cells of a column, or on the one value of a function. -/
def value? (g : Grouping) (rows : List Row) : Node α → Option Cell
  | ⟨_, _, children⟩ =>
    match children with
    | [first, arg] => do
      let name ← first.identifier?
      match arg.kind with
      | .star _ => g.applied? name ((List.range' 1 rows.length).map fun n : Nat => Cell.ofInt n)
      | .column => do
        let position ← (g.header.position (← arg.name.toOption)).toOption
        g.applied? name (rows.map fun row => row.cell position)
      | .function => do g.applied? name [← g.value? rows arg]
      | _ => none
    | _ => none

theorem applied?_of_resolve {g : Grouping} {name : String} {a : Aggregate}
    (found : g.catalog.resolve g.settings name = .ok a) (column : List Cell) :
    g.applied? name column = (a.reduce column).toOption := by
  rw [applied?, found]
  rfl

/-- The calls that an argument makes, one for each aggregate that it could be the argument of. -/
def callOn (g : Grouping) (arg : Node α) : Except Refusal (Aggregate → Call) :=
  match arg.kind with
  | .column => do
    let position ← g.header.position (← arg.name)
    return fun a => .ofColumn a position
  | .star _ => return fun a => .ofOrdinals a
  | _ => do
    let inner ← g.call arg
    return fun a => .ofCall a inner

theorem call_eq (g : Grouping) (n : Node α) :
    g.call n = (do
      let make ← g.callOn (← n.argument)
      return make (← g.catalog.resolve g.settings (← n.name))) := by
  obtain ⟨mark, kind, children⟩ := n
  match children with
  | [first, arg] =>
    simp only [call, Node.argument]
    split
    · rw [pure_bind, callOn]
      cases arg.kind <;> simp only [bind_assoc, pure_bind]
    · rfl
  | [] | [_] | _ :: _ :: _ :: _ => rfl

/-- A call applies an aggregate of the catalog to a column, to ordinals, or to the call that the
argument makes. -/
theorem call_eq_ok {g : Grouping} {n : Node α} {c : Call} (called : g.call n = .ok c) :
    ∃ arg name a, n.argument = .ok arg ∧ n.name = .ok name ∧
      g.catalog.resolve g.settings name = .ok a ∧
      ((∃ column position, arg.kind = .column ∧ arg.name = .ok column ∧
          g.header.position column = .ok position ∧ c = .ofColumn a position) ∨
        (∃ owner, arg.kind = .star owner ∧ c = .ofOrdinals a) ∨
        ∃ inner, arg.kind = .function ∧ g.call arg = .ok inner ∧ c = .ofCall a inner) := by
  simp only [call_eq, bind_eq_ok, pure_eq_ok] at called
  obtain ⟨arg, argued, make, made, name, named, a, found, rfl⟩ := called
  refine ⟨arg, name, a, argued, named, found, ?_⟩
  rcases Node.kind_of_isExpression (Node.isExpression_of_argument argued) with
    isColumn | isFunction | ⟨owner, isStar⟩
  · simp only [callOn, isColumn, bind_eq_ok, pure_eq_ok] at made
    obtain ⟨column, columnNamed, position, resolved, rfl⟩ := made
    exact .inl ⟨column, position, isColumn, columnNamed, resolved, rfl⟩
  · simp only [callOn, isFunction, bind_eq_ok, pure_eq_ok] at made
    obtain ⟨inner, innerCalled, rfl⟩ := made
    exact .inr (.inr ⟨inner, isFunction, innerCalled, rfl⟩)
  · simp only [callOn, isStar, pure_eq_ok] at made
    subst made
    exact .inr (.inl ⟨owner, isStar, rfl⟩)

theorem evaluate_call {g : Grouping} {rows : List Row} {n : Node α} {c : Call}
    (called : g.call n = .ok c) : (c.evaluate rows).toOption = g.value? rows n := by
  induction n using Node.induction generalizing c with
  | step n ih =>
    obtain ⟨arg, name, a, argued, named, found, call⟩ := call_eq_ok called
    obtain ⟨first, ownName, children, carried, sameName⟩ := Node.exists_name_of_argument argued
    cases named.symm.trans sameName
    have below := Node.mem_of_argument argued
    obtain ⟨mark, kind, _⟩ := n
    cases children
    rw [value?, carried]
    rcases call with ⟨column, position, isColumn, columnNamed, resolved, rfl⟩ |
      ⟨owner, isStar, rfl⟩ | ⟨inner, isFunction, innerCalled, rfl⟩
    · simp [isColumn, columnNamed, resolved, applied?_of_resolve found, Call.evaluate,
        Except.toOption]
    · simp [isStar, applied?_of_resolve found, Call.evaluate]
    · -- The one value of the inner function makes the column.
      simp only [isFunction, ← ih arg below innerCalled, Call.evaluate]
      cases inner.evaluate rows with
      | error refusal => rfl
      | ok value => exact (applied?_of_resolve found [value]).symm

end Grouping

end TableQuery
