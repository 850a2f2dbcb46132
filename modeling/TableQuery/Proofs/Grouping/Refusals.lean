import TableQuery.Proofs.Aggregate.Refusals
import TableQuery.Proofs.Grouping.Select

/-! # What is refused on groups

Calls, conditions and items on groups refuse nothing but data when the nodes
that they are made from are well formed and the aggregates of the catalog
refuse nothing but cells.  A call is bounded by the aggregates in it, so that
the bound on the catalog reaches calls of any depth.
-/

namespace TableQuery

variable {α : Type}

def Call.aggregates : Call → List Aggregate
  | .ofOrdinals a => [a]
  | .ofColumn a _ => [a]
  | .ofCall a inner => a :: inner.aggregates

theorem Call.refusesOnly_evaluate {allowed : Refusal → Prop} {c : Call}
    (each : ∀ a ∈ c.aggregates, ∀ cells, RefusesOnly allowed (a.reduce cells)) (rows : List Row) :
    RefusesOnly allowed (c.evaluate rows) := by
  induction c with
  | ofOrdinals a => exact each a List.mem_cons_self _
  | ofColumn a position => exact each a List.mem_cons_self _
  | ofCall a inner ih =>
    obtain ⟨outer, inside⟩ := List.forall_mem_cons.1 each
    apply RefusesOnly.bind (ih inside)
    exact fun cell _ => outer [cell]

namespace Grouping

variable {g : Grouping}

theorem refusesData_call {n : Node α} (g : Grouping) (valid : n.validate = .ok ())
    (isFunction : n.tag = .function) : RefusesData (g.call n) := by
  induction n using Node.induction with
  | step n ih =>
    obtain ⟨arg, argued, argValid⟩ := Node.exists_argument valid isFunction
    obtain ⟨_, name, _, _, named⟩ := Node.exists_name_of_argument argued
    have made : RefusesData (g.callOn arg) := by
      unfold callOn
      rcases Node.kind_of_isExpression (Node.isExpression_of_argument argued) with
        isColumn | argIsFunction | ⟨owner, isStar⟩
      · obtain ⟨column, read⟩ := Node.exists_name_of_column argValid (congrArg Kind.tag isColumn)
        simp only [isColumn, read, ok_bind]
        apply RefusesOnly.bind (g.header.refusesData_position column)
        exact fun _ _ => RefusesOnly.pure _
      · have below := Node.mem_of_argument argued
        simp only [argIsFunction]
        apply RefusesOnly.bind (ih arg below argValid (congrArg Kind.tag argIsFunction))
        exact fun _ _ => RefusesOnly.pure _
      · simp only [isStar]
        exact RefusesOnly.pure _
    rw [call_eq, argued, ok_bind]
    apply RefusesOnly.bind made
    intro make _
    rw [named, ok_bind]
    apply RefusesOnly.bind (g.catalog.refusesData_resolve g.settings name)
    exact fun _ _ => RefusesOnly.pure _

theorem exists_resolve_of_mem_aggregates {n : Node α} {c : Call} (called : g.call n = .ok c) :
    ∀ a ∈ c.aggregates, ∃ name, g.catalog.resolve g.settings name = .ok a := by
  induction n using Node.induction generalizing c with
  | step n ih =>
    obtain ⟨arg, name, a, argued, _, found,
      ⟨_, _, _, _, _, rfl⟩ | ⟨_, _, rfl⟩ | ⟨inner, _, innerCalled, rfl⟩⟩ := call_eq_ok called
    · exact List.forall_mem_singleton.2 ⟨name, found⟩
    · exact List.forall_mem_singleton.2 ⟨name, found⟩
    · have rest := ih arg (Node.mem_of_argument argued) innerCalled
      exact List.forall_mem_cons.2 ⟨⟨name, found⟩, rest⟩

theorem refusesData_evaluate_call {n : Node α} {c : Call} (cellsOnly : g.catalog.RefusesCells)
    (called : g.call n = .ok c) (rows : List Row) : RefusesData (c.evaluate rows) := by
  apply Call.refusesOnly_evaluate
  intro a member
  obtain ⟨name, found⟩ := exists_resolve_of_mem_aggregates called a member
  exact cellsOnly.refusesData found

theorem refusesData_operand {n : Node α} (g : Grouping) (valid : n.validate = .ok ())
    (isOperand : n.tag.isOperand = true) : RefusesData (g.operand n) := by
  unfold operand
  split
  · next isFunction =>
    apply RefusesOnly.bind (g.refusesData_call valid isFunction)
    exact fun _ _ => RefusesOnly.pure _
  · next noFunction =>
    have isColumn : n.tag = .column := by simpa [Tag.isOperand, noFunction] using isOperand
    obtain ⟨name, named⟩ := Node.exists_name_of_column valid isColumn
    rw [named, ok_bind]
    split
    · exact RefusesOnly.pure _
    · exact RefusesOnly.throw rfl

theorem refusesData_groupTest {item : Node α} (g : Grouping) (valid : item.validate = .ok ())
    (isItem : item.tag = .filterItem) : RefusesData (g.groupTest item) := by
  obtain ⟨test, read, _, isOperand, operandValid⟩ := Node.exists_test valid isItem
  rw [groupTest, read, ok_bind]
  apply RefusesOnly.bind (g.refusesData_operand operandValid isOperand)
  exact fun _ _ => RefusesOnly.pure _

theorem refusesData_passes {item : Node α} {t : GroupTest} (cellsOnly : g.catalog.RefusesCells)
    (made : g.groupTest item = .ok t) (group : Key × List Row) : RefusesData (t.passes group) := by
  simp only [groupTest, bind_eq_ok, pure_eq_ok] at made
  obtain ⟨test, _, operand, found, rfl⟩ := made
  have evaluated : RefusesData (operand.evaluate group.1 group.2) := by
    unfold Grouping.operand at found
    split at found
    · simp only [bind_eq_ok, pure_eq_ok] at found
      obtain ⟨c, called, rfl⟩ := found
      exact refusesData_evaluate_call cellsOnly called group.2
    · simp only [bind_eq_ok] at found
      obtain ⟨name, _, found⟩ := found
      split at found
      · cases found
        exact RefusesOnly.pure _
      · cases found
  apply RefusesOnly.bind evaluated
  exact fun cell _ => cell.refusesData_satisfies _ _

end Grouping

theorem Groups.refusesOnly_satisfying {allowed : Refusal → Prop} {groups : Groups}
    {make : Node α → Except Refusal GroupTest} {n : Node α} {φ : Formula GroupTest}
    (translated : Formula.Translates make n φ)
    (each : ∀ item t group, make item = .ok t → RefusesOnly allowed (t.passes group)) :
    RefusesOnly allowed (groups.satisfying φ) := by
  intro refusal refused
  rw [← refusal?_eq_some, refusal?_satisfying translated] at refused
  obtain ⟨item, member, found⟩ := List.exists_of_findSome?_eq_some refused
  obtain ⟨group, _, refused⟩ := List.exists_of_findSome?_eq_some found
  obtain ⟨t, made⟩ := translated.made item member
  rw [made, ok_bind, refusal?_eq_some] at refused
  exact each item t group made refusal refused

namespace Grouping

variable {g : Grouping}

theorem refusesData_having {clause : Node α} (cellsOnly : g.catalog.RefusesCells)
    (valid : clause.validate = .ok ()) (isHaving : clause.tag = .havingClause) :
    RefusesData (g.having clause) := by
  obtain ⟨condition, read, _, isCondition, conditionValid⟩ :=
    Node.exists_condition valid isHaving (.inr rfl)
  rw [having, read, ok_bind]
  refine RefusesOnly.bind (Node.refusesOnly_ofNode conditionValid isCondition ?_) ?_
  · exact fun item _ itemValid isItem => g.refusesData_groupTest itemValid isItem
  · intro φ translated
    refine RefusesOnly.bind (Groups.refusesOnly_satisfying
      (Formula.translates_of_ofNode translated) ?_) fun _ _ => RefusesOnly.pure _
    exact fun item t group made => refusesData_passes cellsOnly made group

theorem refusesData_item {n : Node α} (g : Grouping) (valid : n.validate = .ok ())
    (isItem : n.tag = .selectItem) : RefusesData (g.item n) := by
  obtain ⟨expression, below, isExpression, expressionValid⟩ :=
    Node.exists_itemExpression valid isItem
  rw [item_of_selectItem isItem, below, ok_bind]
  unfold expressionItem
  split
  · next isColumn =>
    obtain ⟨name, named⟩ := Node.exists_name_of_column expressionValid (congrArg Kind.tag isColumn)
    rw [named, ok_bind]
    apply RefusesOnly.bind (g.header.refusesData_column name)
    rintro ⟨column, position⟩ _
    dsimp only
    split
    · exact RefusesOnly.pure _
    · exact RefusesOnly.throw rfl
  · next isFunction =>
    have tagged := congrArg Kind.tag isFunction
    obtain ⟨heading, headed⟩ := Node.exists_heading expressionValid tagged
    rw [headed, ok_bind]
    apply RefusesOnly.bind (g.refusesData_call expressionValid tagged)
    exact fun _ _ => RefusesOnly.pure _
  · exact RefusesOnly.throw rfl
  · next noColumn noFunction noStar =>
    obtain ⟨mark, kind, children⟩ := expression
    cases kind <;> simp_all [Node.tag, Kind.tag, Tag.isExpression]

theorem refusesData_evaluate_item {n : Node α} {i : Item} (cellsOnly : g.catalog.RefusesCells)
    (isItem : n.tag = .selectItem) (made : g.item n = .ok i) (key : Key) (rows : List Row) :
    RefusesData (i.expression.evaluate key rows) := by
  rw [item_of_selectItem isItem, bind_eq_ok] at made
  obtain ⟨expression, _, made⟩ := made
  unfold expressionItem at made
  split at made
  · simp only [bind_eq_ok] at made
    obtain ⟨name, _, column, _, made⟩ := made
    split at made
    · cases made
      exact RefusesOnly.pure _
    · cases made
  · simp only [bind_eq_ok, pure_eq_ok] at made
    obtain ⟨heading, _, c, called, rfl⟩ := made
    exact refusesData_evaluate_call cellsOnly called rows
  · cases made
  · cases made

/-- A selection is refused for an item, or for what an item reads off a group. -/
theorem refusesOnly_select {allowed : Refusal → Prop} {nodes : List (Node α)}
    (items : ∀ n ∈ nodes, RefusesOnly allowed (g.item n))
    (cells : ∀ n ∈ nodes, ∀ i, g.item n = .ok i → ∀ group ∈ g.groups.entries,
      RefusesOnly allowed (i.expression.evaluate group.1 group.2)) :
    RefusesOnly allowed (g.select nodes) := by
  apply RefusesOnly.bind (RefusesOnly.mapM items)
  intro items made
  apply RefusesOnly.bind
  · apply RefusesOnly.mapM
    intro group isGroup
    apply RefusesOnly.mapM
    intro i member
    obtain ⟨n, among, made⟩ := exists_of_mem_mapM made member
    exact cells n among i made group isGroup
  · intro rows read
    obtain ⟨t, fits⟩ := exists_table_of_rows g.header.aliases read
    exact RefusesOnly.of_ok fits

theorem refusesData_select {nodes : List (Node α)} (cellsOnly : g.catalog.RefusesCells)
    (valid : ∀ n ∈ nodes, n.tag = .selectItem ∧ n.validate = .ok ()) :
    RefusesData (g.select nodes) := by
  apply refusesOnly_select
  · exact fun n member => g.refusesData_item (valid n member).2 (valid n member).1
  · intro n member i made group _
    exact refusesData_evaluate_item cellsOnly (valid n member).1 made group.1 group.2

end Grouping

end TableQuery
