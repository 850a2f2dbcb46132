import TableQuery.Proofs.Grouping.Refusals
import TableQuery.Proofs.Query.Grouped

/-! # What a well-formed query may be refused for

A query that is well formed leaves nothing about its form to be found out when
it is run: it is answered, or refused for data.  The one exception is a filter
item of WHERE that compares a function, which the grammar admits and the rows
cannot serve, whatever they are.
-/

namespace TableQuery

namespace Node

variable {α : Type} {n : Node α} {settings : Settings} {catalog : Catalog} {t : Table}
  {items : List (Node α)}

def whereItems (n : Node α) : List (Node α) :=
  match (n.clause? .whereClause).bind fun clause => clause.children.head? with
  | some condition => condition.items
  | none => []

theorem whereItems_of_clause {clause : Node α} (found : n.clause? .whereClause = some clause)
    (valid : clause.validate = .ok ()) :
    ∃ condition, clause.children.head? = some condition ∧ n.whereItems = condition.items := by
  obtain ⟨condition, _, first, _⟩ := exists_condition valid (tag_of_clause? found) (.inl rfl)
  refine ⟨condition, first, ?_⟩
  rw [whereItems, found, Option.bind_some, first]

theorem refusesOnly_itemAlias {allowed : Refusal → Prop} {item : Node α}
    (valid : item.validate = .ok ()) (isItem : item.tag = .selectItem) (header : Header) :
    RefusesOnly allowed (item.itemAlias header) := by
  obtain ⟨expression, below, isExpression, expressionValid⟩ := exists_itemExpression valid isItem
  unfold itemAlias
  split
  · exact RefusesOnly.pure _
  · rw [below, ok_bind]
    split
    · next isColumn =>
      obtain ⟨name, named⟩ := exists_name_of_column expressionValid (congrArg Kind.tag isColumn)
      rw [named]
      exact RefusesOnly.pure _
    · next isFunction =>
      obtain ⟨heading, headed⟩ := exists_heading expressionValid (congrArg Kind.tag isFunction)
      rw [headed]
      exact RefusesOnly.pure _
    · exact RefusesOnly.pure _

theorem refusesOnly_addAliases {allowed : Refusal → Prop}
    (valid : ∀ item ∈ items, item.tag = .selectItem ∧ item.validate = .ok ()) (t : Table) :
    RefusesOnly allowed (addAliases items t) := by
  refine RefusesOnly.bind (RefusesOnly.mapM fun item member => ?_) fun _ _ => RefusesOnly.pure _
  exact refusesOnly_itemAlias (valid item member).2 (valid item member).1 t.header

theorem refusesData_groupPositions (valid : n.validate = .ok ()) (header : Header) :
    RefusesData (n.groupPositions header) := by
  unfold groupPositions
  split
  · next clause found =>
    obtain ⟨_, columns⟩ := tag_of_mem_groupBy (valid_of_clause? valid found) (tag_of_clause? found)
    apply RefusesOnly.mapM
    intro column member
    obtain ⟨isColumn, columnValid⟩ := columns column member
    obtain ⟨name, named⟩ := exists_name_of_column columnValid isColumn
    rw [named, ok_bind]
    exact header.refusesData_position name
  · exact RefusesOnly.pure _

theorem exists_groupAt_of_groupPositions {positions : List Nat}
    (resolved : n.groupPositions t.header = .ok positions) :
    ∃ g, t.groupAt positions = .ok g := by
  refine ⟨_, Table.groupAt_eq_ok.2 ⟨fun position member => ?_, rfl⟩⟩
  unfold groupPositions at resolved
  split at resolved
  · obtain ⟨column, _, found⟩ := exists_of_mem_mapM resolved member
    rw [bind_eq_ok] at found
    obtain ⟨name, _, found⟩ := found
    exact Table.lt_width_of_position found
  · cases resolved
    cases member

theorem refusesData_selectGroups (cellsOnly : catalog.RefusesCells) (valid : n.validate = .ok ())
    (itemsValid : ∀ item ∈ items, item.tag = .selectItem ∧ item.validate = .ok ()) :
    RefusesData (n.selectGroups items settings catalog t) := by
  apply RefusesOnly.bind (refusesData_groupPositions valid t.header)
  intro positions resolved
  obtain ⟨g, grouped⟩ := exists_groupAt_of_groupPositions resolved
  rw [grouped, ok_bind]
  -- HAVING changes the groups and not the catalog, so that this serves with it and without it.
  have groupsValid : ∀ h : Grouping, h.catalog = catalog → RefusesData (h.select items) := by
    rintro h rfl
    exact Grouping.refusesData_select cellsOnly itemsValid
  cases found : n.clause? .havingClause with
  | none => exact groupsValid _ rfl
  | some clause =>
    apply RefusesOnly.bind
    · exact Grouping.refusesData_having cellsOnly (valid_of_clause? valid found)
        (tag_of_clause? found)
    · intro h kept
      obtain ⟨_, _, _, _, _, _, rfl⟩ := Grouping.having_eq_ok kept
      exact groupsValid _ rfl

theorem refusesData_selectRows
    (valid : ∀ item ∈ items, item.tag = .selectItem ∧ item.validate = .ok ()) :
    RefusesData (selectRows items t) := by
  refine RefusesOnly.bind (RefusesOnly.mapM fun item member => ?_) ?_
  · obtain ⟨expression, below, isExpression, expressionValid⟩ :=
      exists_itemExpression (valid item member).2 (valid item member).1
    rw [selectedNames, below, ok_bind]
    split
    · exact RefusesOnly.pure _
    · next noStar =>
      obtain ⟨name, named⟩ := exists_name_of_expression expressionValid isExpression noStar
      rw [named]
      exact RefusesOnly.pure _
  · exact fun names _ => t.refusesData_project names.flatten

theorem refusesOnly_run (isQuery : n.tag = .query) (valid : n.validate = .ok ())
    (cellsOnly : catalog.RefusesCells) :
    RefusesOnly (fun refusal => refusal.isOfData = true ∨ refusal.IsForFunctionIn n.whereItems)
      (n.run settings catalog t) := by
  obtain ⟨clause, rest, _, _, selects, itemsValid⟩ := exists_selectItems valid isQuery
  rw [run, valid, ok_bind, selects, ok_bind]
  have afterWhere : ∀ u : Table, RefusesData (addAliases clause.children u >>= fun v =>
      if n.isGrouped clause.children then n.selectGroups clause.children settings catalog v
      else selectRows clause.children v) := by
    intro u
    refine RefusesOnly.bind (refusesOnly_addAliases itemsValid u) fun v _ => ?_
    split
    · exact refusesData_selectGroups cellsOnly valid itemsValid
    · exact refusesData_selectRows itemsValid
  cases found : n.clause? .whereClause with
  | none => exact (afterWhere t).imp fun _ => .inl
  | some clause =>
    have clauseValid := valid_of_clause? valid found
    obtain ⟨condition, below, same⟩ := whereItems_of_clause found clauseValid
    rw [same]
    refine RefusesOnly.bind
      (Table.refusesOnly_filterBy t settings clauseValid (tag_of_clause? found) below) ?_
    exact fun u _ => (afterWhere u).imp fun _ => .inl

theorem run_eq_error_of_comparesFunction (isQuery : n.tag = .query) (valid : n.validate = .ok ())
    (compares : ∃ item ∈ n.whereItems, item.comparesFunction = true) (header : Header) :
    ∃ refusal, ∀ u : Table, u.header = header → n.run settings catalog u = .error refusal := by
  obtain ⟨select, rest, _, _, selects, _⟩ := exists_selectItems valid isQuery
  cases found : n.clause? .whereClause with
  | none =>
    rw [whereItems, found] at compares
    simp at compares
  | some clause =>
    have clauseValid := valid_of_clause? valid found
    obtain ⟨condition, below, same⟩ := whereItems_of_clause found clauseValid
    rw [same] at compares
    obtain ⟨refusal, refused⟩ :=
      Table.filterBy_eq_error header settings clauseValid (tag_of_clause? found) below compares
    refine ⟨refusal, fun u isHeader => ?_⟩
    rw [run, valid, ok_bind, selects, ok_bind, found]
    simp only [refused u isHeader, error_bind]

end Node

/-- Whether a refusal says that a statement or a table is not made as it should be. -/
def Refusal.isStructural : Refusal → Bool
  | .missingChild .. | .operandCount .. | .unknownNode _ | .invalidTable _ => true
  | _ => false

/-- A well-formed query is answered or refused for data, except that an item of WHERE may compare a
function; a query with such an item is refused whatever the rows are. -/
theorem Query.refusals_of_valid {q : Query} {settings : Settings} {catalog : Catalog} {t : Table}
    (isQuery : q.root.tag = .query) (valid : q.root.validate = .ok ())
    (cellsOnly : catalog.RefusesCells) :
    (∀ refusal, q.run settings catalog t = .error refusal →
      (refusal.isOfData = true ∨ refusal.IsForFunctionIn q.root.whereItems) ∧
        refusal.isStructural = false) ∧
      ((∃ item ∈ q.root.whereItems, item.comparesFunction = true) →
        ∃ refusal, ∀ u : Table, u.header = t.header →
          q.run settings catalog u = .error refusal) := by
  refine ⟨fun refusal refused => ?_, fun compares =>
    Node.run_eq_error_of_comparesFunction isQuery valid compares t.header⟩
  have allowed := Node.refusesOnly_run isQuery valid cellsOnly refusal refused
  refine ⟨allowed, ?_⟩
  rcases allowed with ofData | ⟨item, _, _, rfl⟩
  · cases refusal <;> first | rfl | cases ofData
  · rfl

/-- The regions of rows that are more than one, which single rows cannot be. -/
def Query.countedRows : Query :=
  ⟨"counted", 0, 13, ⟨0, .query, [
    ⟨1, .selectClause, [
      ⟨2, .selectItem, [⟨3, .column, [⟨4, .identifier "region", []⟩]⟩]⟩]⟩,
    ⟨5, .whereClause, [⟨6, .filterItem, [
      ⟨7, .function, [⟨8, .identifier "COUNT", []⟩, ⟨9, .star none, []⟩]⟩,
      ⟨10, .comparator .gt, []⟩, ⟨11, .identifier "1", []⟩]⟩]⟩]⟩⟩

theorem Query.refusals_of_countedRows : ∃ refusal, refusal.isStructural = false ∧
    ∀ u : Table, u.header = Table.sales.header →
      countedRows.run {} .builtin u = .error refusal := by
  have refusals := @refusals_of_valid countedRows {} .builtin Table.sales rfl rfl
    Catalog.refusesCells_builtin
  have compares : ∃ item ∈ countedRows.root.whereItems, item.comparesFunction = true :=
    ⟨_, Node.self_mem_items 6 _, rfl⟩
  obtain ⟨refusal, refused⟩ := refusals.2 compares
  exact ⟨refusal, (refusals.1 refusal (refused _ rfl)).2, refused⟩

end TableQuery
