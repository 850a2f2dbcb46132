import TableQuery.Proofs.Query.Erasure
import TableQuery.Proofs.Query.Grouped
import TableQuery.Proofs.Statement.WellFormed

/-! # Queries with the same clauses

The answer of a well-formed query is decided by four of its clauses, SELECT,
WHERE, GROUP BY and HAVING, and by these only up to the marks of their nodes.
Two queries are compared stage by stage: the rows that WHERE leaves, the
aliases that are added to them, and what is selected from there.
-/

namespace TableQuery

namespace Node

variable {α β : Type} {n : Node α} {m : Node β} {tag : Tag}

/-- Whether two trees have the same clause with a tag, or neither has one. -/
def sameClause (tag : Tag) (n : Node α) (m : Node β) : Bool :=
  match n.clause? tag, m.clause? tag with
  | some clause, some other => clause.same other
  | none, none => true
  | _, _ => false

theorem sameClause_cases (alike : sameClause tag n m = true) :
    (n.clause? tag = none ∧ m.clause? tag = none) ∨
      ∃ clause other, n.clause? tag = some clause ∧ m.clause? tag = some other ∧
        clause.erase = other.erase := by
  unfold sameClause at alike
  split at alike
  · next clause other found otherFound =>
    exact .inr ⟨clause, other, found, otherFound, same_iff_erase.1 alike⟩
  · next missing otherMissing => exact .inl ⟨missing, otherMissing⟩
  · cases alike

theorem isSome_clause?_congr (alike : sameClause tag n m = true) :
    (n.clause? tag).isSome = (m.clause? tag).isSome := by
  rcases sameClause_cases alike with ⟨missing, otherMissing⟩ | ⟨_, _, found, otherFound, _⟩
  · rw [missing, otherMissing]
    rfl
  · rw [found, otherFound]
    rfl

theorem childWith_zero_eq_ok {child : Node α} :
    n.childWith tag 0 = .ok child ↔ n.clause? tag = some child := by
  rw [childWith, clause?, ← List.head?_filter, List.head?_eq_getElem?]
  cases (n.children.filter fun c => c.tag == tag)[0]? with
  | none => simp [throw_eq_ok]
  | some first => simp [pure_eq_ok]

theorem map_children_erase {n : Node α} {m : Node β} (alike : n.erase = m.erase) :
    n.children.map erase = m.children.map erase := by
  rw [← children_erase, alike, children_erase]

section Items

variable {items : List (Node α)} {others : List (Node β)}

theorem exists_selectItems_of_same (alike : sameClause .selectClause n m = true)
    (selects : n.selectItems = .ok items) :
    ∃ others, m.selectItems = .ok others ∧ items.map erase = others.map erase := by
  simp only [selectItems, bind_eq_ok, pure_eq_ok, childWith_zero_eq_ok] at selects ⊢
  obtain ⟨clause, found, rfl⟩ := selects
  rcases sameClause_cases alike with ⟨missing, _⟩ | ⟨_, other, foundAgain, otherFound, same⟩
  · cases found.symm.trans missing
  · cases found.symm.trans foundAgain
    exact ⟨other.children, ⟨other, otherFound, rfl⟩, map_children_erase same⟩

theorem addAliases_of_erase (same : items.map erase = others.map erase) (t : Table) :
    addAliases items t = addAliases others t := by
  rw [← addAliases_erase, same, addAliases_erase]

theorem selectRows_of_erase (same : items.map erase = others.map erase) (t : Table) :
    selectRows items t = selectRows others t := by
  rw [← selectRows_erase, same, selectRows_erase]

theorem any_selectsFunction_of_erase (same : items.map erase = others.map erase) :
    items.any selectsFunction = others.any selectsFunction := by
  have erased : (items.map erase).any selectsFunction = (others.map erase).any selectsFunction := by
    rw [same]
  simpa only [List.any_map, Function.comp_def, selectsFunction_erase] using erased

theorem select_of_erase (same : items.map erase = others.map erase) (g : Grouping) :
    g.select items = g.select others := by
  rw [← Grouping.select_erase, same, Grouping.select_erase]

end Items

section Stages

variable {settings : Settings} {catalog : Catalog} {t : Table} {items : List (Node α)}
  {others : List (Node β)}

theorem run_congr (valid : n.validate = .ok ()) (otherValid : m.validate = .ok ())
    (selects : n.selectItems = .ok items) (otherSelects : m.selectItems = .ok others)
    (sameItems : items.map erase = others.map erase)
    (sameWhere : sameClause .whereClause n m = true)
    (after : ∀ u v : Table, u.header = t.header → addAliases items u = .ok v →
      (if n.isGrouped items then n.selectGroups items settings catalog v else selectRows items v) =
        if m.isGrouped others then m.selectGroups others settings catalog v
        else selectRows others v) :
    n.run settings catalog t = m.run settings catalog t := by
  -- WHERE leaves the header as it is, so that both queries add their aliases to one table.
  have afterWhere : ∀ u : Table, u.header = t.header →
      (addAliases items u >>= fun v => if n.isGrouped items then
          n.selectGroups items settings catalog v else selectRows items v) =
        addAliases others u >>= fun v => if m.isGrouped others then
          m.selectGroups others settings catalog v else selectRows others v := by
    intro u sameHeader
    rw [← addAliases_of_erase sameItems]
    cases aliased : addAliases items u with
    | error refusal => rfl
    | ok v => exact after u v sameHeader aliased
  rw [run, run, valid, otherValid, ok_bind, ok_bind, selects, otherSelects, ok_bind, ok_bind]
  rcases sameClause_cases sameWhere with
    ⟨missing, otherMissing⟩ | ⟨clause, other, found, otherFound, same⟩
  · rw [missing, otherMissing]
    exact afterWhere t rfl
  · have filters : t.filterBy settings clause = t.filterBy settings other := by
      rw [← Table.filterBy_erase, same, Table.filterBy_erase]
    simp only [found, otherFound, filters]
    cases filtered : t.filterBy settings other with
    | error refusal => rfl
    | ok u => exact afterWhere u (Table.header_of_filterBy filtered)

theorem groupPositions_congr (alike : sameClause .groupByClause n m = true) (header : Header) :
    n.groupPositions header = m.groupPositions header := by
  rw [groupPositions, groupPositions]
  rcases sameClause_cases alike with
    ⟨missing, otherMissing⟩ | ⟨clause, other, found, otherFound, same⟩
  · rw [missing, otherMissing]
  · simp only [found, otherFound]
    rw [← mapM_position_erase, map_children_erase same, mapM_position_erase]

theorem having_congr {clause : Node α} {other : Node β} (same : clause.erase = other.erase)
    (g : Grouping) : g.having clause = g.having other := by
  rw [← Grouping.having_erase, same, Grouping.having_erase]

theorem selectGroups_of_samePositions (sameItems : items.map erase = others.map erase)
    (samePositions : n.groupPositions t.header = m.groupPositions t.header)
    (sameHaving : sameClause .havingClause n m = true) :
    n.selectGroups items settings catalog t = m.selectGroups others settings catalog t := by
  rw [selectGroups, selectGroups, samePositions]
  refine bind_congr fun positions => bind_congr fun g => ?_
  rcases sameClause_cases sameHaving with
    ⟨missing, otherMissing⟩ | ⟨clause, other, found, otherFound, same⟩
  · rw [missing, otherMissing]
    exact select_of_erase sameItems _
  · simp only [found, otherFound, having_congr same, select_of_erase sameItems]

theorem selectGroups_congr (sameItems : items.map erase = others.map erase)
    (sameGroupBy : sameClause .groupByClause n m = true)
    (sameHaving : sameClause .havingClause n m = true) :
    n.selectGroups items settings catalog t = m.selectGroups others settings catalog t :=
  selectGroups_of_samePositions sameItems (groupPositions_congr sameGroupBy t.header) sameHaving

theorem isGrouped_congr (sameItems : items.map erase = others.map erase)
    (sameGroupBy : (n.clause? .groupByClause).isSome = (m.clause? .groupByClause).isSome)
    (sameHaving : sameClause .havingClause n m = true) :
    n.isGrouped items = m.isGrouped others := by
  rw [isGrouped, isGrouped, sameGroupBy, isSome_clause?_congr sameHaving,
    any_selectsFunction_of_erase sameItems]

end Stages

end Node

/-- Well-formed queries with the same SELECT, WHERE, GROUP BY and HAVING have the same answer, or
are refused for the same cause: neither the numbers of their nodes nor their names nor any of
their other clauses count. -/
theorem Query.run_eq_of_sameClauses {q r : Query} (isQuery : q.root.tag = .query)
    (valid : q.root.validate = .ok ()) (otherValid : r.root.validate = .ok ())
    (sameSelect : Node.sameClause .selectClause q.root r.root = true)
    (sameWhere : Node.sameClause .whereClause q.root r.root = true)
    (sameGroupBy : Node.sameClause .groupByClause q.root r.root = true)
    (sameHaving : Node.sameClause .havingClause q.root r.root = true)
    (settings : Settings) (catalog : Catalog) (t : Table) :
    q.run settings catalog t = r.run settings catalog t := by
  obtain ⟨select, _, _, _, selects, _⟩ := Node.exists_selectItems valid isQuery
  obtain ⟨others, otherSelects, sameItems⟩ := Node.exists_selectItems_of_same sameSelect selects
  apply Node.run_congr valid otherValid selects otherSelects sameItems sameWhere
  intro u v _ _
  rw [Node.isGrouped_congr sameItems (Node.isSome_clause?_congr sameGroupBy) sameHaving,
    Node.selectGroups_congr sameItems sameGroupBy sameHaving, Node.selectRows_of_erase sameItems]

/-- The query for the sales of regions, written with its clauses in another order of appending, from
a named table and up to a limit. -/
def Query.limitedSalesOfRegions : Query :=
  ⟨"limited", 3, 23, ⟨0, .query, [
    ⟨12, .selectClause, [
      ⟨13, .selectItem, [⟨14, .column, [⟨15, .identifier "region", []⟩]⟩]⟩,
      ⟨16, .selectItem, [⟨17, .function, [⟨18, .identifier "COUNT", []⟩, ⟨19, .star none, []⟩]⟩]⟩]⟩,
    ⟨20, .fromItem, [⟨21, .table, [⟨22, .identifier "sales", []⟩]⟩]⟩,
    ⟨4, .whereClause, [⟨5, .filterItem, [⟨6, .column, [⟨7, .identifier "region", []⟩]⟩,
      ⟨8, .comparator .ne, []⟩, ⟨9, .identifier "'south'", []⟩]⟩]⟩,
    ⟨1, .groupByClause, [⟨2, .column, [⟨3, .identifier "region", []⟩]⟩]⟩,
    ⟨10, .limitClause, [⟨11, .identifier "1", []⟩]⟩]⟩⟩

theorem Query.run_limitedSalesOfRegions :
    salesOfRegions.run {} .builtin Table.sales =
      limitedSalesOfRegions.run {} .builtin Table.sales :=
  run_eq_of_sameClauses rfl rfl rfl rfl rfl rfl rfl {} .builtin Table.sales

end TableQuery
