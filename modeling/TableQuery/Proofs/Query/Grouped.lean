import TableQuery.Proofs.Grouping.Select
import TableQuery.Proofs.Statement.Grammar
import TableQuery.Proofs.Table.Filter
import TableQuery.Query.Run

/-! # Queries that form groups

The answer of a query that forms groups, read off the statement and the rows of
the table: which rows are left by WHERE, the keys that these rows have, and for
every key one row with the cells of the selected items on the rows that have
the key.
-/

namespace TableQuery

namespace Node

variable {α : Type} {n : Node α} {settings : Settings} {catalog : Catalog} {t : Table}

/-- The rows of a table of which the condition of WHERE is true; all of them without WHERE. -/
def rowsLeft (n : Node α) (settings : Settings) (t : Table) : List Row :=
  match (n.clause? .whereClause).bind fun clause => clause.children.head? with
  | some condition => t.rows.filter fun row =>
      condition.holds fun item => Table.itemHolds t.header settings item row
  | none => t.rows

theorem rowsLeft_of_filterBy {clause : Node α} {u : Table}
    (found : n.clause? .whereClause = some clause) (filtered : t.filterBy settings clause = .ok u) :
    u.header = t.header ∧ u.rows = n.rowsLeft settings t := by
  obtain ⟨condition, φ, below, translated, kept⟩ := Table.filterBy_eq_ok.1 filtered
  obtain rfl := Table.keep_eq_filter translated kept
  rw [conditionOf, if_pos (tag_of_clause? found)] at below
  split at below
  · next first =>
    cases below
    rw [rowsLeft, found, Option.bind_some, first]
    exact ⟨rfl, rfl⟩
  · cases below

/-- The aliases that items add depend on the header and not on the rows. -/
theorem addAliases_congr {items : List (Node α)} {u v : Table} (same : u.header = t.header)
    (aliased : addAliases items u = .ok v) :
    v.rows = u.rows ∧ ∃ w, addAliases items t = .ok w ∧ w.header = v.header := by
  simp only [addAliases, same, bind_eq_ok, pure_eq_ok] at aliased ⊢
  obtain ⟨added, made, rfl⟩ := aliased
  refine ⟨rfl, _, ⟨added, made, rfl⟩, ?_⟩
  simp only [Table.withAliases, same]

theorem columns_of_addAliases {items : List (Node α)} {w : Table}
    (aliased : addAliases items t = .ok w) : w.header.columns = t.header.columns := by
  simp only [addAliases, bind_eq_ok, pure_eq_ok] at aliased
  obtain ⟨_, _, same⟩ := aliased
  rw [← same]
  rfl

theorem answered_of_run {out : Table} (ran : n.run settings catalog t = .ok out) :
    ∃ items u, n.validate = .ok () ∧ n.selectItems = .ok items ∧ u.rows = n.rowsLeft settings t ∧
      (∃ w, addAliases items t = .ok w ∧ w.header = u.header) ∧
      (if n.isGrouped items then n.selectGroups items settings catalog u
        else selectRows items u) = .ok out := by
  rw [run] at ran
  simp only [bind_eq_ok] at ran
  obtain ⟨_, valid, items, selects, answered⟩ := ran
  -- What follows WHERE is the same without it, with all rows of the table.
  have filtered : ∃ u v, u.header = t.header ∧ u.rows = n.rowsLeft settings t ∧
      addAliases items u = .ok v ∧
      (if n.isGrouped items then n.selectGroups items settings catalog v
        else selectRows items v) = .ok out := by
    split at answered
    · next clause found =>
      simp only [bind_eq_ok] at answered
      obtain ⟨u, filtered, v, aliased, answered⟩ := answered
      obtain ⟨sameHeader, left⟩ := rowsLeft_of_filterBy found filtered
      exact ⟨u, v, sameHeader, left, aliased, answered⟩
    · next missing =>
      simp only [bind_eq_ok] at answered
      obtain ⟨_, same, v, aliased, answered⟩ := answered
      cases same
      exact ⟨t, v, rfl, by rw [rowsLeft, missing]; rfl, aliased, answered⟩
  obtain ⟨u, v, sameHeader, left, aliased, answered⟩ := filtered
  obtain ⟨sameRows, withAliases⟩ := addAliases_congr sameHeader aliased
  exact ⟨items, v, valid, selects, sameRows.trans left, withAliases, answered⟩

theorem selectGroups_eq_ok {items : List (Node α)} {out : Table}
    (noHaving : n.clause? .havingClause = none) :
    n.selectGroups items settings catalog t = .ok out ↔
      ∃ positions g, n.groupPositions t.header = .ok positions ∧ t.groupAt positions = .ok g ∧
        Grouping.select { g with settings, catalog } items = .ok out := by
  rw [selectGroups, noHaving]
  simp only [bind_eq_ok, pure_eq_ok]
  constructor
  · rintro ⟨positions, resolved, g, grouped, _, rfl, selects⟩
    exact ⟨positions, g, resolved, grouped, selects⟩
  · rintro ⟨positions, g, resolved, grouped, selects⟩
    exact ⟨positions, resolved, g, grouped, _, rfl, selects⟩

theorem groupPositions_of_missing {header : Header} {positions : List Nat}
    (missing : n.clause? .groupByClause = none)
    (resolved : n.groupPositions header = .ok positions) : positions = [] := by
  rw [groupPositions, missing] at resolved
  exact (Except.ok.inj resolved).symm

end Node

/-- The answer of a query that forms groups, by GROUP BY or because it selects a function, and keeps
all of them: a row for every key of the rows that WHERE leaves, in the order in which the keys first
occur, with the cells of the selected items on the rows that have the key. -/
theorem Query.rows_of_grouped {q : Query} {settings : Settings} {catalog : Catalog} {t out : Table}
    {items : List (Node Nat)} (selects : q.root.selectItems = .ok items)
    (noHaving : q.root.clause? .havingClause = none)
    (forms : (q.root.clause? .groupByClause).isSome = true ∨ items.any Node.selectsFunction = true)
    (ran : q.run settings catalog t = .ok out) :
    ∃ g : Grouping, g.settings = settings ∧ g.catalog = catalog ∧
      (∃ u, Node.addAliases items t = .ok u ∧ u.header = g.header) ∧
      q.root.groupPositions g.header = .ok g.positions ∧
      (q.root.clause? .groupByClause = none → g.positions = []) ∧
      let rows := q.root.rowsLeft settings t
      (∀ row ∈ rows, row.cellsAt? g.positions = some (row.key g.positions)) ∧
      List.Forall₂ (fun key row =>
          List.Forall₂ (fun item cell =>
            g.selected? (Groups.membersOf g.positions rows key) item = some cell) items row)
        (Groups.keysOf g.positions rows) out.rows ∧
      (rows = [] → out.rows = []) ∧
      (g.positions = [] → rows ≠ [] → ∃ row, out.rows = [row]) := by
  obtain ⟨_, u, valid, selectsAgain, left, aliased, answered⟩ := Node.answered_of_run ran
  obtain rfl := Except.ok.inj (selects.symm.trans selectsAgain)
  have isGrouped : q.root.isGrouped items = true := by
    rw [Node.isGrouped, noHaving]
    simpa using forms
  rw [if_pos isGrouped, Node.selectGroups_eq_ok noHaving] at answered
  obtain ⟨positions, g, resolved, grouped, selected⟩ := answered
  have formed : Grouping.Formed positions (q.root.rowsLeft settings t) g :=
    .atPositions left grouped
  have reached := ((Grouping.Reached.formed formed).withSettings settings).withCatalog catalog
  obtain ⟨inside, rfl⟩ := Table.groupAt_eq_ok.1 grouped
  have answers := Grouping.rows_of_select reached.isPartition
    (Node.tag_of_mem_selectItems valid selects) selected
  rw [show Grouping.groups _ = Groups.ofRows positions u.rows from rfl, Groups.entries_ofRows,
    List.forall₂_map_left_iff, left] at answers
  refine ⟨_, rfl, rfl, aliased, resolved, fun missing =>
    Node.groupPositions_of_missing missing resolved, ?_, answers, ?_, ?_⟩
  · intro row member
    rw [← left] at member
    refine Row.cellsAt?_eq_key fun position among => ?_
    rw [Table.length_eq_width member]
    exact inside position among
  · intro empty
    rw [empty] at answers
    exact List.forall₂_nil_left_iff.1 answers
  · rintro rfl nonempty
    rw [Groups.keysOf_nil nonempty] at answers
    obtain ⟨row, _, _, noMore, same⟩ := List.forall₂_cons_left_iff.1 answers
    rw [List.forall₂_nil_left_iff.1 noMore] at same
    exact ⟨row, same⟩

/-- The number of sales in every region but the south. -/
def Query.salesOfRegions : Query :=
  ⟨"sales", 0, 18, ⟨0, .query, [
    ⟨1, .selectClause, [
      ⟨2, .selectItem, [⟨3, .column, [⟨4, .identifier "region", []⟩]⟩]⟩,
      ⟨5, .selectItem, [⟨6, .function, [⟨7, .identifier "COUNT", []⟩, ⟨8, .star none, []⟩]⟩]⟩]⟩,
    ⟨9, .whereClause, [⟨10, .filterItem, [⟨11, .column, [⟨12, .identifier "region", []⟩]⟩,
      ⟨13, .comparator .ne, []⟩, ⟨14, .identifier "'south'", []⟩]⟩]⟩,
    ⟨15, .groupByClause, [⟨16, .column, [⟨17, .identifier "region", []⟩]⟩]⟩]⟩⟩

theorem Query.rows_of_sales : ∃ (out : Table) (g : Grouping),
    salesOfRegions.run {} .builtin Table.sales = .ok out ∧ out.rows = [[.text "north", .int 2]] ∧
      salesOfRegions.root.groupPositions g.header = .ok g.positions ∧
      (Groups.keysOf g.positions (salesOfRegions.root.rowsLeft {} Table.sales)).length = 1 := by
  have ran : salesOfRegions.run {} .builtin Table.sales = .ok _ := rfl
  obtain ⟨g, _, _, _, resolved, _, _, cells, _⟩ := rows_of_grouped rfl rfl (.inl rfl) ran
  exact ⟨_, g, ran, rfl, resolved, cells.length_eq⟩

end TableQuery
