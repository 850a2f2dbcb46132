import TableQuery.Proofs.Query.Grouped
import TableQuery.Proofs.Statement.WellFormed
import TableQuery.Proofs.Table.Bounds
import TableQuery.Proofs.Table.Records

/-! # Queries that form no groups

The answer of a query that forms no groups has a row for every row that WHERE
leaves, and in it the cells of one item after the other.  A star is the one
item with more than one cell: it is spelled out as the names of all columns,
and these names are looked up again, under the aliases of the items.  No alias
gets in their way, since a column is found by its own name first.
-/

namespace TableQuery

theorem Header.cellsAt?_sorted (h : Header) {row : Row} (wide : h.width ≤ row.length) :
    row.cellsAt? (h.sorted.map (·.2)) = some (h.cells row) := by
  have inside : ∀ position ∈ h.sorted.map (·.2), position < row.length := by
    intro position member
    obtain ⟨column, held, rfl⟩ := List.mem_map.1 member
    exact Nat.lt_of_lt_of_le (lt_width_of_mem (h.sorted_perm.mem_iff.1 held)) wide
  rw [Row.cellsAt?_eq_key inside, Row.key, List.map_map]
  rfl

namespace Node

variable {α : Type} {header : Header} {row : Row} {item : Node α} {items : List (Node α)}

/-- Whether an item selects some cells of a row: a column the cell at the position of its name, and
a star the cells at all named positions, from left to right. -/
inductive SelectsCells (header : Header) (row : Row) (item : Node α) : List Cell → Prop where
  | column {expression : Node α} {name : String} {position : Nat} {cell : Cell}
      (below : item.itemExpression = .ok expression) (isColumn : expression.kind = .column)
      (named : expression.name = .ok name) (resolved : header.position name = .ok position)
      (read : row[position]? = some cell) : SelectsCells header row item [cell]
  | star {expression : Node α} {owner : Option String} {positions : List Nat} {cells : List Cell}
      (below : item.itemExpression = .ok expression) (isStar : expression.kind = .star owner)
      (all : positions.Perm header.columns.values) (rising : positions.Pairwise (· ≤ ·))
      (read : row.cellsAt? positions = some cells) : SelectsCells header row item cells

def selectsAll (item : Node α) : Bool :=
  item.children.head?.any fun expression => expression.tag == .star

theorem not_function_of_item {expression : Node α} (below : item.itemExpression = .ok expression)
    (noFunction : item.selectsFunction = false) : expression.kind ≠ .function := by
  intro isFunction
  rw [selectsFunction, head?_of_itemExpression below] at noFunction
  simp [tag, isFunction, Kind.tag] at noFunction

theorem selectsCells_of_names {names : List String} {columns : List (String × Nat)}
    (valid : item.validate = .ok ()) (isItem : item.tag = .selectItem)
    (noFunction : item.selectsFunction = false) (read : selectedNames header item = .ok names)
    (resolved : names.mapM header.column = .ok columns) (wide : header.width ≤ row.length) :
    item.SelectsCells header row (columns.map fun column => row.cell column.2) := by
  obtain ⟨expression, below, isExpression, _⟩ := exists_itemExpression valid isItem
  rw [selectedNames, below, ok_bind] at read
  rcases kind_of_isExpression isExpression with isColumn | isFunction | ⟨owner, isStar⟩
  · simp only [isColumn, bind_eq_ok, pure_eq_ok] at read
    obtain ⟨name, named, rfl⟩ := read
    simp only [List.mapM_cons, List.mapM_nil, bind_eq_ok, pure_eq_ok] at resolved
    obtain ⟨column, found, _, rfl, rfl⟩ := resolved
    rw [Header.column_eq_ok] at found
    have inside := Header.lt_width_of_mem (Header.mem_of_column? found)
    exact .column below isColumn named (Header.position_of_column? found)
      (Row.has_of_lt (Nat.lt_of_lt_of_le inside wide))
  · exact absurd isFunction (not_function_of_item below noFunction)
  · -- The names of a star lead back to the columns that they were taken from.
    rw [isStar] at read
    cases read
    cases header.mapM_column_names.symm.trans resolved
    exact .star below isStar (header.sorted_perm.map _) header.rising_sorted
      (header.cellsAt?_sorted wide)

theorem rows_of_selectRows {t out : Table} (valid : ∀ item ∈ items,
      item.validate = .ok () ∧ item.tag = .selectItem ∧ item.selectsFunction = false)
    (selected : selectRows items t = .ok out) :
    List.Forall₂ (fun row result => ∃ parts, result = parts.flatten ∧
      List.Forall₂ (SelectsCells t.header row) items parts) t.rows out.rows := by
  rw [selectRows, bind_eq_ok] at selected
  obtain ⟨names, read, projected⟩ := selected
  obtain ⟨columns, resolved, _, rows⟩ := Table.project_eq_ok projected
  obtain ⟨parts, rfl, each⟩ := exists_parts_of_mapM_flatten read resolved
  rw [rows, List.forall₂_map_right_iff, List.forall₂_same]
  intro row member
  have wide : t.header.width ≤ row.length := by
    rw [Table.length_eq_width member]
    exact Table.header_width_le_width
  -- The columns come in one part for each item, and so do the cells of the row.
  refine ⟨parts.map (List.map fun column => row.cell column.2), List.map_flatten, ?_⟩
  rw [List.forall₂_map_right_iff]
  refine ((List.forall₂_and_left _ _).2 ⟨valid, each⟩).imp ?_
  rintro item columns ⟨⟨itemValid, isItem, noFunction⟩, names, named, found⟩
  exact selectsCells_of_names itemValid isItem noFunction named found wide

/-- A star adds no alias, and is spelled out as the columns in their order. -/
theorem addAliases_of_selectsAll (selectsAll : item.selectsAll = true) (t : Table) :
    addAliases [item] t = .ok t ∧ selectRows [item] t = t.project t.header.names := by
  rw [Node.selectsAll, Option.any_eq_true] at selectsAll
  obtain ⟨expression, first, isStar⟩ := selectsAll
  have below : item.itemExpression = .ok expression := by
    rw [itemExpression, first]
    rfl
  obtain ⟨owner, isStar⟩ := kind_of_star (beq_iff_eq.1 isStar)
  have noAlias : item.itemAlias t.header = .ok none := by
    rw [itemAlias]
    split
    · rfl
    · rw [below, ok_bind, isStar]
      rfl
  constructor
  · rw [addAliases, List.mapM_cons, noAlias]
    rfl
  · rw [selectRows, List.mapM_cons, selectedNames, below, ok_bind, isStar]
    show t.project (t.header.names ++ []) = _
    rw [List.append_nil]

end Node

/-- The answer of a query that forms no groups: a row for every row that WHERE leaves, in the same
order, with the cells that the items select one after the other.  All columns of all rows are the
table itself, if its columns are numbered and no cell is left without a name. -/
theorem Query.rows_of_ungrouped {q : Query} {items : List (Node Nat)}
    (selects : q.root.selectItems = .ok items) (noGroupBy : q.root.clause? .groupByClause = none)
    (noHaving : q.root.clause? .havingClause = none)
    (noFunction : ∀ item ∈ items, item.selectsFunction = false) (settings : Settings)
    (catalog : Catalog) :
    (∀ t out, q.run settings catalog t = .ok out →
      ∃ u, Node.addAliases items t = .ok u ∧ u.header.columns = t.header.columns ∧
        List.Forall₂ (fun row result => ∃ parts, result = parts.flatten ∧
          List.Forall₂ (Node.SelectsCells u.header row) items parts)
          (q.root.rowsLeft settings t) out.rows) ∧
    (q.root.validate = .ok () → q.root.clause? .whereClause = none →
      ∀ item, items = [item] → item.selectsAll = true →
        ∀ names aliases header rows t, Header.ofNames names aliases = .ok header →
          Table.ofRows header rows = .ok t → (∀ row ∈ rows, row.length = names.length) →
            q.run settings catalog t = .ok t) := by
  have noGroups : q.root.isGrouped items = false := by
    rw [Node.isGrouped, noGroupBy, noHaving, List.any_eq_false.2 (by simpa using noFunction)]
    rfl
  constructor
  · intro t out ran
    obtain ⟨_, u, valid, selectsAgain, left, ⟨w, aliased, sameHeader⟩, answered⟩ :=
      Node.answered_of_run ran
    cases selects.symm.trans selectsAgain
    rw [noGroups] at answered
    have itemsValid : ∀ item ∈ items,
        item.validate = .ok () ∧ item.tag = .selectItem ∧ item.selectsFunction = false := by
      intro item member
      exact ⟨Node.valid_of_mem_selectItems valid selects item member,
        Node.tag_of_mem_selectItems valid selects item member, noFunction item member⟩
    have rows := Node.rows_of_selectRows itemsValid answered
    -- The names are looked up under the aliases that the items add to the table as it was.
    rw [left, ← sameHeader] at rows
    exact ⟨w, aliased, Node.columns_of_addAliases aliased, rows⟩
  · intro valid noWhere item only selectsAll names aliases header rows t numbered made wide
    cases only
    rw [← Table.header_of_ofRows made] at numbered
    rw [← Table.rows_of_ofRows made] at wide
    obtain ⟨noAlias, projects⟩ := Node.addAliases_of_selectsAll selectsAll t
    rw [run, Node.run, valid, ok_bind, selects, ok_bind, noWhere]
    show (Node.addAliases [item] t >>= _) = _
    rw [noAlias, ok_bind, noGroups]
    exact projects.trans (Table.project_names_of_ofNames numbered wide)

/-- The amounts of the sales outside the south, by another name and before their regions. -/
def Query.salesOutsideSouth : Query :=
  ⟨"outside", 0, 14, ⟨0, .query, [
    ⟨1, .selectClause, [
      ⟨2, .selectItem, [⟨3, .column, [⟨4, .identifier "amount", []⟩]⟩,
        ⟨5, .identifier "sold", []⟩]⟩,
      ⟨6, .selectItem, [⟨7, .column, [⟨8, .identifier "region", []⟩]⟩]⟩]⟩,
    ⟨9, .whereClause, [⟨10, .filterItem, [⟨11, .column, [⟨12, .identifier "region", []⟩]⟩,
      ⟨13, .comparator .ne, []⟩, ⟨14, .identifier "'south'", []⟩]⟩]⟩]⟩⟩

def Query.allSales : Query :=
  ⟨"all", 0, 3, ⟨0, .query, [
    ⟨1, .selectClause, [⟨2, .selectItem, [⟨3, .star (some "sales"), []⟩]⟩]⟩]⟩⟩

theorem Query.rows_of_allSales :
    (∃ out, salesOutsideSouth.run {} .builtin Table.sales = .ok out ∧
      out.rows = [[.int 3, .text "north"], [.null, .text "north"]] ∧
      (salesOutsideSouth.root.rowsLeft {} Table.sales).length = 2) ∧
    allSales.run {} .builtin Table.sales = .ok Table.sales := by
  have ran : salesOutsideSouth.run {} .builtin Table.sales = .ok _ := rfl
  obtain ⟨answers, _⟩ := @rows_of_ungrouped salesOutsideSouth _ rfl rfl rfl (by decide) {} .builtin
  obtain ⟨_, whole⟩ := @rows_of_ungrouped allSales _ rfl rfl rfl (by decide) {} .builtin
  obtain ⟨_, _, _, rows⟩ := answers _ _ ran
  refine ⟨⟨_, ran, rfl, rows.length_eq⟩, ?_⟩
  exact whole rfl rfl _ rfl rfl ["region", "amount"] ∅ _ _ _ rfl
    (Table.ofRows_of_fits Table.sales.fits) (by decide)

end TableQuery
