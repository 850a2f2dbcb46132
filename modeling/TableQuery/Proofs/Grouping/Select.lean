import TableQuery.Grouping.Select
import TableQuery.Proofs.Grouping.Partition
import TableQuery.Proofs.Grouping.Value
import TableQuery.Proofs.Table.Refusals

/-! # Rows selected from groups

What an item reads off a group can be read off the rows of the group alone: a
function has a value on them, and the cell of a column is that of the first
row, since the cells of the first row make the key.
-/

namespace TableQuery

variable {α : Type}

theorem Row.exists_cell_of_cellsAt? {row : Row} {positions : List Nat} {cells : List Cell}
    {place position : Nat} (read : row.cellsAt? positions = some cells)
    (placed : positions[place]? = some position) :
    ∃ cell, cells[place]? = some cell ∧ row[position]? = some cell := by
  induction positions generalizing place cells with
  | nil => cases placed
  | cons first positions ih =>
    rw [cellsAt?, List.mapM_cons] at read
    obtain ⟨cell, found, rest⟩ := Option.bind_eq_some_iff.1 read
    obtain ⟨others, restRead, same⟩ := Option.bind_eq_some_iff.1 rest
    cases same
    cases place with
    | zero =>
      cases placed
      exact ⟨cell, rfl, found⟩
    | succ place =>
      rw [← cellsAt?] at restRead
      obtain ⟨other, inCells, inRow⟩ := ih restRead placed
      exact ⟨other, inCells, inRow⟩

namespace Grouping

variable {g : Grouping}

def expressionItem (g : Grouping) (expression : Node α) : Except Refusal Item :=
  match expression.kind with
  | .column => do
    let name ← expression.name
    let (column, position) ← g.header.column name
    match g.keyPlace? position with
    | some place => pure ⟨column, .key place⟩
    | none => throw (.notGrouped name)
  | .function => do
    let heading ← expression.heading
    pure ⟨heading, .call (← g.call expression)⟩
  | .star _ => throw (.notGrouped (Kind.starText none))
  | _ => throw (expression.malformed .expression)

theorem item_of_selectItem {n : Node α} (isItem : n.tag = .selectItem) :
    g.item n = n.itemExpression >>= g.expressionItem := by
  rw [item, if_pos isItem]
  rfl

theorem item_of_expression {n : Node α} (noItem : n.tag ≠ .selectItem) :
    g.item n = g.expressionItem n := by
  rw [item, if_neg noItem]
  rfl

theorem expressionItem_of_item {n : Node α} {i : Item} (isItem : n.tag = .selectItem)
    (made : g.item n = .ok i) :
    ∃ expression, n.itemExpression = .ok expression ∧ g.expressionItem expression = .ok i := by
  rw [item_of_selectItem isItem, bind_eq_ok] at made
  exact made

theorem expressionItem_eq_ok {expression : Node α} {i : Item}
    (made : g.expressionItem expression = .ok i) :
    (∃ name column place, expression.kind = .column ∧ expression.name = .ok name ∧
        g.header.column? name = some column ∧ g.keyPlace? column.2 = some place ∧
        i = ⟨column.1, .key place⟩) ∨
      (∃ heading c, expression.kind = .function ∧ expression.heading = .ok heading ∧
        g.call expression = .ok c ∧ i = ⟨heading, .call c⟩) := by
  unfold expressionItem at made
  split at made
  · next isColumn =>
    simp only [bind_eq_ok, Header.column_eq_ok] at made
    obtain ⟨name, named, column, resolved, made⟩ := made
    split at made
    · next place placed =>
      cases made
      exact .inl ⟨name, column, place, isColumn, named, resolved, placed, rfl⟩
    · cases made
  · next isFunction =>
    simp only [bind_eq_ok, pure_eq_ok] at made
    obtain ⟨heading, headed, c, called, same⟩ := made
    exact .inr ⟨heading, c, isFunction, headed, called, same.symm⟩
  · cases made
  · cases made

/-- The cell of a selected item on the rows of a group: the value of a function, or the cell that
the first row has at the position of a column. -/
def selected? (g : Grouping) (rows : List Row) (item : Node α) : Option Cell := do
  let expression ← item.children.head?
  match expression.kind with
  | .function => g.value? rows expression
  | .column => do
    let position ← (g.header.position (← expression.name.toOption)).toOption
    (← rows.head?)[position]?
  | _ => none

theorem selected?_of_item {n : Node α} {i : Item} (isItem : n.tag = .selectItem)
    (made : g.item n = .ok i) {group : Key × List Row} (isGroup : IsGroup g.positions group)
    {cell : Cell} (read : i.expression.evaluate group.1 group.2 = .ok cell) :
    g.selected? group.2 n = some cell := by
  obtain ⟨expression, below, made⟩ := expressionItem_of_item isItem made
  rw [selected?, Node.head?_of_itemExpression below]
  rcases expressionItem_eq_ok made with
    ⟨name, column, place, isColumn, named, resolved, placed, rfl⟩ |
    ⟨heading, c, isFunction, _, called, rfl⟩
  · -- The place in the key is where its position stands among those grouped by, and the key is made
    -- of the cells of the first row at these.
    obtain ⟨first, rest, rows⟩ := List.exists_cons_of_ne_nil isGroup.nonempty
    have at_place := getElem?_of_keyPlace? placed
    obtain ⟨value, inKey, inRow⟩ := Row.exists_cell_of_cellsAt?
      (isGroup.first first (by rw [rows]; rfl)) at_place
    have known : value = cell := by
      rw [GroupExpression.evaluate, List.getD_eq_getElem?_getD, inKey] at read
      exact Except.ok.inj read
    simp [isColumn, named, Header.position_of_column? resolved, Except.toOption, rows, inRow, known]
  · have value : (c.evaluate group.2).toOption = g.value? group.2 expression := evaluate_call called
    rw [show c.evaluate group.2 = .ok cell from read] at value
    simp [isFunction, ← value, Except.toOption]

theorem selected?_of_row {nodes : List (Node α)} {items : List Item}
    (areItems : ∀ n ∈ nodes, n.tag = .selectItem)
    (made : List.Forall₂ (fun n i => g.item n = .ok i) nodes items) {group : Key × List Row}
    (isGroup : IsGroup g.positions group) {row : Row}
    (read : Grouping.row items group.1 group.2 = .ok row) :
    List.Forall₂ (fun n cell => g.selected? group.2 n = some cell) nodes row := by
  rw [Grouping.row, mapM_eq_ok] at read
  induction made generalizing row with
  | nil =>
    cases read
    exact .nil
  | cons first rest ih =>
    obtain ⟨isItem, others⟩ := List.forall_mem_cons.1 areItems
    obtain ⟨cell, cells, firstRead, restRead, rfl⟩ := List.forall₂_cons_left_iff.1 read
    exact .cons (selected?_of_item isItem first isGroup firstRead) (ih others restRead)

theorem select_eq_ok {nodes : List (Node α)} {out : Table} (selected : g.select nodes = .ok out) :
    ∃ items, nodes.mapM g.item = .ok items ∧
      out.header = .ofNamesFirst (items.map (·.name)) g.header.aliases ∧
      ∀ row ∈ out.rows, ∃ group : Key × List Row, Grouping.row items group.1 group.2 = .ok row := by
  simp only [select, bind_eq_ok] at selected
  obtain ⟨items, made, rows, read, built⟩ := selected
  refine ⟨items, made, Table.header_of_ofRows built, fun row member => ?_⟩
  rw [Table.rows_of_ofRows built] at member
  obtain ⟨group, _, rowRead⟩ := exists_of_mem_mapM read member
  exact ⟨group, rowRead⟩

def tabulate (g : Grouping) (items : List Item) : Except Refusal Table := do
  let rows ← g.groups.entries.mapM fun group => row items group.1 group.2
  Table.ofRows (.ofNamesFirst (items.map (·.name)) g.header.aliases) rows

theorem select_eq_tabulate (nodes : List (Node α)) :
    g.select nodes = nodes.mapM g.item >>= g.tabulate := rfl

theorem exists_table_of_rows {items : List Item} {rows : List Row} (aliases : Aliases)
    (read : (g.groups.entries.mapM fun group => row items group.1 group.2) = .ok rows) :
    ∃ t, Table.ofRows (.ofNamesFirst (items.map (·.name)) aliases) rows = .ok t := by
  apply Table.ofRows_ofNamesFirst
  intro row member
  obtain ⟨group, _, cells⟩ := exists_of_mem_mapM read member
  rw [List.length_map]
  exact (mapM_eq_ok.1 cells).length_eq.symm

/-- Every group of a partition gives one row, with the cells of the selected items on its rows. -/
theorem rows_of_select {nodes : List (Node α)} {out : Table} (partition : g.IsPartition)
    (areItems : ∀ n ∈ nodes, n.tag = .selectItem) (selects : g.select nodes = .ok out) :
    List.Forall₂ (fun group row =>
        List.Forall₂ (fun n cell => g.selected? group.2 n = some cell) nodes row)
      g.groups.entries out.rows := by
  simp only [select, bind_eq_ok, mapM_eq_ok] at selects
  obtain ⟨items, made, rows, read, fits⟩ := selects
  rw [Table.rows_of_ofRows fits]
  refine List.Forall₂.imp ?_ ((List.forall₂_and_left _ _).2 ⟨partition.isGroup, read⟩)
  rintro group row ⟨isGroup, rowRead⟩
  exact selected?_of_row areItems made isGroup rowRead

end Grouping

end TableQuery
