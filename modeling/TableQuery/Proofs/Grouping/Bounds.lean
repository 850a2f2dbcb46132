import TableQuery.Proofs.Grouping.Partition
import TableQuery.Proofs.Grouping.Select
import TableQuery.Proofs.Statement.Nodes
import TableQuery.Proofs.Table.Bounds

/-! # Reads inside groups

The rows of a grouping have one width, which takes in the positions of the
header and those grouped by, and a key has a cell for each of the latter.  This
is so from the start and is not changed by conditions, settings or catalogs, so
that calls find their cells in the rows and everything else finds its cell in
the key.
-/

namespace TableQuery

variable {α : Type}

/-- Whether the rows of a group have the cells that a call reads. -/
def Call.Inside (rows : List Row) : Call → Prop
  | .ofOrdinals _ => True
  | .ofColumn _ position => ∀ row ∈ rows, row.Has position
  | .ofCall _ inner => inner.Inside rows

/-- Whether a group has the cells that an expression reads off its key or its rows. -/
def GroupExpression.Inside (group : Key × List Row) : GroupExpression → Prop
  | .key place => place < group.1.length
  | .call c => c.Inside group.2

namespace Grouping

variable {positions : List Nat} {rows : List Row} {g h : Grouping} {width : Nat}

/-- Whether the rows have a width that takes in the positions of the header and those grouped by. -/
structure IsBounded (g : Grouping) (width : Nat) : Prop where
  header : g.header.width ≤ width
  positions : ∀ position ∈ g.positions, position < width
  rows : ∀ group ∈ g.groups.entries, ∀ row ∈ group.2, row.length = width

theorem Formed.isBounded (formed : Formed positions rows g) : ∃ width, g.IsBounded width := by
  obtain ⟨t, same, grouped⟩ := formed.exists_table
  have members := fun group (known : group ∈ g.groups.entries) => formed.members_eq known
  obtain ⟨inside, built⟩ := Table.groupAt_eq_ok.1 grouped
  have header : g.header = t.header := by rw [built]
  have at_positions : g.positions = positions := by rw [built]
  refine ⟨t.width, ?_, ?_, ?_⟩
  · rw [header]
    exact Table.header_width_le_width
  · rw [at_positions]
    exact inside
  · intro group known row member
    rw [members group known] at member
    have isRow : row ∈ t.rows := by
      rw [same]
      exact (List.mem_filter.1 member).1
    exact Table.length_eq_width isRow

theorem IsBounded.having {clause : Node α} (before : g.IsBounded width)
    (kept : g.having clause = .ok h) : h.IsBounded width := by
  have fewer := (having_subset kept).1
  obtain ⟨_, _, groups, _, _, _, same⟩ := having_eq_ok kept
  rw [same] at fewer ⊢
  exact ⟨before.header, before.positions, fun group known => before.rows group (fewer known)⟩

theorem Reached.isBounded (reached : Reached positions rows g) : ∃ width, g.IsBounded width := by
  induction reached with
  | formed formed => exact formed.isBounded
  | having _ kept ih =>
    obtain ⟨width, before⟩ := ih
    exact ⟨width, before.having kept⟩
  | withSettings _ _ ih | withCatalog _ _ ih =>
    obtain ⟨width, before⟩ := ih
    exact ⟨width, before.header, before.positions, before.rows⟩

namespace IsBounded

variable {group : Key × List Row}

theorem cellsAt?_eq_key (bounded : g.IsBounded width) (known : group ∈ g.groups.entries) {row : Row}
    (member : row ∈ group.2) : row.cellsAt? g.positions = some (row.key g.positions) := by
  apply Row.cellsAt?_eq_key
  rw [bounded.rows group known row member]
  exact bounded.positions

theorem has_of_position (bounded : g.IsBounded width) (known : group ∈ g.groups.entries)
    {name : String} {position : Nat} (resolved : g.header.position name = .ok position) :
    ∀ row ∈ group.2, row.Has position := by
  intro row member
  apply Row.has_of_lt
  rw [bounded.rows group known row member]
  exact Nat.lt_of_lt_of_le (Header.position_lt_width resolved) bounded.header

theorem length_key (bounded : g.IsBounded width) (partition : g.IsPartition)
    (known : group ∈ g.groups.entries) : group.1.length = g.positions.length := by
  have isGroup := partition.isGroup group known
  obtain ⟨first, rest, members⟩ := List.exists_cons_of_ne_nil isGroup.nonempty
  have spelled := isGroup.first first (by rw [members]; rfl)
  have member : first ∈ group.2 := by simp [members]
  rw [bounded.cellsAt?_eq_key known member] at spelled
  rw [← Option.some.inj spelled, Row.key, List.length_map]

theorem inside_of_keyPlace? (bounded : g.IsBounded width) (partition : g.IsPartition)
    (known : group ∈ g.groups.entries) {position place : Nat}
    (placed : g.keyPlace? position = some place) : place < group.1.length := by
  rw [bounded.length_key partition known]
  exact (List.getElem?_eq_some_iff.1 (getElem?_of_keyPlace? placed)).1

theorem inside_of_call (bounded : g.IsBounded width) (known : group ∈ g.groups.entries) {n : Node α}
    {c : Call} (called : g.call n = .ok c) : c.Inside group.2 := by
  induction n using Node.induction generalizing c with
  | step n ih =>
    obtain ⟨arg, _, a, argued, _, _,
      ⟨_, _, _, _, resolved, rfl⟩ | ⟨_, _, rfl⟩ | ⟨inner, _, innerCalled, rfl⟩⟩ :=
      call_eq_ok called
    · exact bounded.has_of_position known resolved
    · trivial
    · show inner.Inside group.2
      exact ih arg (Node.mem_of_argument argued) innerCalled

theorem inside_of_operand (bounded : g.IsBounded width) (partition : g.IsPartition)
    (known : group ∈ g.groups.entries) {n : Node α} {operand : GroupExpression}
    (found : g.operand n = .ok operand) : operand.Inside group := by
  by_cases isFunction : n.tag = .function
  · rw [Grouping.operand, if_pos isFunction] at found
    simp only [bind_eq_ok, pure_eq_ok] at found
    obtain ⟨c, called, same⟩ := found
    rw [← same]
    exact bounded.inside_of_call known called
  · obtain ⟨_, position, place, _, _, placed, same⟩ := operand_eq_ok_of_column found isFunction
    rw [same]
    exact bounded.inside_of_keyPlace? partition known placed

theorem inside_of_item (bounded : g.IsBounded width) (partition : g.IsPartition)
    (known : group ∈ g.groups.entries) {n : Node α} {i : Item} (made : g.item n = .ok i) :
    i.expression.Inside group := by
  have expressionMade : ∃ expression : Node α, g.expressionItem expression = .ok i := by
    by_cases isItem : n.tag = .selectItem
    · obtain ⟨expression, _, made⟩ := expressionItem_of_item isItem made
      exact ⟨expression, made⟩
    · rw [item_of_expression isItem] at made
      exact ⟨n, made⟩
  obtain ⟨expression, made⟩ := expressionMade
  rcases expressionItem_eq_ok made with ⟨_, _, place, _, _, _, placed, same⟩ |
    ⟨_, c, _, _, called, same⟩
  · rw [same]
    exact bounded.inside_of_keyPlace? partition known placed
  · rw [same]
    exact bounded.inside_of_call known called

end IsBounded

/-- Whether every group has the cells that are read off it. -/
structure ReadsInside (g : Grouping) : Prop where
  key : ∀ group ∈ g.groups.entries, ∀ row ∈ group.2,
    row.cellsAt? g.positions = some (row.key g.positions)
  condition : ∀ {α : Type} (condition : Node α) (φ : Formula GroupTest),
    Formula.ofNode g.groupTest condition = .ok φ →
      ∀ test ∈ φ.tests, ∀ group ∈ g.groups.entries, test.operand.Inside group
  items : ∀ {α : Type} (nodes : List (Node α)) (items : List Item), nodes.mapM g.item = .ok items →
    ∀ item ∈ items, ∀ group ∈ g.groups.entries, item.expression.Inside group

theorem Reached.readsInside (reached : Reached positions rows g) : g.ReadsInside := by
  obtain ⟨width, bounded⟩ := reached.isBounded
  have partition := reached.isPartition
  refine ⟨fun group known row => bounded.cellsAt?_eq_key known, ?_, ?_⟩
  · intro α condition φ made test member group known
    obtain ⟨item, _, itemMade⟩ := (Formula.translates_of_ofNode made).exists_item test member
    simp only [groupTest, bind_eq_ok, pure_eq_ok] at itemMade
    obtain ⟨_, _, operand, found, same⟩ := itemMade
    rw [← same]
    exact bounded.inside_of_operand partition known found
  · intro α nodes items made item member group known
    obtain ⟨n, _, itemMade⟩ := exists_of_mem_mapM made member
    exact bounded.inside_of_item partition known itemMade

/-- Rows become a table when there are none, or when they have one width that takes in all positions
of the header; every table has what its rows would be asked for; and whatever reads the rows of a
table or the groups of a grouping finds its cells. -/
theorem reads_inside :
    (∀ (header : Header) (rows : List Row), (∃ t, Table.ofRows header rows = .ok t) ↔
      rows = [] ∨ ∃ width, header.width ≤ width ∧ ∀ row ∈ rows, row.length = width) ∧
    (∀ t : Table, Table.ofRows t.header t.rows = .ok t ∧ t.ReadsInside) ∧
    ∀ (positions : List Nat) (rows : List Row) (g : Grouping),
      Reached positions rows g → g.ReadsInside :=
  ⟨fun _ _ => Table.exists_ofRows_iff, fun t => ⟨t.ofRows_self, t.readsInside⟩,
    fun _ _ _ reached => reached.readsInside⟩

/-- A header may leave out a column, but name none beyond the rows; the sales of every region can be
read whole. -/
theorem reads_inside_of_sales :
    (∃ t, Table.ofRows (.ofPositions [("amount", 1)] ∅) Table.sales.rows = .ok t) ∧
      (¬ ∃ t, Table.ofRows (.ofPositions [("amount", 2)] ∅) Table.sales.rows = .ok t) ∧
      Table.sales.ReadsInside ∧ salesByRegion.ReadsInside := by
  obtain ⟨accepted, tables, groupings⟩ := reads_inside
  have grouped : Table.sales.groupAt [0] = .ok salesByRegion := rfl
  refine ⟨(accepted _ _).2 (.inr ⟨2, by decide, by decide⟩), ?_, (tables _).2,
    groupings [0] Table.sales.rows _ (.formed (.atPositions rfl grouped))⟩
  rw [accepted]
  have narrow : ∀ width, 3 ≤ width → ¬ ∀ row ∈ Table.sales.rows, row.length = width := by
    intro width wide same
    have first := same _ List.mem_cons_self
    simp at first
    omega
  rintro (none | ⟨width, wide, same⟩)
  · cases none
  · exact narrow width wide same

end Grouping

end TableQuery
