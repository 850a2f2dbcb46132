import TableQuery.Proofs.Grouping.Groups
import TableQuery.Proofs.Grouping.Having
import TableQuery.Proofs.Table.Filter

/-! # Conditions on columns before and after grouping

A condition that compares only columns that rows are grouped by may be tried
on the rows before they are grouped or on the groups afterwards.  All rows of a
group have the same cells at the columns compared, up to sameness of cells, and
a comparison cannot tell these apart.
-/

namespace TableQuery

variable {α : Type}

def Node.comparesColumn (item : Node α) : Bool :=
  item.children.head?.any fun operand => operand.tag == .column

theorem Node.operand_of_comparesColumn {item : Node α} {test : Test α}
    (read : item.test = .ok test) (column : item.comparesColumn = true) :
    test.operand.tag = .column := by
  rw [comparesColumn, head?_of_test read, Option.any_some] at column
  exact beq_iff_eq.1 column

namespace Grouping

variable {g : Grouping} {item : Node α} {t : GroupTest}

/-- A test of a column on groups reads the key where the test on rows reads the row. -/
theorem groupTest_of_column (made : g.groupTest item = .ok t)
    (column : item.comparesColumn = true) : ∃ position place,
      g.positions[place]? = some position ∧ t.operand = .key place ∧
        Table.rowTest g.header g.settings item = .ok ⟨position, t.comparison, t.literal⟩ := by
  simp only [groupTest, bind_eq_ok, pure_eq_ok] at made
  obtain ⟨test, read, operand, found, rfl⟩ := made
  have isColumn := Node.operand_of_comparesColumn read column
  obtain ⟨name, position, place, named, resolved, placed, rfl⟩ :=
    operand_eq_ok_of_column found (by rw [isColumn]; exact Tag.noConfusion)
  exact ⟨position, place, getElem?_of_keyPlace? placed, rfl,
    Table.rowTest_eq_ok.2 ⟨test, name, position, read, isColumn, named, resolved, rfl⟩⟩

theorem passes_congr (made : g.groupTest item = .ok t) (column : item.comparesColumn = true)
    {k l : Key} (alike : k == l) (rows others : List Row) :
    t.passes (k, rows) = t.passes (l, others) := by
  obtain ⟨_, place, _, operand, _⟩ := groupTest_of_column made column
  have cells : ∀ (key : Key) (rows : List Row),
      t.passes (key, rows) = (key.getD place .null).satisfies t.comparison t.literal := by
    intro key rows
    rw [GroupTest.passes, operand]
    rfl
  rw [cells, cells, Cell.satisfies_congr (getD_beq place .null alike)]

theorem passes_key (made : g.groupTest item = .ok t) (column : item.comparesColumn = true) :
    ∃ r, Table.rowTest g.header g.settings item = .ok r ∧
      ∀ (row : Row) (rows : List Row), t.passes (row.key g.positions, rows) = r.passes row := by
  obtain ⟨position, place, placed, operand, rowMade⟩ := groupTest_of_column made column
  refine ⟨_, rowMade, fun row rows => ?_⟩
  rw [GroupTest.passes, operand, RowTest.passes]
  change Cell.satisfies ((row.key g.positions).getD place .null) _ _ = _
  rw [Row.key, List.getD_eq_getElem?_getD, List.getElem?_map, placed]
  rfl

section Conditions

variable {condition : Node α} {φ : Formula GroupTest}

theorem holds_congr_key (translated : Formula.Translates g.groupTest condition φ)
    (columns : ∀ item ∈ condition.items, item.comparesColumn = true) {k l : Key} (alike : k == l)
    (rows others : List Row) :
    condition.holds (fun item => g.itemHolds item (k, rows)) =
      condition.holds fun item => g.itemHolds item (l, others) := by
  refine translated.holds_congr fun item member => ?_
  obtain ⟨t, made⟩ := translated.made item member
  rw [← affirms_groupTest made, ← affirms_groupTest made,
    passes_congr made (columns item member) alike rows others]

theorem holds_row (translated : Formula.Translates g.groupTest condition φ)
    (columns : ∀ item ∈ condition.items, item.comparesColumn = true) (row : Row) :
    condition.holds (fun item => Table.itemHolds g.header g.settings item row) =
      condition.holds fun item => g.itemHolds item (row.key g.positions, []) := by
  refine translated.holds_congr fun item member => ?_
  obtain ⟨t, made⟩ := translated.made item member
  obtain ⟨r, rowMade, same⟩ := passes_key made (columns item member)
  rw [← affirms_groupTest made, ← Table.affirms_rowTest rowMade, same]

/-- Where a condition on columns is accepted on groups, it is accepted on the rows in them. -/
theorem exists_keep (translated : Formula.Translates g.groupTest condition φ)
    (columns : ∀ item ∈ condition.items, item.comparesColumn = true) {kept : Groups}
    (satisfied : g.groups.satisfying φ = .ok kept) {t : Table}
    (held : ∀ row ∈ t.rows, ∃ group ∈ g.groups.entries, row.key g.positions == group.1) :
    ∃ ψ u, Formula.Translates (Table.rowTest g.header g.settings) condition ψ ∧
      t.keep ψ = .ok u := by
  have answers := (Groups.exists_satisfying_iff translated).1 ⟨kept, satisfied⟩
  obtain ⟨ψ, rowTranslated⟩ := translated.of_items fun item member => by
    obtain ⟨s, made⟩ := translated.made item member
    obtain ⟨r, rowMade, _⟩ := passes_key made (columns item member)
    exact ⟨r, rowMade⟩
  refine ⟨ψ, _, rowTranslated, Table.keep_eq_ok.2 ⟨fun row member => ?_, rfl⟩⟩
  obtain ⟨group, known, alike⟩ := held row member
  refine rowTranslated.exists_answer fun item among r rowMade => ?_
  obtain ⟨s, made⟩ := translated.made item among
  obtain ⟨r', rowMade', same⟩ := passes_key made (columns item among)
  cases rowMade.symm.trans rowMade'
  -- The test has answered on the group of the row, and it reads the same cell in the row.
  obtain ⟨answer, answered⟩ := answers item among s made group known
  refine ⟨answer, ?_⟩
  rw [← same row group.2, passes_congr made (columns item among) alike group.2 group.2]
  exact answered

/-- What a condition on columns leaves of the rows is decided by their keys, so that it leaves or
drops whole groups. -/
theorem entries_ofRows_holding (translated : Formula.Translates g.groupTest condition φ)
    (columns : ∀ item ∈ condition.items, item.comparesColumn = true) {rows : List Row}
    (formed : g.groups = .ofRows g.positions rows) :
    (Groups.ofRows g.positions (rows.filter fun row =>
        condition.holds fun item => Table.itemHolds g.header g.settings item row)).entries =
      g.groups.entries.filter fun group => condition.holds fun item => g.itemHolds item group := by
  simp only [holds_row translated columns]
  rw [formed, Groups.entries_ofRows_filter (q := fun key =>
    condition.holds fun item => g.itemHolds item (key, []))]
  · refine List.filter_congr fun group _ => ?_
    exact holds_congr_key translated columns BEq.rfl [] group.2
  · intro k l alike
    exact holds_congr_key translated columns alike [] []

end Conditions

/-- A condition on columns may be tried on the rows before they are grouped.  Where it is accepted
on the groups, it is accepted on the rows, and grouping the rows that are left makes the groups
that HAVING keeps; without OR they are in the same order. -/
theorem groupBy_filterBy_of_having {t : Table} {names : List String} {settings : Settings}
    {condition : Node α} {g h : Grouping} (isCondition : condition.tag.isCondition = true)
    (columns : ∀ item ∈ condition.items, item.comparesColumn = true)
    (grouped : t.groupBy names = .ok g)
    (kept : (g.withSettings settings).having condition = .ok h) :
    ∃ u f, t.filterBy settings condition = .ok u ∧ u.groupBy names = .ok f ∧
      f.groups.entries.Perm h.groups.entries ∧
      (condition.hasOr = false → f.groups.entries = h.groups.entries) := by
  obtain ⟨positions, resolved, rfl⟩ := Table.groupBy_eq_ok.1 grouped
  obtain ⟨_, φ, groups, below, translated, satisfied, rfl⟩ := having_eq_ok kept
  obtain rfl := Except.ok.inj ((Node.conditionOf_of_isCondition isCondition rfl).symm.trans below)
  obtain ⟨ψ, u, rowTranslated, filtered⟩ := exists_keep translated columns satisfied
    fun _ member => Groups.exists_group_of_mem member
  obtain rfl := Table.keep_eq_filter rowTranslated filtered
  have picked := entries_having translated satisfied
  have left := entries_ofRows_holding translated columns rfl
  refine ⟨_, _, Table.filterBy_eq_ok.2 ⟨condition, ψ,
    Node.conditionOf_of_isCondition isCondition rfl, rowTranslated, filtered⟩,
    Table.groupBy_eq_ok.2 ⟨positions, resolved, rfl⟩, ?_, ?_⟩
  -- OR may put groups in another order, but there are no repetitions on either side.
  · rw [List.perm_ext_iff_of_nodup (OrderedMap.distinct _).nodup groups.distinct.nodup]
    intro group
    rw [picked, translated.mem_pick]
    exact (congrArg (group ∈ ·) left).to_iff.trans List.mem_filter
  · intro noOr
    rw [picked, translated.pick_eq_filter _ _ noOr]
    exact left

def notSouth : Node Unit :=
  ⟨(), .filterItem, [⟨(), .column, [⟨(), .identifier "region", []⟩]⟩, ⟨(), .comparator .ne, []⟩,
    ⟨(), .identifier "'south'", []⟩]⟩

theorem groupBy_filterBy_of_sales : ∃ u f, Table.sales.filterBy {} notSouth = .ok u ∧
    u.groupBy ["region"] = .ok f ∧ f.groups.keys = [[.text "north"]] := by
  have grouped : Table.sales.groupBy ["region"] = .ok salesByRegion := rfl
  have kept : (salesByRegion.withSettings {}).having notSouth = .ok _ := rfl
  have columns : ∀ item ∈ notSouth.items, item.comparesColumn = true := by
    rw [notSouth, Node.items]
    exact List.forall_mem_singleton.2 rfl
  obtain ⟨u, f, filtered, regrouped, _, same⟩ := groupBy_filterBy_of_having rfl columns grouped kept
  refine ⟨u, f, filtered, regrouped, ?_⟩
  rw [OrderedMap.keys, same rfl]
  rfl

end Grouping

end TableQuery
