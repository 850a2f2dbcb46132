import TableQuery.Proofs.Grouping.Groups
import TableQuery.Proofs.Grouping.Having

/-! # Groupings are partitions

However a grouping was formed and whatever was done to it since, its keys are
different, its groups are not empty, and a key is made of the cells of the
first member, which the other members have as well.  Forming a grouping loses
no row and keeps the rows of a group in order; HAVING only leaves out groups.
-/

namespace TableQuery

/-- The cells of a row at some positions, if it has all of them. -/
def Row.cellsAt? (row : Row) (positions : List Nat) : Option (List Cell) :=
  positions.mapM fun position => row[position]?

theorem Row.cellsAt?_eq_key {row : Row} {positions : List Nat}
    (inside : ∀ position ∈ positions, position < row.length) :
    row.cellsAt? positions = some (row.key positions) := by
  induction positions with
  | nil => rfl
  | cons position positions ih =>
    obtain ⟨first, others⟩ := List.forall_mem_cons.1 inside
    have cell : row[position]? = some (row.cell position) := by
      rw [Row.cell, List.getD_eq_getElem?_getD, List.getElem?_eq_getElem first]
      rfl
    have rest := ih others
    rw [Row.cellsAt?] at rest ⊢
    rw [List.mapM_cons, cell, rest]
    rfl

/-- A key with its rows: the cells of the first row make the key, and the other rows have the same
cells. -/
structure IsGroup (positions : List Nat) (group : Key × List Row) : Prop where
  nonempty : group.2 ≠ []
  first : ∀ row, group.2.head? = some row → row.cellsAt? positions = some group.1
  others : ∀ row ∈ group.2, ∃ cells, row.cellsAt? positions = some cells ∧ cells == group.1

namespace Grouping

structure IsPartition (g : Grouping) : Prop where
  distinct : g.groups.keys.Pairwise fun k l => (k == l) = false
  isGroup : ∀ group ∈ g.groups.entries, IsGroup g.positions group

/-- How rows are grouped at positions in the first place. -/
inductive Formed (positions : List Nat) (rows : List Row) : Grouping → Prop where
  | ofNames {names : List String} {aliases : Aliases} {header : Header} {t : Table} {g : Grouping}
      (named : Header.ofNames names aliases = .ok header) (fits : Table.ofRows header rows = .ok t)
      (grouped : t.groupAt positions = .ok g) : Formed positions rows g
  | ofPositions {columns : List (String × Nat)} {aliases : Aliases} {t : Table} {g : Grouping}
      (fits : Table.ofRows (Header.ofPositions columns aliases) rows = .ok t)
      (grouped : t.groupAt positions = .ok g) : Formed positions rows g
  | ofHeader {header : Header} {t : Table} {g : Grouping}
      (fits : Table.ofRows header rows = .ok t) (grouped : t.groupAt positions = .ok g) :
      Formed positions rows g
  | atPositions {t : Table} {g : Grouping} (same : t.rows = rows)
      (grouped : t.groupAt positions = .ok g) : Formed positions rows g
  | byNames {t : Table} {names : List String} {g : Grouping} (same : t.rows = rows)
      (resolved : names.mapM t.header.position = .ok positions)
      (grouped : t.groupBy names = .ok g) : Formed positions rows g

/-- What becomes of a grouping by conditions, settings and catalogs. -/
inductive Reached (positions : List Nat) (rows : List Row) : Grouping → Prop where
  | formed {g : Grouping} (formed : Formed positions rows g) : Reached positions rows g
  | having {α : Type} {g h : Grouping} {clause : Node α} (before : Reached positions rows g)
      (kept : g.having clause = .ok h) : Reached positions rows h
  | withSettings {g : Grouping} (before : Reached positions rows g) (settings : Settings) :
      Reached positions rows (g.withSettings settings)
  | withCatalog {g : Grouping} (before : Reached positions rows g) (catalog : Catalog) :
      Reached positions rows (g.withCatalog catalog)

variable {positions : List Nat} {rows : List Row} {g : Grouping}

/-- In the end, all of them group a table at positions inside its rows. -/
theorem Formed.exists_table (formed : Formed positions rows g) :
    ∃ t : Table, t.rows = rows ∧ t.groupAt positions = .ok g := by
  cases formed with
  | ofNames named fits grouped => exact ⟨_, Table.rows_of_ofRows fits, grouped⟩
  | ofPositions fits grouped => exact ⟨_, Table.rows_of_ofRows fits, grouped⟩
  | ofHeader fits grouped => exact ⟨_, Table.rows_of_ofRows fits, grouped⟩
  | atPositions same grouped => exact ⟨_, same, grouped⟩
  | byNames same resolved grouped =>
    rw [Table.groupBy, resolved] at grouped
    exact ⟨_, same, grouped⟩

theorem Formed.entries_eq (formed : Formed positions rows g) :
    g.groups.entries =
      (Groups.keysOf positions rows).map fun key => (key, Groups.membersOf positions rows key) := by
  obtain ⟨t, rfl, grouped⟩ := formed.exists_table
  obtain ⟨_, rfl⟩ := Table.groupAt_eq_ok.1 grouped
  exact Groups.entries_ofRows positions t.rows

theorem Formed.isPartition (formed : Formed positions rows g) : g.IsPartition := by
  refine ⟨g.groups.distinct_keys, fun group member => ?_⟩
  rw [formed.entries_eq] at member
  obtain ⟨key, known, rfl⟩ := List.mem_map.1 member
  obtain ⟨t, rfl, grouped⟩ := formed.exists_table
  obtain ⟨inside, rfl⟩ := Table.groupAt_eq_ok.1 grouped
  have cells : ∀ row ∈ Groups.membersOf positions t.rows key,
      row.cellsAt? positions = some (row.key positions) := by
    intro row member
    apply Row.cellsAt?_eq_key
    rw [Table.length_eq_width (List.mem_filter.1 member).1]
    exact inside
  -- The key has the spelling of the row that brought it, which is the first member.
  obtain ⟨first, head, spelled⟩ := Groups.find?_key known
  refine ⟨?_, ?_, ?_⟩
  · intro empty
    rw [show Groups.membersOf positions t.rows key = [] from empty] at head
    cases head
  · intro row isHead
    obtain rfl : row = first := Option.some.inj (isHead.symm.trans head)
    rw [cells row (List.mem_of_head? isHead), spelled]
  · intro row member
    exact ⟨_, cells row member, (List.mem_filter.1 member).2⟩

theorem having_subset {α : Type} {h : Grouping} {clause : Node α} (kept : g.having clause = .ok h) :
    h.groups.entries ⊆ g.groups.entries ∧ h.positions = g.positions := by
  obtain ⟨_, _, _, _, _, satisfied, rfl⟩ := having_eq_ok kept
  exact ⟨Groups.satisfying_subset satisfied, rfl⟩

theorem IsPartition.having {α : Type} {h : Grouping} {clause : Node α} (before : g.IsPartition)
    (kept : g.having clause = .ok h) : h.IsPartition := by
  obtain ⟨subset, samePositions⟩ := having_subset kept
  refine ⟨h.groups.distinct_keys, fun group member => ?_⟩
  rw [samePositions]
  exact before.isGroup group (subset member)

theorem Formed.positions_eq (formed : Formed positions rows g) : g.positions = positions := by
  obtain ⟨t, _, grouped⟩ := formed.exists_table
  obtain ⟨_, rfl⟩ := Table.groupAt_eq_ok.1 grouped
  rfl

theorem Reached.positions_eq (reached : Reached positions rows g) : g.positions = positions := by
  induction reached with
  | formed formed => exact formed.positions_eq
  | having _ kept ih => exact (having_subset kept).2.trans ih
  | withSettings _ _ ih | withCatalog _ _ ih => exact ih

theorem Reached.isPartition (reached : Reached positions rows g) : g.IsPartition := by
  induction reached with
  | formed formed => exact formed.isPartition
  | having _ kept ih => exact ih.having kept
  | withSettings _ _ ih => exact ⟨ih.distinct, ih.isGroup⟩
  | withCatalog _ _ ih => exact ⟨ih.distinct, ih.isGroup⟩

theorem Formed.flatten_perm (formed : Formed positions rows g) :
    g.groups.values.flatten.Perm rows := by
  have all := Groups.flatten_ofRows_perm positions rows
  rwa [OrderedMap.values, Groups.entries_ofRows, ← formed.entries_eq] at all

theorem Formed.members_eq (formed : Formed positions rows g) {group : Key × List Row}
    (member : group ∈ g.groups.entries) :
    group.2 = rows.filter fun row => row.key positions == group.1 := by
  rw [formed.entries_eq] at member
  obtain ⟨key, _, rfl⟩ := List.mem_map.1 member
  rfl

theorem Formed.existsUnique_group (formed : Formed positions rows g) {row : Row}
    (member : row ∈ rows) : ∃! group, group ∈ g.groups.entries ∧ row ∈ group.2 := by
  obtain ⟨members, held, inside⟩ := List.mem_flatten.1 (formed.flatten_perm.mem_iff.2 member)
  obtain ⟨group, known, rfl⟩ := List.mem_map.1 held
  refine ⟨group, ⟨known, inside⟩, fun other ⟨otherKnown, otherInside⟩ => ?_⟩
  rw [formed.members_eq known] at inside
  rw [formed.members_eq otherKnown] at otherInside
  -- The row has the keys of both groups, and different groups have different keys.
  exact g.groups.distinct.eq_of_beq otherKnown known
    (BEq.trans (BEq.symm (List.mem_filter.1 otherInside).2) (List.mem_filter.1 inside).2)

/-- A grouping is a partition whatever was done to it.  When it was formed, its groups together
held the rows, and each of them the rows with its key in their order; HAVING leaves every group
that it keeps as it was. -/
theorem partition_of_reached (reached : Reached positions rows g) :
    g.positions = positions ∧ g.IsPartition ∧
      (Formed positions rows g →
        g.groups.values.flatten.Perm rows ∧
        (∀ row ∈ rows, ∃! group, group ∈ g.groups.entries ∧ row ∈ group.2) ∧
        ∀ group ∈ g.groups.entries,
          group.2 = rows.filter fun row => row.key positions == group.1) ∧
      ∀ {α : Type} (clause : Node α) (h : Grouping), g.having clause = .ok h →
        h.groups.entries ⊆ g.groups.entries :=
  ⟨reached.positions_eq, reached.isPartition,
    fun formed => ⟨formed.flatten_perm, fun _ => formed.existsUnique_group,
      fun _ => formed.members_eq⟩,
    fun _ _ kept => (having_subset kept).1⟩

/-- The two zeros are one key, which is no text and no integer. -/
theorem partition_of_zeros :
    ∃ g, Reached [0] [[.float 0.0], [.text "0"], [.float (-0.0)], [.int 0]] g ∧
      g.groups.keys.length = 3 ∧ g.IsPartition := by
  have grouped : Table.groupAt ⟨.ofNamesFirst ["amount"] ∅,
      [[.float 0.0], [.text "0"], [.float (-0.0)], [.int 0]], Header.fits_of_fault? rfl⟩ [0] =
        .ok _ := rfl
  have reached : Reached [0] _ _ := .formed (.atPositions rfl grouped)
  exact ⟨_, reached, rfl, (partition_of_reached reached).2.1⟩

end Grouping

end TableQuery
