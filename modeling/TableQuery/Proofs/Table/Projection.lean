import TableQuery.Proofs.Table.Refusals

/-! # Projections of projections

A projection gives the columns the names that they have in the table, and the
header of these names is looked up afresh.  A name whose column was dropped may
be an alias there that the column used to hide, and a column that was kept
twice has its name at its first place only.  Neither changes what is read of a
column that was kept, under whatever name it is asked for.
-/

namespace TableQuery

namespace Header

/-- A column at its place among some columns, which is the first one with its name. -/
def placed (columns : List (String × Nat)) (column : String × Nat) : String × Nat :=
  (column.1, (columns.map (·.1)).idxOf column.1)

theorem find?_zipIdx (names : List String) (start : Nat) (name : String) :
    ((names.zipIdx start).find? fun e => e.1 == name) =
      if name ∈ names then some (name, start + names.idxOf name) else none := by
  induction names generalizing start with
  | nil => rfl
  | cons first rest ih =>
    rw [List.zipIdx_cons, List.find?_cons, List.idxOf_cons]
    by_cases here : first = name
    · simp [here]
    · have apart : name ≠ first := fun same => here same.symm
      simp [beq_false_of_ne here, apart, ih, Nat.add_comm, Nat.add_left_comm]

theorem find?_ofNamesFirst (names : List String) (aliases : Aliases) (name : String) :
    (ofNamesFirst names aliases).columns.find? name =
      if name ∈ names then some (name, names.idxOf name) else none := by
  rw [ofNamesFirst, OrderedMap.find?_ofListFirst, find?_zipIdx]
  simp

variable {h : Header} {columns : List (String × Nat)} {column : String × Nat} {name : String}

/-- A name stands for a column that was kept as it did before, at the place where it is now. -/
theorem column?_kept (kept : columns ⊆ h.columns.entries) (resolved : h.column? name = some column)
    (member : column ∈ columns) :
    (ofNamesFirst (columns.map (·.1)) h.aliases).column? name = some (placed columns column) := by
  have named : column.1 ∈ columns.map (·.1) := List.mem_map_of_mem member
  rw [column?, find?_ofNamesFirst]
  -- A column of the table is one of the projection; an alias must not have become one.
  cases direct : h.columns.find? name with
  | some found =>
    have isColumn : found = column := by simpa [column?, direct] using resolved
    have same : found.1 = name := by simpa using List.find?_some direct
    rw [← same, isColumn, if_pos named]
    rfl
  | none =>
    have fresh : name ∉ columns.map (·.1) := by
      intro again
      obtain ⟨other, isKept, rfl⟩ := List.mem_map.1 again
      rw [OrderedMap.find?_of_mem (kept isKept) BEq.rfl] at direct
      cases direct
    rw [column?, direct, Option.none_or] at resolved
    obtain ⟨actual, aliased, found⟩ := Option.bind_eq_some_iff.1 resolved
    have same : column.1 = actual := by simpa using List.find?_some found
    have known : (ofNamesFirst (columns.map (·.1)) h.aliases).aliases.get? name = some actual :=
      aliased
    rw [if_neg fresh, Option.none_or, known, Option.bind_some, find?_ofNamesFirst, ← same,
      if_pos named]
    rfl

theorem cell_placed (kept : columns ⊆ h.columns.entries) (member : column ∈ columns) (row : Row) :
    Row.cell (columns.map fun c => row.cell c.2) (placed columns column).2 =
      row.cell column.2 := by
  have inside : (columns.map (·.1)).idxOf column.1 < (columns.map (·.1)).length :=
    List.idxOf_lt_length_of_mem (List.mem_map_of_mem member)
  have small : (placed columns column).2 < columns.length := by simpa [placed] using inside
  -- The first column of that name is the column, for no two columns of a header share a name.
  have first : columns[(placed columns column).2] = column := by
    have sameName : columns[(placed columns column).2].1 = column.1 := by
      have atPlace : (columns.map (·.1))[(columns.map (·.1)).idxOf column.1] = column.1 :=
        List.getElem_idxOf inside
      rwa [List.getElem_map] at atPlace
    exact h.columns.distinct.eq_of_beq (kept (List.getElem_mem small)) (kept member)
      (beq_of_eq sameName)
  simp [Row.cell, small, first]

variable {wanted : List (String × Nat)}

theorem names_placed (columns wanted : List (String × Nat)) :
    (wanted.map (placed columns)).map (·.1) = wanted.map (·.1) := by
  rw [List.map_map]
  rfl

theorem cells_placed (kept : columns ⊆ h.columns.entries) (among : wanted ⊆ columns) (row : Row) :
    ((wanted.map (placed columns)).map fun c =>
      Row.cell (columns.map fun c => row.cell c.2) c.2) = wanted.map fun c => row.cell c.2 := by
  rw [List.map_map]
  exact List.map_congr_left fun column member => cell_placed kept (among member) row

/-- Whether a projection to some names keeps the column that a name stands for. -/
def Keeps (h : Header) (names : List String) (name : String) : Prop :=
  ∃ column, h.column name = .ok column ∧
    ∃ kept ∈ names, ∃ source, h.column kept = .ok source ∧ source.1 = column.1

theorem subset_of_mapM {names : List String} (resolved : names.mapM h.column = .ok columns) :
    columns ⊆ h.columns.entries := by
  intro column member
  obtain ⟨name, _, found⟩ := exists_of_mem_mapM resolved member
  exact mem_of_column? (column_eq_ok.1 found)

theorem Keeps.exists_mem {names : List String} (keeps : h.Keeps names name)
    (resolved : names.mapM h.column = .ok columns) :
    ∃ column ∈ columns, h.column? name = some column := by
  obtain ⟨column, found, kept, isKept, source, sourceFound, sameName⟩ := keeps
  obtain ⟨other, member, again⟩ := exists_outcome_of_mem resolved isKept
  cases sourceFound.symm.trans again
  rw [column_eq_ok] at found sourceFound
  -- The two names may differ, but columns of one name are one column.
  rw [eq_of_column? sourceFound found sameName] at member
  exact ⟨column, member, found⟩

end Header

namespace Table

variable {t u : Table} {names others : List String}

theorem project_of_columns {columns : List (String × Nat)}
    (resolved : names.mapM t.header.column = .ok columns) :
    t.project names = ofRows (.ofNamesFirst (columns.map (·.1)) t.header.aliases)
      (t.rows.map fun row => columns.map fun c => row.cell c.2) := by
  rw [project, resolved, ok_bind]

/-- Columns that were kept are projected from a projection as from the table itself. -/
theorem project_project (projected : t.project names = .ok u)
    (among : ∀ name ∈ others, t.header.Keeps names name) :
    ∃ v, t.project others = .ok v ∧ u.project others = .ok v := by
  obtain ⟨columns, resolved, header, rows⟩ := project_eq_ok projected
  have kept := Header.subset_of_mapM resolved
  obtain ⟨wanted, lists⟩ := exists_related fun name member =>
    (among name member).exists_mem resolved
  have inside : wanted ⊆ columns := by
    intro column member
    obtain ⟨_, _, isKept, _⟩ := exists_of_mem_related lists member
    exact isKept
  have here : others.mapM t.header.column = .ok wanted := by
    rw [mapM_eq_ok]
    exact lists.imp fun _ _ ⟨_, found⟩ => Header.column_eq_ok.2 found
  have there : others.mapM u.header.column = .ok (wanted.map (Header.placed columns)) := by
    rw [header, mapM_eq_ok, List.forall₂_map_right_iff]
    refine lists.imp ?_
    intro name column ⟨isKept, found⟩
    exact Header.column_eq_ok.2 (Header.column?_kept kept found isKept)
  have sameRows : (u.rows.map fun row => (wanted.map (Header.placed columns)).map fun c =>
      row.cell c.2) = t.rows.map fun row => wanted.map fun c => row.cell c.2 := by
    rw [rows, List.map_map]
    exact List.map_congr_left fun row _ => Header.cells_placed kept inside row
  obtain ⟨v, fits⟩ := ofRows_columns wanted t.header.aliases t.rows
  refine ⟨v, ?_, ?_⟩
  · rw [project_of_columns here, fits]
  · rw [project_of_columns there, Header.names_placed, sameRows, header]
    exact fits

/-- Amounts with prices.  The name of the amounts would be one more name of the prices. -/
def priced : Table :=
  ⟨.ofNamesFirst ["region", "amount", "price"]
      (OrderedMap.ofList [("cost", "price"), ("amount", "price")]),
    [[.text "north", .int 3, .int 7], [.text "south", .null, .int 9]], Header.fits_of_fault? rfl⟩

/-- A projection that repeats a column and drops another, whose name is an alias from then on. -/
theorem project_project_priced : ∃ u v, priced.project ["cost", "region", "price"] = .ok u ∧
    u.column "amount" = .ok [.int 7, .int 9] ∧
    priced.project ["region", "price", "cost"] = .ok v ∧
    u.project ["region", "price", "cost"] = .ok v ∧
    v.rows = [[.text "north", .int 7, .int 7], [.text "south", .int 9, .int 9]] := by
  have projected : ∃ u, priced.project ["cost", "region", "price"] = .ok u ∧
      u.column "amount" = .ok [.int 7, .int 9] := ⟨_, rfl, rfl⟩
  have among : ∀ name ∈ ["region", "price", "cost"],
      priced.header.Keeps ["cost", "region", "price"] name := by
    simp only [List.forall_mem_cons, List.not_mem_nil, false_implies, implies_true, and_true]
    exact ⟨⟨_, rfl, "region", by simp, _, rfl, rfl⟩, ⟨_, rfl, "price", by simp, _, rfl, rfl⟩,
      ⟨_, rfl, "cost", by simp, _, rfl, rfl⟩⟩
  obtain ⟨u, projected, hidden⟩ := projected
  obtain ⟨v, here, there⟩ := project_project projected among
  refine ⟨u, v, projected, hidden, here, there, ?_⟩
  cases here
  rfl

end Table

end TableQuery
