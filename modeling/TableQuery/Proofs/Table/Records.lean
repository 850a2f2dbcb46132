import TableQuery.Proofs.Cell.Sameness
import TableQuery.Proofs.Table.Refusals
import TableQuery.Table.Records
import Mathlib.Data.List.Nodup
import Mathlib.Data.List.Sort

/-! # Records read back

The records of a table have its named columns only, each under its own name,
so that reading them back under the same names gives the table of these
columns.  Two names of one position are two columns then.  What a cell holds
comes back as it was, whole floats as floats, except that JSON has no floats
beyond the finite numbers.
-/

namespace TableQuery

namespace Cell

/-- What JSON can hold of a cell: nothing, in place of a float that is no finite number. -/
def finite : Cell → Cell
  | .float f => if f.isFinite then .float f else .null
  | cell => cell

theorem ofJson_toJson (cell : Cell) : ofJson cell.toJson = cell.finite := by
  cases cell with
  | int i =>
    have bounds : IsInt i.toInt := ⟨i.le_toInt, i.toInt_lt⟩
    rw [toJson, ofJson, if_pos bounds, ofInt, Int64.ofInt_toInt]
    rfl
  | float f =>
    rw [toJson, finite]
    split <;> rfl
  | text s => rfl
  | null => rfl

end Cell

namespace Json

variable {α : Type} {name : String} {value : α}

theorem lookup_cons (key name : String) (value : α) (fields : List (String × α)) :
    ((name, value) :: fields).lookup key =
      if key = name then some value else fields.lookup key := by
  rw [List.lookup_cons]
  by_cases same : key = name
  · rw [if_pos same, beq_of_eq same]
  · rw [if_neg same, beq_false_of_ne same]

theorem lookup_insertField (name key : String) (value : α) (fields : List (String × α)) :
    (insertField name value fields).lookup key =
      if key = name then some value else fields.lookup key := by
  induction fields with
  | nil => exact lookup_cons key name value []
  | cons field fields ih =>
    obtain ⟨n, v⟩ := field
    rw [insertField]
    split
    · exact lookup_cons key name value _
    · split
      · next same =>
        rw [lookup_cons, lookup_cons, same]
        split <;> rfl
      · next apart =>
        rw [lookup_cons, lookup_cons, ih]
        by_cases here : key = n
        · have other : key ≠ name := fun same => apart (same.symm.trans here)
          rw [if_pos here, if_neg other, if_pos here]
        · rw [if_neg here, if_neg here]

/-- Once a field of a name is in, those that come later put the same value in its place. -/
theorem lookup_foldl_insertField {fields sorted : List (String × α)}
    (only : ∀ other, (name, other) ∈ fields → other = value)
    (known : (name, value) ∈ fields ∨ sorted.lookup name = some value) :
    (fields.foldl (fun sorted f => insertField f.1 f.2 sorted) sorted).lookup name =
      some value := by
  induction fields generalizing sorted with
  | nil => exact known.resolve_left List.not_mem_nil
  | cons field fields ih =>
    refine ih (fun other later => only other (List.mem_cons_of_mem _ later)) ?_
    rw [lookup_insertField]
    by_cases here : name = field.1
    · have same : field.2 = value := only field.2 (by rw [here]; exact List.mem_cons_self)
      exact .inr (by rw [if_pos here, same])
    · rw [if_neg here]
      refine known.imp_left fun member => ?_
      rcases List.mem_cons.1 member with first | later
      · exact absurd (congrArg Prod.fst first) here
      · exact later

theorem lookup_sortFields {fields : List (String × α)} (member : (name, value) ∈ fields)
    (only : ∀ other, (name, other) ∈ fields → other = value) :
    (sortFields fields).lookup name = some value :=
  lookup_foldl_insertField only (.inl member)

end Json

/-! ## Names -/

namespace Header

variable {h : Header}

def sorted (h : Header) : List (String × Nat) := h.columns.entries.mergeSort fun a b => a.2 ≤ b.2

def cells (h : Header) (row : Row) : Row := h.sorted.map fun column => row.cell column.2

theorem names_eq (h : Header) : h.names = h.sorted.map (·.1) := rfl

theorem length_cells (h : Header) (row : Row) : (h.cells row).length = h.names.length := by
  rw [cells, names_eq, List.length_map, List.length_map]

theorem sorted_perm (h : Header) : h.sorted.Perm h.columns.entries :=
  List.mergeSort_perm _ _

theorem rising_sorted (h : Header) : (h.sorted.map (·.2)).Pairwise (· ≤ ·) := by
  have rising : h.sorted.Pairwise fun a b => decide (a.2 ≤ b.2) = true :=
    List.pairwise_mergeSort (fun a b c => by simpa using Nat.le_trans)
      (fun a b => by simpa using Nat.le_total a.2 b.2) h.columns.entries
  exact List.pairwise_map.2 (rising.imp fun below => of_decide_eq_true below)

theorem nodup_names (h : Header) : h.names.Nodup :=
  (h.sorted_perm.map _).nodup_iff.2 h.columns.nodup_keys

theorem find?_of_mem_sorted {column : String × Nat} (member : column ∈ h.sorted) :
    h.columns.find? column.1 = some column :=
  OrderedMap.find?_of_mem (h.sorted_perm.mem_iff.1 member) BEq.rfl

theorem column_of_mem_sorted {column : String × Nat} (member : column ∈ h.sorted) :
    h.column column.1 = .ok column :=
  column_of_mem (h.sorted_perm.mem_iff.1 member)

theorem mapM_column_names (h : Header) : h.names.mapM h.column = .ok h.sorted := by
  rw [mapM_eq_ok, names_eq, List.forall₂_map_left_iff, List.forall₂_same]
  exact fun _ => column_of_mem_sorted

theorem filterMap_find?_names (h : Header) : h.names.filterMap h.columns.find? = h.sorted := by
  rw [names_eq, List.filterMap_map]
  exact (List.filterMap_congr fun _ => find?_of_mem_sorted).trans List.filterMap_some

theorem ofNames_of_nodup {names : List String} (nodup : names.Nodup) (aliases : Aliases) :
    ofNames names aliases = .ok (ofNamesFirst names aliases) := by
  have distinct : (names.zipIdx.map Prod.fst).Pairwise fun a b => (a == b) = false := by
    rw [List.zipIdx_map_fst]
    exact nodup.imp fun apart => beq_false_of_ne apart
  rw [ofNames, OrderedMap.foldlM_of_fresh _ (List.pairwise_map.1 distinct) fun _ _ => rfl]
  · rfl
  · rintro columns ⟨name, position⟩ fresh
    have fresh : columns.contains name = false := fresh
    simp only [fresh, OrderedMap.insert_of_fresh fresh]
    rfl

section Numbered

variable {names : List String} {aliases : Aliases} (numbered : ofNames names aliases = .ok h)

include numbered

theorem entries_of_ofNames : h.columns.entries = names.zipIdx := by
  rw [ofNames, bind_eq_ok] at numbered
  obtain ⟨columns, written, same⟩ := numbered
  cases same
  refine OrderedMap.entries_of_foldlM ?_ written
  rintro m ⟨name, position⟩ n accepted
  cases held : m.contains name with
  | true =>
    simp only [held, if_true] at accepted
    cases accepted
  | false =>
    simp only [held, Bool.false_eq_true, if_false] at accepted
    cases accepted
    exact ⟨rfl, OrderedMap.insert_of_fresh held position⟩

/-- Both ways of making headers agree where the stricter one accepts. -/
theorem eq_ofNamesFirst_of_ofNames : h = ofNamesFirst names aliases := by
  have nodup := h.columns.nodup_keys
  rw [OrderedMap.keys, entries_of_ofNames numbered, List.zipIdx_map_fst] at nodup
  exact Except.ok.inj (numbered.symm.trans (ofNames_of_nodup nodup aliases))

theorem sorted_of_ofNames : h.sorted = names.zipIdx := by
  rw [sorted, entries_of_ofNames numbered]
  apply List.mergeSort_of_pairwise
  have rising : (names.zipIdx.map Prod.snd).Pairwise (· ≤ ·) := by
    rw [List.zipIdx_map_snd]
    exact List.pairwise_le_range'
  exact (List.pairwise_map.1 rising).imp fun below => decide_eq_true below

theorem names_of_ofNames : h.names = names := by
  rw [names_eq, sorted_of_ofNames numbered, List.zipIdx_map_fst]

theorem cells_of_ofNames {row : Row} (wide : row.length = names.length) : h.cells row = row := by
  rw [cells, sorted_of_ofNames numbered]
  apply List.ext_getElem
  · simp [wide]
  · intro position _ inside
    simp [Row.cell, inside]

end Numbered

end Header

/-! ## Tables -/

namespace Table

def recordOf (columns : List (String × Nat)) (row : Row) : Json :=
  .object (Json.sortFields (columns.map fun column => (column.1, (row.cell column.2).toJson)))

theorem records_eq (t : Table) : t.records = t.rows.map (recordOf t.header.sorted) := by
  rw [records, Header.filterMap_find?_names]
  rfl

theorem rowOfRecord_recordOf (h : Header) (row : Row) (i : Nat) :
    rowOfRecord h.names i (recordOf h.sorted row) = .ok ((h.cells row).map Cell.finite) := by
  rw [recordOf, rowOfRecord, h.names_eq, Header.cells, List.map_map, List.map_map]
  refine congrArg Except.ok (List.map_congr_left fun column member => ?_)
  have field : (Json.sortFields (h.sorted.map fun column =>
      (column.1, (row.cell column.2).toJson))).lookup column.1 =
        some (row.cell column.2).toJson := by
    refine Json.lookup_sortFields (List.mem_map.2 ⟨column, member, rfl⟩) ?_
    -- A column is determined by its name, and so is the cell that its field has.
    intro other given
    obtain ⟨same, held, fields⟩ := List.mem_map.1 given
    obtain ⟨sameName, rfl⟩ := Prod.mk.inj fields
    have found := Header.find?_of_mem_sorted held
    rw [sameName, Header.find?_of_mem_sorted member] at found
    rw [Option.some.inj found]
  rw [Function.comp_apply, field, Option.map_some, Option.getD_some, Cell.ofJson_toJson]
  rfl

theorem mapM_rowOfRecord (t : Table) :
    (t.records.zipIdx.mapM fun (record, i) => rowOfRecord t.header.names i record) =
      .ok ((t.rows.map t.header.cells).map (List.map Cell.finite)) := by
  have rows : t.rows.zipIdx.map Prod.fst = t.rows := List.zipIdx_map_fst 0 t.rows
  rw [mapM_eq_ok, records_eq, List.zipIdx_map, List.map_map]
  nth_rewrite 2 [← rows]
  rw [List.map_map, List.forall₂_map_left_iff, List.forall₂_map_right_iff, List.forall₂_same]
  exact fun entry _ => rowOfRecord_recordOf t.header entry.1 entry.2

theorem project_names (t : Table) : t.project t.header.names =
    ofRows (.ofNamesFirst t.header.names t.header.aliases) (t.rows.map t.header.cells) := by
  rw [project, Header.mapM_column_names]
  rfl

theorem project_names_of_ofNames {t : Table} {names : List String} {aliases : Aliases}
    (numbered : Header.ofNames names aliases = .ok t.header)
    (wide : ∀ row ∈ t.rows, row.length = names.length) : t.project t.header.names = .ok t := by
  have sameAliases : t.header.aliases = aliases := by
    rw [Header.eq_ofNamesFirst_of_ofNames numbered]
    rfl
  have sameRows : t.rows.map t.header.cells = t.rows := by
    rw [List.map_congr_left fun row member => Header.cells_of_ofNames numbered (wide row member)]
    exact List.map_id _
  rw [project_names, sameRows, sameAliases, Header.names_of_ofNames numbered,
    ← Header.eq_ofNamesFirst_of_ofNames numbered]
  exact ofRows_of_fits t.fits

/-- The records of a table read back as its named columns, with nothing in place of what JSON cannot
hold. -/
theorem ofRecords_records (t : Table) :
    ∃ p u, t.project t.header.names = .ok p ∧
      ofRecords t.header.names t.records t.header.aliases = .ok u ∧ u.header = p.header ∧
      u.rows = p.rows.map (List.map Cell.finite) := by
  have widths : ∀ row ∈ t.rows.map t.header.cells, row.length = t.header.names.length := by
    intro cells member
    obtain ⟨row, _, rfl⟩ := List.mem_map.1 member
    exact t.header.length_cells row
  have finiteWidths : ∀ row ∈ (t.rows.map t.header.cells).map (List.map Cell.finite),
      row.length = t.header.names.length := by
    intro cells member
    obtain ⟨row, isRow, rfl⟩ := List.mem_map.1 member
    rw [List.length_map]
    exact widths row isRow
  obtain ⟨p, projected⟩ := ofRows_ofNamesFirst _ t.header.aliases widths
  obtain ⟨u, read⟩ := ofRows_ofNamesFirst _ t.header.aliases finiteWidths
  refine ⟨p, u, t.project_names.trans projected, ?_, ?_, ?_⟩
  · rw [ofRecords, mapM_rowOfRecord, ok_bind, Header.ofNames_of_nodup t.header.nodup_names]
    exact read
  · rw [header_of_ofRows projected, header_of_ofRows read]
  · rw [rows_of_ofRows projected, rows_of_ofRows read]

end Table

end TableQuery
