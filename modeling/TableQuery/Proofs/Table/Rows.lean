import TableQuery.Grouping.Basic
import TableQuery.Proofs.Table.Header

/-! # Rows of a table

The rows of a table are as wide as each other, and wide enough for the header.
-/

namespace TableQuery.Table

variable {t : Table} {header : Header} {rows : List Row}

theorem rows_of_ofRows (fits : ofRows header rows = .ok t) : t.rows = rows := by
  unfold ofRows at fits
  split at fits
  · cases fits
    rfl
  · cases fits

theorem header_of_ofRows (fits : ofRows header rows = .ok t) : t.header = header := by
  unfold ofRows at fits
  split at fits
  · cases fits
    rfl
  · cases fits

theorem fault?_of_fits (fits : header.Fits rows) : header.fault? rows = none := by
  obtain ⟨width, wide, same⟩ := fits
  cases rows with
  | nil => rfl
  | cons first rest =>
    obtain ⟨firstSame, others⟩ := List.forall_mem_cons.1 same
    rw [Header.fault?, if_neg (by omega), Option.map_eq_none_iff, List.find?_eq_none]
    rintro ⟨row, i⟩ member
    have known := others row (List.fst_mem_of_mem_zipIdx member)
    simp [firstSame, known]

theorem ofRows_of_fits (fits : header.Fits rows) :
    ofRows header rows = .ok ⟨header, rows, fits⟩ := by
  unfold ofRows
  split
  · rfl
  · next fault found =>
    rw [fault?_of_fits fits] at found
    cases found

theorem length_eq_width {row : Row} (member : row ∈ t.rows) : row.length = t.width := by
  obtain ⟨width, _, same⟩ := t.fits
  obtain ⟨first, rest, rows⟩ := List.exists_cons_of_ne_nil (List.ne_nil_of_mem member)
  rw [Table.width, rows, same row member]
  exact (same first (by rw [rows]; exact List.mem_cons_self)).symm

theorem header_width_le_width : t.header.width ≤ t.width := by
  obtain ⟨width, wide, same⟩ := t.fits
  rw [Table.width]
  cases rows : t.rows with
  | nil => exact Nat.le_refl _
  | cons first rest =>
    rw [List.head?_cons, Option.map_some, Option.getD_some,
      same first (by rw [rows]; exact List.mem_cons_self)]
    exact wide

theorem project_eq_ok {out : Table} {names : List String} (projected : t.project names = .ok out) :
    ∃ columns, names.mapM t.header.column = .ok columns ∧
      out.header = .ofNamesFirst (columns.map (·.1)) t.header.aliases ∧
      out.rows = t.rows.map fun row => columns.map fun column => row.cell column.2 := by
  rw [project, bind_eq_ok] at projected
  obtain ⟨columns, resolved, made⟩ := projected
  exact ⟨columns, resolved, header_of_ofRows made, rows_of_ofRows made⟩

theorem lt_width_of_position {name : String} {position : Nat}
    (resolved : t.header.position name = .ok position) : position < t.width :=
  Nat.lt_of_lt_of_le (Header.position_lt_width resolved) header_width_le_width

/-- Sales in two regions, one of them without its amount. -/
def sales : Table :=
  ⟨.ofNamesFirst ["region", "amount"] ∅,
    [[.text "north", .int 3], [.text "south", .int 4], [.text "north", .null]],
    Header.fits_of_fault? rfl⟩

end TableQuery.Table
