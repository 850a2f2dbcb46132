import TableQuery.Table.Header

/-! # Tables

A table has a header and rows of one width that takes in every position that
the header names.  The table carries the proof of this, so that no operation on
it reads beyond the end of a row.
-/

namespace TableQuery

/-- Whether all rows have one width, and every named position is inside it. -/
def Header.Fits (h : Header) (rows : List Row) : Prop :=
  ∃ width, h.width ≤ width ∧ ∀ row ∈ rows, row.length = width

/-- What keeps rows from fitting a header: the first row is too narrow, or a later one differs from
it in width. -/
def Header.fault? (h : Header) : List Row → Option TableFault
  | [] => none
  | first :: rest =>
    if first.length < h.width then some (.narrowRows first.length h.width)
    else
      (rest.zipIdx.find? fun (row, _) => row.length != first.length).map
        fun (row, i) => .raggedRow (i + 1) row.length first.length

theorem Header.fits_nil (h : Header) : h.Fits [] := ⟨h.width, Nat.le_refl _, by simp⟩

theorem Header.fits_of_fault? {h : Header} {rows : List Row} (faultless : h.fault? rows = none) :
    h.Fits rows := by
  cases rows with
  | nil => exact h.fits_nil
  | cons first rest =>
    rw [Header.fault?] at faultless
    split at faultless
    · cases faultless
    · next wide =>
      refine ⟨first.length, Nat.le_of_not_lt wide, fun row member => ?_⟩
      rcases List.mem_cons.1 member with rfl | later
      · rfl
      · have level := List.find?_eq_none.1 (Option.map_eq_none_iff.1 faultless)
        obtain ⟨i, place⟩ := List.getElem?_of_mem later
        simpa using level (row, i) (List.mem_zipIdx_iff_getElem?.2 (by simpa using place))

theorem Header.Fits.of_subset {h : Header} {rows kept : List Row} (fits : h.Fits rows)
    (among : kept ⊆ rows) : h.Fits kept := by
  obtain ⟨width, wide, level⟩ := fits
  exact ⟨width, wide, fun row member => level row (among member)⟩

structure Table where
  header : Header
  rows : List Row
  fits : header.Fits rows

namespace Table

def ofRows (header : Header) (rows : List Row) : Except Refusal Table :=
  match checked : header.fault? rows with
  | none => pure ⟨header, rows, Header.fits_of_fault? checked⟩
  | some fault => throw (.invalidTable fault)

def size (t : Table) : Nat := t.rows.length

def column (t : Table) (name : String) : Except Refusal (List Cell) := do
  let position ← t.header.position name
  return t.rows.map fun row => row.cell position

def withAliases (t : Table) (aliases : Aliases) : Table :=
  ⟨{ t.header with aliases }, t.rows, t.fits⟩

def filter (t : Table) (test : Row → Bool) : Table :=
  ⟨t.header, t.rows.filter test, t.fits.of_subset List.filter_sublist.subset⟩

/-- The columns with some names, in the order of the names.  The new columns have the names that
the columns have in this table; of a column named more than once, the first one has its name. -/
def project (t : Table) (names : List String) : Except Refusal Table := do
  let columns ← names.mapM t.header.column
  let header := Header.ofNamesFirst (columns.map (·.1)) t.header.aliases
  ofRows header (t.rows.map fun row => columns.map fun c => row.cell c.2)

def same (t u : Table) : Bool := t.rows == u.rows && t.header.same u.header

end Table

end TableQuery
