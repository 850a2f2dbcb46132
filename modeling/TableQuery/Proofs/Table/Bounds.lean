import TableQuery.Proofs.Condition.Truth
import TableQuery.Proofs.Table.Filter
import TableQuery.Proofs.Table.Rows
import TableQuery.Table.Records

/-! # Reads inside rows

Names become positions once, and the positions are then read off every row
without a look at its width.  What makes this good is what rows are asked for
when they become a table: one width, which takes in all positions of the
header.  No operation lets a table come about without it, so that whatever
reads a table finds its cells.
-/

namespace TableQuery

/-- Whether a row has the cell that is read off it at a position. -/
def Row.Has (row : Row) (position : Nat) : Prop := row[position]? = some (row.cell position)

theorem Row.has_of_lt {row : Row} {position : Nat} (inside : position < row.length) :
    row.Has position := by
  simp [Row.Has, Row.cell, inside]

namespace Formula

variable {α τ : Type}

def tests : Formula τ → List τ
  | .test t => [t]
  | .both left right => left.tests ++ right.tests
  | .either left right => left.tests ++ right.tests

theorem Translates.exists_item {make : Node α → Except Refusal τ} {n : Node α} {φ : Formula τ}
    (translated : Translates make n φ) : ∀ t ∈ φ.tests, ∃ item ∈ n.items, make item = .ok t := by
  induction translated with
  | @item mark children t made =>
    intro other member
    rw [List.mem_singleton.1 member]
    exact ⟨_, Node.self_mem_items mark children, made⟩
  | both _ _ left right | either _ _ left right =>
    intro t member
    rw [Node.items]
    rcases List.mem_append.1 member with inLeft | inRight
    · obtain ⟨item, among, made⟩ := left t inLeft
      exact ⟨item, List.mem_append_left _ among, made⟩
    · obtain ⟨item, among, made⟩ := right t inRight
      exact ⟨item, List.mem_append_right _ among, made⟩

end Formula

namespace Table

variable {t : Table}

theorem exists_ofRows_iff {header : Header} {rows : List Row} :
    (∃ t, ofRows header rows = .ok t) ↔
      rows = [] ∨ ∃ width, header.width ≤ width ∧ ∀ row ∈ rows, row.length = width := by
  constructor
  · intro ⟨t, accepted⟩
    have fits := t.fits
    unfold ofRows at accepted
    split at accepted
    · cases accepted
      exact .inr fits
    · cases accepted
  · intro wide
    have fits : header.Fits rows := by
      rcases wide with none | fits
      · rw [none]
        exact header.fits_nil
      · exact fits
    exact ⟨_, ofRows_of_fits fits⟩

theorem ofRows_self (t : Table) : ofRows t.header t.rows = .ok t :=
  ofRows_of_fits t.fits

theorem has_of_lt_width {position : Nat} (inside : position < t.width) :
    ∀ row ∈ t.rows, row.Has position := by
  intro row member
  apply Row.has_of_lt
  rw [length_eq_width member]
  exact inside

theorem has_of_mem_columns {column : String × Nat} (member : column ∈ t.header.columns.entries) :
    ∀ row ∈ t.rows, row.Has column.2 :=
  has_of_lt_width (Nat.lt_of_lt_of_le (Header.lt_width_of_mem member) header_width_le_width)

/-- Whether every row has the cells that are read off the rows of a table by position. -/
structure ReadsInside (t : Table) : Prop where
  column : ∀ name position, t.header.position name = .ok position →
    ∀ row ∈ t.rows, row.Has position
  condition : ∀ {α : Type} (settings : Settings) (condition : Node α) (φ : Formula RowTest),
    Formula.ofNode (rowTest t.header settings) condition = .ok φ →
      ∀ test ∈ φ.tests, ∀ row ∈ t.rows, row.Has test.position
  projection : ∀ (names : List String) (columns : List (String × Nat)),
    names.mapM t.header.column = .ok columns →
      ∀ column ∈ columns, ∀ row ∈ t.rows, row.Has column.2
  records : ∀ name ∈ t.header.names, ∀ column, t.header.columns.find? name = some column →
    ∀ row ∈ t.rows, row.Has column.2

theorem readsInside (t : Table) : t.ReadsInside where
  column name position resolved := has_of_lt_width (lt_width_of_position resolved)
  condition settings condition φ made test member := by
    obtain ⟨item, _, itemMade⟩ := (Formula.translates_of_ofNode made).exists_item test member
    obtain ⟨_, name, position, _, _, _, resolved, same⟩ := rowTest_eq_ok.1 itemMade
    rw [same]
    exact has_of_lt_width (lt_width_of_position resolved)
  projection names columns resolved column member := by
    obtain ⟨name, _, found⟩ := exists_of_mem_mapM resolved member
    exact has_of_mem_columns (Header.mem_of_column? (Header.column_eq_ok.1 found))
  records name _ column found := has_of_mem_columns (List.mem_of_find?_eq_some found)

end Table

end TableQuery
