import TableQuery.Proofs.Condition.Related
import TableQuery.Proofs.Table.Bounds
import TableQuery.Proofs.Table.Clashes
import TableQuery.Proofs.Table.Projection

/-! # Conditions on projected rows

A condition is turned into positions under the header that it meets, and a
projection has another header: columns are moved, dropped and repeated, and an
alias may come to the surface.  As long as the columns that the condition
compares are kept, its tests read the same cells on either side.  It then makes
no difference whether the rows are filtered before they are projected or after.
-/

namespace TableQuery

variable {α : Type}

/-- Whether a projection to some names keeps all columns that the filter items of a condition
compare. -/
def Header.KeepsCompared (h : Header) (names : List String) (condition : Node α) : Prop :=
  ∀ item ∈ condition.items, ∀ test name, item.test = .ok test → test.operand.tag = .column →
    test.operand.name = .ok name → h.Keeps names name

/-- Whether a test on rows and one on their projections to some columns compare the same cells with
the same literal. -/
structure RowTest.ReadsAlike (columns : List (String × Nat)) (r s : RowTest) : Prop where
  comparison : s.comparison = r.comparison
  literal : s.literal = r.literal
  cell : ∀ row : Row, Row.cell (columns.map fun c => row.cell c.2) s.position = row.cell r.position

theorem RowTest.ReadsAlike.passes_eq {columns : List (String × Nat)} {r s : RowTest}
    (alike : RowTest.ReadsAlike columns r s) (row : Row) :
    s.passes (columns.map fun c => row.cell c.2) = r.passes row := by
  rw [RowTest.passes, RowTest.passes, alike.comparison, alike.literal, alike.cell]

namespace Table

variable {h : Header} {names : List String} {columns : List (String × Nat)}

theorem agree_rowTest (settings : Settings) {item : Node α}
    (resolved : names.mapM h.column = .ok columns)
    (kept : ∀ test name, item.test = .ok test → test.operand.tag = .column →
      test.operand.name = .ok name → h.Keeps names name) :
    Agree (RowTest.ReadsAlike columns) (rowTest h settings item)
      (rowTest (.ofNamesFirst (columns.map (·.1)) h.aliases) settings item) := by
  cases read : item.test with
  | error refusal =>
    rw [rowTest, rowTest, read]
    exact .refused refusal
  | ok test =>
    rw [rowTest, rowTest, read, ok_bind, ok_bind]
    split
    · next isColumn =>
      cases named : test.operand.name with
      | error refusal => exact .refused refusal
      | ok name =>
        obtain ⟨column, member, found⟩ := (kept test name read isColumn named).exists_mem resolved
        have inside := Header.subset_of_mapM resolved
        rw [ok_bind, ok_bind, Header.position_of_column? found,
          Header.position_of_column? (Header.column?_kept inside found member)]
        exact .accepted ⟨rfl, rfl, Header.cell_placed inside member⟩
    · exact .refused _

theorem keep_eq (t : Table) (φ : Formula RowTest) :
    t.keep φ = unlessRefused (t.rows.findSome? fun row => refusal? (φ.holds (RowTest.passes row)))
      (t.filter fun row => affirms (φ.holds (RowTest.passes row))) :=
  keep_unlessRefused fun _ => (unlessRefused_refusal? _).symm

/-- Rows may be left out before a projection, or their projections afterwards. -/
theorem project_filter {t u : Table} (resolved : names.mapM t.header.column = .ok columns)
    (projected : t.project names = .ok u) {passes passesAfter : Row → Bool}
    (alike : ∀ row, passesAfter (columns.map fun c => row.cell c.2) = passes row) :
    (t.filter passes).project names = .ok (u.filter passesAfter) := by
  obtain ⟨others, again, header, rows⟩ := project_eq_ok projected
  cases resolved.symm.trans again
  have sameRows : (u.filter passesAfter).rows =
      (t.filter passes).rows.map fun row => columns.map fun c => row.cell c.2 := by
    change u.rows.filter passesAfter = (t.rows.filter passes).map _
    rw [rows, List.filter_map]
    exact congrArg _ (List.filter_congr fun row _ => alike row)
  have sameHeader : (u.filter passesAfter).header =
      .ofNamesFirst (columns.map (·.1)) (t.filter passes).header.aliases := header
  rw [project_of_columns (t := t.filter passes) resolved, ← sameRows, ← sameHeader]
  exact ofRows_self _

theorem keep_project {t u : Table} {φ ψ : Formula RowTest}
    (related : φ.Related (RowTest.ReadsAlike columns) ψ)
    (resolved : names.mapM t.header.column = .ok columns) (projected : t.project names = .ok u) :
    (t.keep φ >>= fun kept => kept.project names) = u.keep ψ := by
  have alike (row : Row) :
      ψ.holds (RowTest.passes (columns.map fun c => row.cell c.2)) = φ.holds (RowTest.passes row) :=
    (related.holds_eq fun r s tests => (tests.passes_eq row).symm).symm
  obtain ⟨others, again, _, rows⟩ := project_eq_ok projected
  cases resolved.symm.trans again
  have causes : (u.rows.findSome? fun row => refusal? (ψ.holds (RowTest.passes row))) =
      t.rows.findSome? fun row => refusal? (φ.holds (RowTest.passes row)) := by
    rw [rows, List.findSome?_map]
    simp only [Function.comp_def, alike]
  rw [keep_eq, keep_eq, causes]
  cases t.rows.findSome? fun row => refusal? (φ.holds (RowTest.passes row)) with
  | some refusal => rfl
  | none => exact project_filter resolved projected fun row => congrArg affirms (alike row)

/-- A table is projected and then filtered as it is filtered and then projected, or both are refused
for the same cause, when the projection keeps what the condition compares. -/
theorem filterBy_project {t u : Table} {settings : Settings} {clause : Node α}
    (projected : t.project names = .ok u)
    (kept : ∀ condition, clause.conditionOf .whereClause = .ok condition →
      t.header.KeepsCompared names condition) :
    u.filterBy settings clause =
      (t.filterBy settings clause >>= fun filtered => filtered.project names) := by
  obtain ⟨columns, resolved, header, _⟩ := project_eq_ok projected
  rw [filterBy, filterBy, header]
  cases below : clause.conditionOf .whereClause with
  | error refusal => rfl
  | ok condition =>
    have formulas := Formula.agree_ofNode condition fun item member =>
      agree_rowTest settings resolved (kept condition below item member)
    rw [ok_bind, ok_bind, bind_assoc]
    refine (formulas.bind fun φ ψ related => ?_).eq.symm
    rw [keep_project related resolved projected]
    exact .refl _

def cheapInTheNorth (bound : String) : Node Unit :=
  ⟨(), .logicalOperation .and, [
    ⟨(), .filterItem, [⟨(), .column, [⟨(), .identifier "region", []⟩]⟩,
      ⟨(), .comparator .eq, []⟩, ⟨(), .identifier "'north'", []⟩]⟩,
    ⟨(), .filterItem, [⟨(), .column, [⟨(), .identifier "cost", []⟩]⟩,
      ⟨(), .comparator .lt, []⟩, ⟨(), .identifier bound, []⟩]⟩]⟩

/-- The prices are compared under another name, before they are repeated and after. -/
theorem filterBy_project_priced : ∃ u, priced.project ["cost", "region", "price"] = .ok u ∧
    (∃ v, u.filterBy {} (cheapInTheNorth "9") = .ok v ∧
      v.rows = [[.int 7, .text "north", .int 7]]) ∧
    (priced.filterBy {} (cheapInTheNorth "little") >>= fun filtered =>
      filtered.project ["cost", "region", "price"]) = .error (.literalNotNumeric "little") := by
  have projected : ∃ u, priced.project ["cost", "region", "price"] = .ok u ∧
      u.filterBy {} (cheapInTheNorth "little") = .error (.literalNotNumeric "little") :=
    ⟨_, rfl, rfl⟩
  have kept (bound : String) : ∀ condition,
      (cheapInTheNorth bound).conditionOf .whereClause = .ok condition →
        priced.header.KeepsCompared ["cost", "region", "price"] condition := by
    intro condition below
    cases below
    intro item member test name read _ named
    simp only [cheapInTheNorth, Node.items, List.mem_append, List.mem_singleton] at member
    rcases member with rfl | rfl
    · cases read
      cases named
      exact ⟨_, rfl, "region", by simp, _, rfl, rfl⟩
    · cases read
      cases named
      exact ⟨_, rfl, "price", by simp, _, rfl, rfl⟩
  obtain ⟨u, projected, refused⟩ := projected
  refine ⟨u, projected, ?_, ?_⟩
  · rw [filterBy_project projected (kept "9")]
    exact ⟨_, rfl, rfl⟩
  · rw [← filterBy_project projected (kept "little"), refused]

end Table

end TableQuery
