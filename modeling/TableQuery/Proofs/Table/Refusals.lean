import TableQuery.Proofs.Statement.WellFormed
import TableQuery.Proofs.Table.Filter
import TableQuery.Proofs.Table.Rows

/-! # What is refused on rows

A well-formed statement can still be refused for what it meets when it is run:
a name that is no column, a function that is not known, a cell or a literal
that is no number.  Such refusals are of the data; all others say that the
statement or a table is not well formed.  Filters and projections refuse
nothing but data, except that a condition on rows must not compare a function.
-/

namespace TableQuery

/-- Whether a refusal is for names or values that the statement met, and not for its form or that of
a table. -/
def Refusal.isOfData : Refusal → Bool
  | .columnNotFound _ | .notGrouped _ | .unknownFunction _ | .notNumeric _ _
  | .literalNotNumeric _ => true
  | _ => false

abbrev RefusesData {β : Type} (x : Except Refusal β) : Prop :=
  RefusesOnly (fun refusal => refusal.isOfData = true) x

variable {α : Type}

theorem Header.refusesData_column (h : Header) (name : String) : RefusesData (h.column name) := by
  intro refusal refused
  obtain ⟨rfl, _⟩ := Header.column_eq_error.1 refused
  rfl

theorem Header.refusesData_position (h : Header) (name : String) :
    RefusesData (h.position name) := by
  apply RefusesOnly.bind (h.refusesData_column name)
  exact fun _ _ => RefusesOnly.pure _

theorem Cell.refusesData_order (cell : Cell) (literal : String) :
    RefusesData (cell.order literal) := by
  unfold Cell.order
  split
  · split
    · exact RefusesOnly.pure _
    · exact RefusesOnly.throw rfl
  · exact RefusesOnly.pure _

theorem Cell.refusesData_satisfies (cell : Cell) (comparison : Comparison) (literal : String) :
    RefusesData (cell.satisfies comparison literal) := by
  unfold Cell.satisfies
  split
  · exact RefusesOnly.pure _
  · apply RefusesOnly.bind (cell.refusesData_order literal)
    exact fun _ _ => RefusesOnly.pure _

theorem Formula.refusesOnly_holds {τ : Type} {allowed : Refusal → Prop}
    {passes : τ → Except Refusal Bool} (each : ∀ t, RefusesOnly allowed (passes t))
    (φ : Formula τ) : RefusesOnly allowed (φ.holds passes) := by
  induction φ with
  | test t => exact each t
  | both φ ψ left right =>
    apply RefusesOnly.bind left
    intro answer _
    split
    · exact right
    · exact RefusesOnly.pure _
  | either φ ψ left right =>
    apply RefusesOnly.bind left
    intro answer _
    split
    · exact RefusesOnly.pure _
    · exact right

theorem Table.refusesData_keep (t : Table) (φ : Formula RowTest) : RefusesData (t.keep φ) := by
  have answers : RefusesData (sift (fun row => φ.holds (RowTest.passes row)) t.rows) := by
    apply RefusesOnly.sift
    intro row _
    apply Formula.refusesOnly_holds
    exact fun test => Cell.refusesData_satisfies _ _ _
  unfold Table.keep
  split
  · exact RefusesOnly.pure _
  · next refusal refused => exact RefusesOnly.throw (answers refusal refused)

def Node.comparesFunction (item : Node α) : Bool :=
  item.children.head?.any fun operand => operand.tag == .function

/-- Whether a refusal is that of one of some filter items for comparing a function without
groups. -/
def Refusal.IsForFunctionIn (refusal : Refusal) (items : List (Node α)) : Prop :=
  ∃ item ∈ items, item.comparesFunction = true ∧ refusal = item.malformed .columnOperand

theorem Table.refusesOnly_rowTest {item : Node α} (valid : item.validate = .ok ())
    (isItem : item.tag = .filterItem) (header : Header) (settings : Settings) :
    RefusesOnly (fun refusal => refusal.isOfData = true ∨
        item.comparesFunction = true ∧ refusal = item.malformed .columnOperand)
      (rowTest header settings item) := by
  obtain ⟨test, read, first, isOperand, operandValid⟩ := Node.exists_test valid isItem
  rw [rowTest, read, ok_bind]
  split
  · next isColumn =>
    obtain ⟨name, named⟩ := Node.exists_name_of_column operandValid isColumn
    rw [named, ok_bind]
    refine RefusesOnly.bind ((header.refusesData_position name).imp fun _ => .inl) ?_
    exact fun _ _ => RefusesOnly.pure _
  · next noColumn =>
    -- The grammar leaves nothing but a function for an operand that is no column.
    have isFunction : test.operand.tag = .function := by
      simpa [Tag.isOperand, noColumn] using isOperand
    refine RefusesOnly.throw (.inr ⟨?_, rfl⟩)
    rw [Node.comparesFunction, first, Option.any_some, isFunction]
    rfl

theorem Table.comparesFunction_of_rowTest {header : Header} {settings : Settings} {item : Node α}
    {t : RowTest} (made : rowTest header settings item = .ok t) :
    item.comparesFunction = false := by
  obtain ⟨test, _, _, read, isColumn, _⟩ := rowTest_eq_ok.1 made
  rw [Node.comparesFunction, Node.head?_of_test read, Option.any_some, isColumn]
  rfl

section Where

variable {clause condition : Node α}

theorem Table.refusesOnly_filterBy (t : Table) (settings : Settings)
    (valid : clause.validate = .ok ()) (isWhere : clause.tag = .whereClause)
    (below : clause.children.head? = some condition) :
    RefusesOnly (fun refusal => refusal.isOfData = true ∨ refusal.IsForFunctionIn condition.items)
      (t.filterBy settings clause) := by
  obtain ⟨_, read, first, isCondition, conditionValid⟩ :=
    Node.exists_condition valid isWhere (.inl rfl)
  obtain rfl := Option.some.inj (below.symm.trans first)
  rw [filterBy, read, ok_bind]
  refine RefusesOnly.bind (Node.refusesOnly_ofNode conditionValid isCondition ?_) ?_
  · intro item member itemValid isItem
    refine (refusesOnly_rowTest itemValid isItem t.header settings).imp ?_
    exact fun refusal refused => refused.imp_right fun misplaced => ⟨item, member, misplaced⟩
  · exact fun φ _ => (t.refusesData_keep φ).imp fun _ => .inl

/-- A condition that compares a function is refused before any row is looked at. -/
theorem Table.filterBy_eq_error (header : Header) (settings : Settings)
    (valid : clause.validate = .ok ()) (isWhere : clause.tag = .whereClause)
    (below : clause.children.head? = some condition)
    (compares : ∃ item ∈ condition.items, item.comparesFunction = true) :
    ∃ refusal, ∀ t : Table, t.header = header → t.filterBy settings clause = .error refusal := by
  obtain ⟨_, read, first, isCondition, _⟩ := Node.exists_condition valid isWhere (.inl rfl)
  obtain rfl := Option.some.inj (below.symm.trans first)
  cases translated : Formula.ofNode (rowTest header settings) condition with
  | ok φ =>
    -- A formula has a test from every item, and this item makes none.
    obtain ⟨item, member, isFunction⟩ := compares
    obtain ⟨_, made⟩ := (Formula.translates_of_ofNode translated).made item member
    rw [comparesFunction_of_rowTest made] at isFunction
    cases isFunction
  | error refusal =>
    refine ⟨refusal, ?_⟩
    rintro t rfl
    rw [filterBy, read, ok_bind, translated]
    rfl

end Where

theorem Table.ofRows_ofNamesFirst (names : List String) (aliases : Aliases) {rows : List Row}
    (widths : ∀ row ∈ rows, row.length = names.length) :
    ∃ t, ofRows (Header.ofNamesFirst names aliases) rows = .ok t :=
  ⟨_, ofRows_of_fits ⟨names.length, Header.width_ofNamesFirst_le names aliases, widths⟩⟩

theorem Table.ofRows_columns (columns : List (String × Nat)) (aliases : Aliases)
    (rows : List Row) : ∃ t, ofRows (Header.ofNamesFirst (columns.map (·.1)) aliases)
      (rows.map fun row => columns.map fun c => row.cell c.2) = .ok t := by
  apply ofRows_ofNamesFirst
  simp

theorem Table.refusesData_project (t : Table) (names : List String) :
    RefusesData (t.project names) := by
  apply RefusesOnly.bind (RefusesOnly.mapM fun name _ => t.header.refusesData_column name)
  intro columns _
  obtain ⟨u, fits⟩ := ofRows_columns columns t.header.aliases t.rows
  exact RefusesOnly.of_ok fits

end TableQuery
