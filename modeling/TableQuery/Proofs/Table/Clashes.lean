import TableQuery.Proofs.Condition.ShortCircuit
import TableQuery.Proofs.Table.Filter
import TableQuery.Proofs.Table.Rows

/-! # What WHERE is refused for

The one thing that can go wrong once a condition is translated is a number that
is compared with a literal that is none.  Which comparison this is depends on
the order of the rows and on which items are looked at on each of them, and the
refusal names the literal of the first.
-/

namespace TableQuery

variable {α : Type}

namespace Cell

/-- Whether a cell is a number and a literal is none, blanks around it aside. -/
def clashes (cell : Cell) (literal : String) : Bool :=
  cell.isNumeric && (Decimal.float? (Text.trim literal.toList)).isNone

theorem satisfies_eq (cell : Cell) (comparison : Comparison) (literal : String) :
    cell.satisfies comparison literal =
      unlessRefused (if cell.clashes literal then some (.literalNotNumeric literal) else none)
        (cell.meets comparison literal) := by
  have numeric (number : Float) (known : cell.number? = some number) (held : cell.isNull = false) :
      cell.satisfies comparison literal =
        unlessRefused (if cell.clashes literal then some (.literalNotNumeric literal) else none)
          (cell.meets comparison literal) := by
    rw [satisfies, meets, order, clashes, isNumeric, known, held]
    cases Decimal.float? (Text.trim literal.toList) <;> rfl
  cases cell with
  | int i => exact numeric _ rfl rfl
  | float f => exact numeric _ rfl rfl
  | text s => rfl
  | null => rfl

theorem satisfies_eq_error {cell : Cell} {comparison : Comparison} {literal : String}
    {refusal : Refusal} :
    cell.satisfies comparison literal = .error refusal ↔
      cell.clashes literal = true ∧ refusal = .literalNotNumeric literal := by
  rw [satisfies_eq, unlessRefused_eq_error]
  split
  · next clashes => simp [clashes, eq_comm]
  · next plain => simp [plain]

end Cell

namespace Table

/-- The literal with which the cell of a filter item clashes on a row. -/
def clash? (header : Header) (settings : Settings) (item : Node α) (row : Row) : Option String := do
  let test ← item.test.toOption
  let cell ← operandCell? header test.operand row
  let literal := Text.unquote settings.literalQuotes test.literal
  if cell.clashes literal then some literal else none

/-- The filter items of a condition that are looked at on a row. -/
def itemsMet (header : Header) (settings : Settings) (condition : Node α) (row : Row) :
    List (Node α) :=
  condition.met fun item => itemHolds header settings item row

variable {header : Header} {settings : Settings} {item : Node α} {row : Row}

theorem clash?_of_test {test : Test α} (read : item.test = .ok test) (row : Row) :
    clash? header settings item row =
      (operandCell? header test.operand row).bind fun cell =>
        if cell.clashes (Text.unquote settings.literalQuotes test.literal) then
          some (Text.unquote settings.literalQuotes test.literal) else none := by
  rw [clash?, read]
  rfl

theorem passes_rowTest {t : RowTest} (made : rowTest header settings item = .ok t) (row : Row) :
    t.passes row =
      unlessRefused ((clash? header settings item row).map .literalNotNumeric)
        (itemHolds header settings item row) := by
  have holds := affirms_rowTest made row
  obtain ⟨test, name, position, read, isColumn, named, resolved, rfl⟩ := rowTest_eq_ok.1 made
  rw [clash?_of_test read, operandCell?_eq isColumn named resolved, ← holds, RowTest.passes,
    Row.cell, List.getD_eq_getElem?_getD, Cell.satisfies_eq]
  cases row[position]? with
  | none => rfl
  | some cell =>
    simp only [Option.getD_some, Option.bind_some]
    split <;> rfl

theorem clash?_of_not_numeric
    (plain : ∀ test cell, item.test = .ok test →
      operandCell? header test.operand row = some cell → cell.isNumeric = false) :
    clash? header settings item row = none := by
  cases read : item.test with
  | error refusal => rw [clash?, read]; rfl
  | ok test =>
    rw [clash?_of_test read]
    cases found : operandCell? header test.operand row with
    | none => rfl
    | some cell => simp [Cell.clashes, plain test cell read found]

theorem itemHolds_of_null {test : Test α} (read : item.test = .ok test)
    (empty : operandCell? header test.operand row = some .null) :
    itemHolds header settings item row = false := by
  rw [itemHolds, Node.isMet_of_test read, empty]
  rfl

theorem keep_unlessRefused {t : Table} {φ : Formula RowTest} {cause? : Row → Option Refusal}
    {passes : Row → Bool}
    (each : ∀ row, φ.holds (RowTest.passes row) = unlessRefused (cause? row) (passes row)) :
    t.keep φ = unlessRefused (t.rows.findSome? cause?) (t.filter passes) := by
  have sifted : sift (fun row => φ.holds (RowTest.passes row)) t.rows = _ :=
    (congrArg (sift · t.rows) (funext each)).trans (sift_unlessRefused cause? passes t.rows)
  unfold keep
  split
  · next rows kept =>
    rw [kept] at sifted
    obtain ⟨none, rfl⟩ := unlessRefused_eq_ok.1 sifted.symm
    rw [none]
    rfl
  · next refusal refused =>
    rw [refused] at sifted
    rw [unlessRefused_eq_error.1 sifted.symm]
    rfl

/-- A condition that is translated keeps the rows of which it is true, unless an item that it meets
on a row clashes there. -/
theorem filterBy_unlessRefused (t : Table) {clause condition : Node α} {φ : Formula RowTest}
    (below : clause.conditionOf .whereClause = .ok condition)
    (translated : Formula.ofNode (rowTest t.header settings) condition = .ok φ) :
    t.filterBy settings clause =
      unlessRefused
        (t.rows.findSome? fun row =>
          (itemsMet t.header settings condition row).findSome? fun item =>
            (clash? t.header settings item row).map .literalNotNumeric)
        (t.filter fun row => condition.holds fun item => itemHolds t.header settings item row) := by
  rw [filterBy, below, ok_bind, translated, ok_bind]
  apply keep_unlessRefused
  intro row
  exact (Formula.translates_of_ofNode translated).holds_unlessRefused fun _ _ made =>
    passes_rowTest made row

/-- Once its condition is translated, WHERE is accepted when no item that is looked at on a row
clashes there.  It keeps the rows of which the condition is true, in order and under the same
header; an empty cell makes its item false.  Otherwise it is refused for the literal of the first
item that clashes on the first row where one does. -/
theorem filterBy_of_translated {t : Table} {clause condition : Node α} {φ : Formula RowTest}
    (below : clause.conditionOf .whereClause = .ok condition)
    (translated : Formula.ofNode (rowTest t.header settings) condition = .ok φ) :
    ((∃ u, t.filterBy settings clause = .ok u) ↔
      ∀ row ∈ t.rows, ∀ item ∈ itemsMet t.header settings condition row,
        clash? t.header settings item row = none) ∧
    (∀ u, t.filterBy settings clause = .ok u →
      u.header = t.header ∧ u.rows.Sublist t.rows ∧
        u.rows = t.rows.filter fun row =>
          condition.holds fun item => itemHolds t.header settings item row) ∧
    (∀ row, ∀ item ∈ condition.items, ∀ test, item.test = .ok test →
      operandCell? t.header test.operand row = some .null →
        itemHolds t.header settings item row = false) ∧
    (∀ refusal, t.filterBy settings clause = .error refusal →
      ∃ before row after first item rest literal,
        t.rows = before ++ row :: after ∧
        (∀ earlier ∈ before, ∀ item ∈ itemsMet t.header settings condition earlier,
          clash? t.header settings item earlier = none) ∧
        itemsMet t.header settings condition row = first ++ item :: rest ∧
        (∀ earlier ∈ first, clash? t.header settings earlier row = none) ∧
        clash? t.header settings item row = some literal ∧
        refusal = .literalNotNumeric literal) ∧
    ((∀ row ∈ t.rows, ∀ item ∈ condition.items, ∀ test cell, item.test = .ok test →
        operandCell? t.header test.operand row = some cell → cell.isNumeric = false) →
      ∃ u, t.filterBy settings clause = .ok u) := by
  have accepted : (∃ u, t.filterBy settings clause = .ok u) ↔
      ∀ row ∈ t.rows, ∀ item ∈ itemsMet t.header settings condition row,
        clash? t.header settings item row = none := by
    simp [filterBy_unlessRefused t below translated, unlessRefused_eq_ok]
  refine ⟨accepted, ?_, fun row item _ test => itemHolds_of_null, ?_, ?_⟩
  · intro u filtered
    rw [filterBy_unlessRefused t below translated, unlessRefused_eq_ok] at filtered
    obtain ⟨_, rfl⟩ := filtered
    exact ⟨rfl, List.filter_sublist, rfl⟩
  · intro refusal refused
    rw [filterBy_unlessRefused t below translated, unlessRefused_eq_error,
      List.findSome?_eq_some_iff] at refused
    obtain ⟨before, row, after, rows, found, noneBefore⟩ := refused
    obtain ⟨first, item, rest, items, clash, noneFirst⟩ := List.findSome?_eq_some_iff.1 found
    obtain ⟨literal, clash, same⟩ := Option.map_eq_some_iff.1 clash
    refine ⟨before, row, after, first, item, rest, literal, rows, ?_, items, ?_, clash, same.symm⟩
    · simpa using noneBefore
    · simpa using noneFirst
  · intro plain
    rw [accepted]
    intro row member item met
    have among := (Formula.translates_of_ofNode translated).met_subset_items met
    exact clash?_of_not_numeric fun test cell => plain row member item among test cell

def manySoldInTheSouth : Node Unit :=
  ⟨(), .logicalOperation .and, [
    ⟨(), .filterItem, [⟨(), .column, [⟨(), .identifier "region", []⟩]⟩,
      ⟨(), .comparator .eq, []⟩, ⟨(), .identifier "'south'", []⟩]⟩,
    ⟨(), .filterItem, [⟨(), .column, [⟨(), .identifier "amount", []⟩]⟩,
      ⟨(), .comparator .gt, []⟩, ⟨(), .identifier "'many'", []⟩]⟩]⟩

/-- The amount is first looked at in the second row, where it is a number. -/
theorem filterBy_of_manySold :
    sales.filterBy {} manySoldInTheSouth = .error (.literalNotNumeric "many") ∧
      ∃ before row after, sales.rows = before ++ row :: after ∧
        (∀ earlier ∈ before, ∀ item ∈ itemsMet sales.header {} manySoldInTheSouth earlier,
          clash? sales.header {} item earlier = none) ∧
        ∃ item ∈ itemsMet sales.header {} manySoldInTheSouth row,
          clash? sales.header {} item row = some "many" := by
  have refused : sales.filterBy {} manySoldInTheSouth = .error (.literalNotNumeric "many") := rfl
  obtain ⟨_, _, _, located, _⟩ :=
    @filterBy_of_translated Unit {} sales manySoldInTheSouth _ _ rfl rfl
  obtain ⟨before, row, after, first, item, rest, literal, rows, noneBefore, items, _, clash,
    same⟩ := located _ refused
  cases same
  refine ⟨refused, before, row, after, rows, noneBefore, item, ?_, clash⟩
  rw [items]
  exact List.mem_append_right _ List.mem_cons_self

end Table

end TableQuery
