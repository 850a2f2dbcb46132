import TableQuery.Table.Filter
import TableQuery.Proofs.Cell.Sameness
import TableQuery.Proofs.Condition.Truth
import TableQuery.Proofs.Statement.Parts
import TableQuery.Proofs.Table.Header

/-! # Conditions on rows as booleans

WHERE tries its condition on one row after the other and leaves a connective
as soon as its answer is settled.  Where it is accepted, the rows that are left
are those of which the condition is true when it is read as a boolean formula.
-/

namespace TableQuery.Table

variable {α : Type}

def operandCell? (header : Header) (operand : Node α) (row : Row) : Option Cell :=
  match operand.kind with
  | .column => do
    let position ← (header.position (← operand.name.toOption)).toOption
    row[position]?
  | _ => none

def itemHolds (header : Header) (settings : Settings) (item : Node α) (row : Row) : Bool :=
  item.isMet settings fun operand => operandCell? header operand row

theorem rowTest_eq_ok {header : Header} {settings : Settings} {item : Node α} {t : RowTest} :
    rowTest header settings item = .ok t ↔
      ∃ test name position, item.test = .ok test ∧ test.operand.tag = .column ∧
        test.operand.name = .ok name ∧ header.position name = .ok position ∧
        t = ⟨position, test.comparison, Text.unquote settings.literalQuotes test.literal⟩ := by
  rw [rowTest, bind_eq_ok]
  constructor
  · rintro ⟨test, read, made⟩
    split at made
    · next isColumn =>
      simp only [bind_eq_ok, pure_eq_ok] at made
      obtain ⟨name, named, position, resolved, rfl⟩ := made
      exact ⟨test, name, position, read, isColumn, named, resolved, rfl⟩
    · cases made
  · rintro ⟨test, name, position, read, isColumn, named, resolved, rfl⟩
    refine ⟨test, read, ?_⟩
    rw [if_pos isColumn, named]
    change (header.position name >>= _) = _
    rw [resolved]
    rfl

theorem operandCell?_eq {header : Header} {operand : Node α} {name : String} {position : Nat}
    (isColumn : operand.tag = .column) (named : operand.name = .ok name)
    (resolved : header.position name = .ok position) (row : Row) :
    operandCell? header operand row = row[position]? := by
  have kind : operand.kind = .column := Kind.eq_of_tag isColumn rfl
  unfold operandCell?
  rw [kind]
  simp [named, resolved, Except.toOption]

theorem affirms_rowTest {header : Header} {settings : Settings} {item : Node α} {t : RowTest}
    (made : rowTest header settings item = .ok t) (row : Row) :
    affirms (t.passes row) = itemHolds header settings item row := by
  obtain ⟨test, name, position, read, isColumn, named, resolved, rfl⟩ := rowTest_eq_ok.1 made
  rw [RowTest.passes, Cell.affirms_satisfies, Row.cell, List.getD_eq_getElem?_getD,
    Cell.meets_getD, itemHolds, Node.isMet_of_test read, operandCell?_eq isColumn named resolved]

theorem filter_congr {t : Table} {p q : Row → Bool} (same : ∀ row ∈ t.rows, p row = q row) :
    t.filter p = t.filter q := by
  unfold filter
  congr 1
  exact List.filter_congr same

theorem keep_eq_ok {t u : Table} {φ : Formula RowTest} : t.keep φ = .ok u ↔
    (∀ row ∈ t.rows, ∃ answer, φ.holds (RowTest.passes row) = .ok answer) ∧
      u = t.filter fun row => affirms (φ.holds (RowTest.passes row)) := by
  unfold Table.keep
  split
  · next rows sifted =>
    obtain ⟨answers, rfl⟩ := sift_eq_ok.1 sifted
    rw [pure_eq_ok]
    exact ⟨fun same => ⟨answers, same.symm⟩, fun ⟨_, same⟩ => same.symm⟩
  · next refusal sifted =>
    refine iff_of_false (fun accepted => by cases accepted) fun ⟨answers, _⟩ => ?_
    rw [sift_eq_ok.2 ⟨answers, rfl⟩] at sifted
    cases sifted

theorem header_of_keep {t u : Table} {φ : Formula RowTest} (kept : t.keep φ = .ok u) :
    u.header = t.header := by
  obtain ⟨_, rfl⟩ := keep_eq_ok.1 kept
  rfl

theorem filterBy_eq_ok {t u : Table} {settings : Settings} {clause : Node α} :
    t.filterBy settings clause = .ok u ↔
      ∃ condition φ, clause.conditionOf .whereClause = .ok condition ∧
        Formula.Translates (rowTest t.header settings) condition φ ∧ t.keep φ = .ok u := by
  simp only [filterBy, bind_eq_ok]
  constructor
  · rintro ⟨condition, below, φ, made, kept⟩
    exact ⟨condition, φ, below, Formula.translates_of_ofNode made, kept⟩
  · rintro ⟨condition, φ, below, translated, kept⟩
    exact ⟨condition, below, φ, translated.ofNode_eq, kept⟩

theorem header_of_filterBy {t u : Table} {settings : Settings} {clause : Node α}
    (filtered : t.filterBy settings clause = .ok u) : u.header = t.header := by
  obtain ⟨_, _, _, _, kept⟩ := filterBy_eq_ok.1 filtered
  exact header_of_keep kept

/-- What is kept are the rows of which the condition is true. -/
theorem keep_eq_filter {t u : Table} {settings : Settings} {condition : Node α}
    {φ : Formula RowTest}
    (translated : Formula.Translates (rowTest t.header settings) condition φ)
    (kept : t.keep φ = .ok u) :
    u = t.filter fun row =>
      condition.holds fun item => itemHolds t.header settings item row := by
  obtain ⟨answers, rfl⟩ := keep_eq_ok.1 kept
  refine filter_congr fun row member => ?_
  obtain ⟨answer, answered⟩ := answers row member
  rw [answered, affirms_ok]
  exact translated.holds_eq (fun _ _ made => affirms_rowTest made row) answered

end TableQuery.Table
