import TableQuery.Proofs.Cell.Comparisons
import TableQuery.Proofs.Cell.Kinds
import TableQuery.Proofs.Parted
import TableQuery.Proofs.Text.Quoted

/-! # Conditions of one comparison

A condition that compares one column with one literal keeps the rows whose cell
meets the comparison, and is refused when a number meets a literal that is none.
The refusal has nothing to do with the comparison.  The six comparisons can
therefore be set against each other row by row, and a column of texts can be
searched for any text at all.
-/

namespace TableQuery

variable {α : Type}

/-- Whether a clause makes just one comparison, of the column with a name and a literal as it is
written. -/
def Node.Compares (clause : Node α) (name : String) (comparison : Comparison) (literal : String) :
    Prop :=
  ∃ item operand, clause.conditionOf .whereClause = .ok item ∧ item.tag = .filterItem ∧
    item.test = .ok ⟨operand, comparison, literal⟩ ∧ operand.tag = .column ∧
    operand.name = .ok name

namespace Table

variable {t : Table} {settings : Settings} {clause : Node α} {name literal : String}
  {comparison : Comparison} {position : Nat}

theorem filterBy_of_compares (compares : clause.Compares name comparison literal)
    (resolved : t.header.position name = .ok position) {bare : String}
    (inside : Text.unquote settings.literalQuotes literal = bare) :
    t.filterBy settings clause =
      unlessRefused
        (t.rows.findSome? fun row =>
          if (row.cell position).clashes bare then some (.literalNotNumeric bare) else none)
        (t.filter fun row => (row.cell position).meets comparison bare) := by
  obtain ⟨item, operand, below, isItem, read, isColumn, named⟩ := compares
  have made : rowTest t.header settings item = .ok ⟨position, comparison, bare⟩ := by
    rw [rowTest_eq_ok]
    exact ⟨_, name, position, read, isColumn, named, resolved, by rw [inside]⟩
  have kind : item.kind = .filterItem := Kind.eq_of_tag isItem rfl
  obtain ⟨mark, _, children⟩ := item
  cases kind
  rw [filterBy, below, ok_bind, Formula.ofNode, made]
  exact keep_unlessRefused fun row => Cell.satisfies_eq _ _ _

theorem exists_filterBy_iff (settings : Settings)
    (compares : clause.Compares name comparison literal)
    (resolved : t.header.position name = .ok position) :
    (∃ u, t.filterBy settings clause = .ok u) ↔
      ∀ row ∈ t.rows,
        (row.cell position).clashes (Text.unquote settings.literalQuotes literal) = false := by
  simp [filterBy_of_compares compares resolved rfl, unlessRefused_eq_ok]

theorem rows_of_compares {u : Table} (compares : clause.Compares name comparison literal)
    (resolved : t.header.position name = .ok position)
    (filtered : t.filterBy settings clause = .ok u) :
    u.rows = t.rows.filter fun row =>
      (row.cell position).meets comparison (Text.unquote settings.literalQuotes literal) := by
  rw [filterBy_of_compares compares resolved rfl, unlessRefused_eq_ok] at filtered
  obtain ⟨_, rfl⟩ := filtered
  rfl

theorem parted_comparisons (comparisons : List Comparison) (rows : List Row) (position : Nat)
    (bare : String) (apart : comparisons.Pairwise Comparison.Excludes) {whole : Row → Bool}
    (covers : ∀ row ∈ rows,
      whole row = comparisons.any fun c => (row.cell position).meets c bare) :
    Parted (rows.filter whole)
      (comparisons.map fun c => rows.filter fun row => (row.cell position).meets c bare) := by
  have tests : (comparisons.map fun (c : Comparison) (row : Row) =>
      (row.cell position).meets c bare).Pairwise
        fun p q => ∀ row ∈ rows, p row = true → q row = false := by
    rw [List.pairwise_map]
    exact apart.imp fun excludes row _ => Cell.meets_excludes excludes
  have parts := parted_filter rows tests
  rw [List.map_map] at parts
  rw [List.filter_congr covers]
  simpa only [List.any_map, Function.comp_def] using parts

/-- The six comparisons of a column with a literal are accepted together, when no number in it meets
a literal that is none.  Equality and inequality part the rows without an empty cell, where NaN
differs from everything; lower, equal and greater part those of them that have an order with the
literal, and each of the weak comparisons keeps what the strict one and equality keep. -/
theorem parted_of_compares {clauses : Comparison → Node α}
    (single : ∀ c, (clauses c).Compares name c literal)
    (resolved : t.header.position name = .ok position) :
    (∀ c d, (∃ u, t.filterBy settings (clauses c) = .ok u) ↔
      ∃ u, t.filterBy settings (clauses d) = .ok u) ∧
    (∀ c, (∃ u, t.filterBy settings (clauses c) = .ok u) ↔ ∀ row ∈ t.rows,
      (row.cell position).clashes (Text.unquote settings.literalQuotes literal) = false) ∧
    ∀ kept : Comparison → Table, (∀ c, t.filterBy settings (clauses c) = .ok (kept c)) →
      Parted (t.rows.filter fun row => !(row.cell position).isNull)
        [(kept .eq).rows, (kept .ne).rows] ∧
      (∀ row ∈ t.rows,
        (row.cell position).isUnordered (Text.unquote settings.literalQuotes literal) = true →
          row ∈ (kept .ne).rows) ∧
      Parted
        (t.rows.filter fun row => !(row.cell position).isNull &&
          !(row.cell position).isUnordered (Text.unquote settings.literalQuotes literal))
        [(kept .lt).rows, (kept .eq).rows, (kept .gt).rows] ∧
      Parted (kept .le).rows [(kept .lt).rows, (kept .eq).rows] ∧
      Parted (kept .ge).rows [(kept .gt).rows, (kept .eq).rows] := by
  have accepted (c : Comparison) := exists_filterBy_iff settings (single c) resolved
  refine ⟨fun c d => (accepted c).trans (accepted d).symm, accepted, fun kept filtered => ?_⟩
  have plain := (accepted .eq).1 ⟨_, filtered .eq⟩
  have rows (c : Comparison) := rows_of_compares (single c) resolved (filtered c)
  simp only [rows]
  refine ⟨?_, ?_, ?_, ?_, ?_⟩
  · refine parted_comparisons [.eq, .ne] t.rows position _ (by decide) fun row member => ?_
    simp [← Cell.meets_eq_or_ne (plain row member)]
  · intro row member unordered
    exact List.mem_filter.2 ⟨member, Cell.meets_ne_of_isUnordered unordered⟩
  · refine parted_comparisons [.lt, .eq, .gt] t.rows position _ (by decide) fun row member => ?_
    simp [← Cell.meets_lt_or_eq_or_gt (plain row member), Bool.or_assoc]
  · refine parted_comparisons [.lt, .eq] t.rows position _ (by decide) fun row _ => ?_
    simp [Cell.meets_le]
  · refine parted_comparisons [.gt, .eq] t.rows position _ (by decide) fun row _ => ?_
    simp [Cell.meets_ge]

/-- A table of one column, with an empty cell and a number that is NaN. -/
def measured : Table :=
  ⟨.ofNamesFirst ["value"] ∅,
    [[.int 3], [.float (.ofBits 0x7FF8000000000000)], [.text "10"], [.null]],
    Header.fits_of_fault? rfl⟩

def comparedWith (name literal : String) (comparison : Comparison) : Node Unit :=
  ⟨(), .filterItem, [⟨(), .column, [⟨(), .identifier name, []⟩]⟩,
    ⟨(), .comparator comparison, []⟩, ⟨(), .identifier literal, []⟩]⟩

theorem compares_comparedWith (name literal : String) (comparison : Comparison) :
    (comparedWith name literal comparison).Compares name comparison literal :=
  ⟨_, _, rfl, rfl, rfl, rfl, rfl⟩

/-- Numbers are compared with the number three and the text with its sign; NaN differs from it and
has no order with it. -/
theorem parted_of_compares_measured : ∃ kept : Comparison → Table,
    (∀ c, measured.filterBy {} (comparedWith "value" "3" c) = .ok (kept c)) ∧
    Parted [[.int 3], [.float (.ofBits 0x7FF8000000000000)], [.text "10"]]
      [(kept .eq).rows, (kept .ne).rows] ∧
    [.float (.ofBits 0x7FF8000000000000)] ∈ (kept .ne).rows ∧
    Parted [[.int 3], [.text "10"]] [(kept .lt).rows, (kept .eq).rows, (kept .gt).rows] := by
  have single (c : Comparison) := compares_comparedWith "value" "3" c
  have resolved : measured.header.position "value" = .ok 0 := rfl
  obtain ⟨together, _, parts⟩ :=
    @parted_of_compares Unit measured {} "value" "3" 0 _ single resolved
  have accepted (c : Comparison) : ∃ u, measured.filterBy {} (comparedWith "value" "3" c) = .ok u :=
    (together .eq c).1 ⟨_, rfl⟩
  choose kept filtered using accepted
  obtain ⟨equality, differs, order, _⟩ := parts kept filtered
  exact ⟨kept, filtered, equality, differs _ (by simp [measured]) rfl, order⟩

theorem filterBy_of_texts (compares : clause.Compares name comparison literal)
    (resolved : t.header.position name = .ok position)
    (texts : ∀ row ∈ t.rows, row.cell position = .null ∨ ∃ s, row.cell position = .text s)
    {bare : String} (inside : Text.unquote settings.literalQuotes literal = bare) :
    t.filterBy settings clause = .ok (t.filter fun row =>
      (row.cell position).text?.any fun s => comparison.holds (some (compare s bare))) := by
  have noClash : (t.rows.findSome? fun row =>
      if (row.cell position).clashes bare then some (Refusal.literalNotNumeric bare) else none) =
        none := by
    rw [List.findSome?_eq_none_iff]
    intro row member
    rcases texts row member with empty | ⟨s, text⟩
    · rw [empty]
      rfl
    · rw [text]
      rfl
  rw [filterBy_of_compares compares resolved inside, noClash, unlessRefused_eq_ok]
  refine ⟨rfl, filter_congr fun row member => ?_⟩
  rcases texts row member with empty | ⟨s, text⟩
  · rw [empty]
    rfl
  · rw [text]
    rfl

/-- Any text can be put between quotes and compared with a column of texts and empty cells.  Just
the rows with this text are found, or those with a text of smaller or greater bytes.  A literal is
the text between its quotes, or itself when it has no such form, as a character alone has not. -/
theorem filterBy_wrapped {quote : Char} {value : String} {clauses : Comparison → Node α}
    (isQuote : quote ∈ settings.literalQuotes)
    (single : ∀ c, (clauses c).Compares name c (Text.wrapped quote value))
    (resolved : t.header.position name = .ok position)
    (texts : ∀ row ∈ t.rows, row.cell position = .null ∨ ∃ s, row.cell position = .text s) :
    t.filterBy settings (clauses .eq) =
        .ok (t.filter fun row => (row.cell position).text? = some value) ∧
      t.filterBy settings (clauses .lt) = .ok (t.filter fun row =>
        (row.cell position).text?.any fun s => Text.bytes s < Text.bytes value) ∧
      t.filterBy settings (clauses .gt) = .ok (t.filter fun row =>
        (row.cell position).text?.any fun s => Text.bytes value < Text.bytes s) ∧
      (∀ quotes : List Char, ∀ c ∈ quotes, ∀ s, Text.unquote quotes (Text.wrapped c s) = s) ∧
      (∀ quotes literal, (∀ c ∈ quotes, ∀ s, literal ≠ Text.wrapped c s) →
        Text.unquote quotes literal = literal) ∧
      ∀ quotes c, Text.unquote quotes (String.singleton c) = String.singleton c := by
  have kept (c : Comparison) :=
    filterBy_of_texts (single c) resolved texts (Text.unquote_wrapped isQuote value)
  refine ⟨?_, ?_, ?_, ?_, ?_, ?_⟩
  · rw [kept]
    congr 2
    funext row
    cases (row.cell position).text? with
    | none => rfl
    | some s => simp [(Comparison.holds_compare s value).1]
  · rw [kept]
    simp only [(Comparison.holds_compare _ value).2.1]
  · rw [kept]
    simp only [(Comparison.holds_compare _ value).2.2]
  · exact fun quotes c isQuote s => Text.unquote_wrapped isQuote s
  · exact fun quotes literal bare => Text.unquote_of_ne_wrapped bare
  · exact fun quotes c =>
      Text.unquote_of_ne_wrapped fun quote _ inside => Text.singleton_ne_wrapped c quote inside

def remarks : Table :=
  ⟨.ofNamesFirst ["remark"] ∅, [[.text "\"good\""], [.null], [.text "good"], [.text " "]],
    Header.fits_of_fault? rfl⟩

/-- The quoted remark is found between two pairs of quotes. -/
theorem filterBy_wrapped_remarks :
    (∃ u, remarks.filterBy {} (comparedWith "remark" "\"\"good\"\"" .eq) = .ok u ∧
      u.rows = [[.text "\"good\""]]) ∧
    ∃ u, remarks.filterBy {} (comparedWith "remark" "\"\"good\"\"" .gt) = .ok u ∧
      u.rows = [[.text "good"]] := by
  have literal : Text.wrapped '"' "\"good\"" = "\"\"good\"\"" := rfl
  have single (c : Comparison) := compares_comparedWith "remark" "\"\"good\"\"" c
  rw [← literal] at single ⊢
  have texts : ∀ row ∈ remarks.rows, row.cell 0 = .null ∨ ∃ s, row.cell 0 = .text s := by
    simp [remarks, Row.cell]
  obtain ⟨equal, _, greater, _⟩ :=
    @filterBy_wrapped Unit remarks {} "remark" 0 '"' "\"good\"" _ (by decide) single rfl texts
  exact ⟨⟨_, equal, rfl⟩, ⟨_, greater, rfl⟩⟩

end Table

end TableQuery
