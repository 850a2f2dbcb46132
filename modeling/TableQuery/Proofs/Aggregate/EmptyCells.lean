import TableQuery.Proofs.Aggregate.Extremes
import TableQuery.Proofs.Aggregate.Sums

/-! # Empty cells

Sums, means and extremes pass over empty cells, wherever these stand in a
column, and are empty themselves where nothing else is in it.  So a mean never
divides by a count of no numbers.  Only the count takes every cell.
-/

namespace TableQuery.Aggregate

def PassesOverNulls (a : Aggregate) : Prop :=
  ∀ cells, a.reduce (cells.filter fun c => !c.isNull) = a.reduce cells

theorem passesOverNulls_sum : sum.PassesOverNulls :=
  Accumulator.reduce_filter fun total => by cases total <;> rfl

theorem passesOverNulls_avg : avg.PassesOverNulls :=
  Accumulator.reduce_filter fun _ => rfl

theorem passesOverNulls_extreme (e : Extreme) : e.aggregate.PassesOverNulls :=
  Accumulator.reduce_filter fun _ => rfl

theorem PassesOverNulls.reduce_nulls {a : Aggregate} (passes : a.PassesOverNulls)
    {cells : List Cell} (nulls : ∀ c ∈ cells, c = .null) : a.reduce cells = a.reduce [] := by
  have none : cells.filter (fun c => !c.isNull) = [] := by
    rw [List.filter_eq_nil_iff]
    intro c member
    rw [nulls c member]
    exact Bool.false_ne_true
  rw [← passes cells, none]

/-- What a mean so far says about the cells that it was made of: it has counted none of them if and
only if all are empty. -/
def Mean.Describes (m : Mean) (cells : List Cell) : Prop :=
  m.count = 0 ↔ ∀ c ∈ cells, c = .null

theorem Mean.describes_add {cells : List Cell} {m next : Mean} {c : Cell}
    (described : m.Describes cells) (added : m.add c = .ok next) :
    next.Describes (cells ++ [c]) := by
  unfold Mean.Describes at *
  cases c <;> cases added <;> simp [described, or_imp, forall_and]

theorem nulls_of_avg {cells : List Cell} (empty : avg.reduce cells = .ok .null) :
    ∀ c ∈ cells, c = .null := by
  obtain ⟨last, ran, cell⟩ := Accumulator.reduce_eq_ok.1 empty
  have start : (Mean.mk 0 0).Describes [] := by simp [Mean.Describes]
  have described : last.Describes cells := holds_of_foldlM Mean.describes_add start ran
  refine described.1 ?_
  by_contra counted
  change last.cell = .null at cell
  rw [Mean.cell, if_neg counted] at cell
  cases cell

/-- The sum, the mean and the extremes of a column are those of its cells that are not empty, and
empty where there are none.  Of texts, a mean refuses the one that a sum does, the first.  The count
is never refused and counts the empty cells too. -/
theorem reduce_with_nulls (cells : List Cell) :
    (∀ a ∈ [sum, avg, min, max],
      a.reduce (cells.filter fun c => !c.isNull) = a.reduce cells ∧
      (a.reduce cells = .ok .null ↔ ∀ c ∈ cells, c = .null)) ∧
    (∀ a ∈ [avg, sum], ∀ refusal, a.reduce cells = .error refusal ↔
      ∃ s, cells.findSome? Cell.text? = some s ∧ refusal = .notNumeric a.name (.text s)) ∧
    ∃ n, count.reduce cells = .ok (.int n) ∧ n = Int64.ofInt cells.length ∧
      (Cell.IsInt cells.length → n.toInt = cells.length) := by
  have outcome {a : Aggregate} (passes : a.PassesOverNulls) (nothing : a.reduce [] = .ok .null)
      (nulls_of : a.reduce cells = .ok .null → ∀ c ∈ cells, c = .null) :
      a.reduce (cells.filter fun c => !c.isNull) = a.reduce cells ∧
        (a.reduce cells = .ok .null ↔ ∀ c ∈ cells, c = .null) :=
    ⟨passes cells, nulls_of, fun nulls => (passes.reduce_nulls nulls).trans nothing⟩
  refine ⟨?_, ?_, _, count_reduce cells, rfl, fun fits => Int64.toInt_ofInt_of_le fits.1 fits.2⟩
  · simp only [List.forall_mem_cons]
    exact ⟨outcome passesOverNulls_sum rfl nulls_of_sum,
      outcome passesOverNulls_avg rfl nulls_of_avg,
      outcome (passesOverNulls_extreme .least) rfl Extreme.nulls_of_reduce,
      outcome (passesOverNulls_extreme .greatest) rfl Extreme.nulls_of_reduce, by simp⟩
  · simp only [List.forall_mem_cons]
    exact ⟨fun _ => reduce_eq_error_iff (refusal?_avg cells),
      fun _ => reduce_eq_error_iff (refusal?_sum cells), by simp⟩

end TableQuery.Aggregate
