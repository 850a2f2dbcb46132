import TableQuery.Proofs.Aggregate.Accumulators
import TableQuery.Proofs.Cell.Kinds
import Mathlib.Algebra.Ring.Int.Defs

/-! # Sums

A sum is exact as long as it is a sum of integers that fits into 64 bits at
every cell, and rounded from the first cell on where it is not.  It never comes
back from there: a sum that has left the range is a float, also where the whole
of the integers would fit.  Texts are refused, the first one of a column
whatever stands before it, and a mean refuses the same ones.
-/

namespace TableQuery.Aggregate

/-- The cause that a function which takes numbers only has against a cell. -/
def textCause? (function : String) (c : Cell) : Option Refusal :=
  c.text?.map fun s => .notNumeric function (.text s)

theorem refusal?_sum (cells : List Cell) :
    refusal? (sum.reduce cells) = cells.findSome? (textCause? "sum") := by
  refine (Accumulator.refusal?_reduce _ cells).trans ?_
  refine refusal?_foldlM (fun _ => True) (fun {total} c _ => ?_) (fun _ _ => trivial) trivial cells
  cases total <;> cases c <;> rfl

theorem refusal?_avg (cells : List Cell) :
    refusal? (avg.reduce cells) = cells.findSome? (textCause? "avg") := by
  refine (Accumulator.refusal?_reduce _ cells).trans ?_
  refine refusal?_foldlM (fun _ => True) (fun c _ => ?_) (fun _ _ => trivial) trivial cells
  cases c <;> rfl

theorem findSome?_textCause? (function : String) (cells : List Cell) :
    cells.findSome? (textCause? function) =
      (cells.findSome? Cell.text?).map fun s => .notNumeric function (.text s) :=
  List.map_findSome?.symm

theorem reduce_eq_error_iff {a : Aggregate} {cells : List Cell} {refusal : Refusal}
    (refuses : refusal? (a.reduce cells) = cells.findSome? (textCause? a.name)) :
    a.reduce cells = .error refusal ↔
      ∃ s, cells.findSome? Cell.text? = some s ∧ refusal = .notNumeric a.name (.text s) := by
  rw [← refusal?_eq_some, refuses, findSome?_textCause?, Option.map_eq_some_iff]
  simp only [@eq_comm _ refusal]

/-! ## Exact sums -/

def integerSum (cells : List Cell) : Int := (cells.filterMap Cell.integer?).sum

/-- Whether the integers of a column, summed up in their order, never leave 64 bits. -/
def StaysExact (cells : List Cell) : Prop :=
  ∀ part, part <+: cells → Cell.IsInt (integerSum part)

/-- Whether a column has to be rounded: for a float, or where its integers leave 64 bits before any
float. -/
def NeedsRounding (cells : List Cell) : Prop :=
  (∃ f, .float f ∈ cells) ∨
    ∃ part, part <+: cells ∧ (∀ f, .float f ∉ part) ∧ ¬ Cell.IsInt (integerSum part)

theorem integerSum_concat (cells : List Cell) (c : Cell) :
    integerSum (cells ++ [c]) = integerSum cells + (c.integer?.getD 0) := by
  rw [integerSum, List.filterMap_append, List.sum_append]
  cases c <;> simp [integerSum, Cell.integer?, List.filterMap_cons]

theorem integerSum_of_nulls {cells : List Cell} (nulls : ∀ c ∈ cells, c = .null) :
    integerSum cells = 0 := by
  have none : cells.filterMap Cell.integer? = [] := by
    rw [List.filterMap_eq_nil_iff]
    intro c member
    rw [nulls c member]
    rfl
  rw [integerSum, none, List.sum_nil]

theorem staysExact_of_nulls {cells : List Cell} (nulls : ∀ c ∈ cells, c = .null) :
    StaysExact cells := by
  intro part before
  rw [integerSum_of_nulls fun c member => nulls c (before.subset member)]
  decide

theorem not_needsRounding {cells : List Cell} (noFloat : ∀ f, .float f ∉ cells)
    (stays : StaysExact cells) : ¬ NeedsRounding cells := by
  rintro (⟨f, member⟩ | ⟨part, before, _, left⟩)
  · exact noFloat f member
  · exact left (stays part before)

theorem not_needsRounding_of_nulls {cells : List Cell} (nulls : ∀ c ∈ cells, c = .null) :
    ¬ NeedsRounding cells :=
  not_needsRounding (fun _ member => nomatch nulls _ member) (staysExact_of_nulls nulls)

theorem needsRounding_concat {cells : List Cell} (needs : NeedsRounding cells) (c : Cell) :
    NeedsRounding (cells ++ [c]) := by
  obtain ⟨f, member⟩ | ⟨part, before, noFloat, left⟩ := needs
  · exact .inl ⟨f, List.mem_append_left _ member⟩
  · exact .inr ⟨part, before.trans (List.prefix_append _ _), noFloat, left⟩

theorem staysExact_concat {cells : List Cell} {c : Cell} :
    StaysExact (cells ++ [c]) ↔ StaysExact cells ∧ Cell.IsInt (integerSum (cells ++ [c])) := by
  simp only [StaysExact, List.prefix_concat_iff, or_imp, forall_and, forall_eq]
  exact and_comm

/-! ## What a sum so far says -/

def Total.Describes : Total → List Cell → Prop
  | .none, cells => ∀ c ∈ cells, c = .null
  | .exact sum, cells =>
    (∃ i, .int i ∈ cells) ∧ (∀ f, .float f ∉ cells) ∧ StaysExact cells ∧
      sum.toInt = integerSum cells
  | .rounded _, cells => NeedsRounding cells

namespace Total

theorem describes_concat_null {total : Total} {cells : List Cell}
    (described : total.Describes cells) : total.Describes (cells ++ [.null]) := by
  cases total with
  | none => exact List.forall_mem_append.2 ⟨described, List.forall_mem_singleton.2 rfl⟩
  | exact sum =>
    obtain ⟨someInteger, noFloat, stays, same⟩ := described
    have unchanged : integerSum (cells ++ [.null]) = integerSum cells := by
      rw [integerSum_concat]
      exact Int.add_zero _
    refine ⟨by simpa using someInteger, by simpa using noFloat, ?_, same.trans unchanged.symm⟩
    exact staysExact_concat.2 ⟨stays, unchanged ▸ stays cells (List.prefix_refl _)⟩
  | rounded sum => exact needsRounding_concat described _

theorem describes_addExact {cells : List Cell} {sum i : Int64}
    (described : (Total.exact sum).Describes cells) :
    (addExact sum i).Describes (cells ++ [.int i]) := by
  obtain ⟨_, noFloat, stays, same⟩ := described
  have next : integerSum (cells ++ [.int i]) = sum.toInt + i.toInt := by
    rw [integerSum_concat, same]
    rfl
  have alsoNoFloat : ∀ f, .float f ∉ cells ++ [.int i] := by simpa using noFloat
  rw [addExact]
  split
  · next fits =>
    refine ⟨⟨i, by simp⟩, alsoNoFloat, staysExact_concat.2 ⟨stays, next ▸ fits⟩, ?_⟩
    rw [next, Int64.toInt_ofInt_of_le fits.1 fits.2]
  · next leaves =>
    exact .inr ⟨_, List.prefix_refl _, alsoNoFloat, next ▸ leaves⟩

theorem describes_add {cells : List Cell} {total next : Total} {c : Cell}
    (described : total.Describes cells) (added : total.add c = .ok next) :
    next.Describes (cells ++ [c]) := by
  cases c with
  | null =>
    cases total <;> cases added <;> exact describes_concat_null described
  | text s => cases total <;> cases added
  | float f => cases total <;> cases added <;> exact .inl ⟨f, by simp⟩
  | int i =>
    cases total with
    | none =>
      cases added
      have alone : integerSum (cells ++ [.int i]) = i.toInt := by
        rw [integerSum_concat, integerSum_of_nulls described]
        exact Int.zero_add _
      have noFloat : ∀ f, .float f ∉ cells := fun _ member => nomatch described _ member
      refine ⟨⟨i, by simp⟩, by simpa using noFloat, ?_, alone.symm⟩
      exact staysExact_concat.2 ⟨staysExact_of_nulls described, alone ▸ Cell.isInt_toInt i⟩
    | exact sum =>
      cases added
      exact describes_addExact described
    | rounded sum =>
      -- What left the range before does so still: no later integer brings it back.
      cases added
      exact needsRounding_concat described _

namespace Describes

variable {total : Total} {cells : List Cell}

theorem eq_none (described : total.Describes cells) (nulls : ∀ c ∈ cells, c = .null) :
    total = .none := by
  cases total with
  | none => rfl
  | exact sum =>
    obtain ⟨⟨i, member⟩, _⟩ := described
    cases nulls _ member
  | rounded sum => exact absurd described (not_needsRounding_of_nulls nulls)

theorem eq_exact {n : Int64} (described : total.Describes cells)
    (exact : (Total.exact n).Describes cells) : total = .exact n := by
  obtain ⟨⟨i, member⟩, noFloat, stays, same⟩ := exact
  cases total with
  | none => cases described _ member
  | exact sum =>
    obtain ⟨_, _, _, alsoSame⟩ := described
    rw [Int64.toInt_inj.1 (alsoSame.trans same.symm)]
  | rounded sum => exact absurd described (not_needsRounding noFloat stays)

theorem exists_rounded (described : total.Describes cells) (needs : NeedsRounding cells) :
    ∃ f, total = .rounded f := by
  cases total with
  | none => exact absurd needs (not_needsRounding_of_nulls described)
  | exact sum =>
    obtain ⟨_, noFloat, stays, _⟩ := described
    exact absurd needs (not_needsRounding noFloat stays)
  | rounded f => exact ⟨f, rfl⟩

end Describes

end Total

theorem sum_reduce_eq_ok {cells : List Cell} {c : Cell} (summed : sum.reduce cells = .ok c) :
    (∀ s, .text s ∉ cells) ∧ ∃ total : Total, total.Describes cells ∧ total.cell = c := by
  have accepted : refusal? (sum.reduce cells) = none := refusal?_eq_none.2 ⟨c, summed⟩
  rw [refusal?_sum, findSome?_textCause?, Option.map_eq_none_iff] at accepted
  obtain ⟨total, ran, cell⟩ := Accumulator.reduce_eq_ok.1 summed
  have start : Total.none.Describes [] := fun _ member => nomatch member
  exact ⟨Cell.findSome?_text?_eq_none.1 accepted, total,
    holds_of_foldlM Total.describes_add start ran, cell⟩

theorem exists_sum_of_noText {cells : List Cell} (noText : ∀ s, .text s ∉ cells) :
    ∃ total : Total, total.Describes cells ∧ sum.reduce cells = .ok total.cell := by
  have accepted : refusal? (sum.reduce cells) = none := by
    rw [refusal?_sum, findSome?_textCause?, Cell.findSome?_text?_eq_none.2 noText]
    rfl
  obtain ⟨c, summed⟩ := refusal?_eq_none.1 accepted
  obtain ⟨_, total, described, rfl⟩ := sum_reduce_eq_ok summed
  exact ⟨total, described, summed⟩

theorem nulls_of_sum {cells : List Cell} (empty : sum.reduce cells = .ok .null) :
    ∀ c ∈ cells, c = .null := by
  obtain ⟨_, total, described, cell⟩ := sum_reduce_eq_ok empty
  cases total <;> cases cell
  exact described

/-- A sum is an integer, the exact one, where the column holds integers but no float and no text and
its integers never leave 64 bits on the way; it is a float where they do, or where there is a float,
and no text; it is empty where all cells are; and it is refused for the first text. -/
theorem sum_exact_or_rounded (cells : List Cell) :
    (∀ n, sum.reduce cells = .ok (.int n) ↔
      (∃ i, .int i ∈ cells) ∧ (∀ f, .float f ∉ cells) ∧ (∀ s, .text s ∉ cells) ∧
        StaysExact cells ∧ n.toInt = integerSum cells) ∧
    ((∃ f, sum.reduce cells = .ok (.float f)) ↔
      (∀ s, .text s ∉ cells) ∧ NeedsRounding cells) ∧
    (sum.reduce cells = .ok .null ↔ ∀ c ∈ cells, c = .null) ∧
    (∀ refusal, sum.reduce cells = .error refusal ↔
      ∃ s, cells.findSome? Cell.text? = some s ∧ refusal = .notNumeric "sum" (.text s)) := by
  refine ⟨fun n => ⟨?_, ?_⟩, ⟨?_, ?_⟩, ⟨?_, ?_⟩, ?_⟩
  · intro summed
    obtain ⟨noText, total, described, cell⟩ := sum_reduce_eq_ok summed
    cases total <;> cases cell
    obtain ⟨someInteger, noFloat, stays, same⟩ := described
    exact ⟨someInteger, noFloat, noText, stays, same⟩
  · rintro ⟨someInteger, noFloat, noText, stays, same⟩
    obtain ⟨total, described, summed⟩ := exists_sum_of_noText noText
    rw [summed, described.eq_exact ⟨someInteger, noFloat, stays, same⟩]
    rfl
  · rintro ⟨f, summed⟩
    obtain ⟨noText, total, described, cell⟩ := sum_reduce_eq_ok summed
    cases total <;> cases cell
    exact ⟨noText, described⟩
  · rintro ⟨noText, needs⟩
    obtain ⟨total, described, summed⟩ := exists_sum_of_noText noText
    obtain ⟨f, rfl⟩ := described.exists_rounded needs
    exact ⟨f, summed⟩
  · exact nulls_of_sum
  · intro nulls
    obtain ⟨total, described, summed⟩ := exists_sum_of_noText fun s member => by
      cases nulls _ member
    rw [summed, described.eq_none nulls]
    rfl
  · exact fun refusal => reduce_eq_error_iff (refusal?_sum cells)

/-- A sum that has left the range does not come back to the integers. -/
example : ∃ f, sum.reduce [.int 9223372036854775807, .int 1, .int (-1)] = .ok (.float f) := ⟨_, rfl⟩

end TableQuery.Aggregate
