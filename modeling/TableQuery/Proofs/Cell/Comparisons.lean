import TableQuery.Proofs.Table.Clashes
import TableQuery.Proofs.Text.Bytes

/-! # Comparisons of one cell with one literal

The six comparisons look at a cell and a literal through the order of the two,
which is missing for numbers when one of them is NaN.  How they lie to each
other is a matter of this order alone, whether it comes from numbers or from
texts, and no comparison holds of an empty cell.
-/

namespace TableQuery

namespace Binary64

open Float.Model

theorem isNaN_unpack {spec : Format} (bits : BitVec spec.numBits) :
    (UnpackedFloat.unpack spec bits).isNaN = true ↔
      UnpackedFloat.unpackExponent bits = -1#_ ∧ UnpackedFloat.unpackMantissa bits ≠ 0#_ := by
  change (if UnpackedFloat.unpackExponent bits = -1#_ then
      if UnpackedFloat.unpackMantissa bits = 0#_ then .infinity _ else .notANumber
    else if UnpackedFloat.unpackExponent bits = 0#_ then
      if zero : UnpackedFloat.unpackMantissa bits = 0#_ then .zero _ else .finite _ _ _ _
    else .finite _ _ _ _ : UnpackedFloat).isNaN = true ↔ _
  by_cases special : UnpackedFloat.unpackExponent bits = -1#_
  · rw [if_pos special]
    by_cases infinite : UnpackedFloat.unpackMantissa bits = 0#_
    · rw [if_pos infinite]
      exact iff_of_false Bool.false_ne_true fun both => both.2 infinite
    · rw [if_neg infinite]
      exact iff_of_true rfl ⟨special, infinite⟩
  · rw [if_neg special]
    refine iff_of_false ?_ fun both => special both.1
    by_cases least : UnpackedFloat.unpackExponent bits = 0#_
    · rw [if_pos least]
      by_cases zero : UnpackedFloat.unpackMantissa bits = 0#_
      · rw [dif_pos zero]
        exact Bool.false_ne_true
      · rw [dif_neg zero]
        exact Bool.false_ne_true
    · rw [if_neg least]
      exact Bool.false_ne_true

theorem isNaN_iff {f : Float} : f.isNaN = true ↔ infinity < magnitude f := by
  have exponent : @UnpackedFloat.unpackExponent .binary64 f.toBits.toBitVec = -1#_ ↔
      f.toBits.toNat / 2 ^ 52 % 2 ^ 11 = 2 ^ 11 - 1 := by
    rw [← BitVec.toNat_inj]
    simp [UnpackedFloat.unpackExponent, Format.binary64, Nat.shiftRight_eq_div_pow]
  have fraction : @UnpackedFloat.unpackMantissa .binary64 f.toBits.toBitVec = 0#_ ↔
      f.toBits.toNat % 2 ^ 52 = 0 := by
    rw [← BitVec.toNat_inj]
    simp [UnpackedFloat.unpackMantissa, Format.binary64]
  have packed := @isNaN_unpack .binary64 f.toBits.toBitVec
  rw [exponent, ne_eq, fraction] at packed
  rw [magnitude, signBit, infinity]
  refine packed.trans ?_
  omega

theorem rank_eq_none_iff {f : Float} : rank f = none ↔ f.isNaN = true := by
  rw [isNaN_iff, rank]
  split
  · next large => simp [large]
  · next small =>
    refine iff_of_false ?_ small
    split <;> simp

theorem order_eq_none_iff {x y : Float} :
    order x y = none ↔ x.isNaN = true ∨ y.isNaN = true := by
  rw [← rank_eq_none_iff, ← rank_eq_none_iff, order]
  cases rank x <;> cases rank y <;> simp

end Binary64

namespace Comparison

/-- Whether two comparisons hold of no order together. -/
def Excludes (c d : Comparison) : Prop := ∀ o, c.holds o = true → d.holds o = false

theorem excludes_iff {c d : Comparison} : c.Excludes d ↔
    ([none, some .lt, some .eq, some .gt].all fun o => !(c.holds o && d.holds o)) = true := by
  have known (o : Option Ordering) : o ∈ [none, some .lt, some .eq, some .gt] := by
    rcases o with _ | _ | _ | _ <;> decide
  rw [Excludes, List.all_eq_true]
  refine ⟨fun excludes o _ => ?_, fun each o held => ?_⟩
  · cases held : c.holds o with
    | false => rfl
    | true => rw [excludes o held]; rfl
  · have apart := each o (known o)
    rwa [held, Bool.true_and, Bool.not_eq_true'] at apart

instance (c d : Comparison) : Decidable (c.Excludes d) := decidable_of_iff' _ excludes_iff

/-- Of texts, the comparisons say which one has the smaller bytes. -/
theorem holds_compare (s bare : String) :
    eq.holds (some (compare s bare)) = decide (s = bare) ∧
      lt.holds (some (compare s bare)) = decide (Text.bytes s < Text.bytes bare) ∧
      gt.holds (some (compare s bare)) = decide (Text.bytes bare < Text.bytes s) := by
  refine ⟨?_, ?_, ?_⟩ <;> rw [Bool.eq_iff_iff, decide_eq_true_iff, holds]
  · rw [Ordering.isEq_iff_eq_eq, compare_eq_iff_eq]
  · rw [Ordering.isLT_iff_eq_lt, compare_lt_iff_lt, Text.bytes_lt_iff]
  · rw [Ordering.isGT_iff_eq_gt, compare_gt_iff_gt, Text.bytes_lt_iff]

end Comparison

namespace Cell

def isUnordered (cell : Cell) (literal : String) : Bool :=
  match cell.number?, Decimal.float? (Text.trim literal.toList) with
  | some number, some value => number.isNaN || value.isNaN
  | _, _ => false

variable {cell : Cell} {literal : String}

/-- A cell that does not clash with a literal has an order with it, unless one of them is NaN, and
meets the comparisons that hold of this order. -/
theorem exists_order (plain : cell.clashes literal = false) :
    ∃ o, o.isNone = cell.isUnordered literal ∧
      ∀ c, cell.meets c literal = (!cell.isNull && Comparison.holds c o) := by
  cases known : cell.number? with
  | none =>
    refine ⟨some (compare cell.display literal), ?_, fun c => ?_⟩
    · simp [isUnordered, known]
    · simp [meets, order, known, pure, Except.pure, Except.toOption]
  | some number =>
    rw [clashes, isNumeric, known] at plain
    cases parsed : Decimal.float? (Text.trim literal.toList) with
    | none =>
      rw [parsed] at plain
      cases plain
    | some value =>
      refine ⟨Binary64.order number value, ?_, fun c => ?_⟩
      · rw [isUnordered, known, parsed, Bool.eq_iff_iff, Option.isNone_iff_eq_none,
          Binary64.order_eq_none_iff, Bool.or_eq_true]
      · simp [meets, order, known, parsed, pure, Except.pure, Except.toOption]

theorem meets_excludes {c d : Comparison} (excludes : c.Excludes d)
    (met : cell.meets c literal = true) : cell.meets d literal = false := by
  unfold meets at met ⊢
  rw [Bool.and_eq_true, Option.any_eq_true] at met
  obtain ⟨_, o, found, held⟩ := met
  rw [found, Option.any_some, excludes o held, Bool.and_false]

theorem meets_eq_or_ne (plain : cell.clashes literal = false) :
    (cell.meets .eq literal || cell.meets .ne literal) = !cell.isNull := by
  obtain ⟨o, _, met⟩ := exists_order plain
  rw [met, met, ← Bool.and_or_distrib_left]
  rcases o with _ | _ | _ | _ <;> exact Bool.and_true _

theorem meets_lt_or_eq_or_gt (plain : cell.clashes literal = false) :
    (cell.meets .lt literal || cell.meets .eq literal || cell.meets .gt literal) =
      (!cell.isNull && !cell.isUnordered literal) := by
  obtain ⟨o, unordered, met⟩ := exists_order plain
  rw [met, met, met, ← unordered, ← Bool.and_or_distrib_left, ← Bool.and_or_distrib_left]
  rcases o with _ | _ | _ | _ <;> rfl

theorem meets_le (cell : Cell) (literal : String) :
    cell.meets .le literal = (cell.meets .lt literal || cell.meets .eq literal) := by
  unfold meets
  rw [← Bool.and_or_distrib_left]
  rcases (cell.order literal).toOption with _ | _ | _ | _ | _ <;> rfl

theorem meets_ge (cell : Cell) (literal : String) :
    cell.meets .ge literal = (cell.meets .gt literal || cell.meets .eq literal) := by
  unfold meets
  rw [← Bool.and_or_distrib_left]
  rcases (cell.order literal).toOption with _ | _ | _ | _ | _ <;> rfl

theorem meets_ne_of_isUnordered (unordered : cell.isUnordered literal = true) :
    cell.meets .ne literal = true := by
  have plain : cell.clashes literal = false ∧ cell.isNull = false := by
    unfold isUnordered at unordered
    split at unordered
    · next known parsed =>
      refine ⟨by simp [clashes, parsed], ?_⟩
      cases cell <;> cases known <;> rfl
    · cases unordered
  obtain ⟨o, none, met⟩ := exists_order plain.1
  rw [unordered, Option.isNone_iff_eq_none] at none
  rw [met, plain.2, none]
  rfl

end Cell

end TableQuery
