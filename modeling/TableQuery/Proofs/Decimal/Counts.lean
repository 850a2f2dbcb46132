import TableQuery.Decimal.Reading
import TableQuery.Text
import Mathlib.Data.List.DropRight
import Mathlib.Data.Nat.Digits.Defs

/-! # Counts as texts

A count is written with digits, after a plus sign or without one, and blanks
may stand around it.  Neither a sign nor a digit is a blank, so that blanks can
be taken off both ends without touching what they stand around, and what is
read then is the number that the digits write.
-/

namespace TableQuery

namespace Text

theorem trim_eq (cs : List Char) : trim cs = (cs.dropWhile isBlank).rdropWhile isBlank := rfl

theorem exists_trim (cs : List Char) : ∃ before after, cs = before ++ trim cs ++ after ∧
    (∀ c ∈ before, isBlank c = true) ∧ ∀ c ∈ after, isBlank c = true := by
  refine ⟨cs.takeWhile isBlank, (cs.dropWhile isBlank).rtakeWhile isBlank, ?_,
    fun _ => List.mem_takeWhile_imp, fun _ => List.mem_rtakeWhile_imp⟩
  rw [trim_eq, List.append_assoc, List.rdropWhile_append_rtakeWhile,
    List.takeWhile_append_dropWhile]

theorem dropWhile_isBlank {cs : List Char} (inside : ∀ c ∈ cs, isBlank c = false) :
    cs.dropWhile isBlank = cs := by
  cases cs with
  | nil => rfl
  | cons c cs => exact List.dropWhile_cons_of_neg (by simp [inside c])

theorem trim_of_blanks {before middle after : List Char} (first : ∀ c ∈ before, isBlank c = true)
    (inside : ∀ c ∈ middle, isBlank c = false) (last : ∀ c ∈ after, isBlank c = true) :
    trim (before ++ middle ++ after) = middle := by
  have lastInReverse : ∀ c ∈ after.reverse, isBlank c = true :=
    fun c member => last c (List.mem_reverse.1 member)
  have insideInReverse : ∀ c ∈ middle.reverse, isBlank c = false :=
    fun c member => inside c (List.mem_reverse.1 member)
  have lastOnly : (middle ++ after).rdropWhile isBlank = middle := by
    rw [List.rdropWhile, List.reverse_append, List.dropWhile_append_of_pos lastInReverse,
      dropWhile_isBlank insideInReverse, List.reverse_reverse]
  rw [trim_eq, List.append_assoc, List.dropWhile_append_of_pos first]
  cases middle with
  -- Without anything in the middle, the blanks at the end go with those at the beginning.
  | nil =>
    have blanks : after.dropWhile isBlank = [] := List.dropWhile_eq_nil_iff.2 last
    rw [List.nil_append, blanks, List.rdropWhile_nil]
  | cons c cs =>
    rwa [List.cons_append, List.dropWhile_cons_of_neg (by simp [inside c]), ← List.cons_append]

end Text

namespace Decimal

def digit (c : Char) : Nat := c.toNat - '0'.toNat

theorem ofDigits_eq (digits : List Char) :
    ofDigits digits = Nat.ofDigits 10 (digits.map digit).reverse := by
  rw [ofDigits, Nat.ofDigits_eq_foldr, List.foldr_reverse, List.foldl_map]
  congr
  funext n c
  exact Nat.add_comm _ _

theorem isBlank_of_isDigit {c : Char} (isDigit : c.isDigit = true) : Text.isBlank c = false := by
  have small : 48 ≤ c.toNat ∧ c.toNat ≤ 57 := by
    simp only [Char.isDigit, Bool.and_eq_true, decide_eq_true_eq] at isDigit
    exact isDigit
  simp only [Text.isBlank, Bool.or_eq_false_iff, Bool.and_eq_false_iff, decide_eq_false_iff_not,
    beq_eq_false_iff_ne]
  omega

/-- Whether characters are digits that write a number, after a plus sign or without one. -/
def Writes (cs : List Char) (count : Nat) : Prop :=
  ∃ digits, (cs = digits ∨ cs = '+' :: digits) ∧ digits ≠ [] ∧
    (∀ c ∈ digits, c.isDigit = true) ∧ Nat.ofDigits 10 (digits.map digit).reverse = count

theorem Writes.isBlank {cs : List Char} {count : Nat} (writes : Writes cs count) :
    ∀ c ∈ cs, Text.isBlank c = false := by
  obtain ⟨digits, rfl | rfl, _, each, _⟩ := writes
  · exact fun c member => isBlank_of_isDigit (each c member)
  · exact List.forall_mem_cons.2 ⟨rfl, fun c member => isBlank_of_isDigit (each c member)⟩

/-- What is read as a count is the number that the characters write, if it has 64 bits. -/
theorem count?_eq_some {cs : List Char} {count : Nat} :
    count? cs = some count ↔ Writes cs count ∧ count < 2 ^ 64 := by
  have taken (digits : List Char) :
      (if digits.isEmpty || !digits.all Char.isDigit then none
        else if ofDigits digits < UInt64.size then some (ofDigits digits) else none) =
          some count ↔
        (digits ≠ [] ∧ (∀ c ∈ digits, c.isDigit = true) ∧
          Nat.ofDigits 10 (digits.map digit).reverse = count) ∧ count < 2 ^ 64 := by
    have size : UInt64.size = 2 ^ 64 := rfl
    rw [← ofDigits_eq, size]
    simp only [Option.ite_none_left_eq_some, Option.ite_none_right_eq_some, Option.some.injEq,
      Bool.not_eq_true, Bool.or_eq_false_iff, List.isEmpty_eq_false_iff, Bool.not_eq_false',
      List.all_eq_true]
    constructor
    · rintro ⟨⟨nonempty, each⟩, small, rfl⟩
      exact ⟨⟨nonempty, each, rfl⟩, small⟩
    · rintro ⟨⟨nonempty, each, rfl⟩, small⟩
      exact ⟨⟨nonempty, each⟩, small, rfl⟩
  unfold count? Writes
  rw [taken]
  split
  · next rest =>
    constructor
    · rintro ⟨count, small⟩
      exact ⟨⟨rest, .inr rfl, count⟩, small⟩
    · rintro ⟨⟨digits, rfl | same, nonempty, each, value⟩, small⟩
      · exact absurd (each '+' List.mem_cons_self) (by decide)
      · obtain rfl := List.tail_eq_of_cons_eq same
        exact ⟨⟨nonempty, each, value⟩, small⟩
  · next noPlus =>
    constructor
    · rintro ⟨count, small⟩
      exact ⟨⟨cs, .inl rfl, count⟩, small⟩
    · rintro ⟨⟨digits, rfl | rfl, count⟩, small⟩
      · exact ⟨count, small⟩
      · exact absurd rfl (noPlus digits)

/-- Whether a text is a count of 64 bits with nothing but blanks around it. -/
def IsPadded (cs : List Char) (count : Nat) : Prop :=
  ∃ before written after, cs = before ++ written ++ after ∧
    (∀ c ∈ before, Text.isBlank c = true) ∧ (∀ c ∈ after, Text.isBlank c = true) ∧
    Writes written count ∧ count < 2 ^ 64

theorem count?_trim_eq_some {cs : List Char} {count : Nat} :
    count? (Text.trim cs) = some count ↔ IsPadded cs count := by
  rw [count?_eq_some]
  constructor
  · rintro ⟨writes, small⟩
    obtain ⟨before, after, padded, first, last⟩ := Text.exists_trim cs
    exact ⟨before, Text.trim cs, after, padded, first, last, writes, small⟩
  · rintro ⟨before, written, after, rfl, first, last, writes, small⟩
    rw [Text.trim_of_blanks first writes.isBlank last]
    exact ⟨writes, small⟩

end Decimal

end TableQuery
