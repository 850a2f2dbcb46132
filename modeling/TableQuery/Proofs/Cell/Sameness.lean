import TableQuery.Condition
import TableQuery.Proofs.Outcome

/-! # Sameness of cells

`==` on cells is an equivalence, although it is not equality: all floats that
are no numbers are one cell, and so are the two zeros.  A comparison with a
literal cannot tell apart cells that are the same, so that it can be made on
any row of a group.
-/

namespace TableQuery

namespace Binary64

theorem same_iff {x y : Float} : same x y = true ↔ rank x = rank y := by
  simp [same]

theorem order_congr {x y : Float} (alike : same x y = true) (bound : Float) :
    order x bound = order y bound := by
  rw [order, order, same_iff.1 alike]

end Binary64

namespace Cell

theorem same_refl (c : Cell) : same c c = true := by
  cases c <;> simp [same, Binary64.same_iff]

theorem same_symm {c d : Cell} (alike : same c d = true) : same d c = true := by
  cases c <;> cases d <;> simp_all [same, Binary64.same_iff]

theorem same_trans {b c d : Cell} (first : same b c = true) (second : same c d = true) :
    same b d = true := by
  cases b <;> cases c <;> simp [same] at first <;>
    cases d <;> simp_all [same, Binary64.same_iff]

instance : EquivBEq Cell where
  rfl := same_refl _
  symm := same_symm
  trans := same_trans

/-- Whether a cell holds something that has an order with a literal for which a comparison holds. -/
def meets (cell : Cell) (comparison : Comparison) (literal : String) : Bool :=
  !cell.isNull && (cell.order literal).toOption.any comparison.holds

theorem affirms_satisfies (cell : Cell) (comparison : Comparison) (literal : String) :
    affirms (cell.satisfies comparison literal) = cell.meets comparison literal := by
  unfold satisfies meets
  cases cell.isNull with
  | true => rfl
  | false => cases cell.order literal <;> rfl

theorem meets_getD (cell : Option Cell) (comparison : Comparison) (literal : String) :
    (cell.getD .null).meets comparison literal = cell.any fun c => c.meets comparison literal := by
  cases cell <;> rfl

theorem order_congr {c d : Cell} (alike : c == d) (literal : String) :
    c.order literal = d.order literal := by
  change same c d = true at alike
  cases c <;> cases d <;> simp [same] at alike
  case int.int => rw [alike]
  -- Integers and texts are the same only when they are equal; for floats the rank decides.
  case float.float =>
    simp only [order, number?]
    split
    · rw [Binary64.order_congr alike]
    · rfl
  case text.text => rw [alike]
  case null.null => rfl

theorem isNull_congr {c d : Cell} (alike : c == d) : c.isNull = d.isNull := by
  change same c d = true at alike
  cases c <;> cases d <;> simp [same] at alike <;> rfl

/-- Cells that are the same pass the same comparisons, and are refused the same literals. -/
theorem satisfies_congr {c d : Cell} (alike : c == d) (comparison : Comparison) (literal : String) :
    c.satisfies comparison literal = d.satisfies comparison literal := by
  rw [satisfies, satisfies, isNull_congr alike, order_congr alike]

end Cell

section Lists

variable {α : Type} [BEq α] [EquivBEq α]

theorem beq_list_symm : ∀ {as bs : List α}, as == bs → bs == as
  | [], [], _ => rfl
  | a :: as, b :: bs, alike => by
    rw [List.cons_beq_cons, Bool.and_eq_true] at alike ⊢
    exact ⟨BEq.symm alike.1, beq_list_symm alike.2⟩

theorem beq_list_trans : ∀ {as bs cs : List α}, as == bs → bs == cs → as == cs
  | [], [], _, _, second => second
  | a :: as, b :: bs, c :: cs, first, second => by
    rw [List.cons_beq_cons, Bool.and_eq_true] at first second ⊢
    exact ⟨BEq.trans first.1 second.1, beq_list_trans first.2 second.2⟩

theorem getD_beq (i : Nat) (d : α) : ∀ {as bs : List α}, as == bs → as.getD i d == bs.getD i d
  | [], [], _ => BEq.rfl
  | a :: as, b :: bs, alike => by
    rw [List.cons_beq_cons, Bool.and_eq_true] at alike
    cases i with
    | zero => exact alike.1
    | succ i => exact getD_beq i d alike.2

theorem take_beq (n : Nat) : ∀ {as bs : List α}, as == bs → as.take n == bs.take n
  | [], [], _ => by simp
  | a :: as, b :: bs, alike => by
    rw [List.cons_beq_cons, Bool.and_eq_true] at alike
    cases n with
    | zero => rfl
    | succ n =>
      rw [List.take_succ_cons, List.take_succ_cons, List.cons_beq_cons, Bool.and_eq_true]
      exact ⟨alike.1, take_beq n alike.2⟩

instance equivBEqList : EquivBEq (List α) where
  symm := beq_list_symm
  trans := beq_list_trans

end Lists

end TableQuery
