import TableQuery.Proofs.Condition.Truth
import TableQuery.Proofs.Statement.Nodes

/-! # Formulas with related tests

One condition makes two formulas when its filter items make tests of two
kinds.  The formulas join these tests in the same way, and where a test says on
one side what its partner says on the other, so do the formulas.
-/

namespace TableQuery.Formula

variable {α σ τ : Type}

inductive Related (related : σ → τ → Prop) : Formula σ → Formula τ → Prop where
  | test {s : σ} {t : τ} (tests : related s t) : Related related (.test s) (.test t)
  | both {φ φ' : Formula σ} {ψ ψ' : Formula τ} (left : Related related φ ψ)
      (right : Related related φ' ψ') : Related related (.both φ φ') (.both ψ ψ')
  | either {φ φ' : Formula σ} {ψ ψ' : Formula τ} (left : Related related φ ψ)
      (right : Related related φ' ψ') : Related related (.either φ φ') (.either ψ ψ')

/-- A condition makes related formulas, or is refused for the same cause, when each of its filter
items makes related tests or is refused for the same cause. -/
theorem agree_ofNode {related : σ → τ → Prop} {make : Node α → Except Refusal σ}
    {other : Node α → Except Refusal τ} (n : Node α)
    (each : ∀ item ∈ n.items, Agree related (make item) (other item)) :
    Agree (Related related) (ofNode make n) (ofNode other n) := by
  induction n using Node.induction with
  | step n ih =>
    obtain ⟨mark, kind, children⟩ := n
    cases kind with
    | filterItem =>
      rw [ofNode, ofNode]
      exact (each _ (Node.self_mem_items mark children)).bind fun s t tests =>
        .accepted (.test tests)
    | logicalOperation connective =>
      rw [ofNode_logicalOperation rfl, ofNode_logicalOperation rfl]
      cases operands : Node.operands ⟨mark, .logicalOperation connective, children⟩ connective with
      | error refusal => exact .refused refusal
      | ok both =>
        obtain ⟨left, right⟩ := both
        obtain rfl : children = [left, right] := Node.operands_eq_ok.1 operands
        simp only [Node.items, List.forall_mem_append] at each
        refine (ih left (by simp) each.1).bind fun φ ψ leftRelated => ?_
        refine (ih right (by simp) each.2).bind fun φ' ψ' rightRelated => ?_
        cases connective with
        | and => exact .accepted (.both leftRelated rightRelated)
        | or => exact .accepted (.either leftRelated rightRelated)
    | _ => exact .refused _

theorem Related.holds_eq {related : σ → τ → Prop} {φ : Formula σ} {ψ : Formula τ}
    (formulas : φ.Related related ψ) {passes : σ → Except Refusal Bool}
    {passes' : τ → Except Refusal Bool} (each : ∀ s t, related s t → passes s = passes' t) :
    φ.holds passes = ψ.holds passes' := by
  induction formulas with
  | test tests => exact each _ _ tests
  | both _ _ left right | either _ _ left right => rw [holds, holds, left, right]

end TableQuery.Formula
