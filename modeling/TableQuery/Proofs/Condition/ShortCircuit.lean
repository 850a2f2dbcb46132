import TableQuery.Proofs.Condition.Truth

/-! # What of a condition is looked at

A condition is evaluated from left to right, and its right side only where the
left side leaves the answer open.  `met` lists the filter items that are looked
at on the way, given which items are true, and an evaluation is refused for the
first of them against which there is a cause.

An item that is refused counts as one that is not true.  The evaluation ends
there, so that what `met` lists after it is in fact not looked at; what it lists
up to it is.
-/

namespace TableQuery

variable {α τ : Type}

namespace Node

/-- The filter items that decide a condition, from left to right. -/
def met (item : Node α → Bool) : Node α → List (Node α)
  | ⟨mark, kind, children⟩ =>
    match kind, children with
    | .filterItem, children => [⟨mark, .filterItem, children⟩]
    | .logicalOperation .and, [left, right] =>
      if left.holds item then left.met item ++ right.met item else left.met item
    | .logicalOperation .or, [left, right] =>
      if left.holds item then left.met item else left.met item ++ right.met item
    | _, _ => []

end Node

namespace Formula.Translates

variable {make : Node α → Except Refusal τ} {n : Node α} {φ : Formula τ} {item : Node α → Bool}

theorem met_subset_items (translated : Translates make n φ) : n.met item ⊆ n.items := by
  induction translated with
  | item => simp [Node.met, Node.items]
  | both _ _ left right =>
    rw [Node.met, Node.items]
    split
    · exact List.append_subset.2 ⟨List.subset_append_of_subset_left _ left,
        List.subset_append_of_subset_right _ right⟩
    · exact List.subset_append_of_subset_left _ left
  | either _ _ left right =>
    rw [Node.met, Node.items]
    split
    · exact List.subset_append_of_subset_left _ left
    · exact List.append_subset.2 ⟨List.subset_append_of_subset_left _ left,
        List.subset_append_of_subset_right _ right⟩

/-- A formula is refused for the first cause against an item that its condition meets, and is true
or false as its condition is when there is none. -/
theorem holds_unlessRefused (translated : Translates make n φ)
    {passes : τ → Except Refusal Bool} {cause? : Node α → Option Refusal}
    (each : ∀ n t, make n = .ok t → passes t = unlessRefused (cause? n) (item n)) :
    φ.holds passes = unlessRefused ((n.met item).findSome? cause?) (n.holds item) := by
  induction translated with
  | item made =>
    rw [holds, each _ _ made, Node.met, Node.holds]
    simp
  | both _ _ left right =>
    rw [holds, left, Node.met, Node.holds]
    -- Only a left side that is true brings in what the right side meets.
    cases Node.holds item _ with
    | true =>
      rw [if_pos rfl, List.findSome?_append, right]
      cases List.findSome? cause? _ <;> simp [unlessRefused]
    | false =>
      rw [if_neg Bool.false_ne_true]
      cases List.findSome? cause? _ <;> simp [unlessRefused, pure, Except.pure]
  | either _ _ left right =>
    rw [holds, left, Node.met, Node.holds]
    cases Node.holds item _ with
    | true =>
      rw [if_pos rfl]
      cases List.findSome? cause? _ <;> simp [unlessRefused, pure, Except.pure]
    | false =>
      rw [if_neg Bool.false_ne_true, List.findSome?_append, right]
      cases List.findSome? cause? _ <;> simp [unlessRefused]

end Formula.Translates

end TableQuery
