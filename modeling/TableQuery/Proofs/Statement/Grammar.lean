import TableQuery.Proofs.Outcome
import TableQuery.Proofs.Statement.Parts
import TableQuery.Query.Basic

/-! # Well-formed statements

A statement is well formed when no node in it has children of the wrong shape,
so that every clause of a well-formed query is well formed as well.
-/

namespace TableQuery.Node

variable {α : Type}

theorem validateAll_eq_ok {ns : List (Node α)} :
    validateAll ns = .ok () ↔ ∀ n ∈ ns, n.validate = .ok () := by
  induction ns with
  | nil => rw [validateAll]; simp [pure_eq_ok]
  | cons n ns ih =>
    rw [validateAll, bind_eq_ok, List.forall_mem_cons, ih]
    constructor
    · rintro ⟨_, first, rest⟩
      exact ⟨first, rest⟩
    · rintro ⟨first, rest⟩
      exact ⟨(), first, rest⟩

theorem validate_eq_ok {n : Node α} :
    n.validate = .ok () ↔ n.fault? = none ∧ ∀ child ∈ n.children, child.validate = .ok () := by
  obtain ⟨mark, kind, children⟩ := n
  rw [validate]
  cases fault? ⟨mark, kind, children⟩ with
  | none => exact validateAll_eq_ok.trans (by simp)
  | some expected => simp [throw_eq_ok]

theorem tag_of_clause? {n clause : Node α} {tag : Tag} (found : n.clause? tag = some clause) :
    clause.tag = tag :=
  beq_iff_eq.1 (List.find?_some (p := fun c : Node α => c.tag == tag) found)

theorem mem_of_childWith {n child : Node α} {tag : Tag} {position : Nat}
    (found : n.childWith tag position = .ok child) : child ∈ n.children ∧ child.tag = tag := by
  unfold childWith at found
  split at found
  · next child' held =>
    cases found
    obtain ⟨member, tagged⟩ := List.mem_filter.1 (List.mem_of_getElem? held)
    exact ⟨member, beq_iff_eq.1 tagged⟩
  · cases found

theorem tag_of_mem_selectItems {n : Node α} {items : List (Node α)} (valid : n.validate = .ok ())
    (selects : n.selectItems = .ok items) : ∀ item ∈ items, item.tag = .selectItem := by
  rw [selectItems, bind_eq_ok] at selects
  obtain ⟨clause, found, same⟩ := selects
  cases same
  obtain ⟨member, tagged⟩ := mem_of_childWith found
  have faultless := (validate_eq_ok.1 ((validate_eq_ok.1 valid).2 clause member)).1
  have kind : clause.kind = .selectClause := Kind.eq_of_tag tagged rfl
  simp only [fault?, kind] at faultless
  split at faultless
  · next shape =>
    obtain ⟨_, all⟩ := (Bool.and_eq_true _ _).mp shape
    intro item among
    exact beq_iff_eq.1 (List.all_eq_true.1 all item.tag (List.mem_map_of_mem among))
  · cases faultless

end TableQuery.Node
