import TableQuery.Proofs.Outcome
import TableQuery.Statement.Grammar

/-! # The nodes of a statement

A tree has its nodes in the order in which an outline shows them: every node
before what is below it, and what is below a child before the next child.
Validation goes through the nodes in this order and stops at the first one with
a fault.
-/

namespace TableQuery.Node

variable {α : Type}

mutual

/-- The nodes of a tree, every node before the nodes below it. -/
def nodes : Node α → List (Node α)
  | ⟨mark, kind, children⟩ => ⟨mark, kind, children⟩ :: nodesAll children

def nodesAll : List (Node α) → List (Node α)
  | [] => []
  | n :: ns => n.nodes ++ nodesAll ns

end

mutual

@[elab_as_elim]
theorem induction {motive : Node α → Prop}
    (step : ∀ n : Node α, (∀ child ∈ n.children, motive child) → motive n) : ∀ n, motive n
  | ⟨mark, kind, children⟩ => step ⟨mark, kind, children⟩ (inductionAll step children)

theorem inductionAll {motive : Node α → Prop}
    (step : ∀ n : Node α, (∀ child ∈ n.children, motive child) → motive n) :
    ∀ ns : List (Node α), ∀ n ∈ ns, motive n
  | [] => by simp
  | n :: ns => List.forall_mem_cons.2 ⟨induction step n, inductionAll step ns⟩

end

def refusal? (n : Node α) : Option Refusal := n.fault?.map n.malformed

/-- What validation says when it has met a refusal, or none. -/
def verdict : Option Refusal → Except Refusal Unit
  | none => pure ()
  | some refusal => throw refusal

theorem verdict_or (first second : Option Refusal) :
    (verdict first >>= fun _ => verdict second) = verdict (first.or second) := by
  cases first <;> rfl

mutual

theorem validate_eq_verdict : ∀ n : Node α, n.validate = verdict (n.nodes.findSome? refusal?)
  | ⟨mark, kind, children⟩ => by
    rw [validate, nodes, List.findSome?_cons, refusal?]
    cases fault? ⟨mark, kind, children⟩ with
    | none => exact validateAll_eq_verdict children
    | some expected => rfl

theorem validateAll_eq_verdict :
    ∀ ns : List (Node α), validateAll ns = verdict ((nodesAll ns).findSome? refusal?)
  | [] => rfl
  | n :: ns => by
    rw [validateAll, nodesAll, List.findSome?_append, validate_eq_verdict n,
      validateAll_eq_verdict ns, verdict_or]

end

theorem verdict_eq_ok {found : Option Refusal} : verdict found = .ok () ↔ found = none := by
  cases found with
  | none => exact iff_of_true rfl rfl
  | some refusal => simp [verdict, throw_eq_ok]

theorem verdict_eq_error {found : Option Refusal} {refusal : Refusal} :
    verdict found = .error refusal ↔ found = some refusal := by
  cases found with
  | none => exact iff_of_false (fun refused => by cases refused) (fun some => by cases some)
  | some other =>
    constructor
    · intro refused
      cases refused
      rfl
    · intro same
      cases same
      rfl

theorem validate_eq_ok_iff_nodes {n : Node α} :
    n.validate = .ok () ↔ ∀ m ∈ n.nodes, m.fault? = none := by
  rw [validate_eq_verdict, verdict_eq_ok, List.findSome?_eq_none_iff]
  simp [refusal?]

theorem validate_eq_error_iff_nodes {n : Node α} {refusal : Refusal} :
    n.validate = .error refusal ↔ ∃ before bad after expected,
      n.nodes = before ++ bad :: after ∧ (∀ m ∈ before, m.fault? = none) ∧
        bad.fault? = some expected ∧ refusal = bad.malformed expected := by
  rw [validate_eq_verdict, verdict_eq_error, List.findSome?_eq_some_iff]
  constructor
  · rintro ⟨before, bad, after, split, found, earlier⟩
    obtain ⟨expected, faulty, rfl⟩ := Option.map_eq_some_iff.1 found
    refine ⟨before, bad, after, expected, split, fun m member => ?_, faulty, rfl⟩
    exact Option.map_eq_none_iff.1 (earlier m member)
  · rintro ⟨before, bad, after, expected, split, earlier, faulty, rfl⟩
    refine ⟨before, bad, after, split, Option.map_eq_some_iff.2 ⟨expected, faulty, rfl⟩, ?_⟩
    intro m member
    exact Option.map_eq_none_iff.2 (earlier m member)

end TableQuery.Node
