import TableQuery.Proofs.Outcome
import TableQuery.Statement.Parts

/-! # Reading parts of statement nodes

What the tag of a node says about its kind, and what the shape of a call says
about its children.
-/

namespace TableQuery

/-- Whether a kind says no more than its tag. -/
def Kind.isPlain : Kind → Bool
  | .identifier _ | .star _ | .comparator _ | .logicalOperation _ | .orderingDirection _ => false
  | _ => true

theorem Kind.eq_of_tag {k l : Kind} (sameTag : k.tag = l.tag) (plain : l.isPlain = true) :
    k = l := by
  cases l with
  | identifier _ | star _ | comparator _ | logicalOperation _ | orderingDirection _ => cases plain
  | _ => cases k <;> first | rfl | cases sameTag

namespace Node

variable {α : Type}

theorem kind_of_star {n : Node α} (isStar : n.tag = .star) : ∃ owner, n.kind = .star owner := by
  obtain ⟨mark, kind, children⟩ := n
  cases kind <;> simp_all [tag, Kind.tag]

theorem kind_of_isExpression {n : Node α} (isExpression : n.tag.isExpression = true) :
    n.kind = .column ∨ n.kind = .function ∨ ∃ owner, n.kind = .star owner := by
  obtain ⟨mark, kind, children⟩ := n
  cases kind <;> simp [tag, Kind.tag, Tag.isExpression] at isExpression ⊢

theorem head?_of_itemExpression {item expression : Node α}
    (below : item.itemExpression = .ok expression) : item.children.head? = some expression := by
  unfold itemExpression at below
  split at below
  · next first =>
    cases below
    exact first
  · cases below

theorem head?_of_test {n : Node α} {test : Test α} (read : n.test = .ok test) :
    n.children.head? = some test.operand := by
  rw [Node.test] at read
  cases first : n.children.head? with
  | none =>
    rw [first] at read
    cases read
  | some operand =>
    rw [first] at read
    simp only at read
    split at read
    · split at read
      · cases read
      · split at read
        · cases read
        · cases read
          rfl
    · cases read

/-- A condition stands for itself, whatever clause it could be in. -/
theorem conditionOf_of_isCondition {n : Node α} {clause : Tag}
    (isCondition : n.tag.isCondition = true) (noCondition : clause.isCondition = false) :
    n.conditionOf clause = .ok n := by
  rw [conditionOf, if_neg]
  · rfl
  · rintro rfl
    rw [isCondition] at noCondition
    cases noCondition

theorem operands_eq_ok {n left right : Node α} {connective : Connective} :
    n.operands connective = .ok (left, right) ↔ n.children = [left, right] := by
  obtain ⟨mark, kind, children⟩ := n
  match children with
  | [first, second] => simp [operands, pure_eq_ok]
  | [] | [_] | _ :: _ :: _ :: _ => simp [operands, throw_eq_ok]

theorem argument_eq_ok {n arg : Node α} :
    n.argument = .ok arg ↔ ∃ first, n.children = [first, arg] ∧ isCall first arg = true := by
  obtain ⟨mark, kind, children⟩ := n
  match children with
  | [first, other] =>
    simp only [argument]
    split
    · next shape =>
      rw [pure_eq_ok]
      refine ⟨fun same => ⟨first, by rw [same], same ▸ shape⟩, ?_⟩
      rintro ⟨_, same, _⟩
      cases same
      rfl
    · next shapeless =>
      rw [throw_eq_ok, false_iff]
      rintro ⟨_, same, shape⟩
      cases same
      exact shapeless shape
  | [] | [_] | _ :: _ :: _ :: _ => simp [argument, throw_eq_ok]

section Argument

variable {n arg : Node α} (read : n.argument = .ok arg)

include read

theorem mem_of_argument : arg ∈ n.children := by
  obtain ⟨first, children, _⟩ := argument_eq_ok.1 read
  simp [children]

theorem isExpression_of_argument : arg.tag.isExpression = true := by
  obtain ⟨first, _, shape⟩ := argument_eq_ok.1 read
  exact ((Bool.and_eq_true _ _).mp shape).2

/-- What has an argument has a name before it, which its first child carries. -/
theorem exists_name_of_argument :
    ∃ first name, n.children = [first, arg] ∧ first.identifier? = some name ∧
      n.name = .ok name := by
  obtain ⟨first, children, shape⟩ := argument_eq_ok.1 read
  obtain ⟨isName, _⟩ := (Bool.and_eq_true _ _).mp shape
  rw [name, children]
  obtain ⟨mark, kind, below⟩ := first
  cases kind <;> simp [tag, Kind.tag] at isName
  exact ⟨_, _, rfl, rfl, rfl⟩

end Argument

def argumentHeading (arg : Node α) : Except Refusal String :=
  match arg.kind with
  | .column => arg.name
  | .star owner => pure (Kind.starText owner)
  | _ => arg.heading

theorem heading_eq (n : Node α) :
    n.heading = (do
      let name ← n.name
      let inner ← (← n.argument).argumentHeading
      return name ++ "(" ++ inner ++ ")") := by
  obtain ⟨mark, kind, children⟩ := n
  rw [heading]
  refine bind_congr fun name => ?_
  match children with
  | [first, arg] =>
    simp only [argument]
    split
    · rw [pure_bind, argumentHeading]
      cases arg.kind <;> rfl
    · rfl
  | [] | [_] | _ :: _ :: _ :: _ => rfl

end Node

end TableQuery
