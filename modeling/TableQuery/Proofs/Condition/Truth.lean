import TableQuery.Condition
import TableQuery.Proofs.Cell.Sameness
import TableQuery.Proofs.Statement.Nodes
import TableQuery.Proofs.Statement.Parts
import TableQuery.Settings
import TableQuery.Text

/-! # Truth of conditions

The plain reading of a condition tree: filter items are true or false, and
connectives join them as booleans.  `holds` is this reading for one element,
and `pick` lists the elements of which a condition is true, in the order in
which sets of elements are joined.

A formula is made from a condition once and then evaluated.  `Translates` says
what formula a condition makes, one rule for each shape of a condition, and is
what proofs about evaluation are inductions on.
-/

namespace TableQuery

variable {α β τ : Type}

namespace Node

def holds (item : Node α → Bool) : Node α → Bool
  | ⟨mark, kind, children⟩ =>
    match kind, children with
    | .filterItem, children => item ⟨mark, .filterItem, children⟩
    | .logicalOperation .and, [left, right] => left.holds item && right.holds item
    | .logicalOperation .or, [left, right] => left.holds item || right.holds item
    | _, _ => false

/-- The elements of which a condition is true, given of which its filter items are.  A filter item
keeps the order of the elements and AND that of its left side; OR puts what only its right side
has after what its left side has. -/
def pick (item : Node α → β → Bool) (elements : List β) : Node α → List β
  | ⟨mark, kind, children⟩ =>
    match kind, children with
    | .filterItem, children => elements.filter (item ⟨mark, .filterItem, children⟩)
    | .logicalOperation .and, [left, right] =>
      (left.pick item elements).filter fun b => right.holds fun n => item n b
    | .logicalOperation .or, [left, right] =>
      left.pick item elements
        ++ (right.pick item elements).filter fun b => !left.holds fun n => item n b
    | _, _ => []

def hasOr : Node α → Bool
  | ⟨_, kind, children⟩ =>
    match kind, children with
    | .logicalOperation connective, [left, right] =>
      connective == .or || left.hasOr || right.hasOr
    | _, _ => false

def items : Node α → List (Node α)
  | ⟨mark, kind, children⟩ =>
    match kind, children with
    | .filterItem, children => [⟨mark, .filterItem, children⟩]
    | .logicalOperation _, [left, right] => left.items ++ right.items
    | _, _ => []

theorem self_mem_items (mark : α) (children : List (Node α)) :
    ⟨mark, .filterItem, children⟩ ∈ items ⟨mark, .filterItem, children⟩ := by
  rw [items]
  exact List.mem_cons_self

/-- Whether a filter item is true, given which cells operands have: its operand has one, which meets
the comparison with the literal inside the quotes. -/
def isMet (settings : Settings) (cell? : Node α → Option Cell) (item : Node α) : Bool :=
  item.test.toOption.any fun test =>
    (cell? test.operand).any fun cell =>
      cell.meets test.comparison (Text.unquote settings.literalQuotes test.literal)

theorem isMet_of_test {item : Node α} {test : Test α} (read : item.test = .ok test)
    (settings : Settings) (cell? : Node α → Option Cell) :
    item.isMet settings cell? = (cell? test.operand).any fun cell =>
      cell.meets test.comparison (Text.unquote settings.literalQuotes test.literal) := by
  rw [isMet, read]
  rfl

end Node

/-! ## The formula of a condition -/

namespace Formula

inductive Translates (make : Node α → Except Refusal τ) : Node α → Formula τ → Prop where
  | item {mark : α} {children : List (Node α)} {t : τ}
      (made : make ⟨mark, .filterItem, children⟩ = .ok t) :
      Translates make ⟨mark, .filterItem, children⟩ (.test t)
  | both {mark : α} {left right : Node α} {φ ψ : Formula τ}
      (leftMakes : Translates make left φ) (rightMakes : Translates make right ψ) :
      Translates make ⟨mark, .logicalOperation .and, [left, right]⟩ (.both φ ψ)
  | either {mark : α} {left right : Node α} {φ ψ : Formula τ}
      (leftMakes : Translates make left φ) (rightMakes : Translates make right ψ) :
      Translates make ⟨mark, .logicalOperation .or, [left, right]⟩ (.either φ ψ)

theorem Translates.isCondition {make : Node α → Except Refusal τ} {n : Node α} {φ : Formula τ}
    (translated : Translates make n φ) : n.tag.isCondition = true := by
  cases translated <;> rfl

/-- A connective joins the formulas of its two operands, the left one first. -/
theorem ofNode_logicalOperation {make : Node α → Except Refusal τ} {n : Node α}
    {connective : Connective} (joins : n.kind = .logicalOperation connective) :
    ofNode make n = (do
      let (left, right) ← n.operands connective
      let φ ← ofNode make left
      let ψ ← ofNode make right
      return connective.join φ ψ) := by
  obtain ⟨mark, kind, children⟩ := n
  cases joins
  match children with
  | [left, right] => rfl
  | [] | [_] | _ :: _ :: _ :: _ => rfl

theorem translates_of_ofNode {make : Node α → Except Refusal τ} {n : Node α} {φ : Formula τ}
    (translated : ofNode make n = .ok φ) : Translates make n φ := by
  induction n using Node.induction generalizing φ with
  | step n ih =>
    obtain ⟨mark, kind, children⟩ := n
    cases kind with
    | filterItem =>
      rw [ofNode, bind_eq_ok] at translated
      obtain ⟨t, made, same⟩ := translated
      cases same
      exact .item made
    | logicalOperation connective =>
      rw [ofNode_logicalOperation rfl] at translated
      simp only [bind_eq_ok, pure_eq_ok] at translated
      obtain ⟨⟨left, right⟩, operands, φ, leftMakes, ψ, rightMakes, rfl⟩ := translated
      -- A connective with other than two operands is refused.
      obtain rfl : children = [left, right] := Node.operands_eq_ok.1 operands
      have leftHand := ih left (by simp) leftMakes
      have rightHand := ih right (by simp) rightMakes
      cases connective with
      | and => exact .both leftHand rightHand
      | or => exact .either leftHand rightHand
    | _ => cases translated

theorem Translates.ofNode_eq {make : Node α → Except Refusal τ} {n : Node α} {φ : Formula τ}
    (translated : Translates make n φ) : ofNode make n = .ok φ := by
  induction translated with
  | item made => rw [ofNode, made]; rfl
  | both _ _ leftMakes rightMakes => rw [ofNode, leftMakes, rightMakes]; rfl
  | either _ _ leftMakes rightMakes => rw [ofNode, leftMakes, rightMakes]; rfl

/-- A condition makes a formula when it is one at all and its filter items make tests. -/
theorem Translates.of_items {make : Node α → Except Refusal τ} {σ : Type}
    {other : Node α → Except Refusal σ} {n : Node α} {φ : Formula τ}
    (translated : Translates make n φ) (made : ∀ item ∈ n.items, ∃ s, other item = .ok s) :
    ∃ ψ, Translates other n ψ := by
  induction translated with
  | item =>
    obtain ⟨s, made⟩ := made _ (Node.self_mem_items _ _)
    exact ⟨_, .item made⟩
  | both _ _ left right =>
    simp only [Node.items, List.forall_mem_append] at made
    obtain ⟨φ, leftMakes⟩ := left made.1
    obtain ⟨ψ, rightMakes⟩ := right made.2
    exact ⟨_, .both leftMakes rightMakes⟩
  | either _ _ left right =>
    simp only [Node.items, List.forall_mem_append] at made
    obtain ⟨φ, leftMakes⟩ := left made.1
    obtain ⟨ψ, rightMakes⟩ := right made.2
    exact ⟨_, .either leftMakes rightMakes⟩

theorem Translates.made {make : Node α → Except Refusal τ} {n : Node α} {φ : Formula τ}
    (translated : Translates make n φ) : ∀ item ∈ n.items, ∃ t, make item = .ok t := by
  induction translated with
  | item made =>
    rw [Node.items]
    exact List.forall_mem_singleton.2 ⟨_, made⟩
  | both _ _ left right | either _ _ left right =>
    rw [Node.items]
    exact List.forall_mem_append.2 ⟨left, right⟩

theorem Translates.holds_congr {make : Node α → Except Refusal τ} {n : Node α} {φ : Formula τ}
    (translated : Translates make n φ) {item other : Node α → Bool}
    (same : ∀ m ∈ n.items, item m = other m) : n.holds item = n.holds other := by
  induction translated with
  | item => exact same _ (Node.self_mem_items _ _)
  | both _ _ left right | either _ _ left right =>
    simp only [Node.items, List.forall_mem_append] at same
    rw [Node.holds, Node.holds, left same.1, right same.2]

/-! ## What is picked -/

theorem Translates.mem_pick {make : Node α → Except Refusal τ} {n : Node α} {φ : Formula τ}
    (translated : Translates make n φ) {item : Node α → β → Bool} {elements : List β} {b : β} :
    b ∈ n.pick item elements ↔ b ∈ elements ∧ n.holds (fun n => item n b) = true := by
  induction translated with
  | item => rw [Node.pick, Node.holds, List.mem_filter]
  | both _ _ left _ =>
    rw [Node.pick, Node.holds, List.mem_filter, left, Bool.and_eq_true, and_assoc]
  | either _ _ left right =>
    rw [Node.pick, Node.holds, List.mem_append, List.mem_filter, left, right, Bool.or_eq_true,
      Bool.not_eq_true']
    cases Node.holds (fun n => item n b) _ <;> simp

theorem Translates.pick_eq_filter {make : Node α → Except Refusal τ} {n : Node α} {φ : Formula τ}
    (translated : Translates make n φ) (item : Node α → β → Bool) (elements : List β)
    (noOr : n.hasOr = false) :
    n.pick item elements = elements.filter fun b => n.holds fun n => item n b := by
  induction translated with
  | item => rfl
  | both _ _ left _ =>
    simp only [Node.hasOr, Bool.or_eq_false_iff] at noOr
    rw [Node.pick, left noOr.1.2, List.filter_filter]
    simp only [Node.holds, Bool.and_comm]
  | either => simp [Node.hasOr] at noOr

theorem Translates.pick_filter {make : Node α → Except Refusal τ} {n : Node α} {φ : Formula τ}
    (translated : Translates make n φ) (item : Node α → β → Bool) (p : β → Bool)
    (elements : List β) : n.pick item (elements.filter p) = (n.pick item elements).filter p := by
  induction translated with
  | item => rw [Node.pick, Node.pick, List.filter_comm]
  | both _ _ left _ => rw [Node.pick, Node.pick, left, List.filter_comm]
  | either _ _ left right =>
    rw [Node.pick, Node.pick, left, right, List.filter_append, List.filter_comm]

theorem Translates.pick_holding {make : Node α → Except Refusal τ} {n : Node α} {φ : Formula τ}
    (translated : Translates make n φ) (item : Node α → β → Bool) (elements : List β) :
    n.pick item (elements.filter fun b => n.holds fun n => item n b) = n.pick item elements := by
  rw [translated.pick_filter, List.filter_eq_self]
  exact fun b picked => (translated.mem_pick.1 picked).2

/-- A test parts elements that pass it from others that were put after them for failing it. -/
theorem filter_append_failing {p : β → Bool} {passing : List β} (pass : ∀ b ∈ passing, p b = true)
    (others : List β) :
    (passing ++ others.filter fun b => !p b).filter p = passing ∧
      (passing ++ others.filter fun b => !p b).filter (fun b => !p b) =
        others.filter fun b => !p b := by
  have failing : passing.filter (fun b => !p b) = [] := by
    rw [List.filter_eq_nil_iff]
    intro b member
    simp [pass b member]
  constructor
  · rw [List.filter_append, List.filter_eq_self.2 pass, List.filter_filter]
    simp
  · rw [List.filter_append, failing, List.filter_filter]
    simp

/-- Picking again changes nothing, whatever order OR has put the elements in. -/
theorem Translates.pick_pick {make : Node α → Except Refusal τ} {n : Node α} {φ : Formula τ}
    (translated : Translates make n φ) (item : Node α → β → Bool) (elements : List β) :
    n.pick item (n.pick item elements) = n.pick item elements := by
  induction translated with
  | item =>
    rw [Node.pick, Node.pick, List.filter_filter]
    simp only [Bool.and_self]
  | both leftMakes _ left _ =>
    rw [Node.pick, Node.pick, leftMakes.pick_filter, left, List.filter_filter]
    simp only [Bool.and_self]
  | either leftMakes rightMakes left right =>
    -- Each side looks at what it is true of, or at what only it is true of, and this is what it
    -- picked before.
    obtain ⟨ofLeft, ofRight⟩ := filter_append_failing
      (fun b picked => (leftMakes.mem_pick.1 picked).2) (Node.pick item elements _)
    rw [Node.pick, Node.pick, ← leftMakes.pick_holding, ofLeft, left, ← rightMakes.pick_filter,
      ofRight, rightMakes.pick_filter, right]

/-! ## Evaluation -/

/-- An answer of a formula is the truth of its condition. -/
theorem Translates.holds_eq {make : Node α → Except Refusal τ} {n : Node α} {φ : Formula τ}
    (translated : Translates make n φ) {passes : τ → Except Refusal Bool} {item : Node α → Bool}
    (agree : ∀ n t, make n = .ok t → affirms (passes t) = item n) {answer : Bool}
    (answered : φ.holds passes = .ok answer) : answer = n.holds item := by
  induction translated generalizing answer with
  | item made => rw [Node.holds, ← agree _ _ made, show passes _ = _ from answered, affirms_ok]
  | both _ _ leftMakes rightMakes =>
    rw [holds, bind_eq_ok] at answered
    obtain ⟨first, leftAnswered, rest⟩ := answered
    rw [Node.holds, ← leftMakes leftAnswered]
    cases first with
    | false => cases rest; rfl
    | true => rw [← rightMakes rest, Bool.true_and]
  | either _ _ leftMakes rightMakes =>
    rw [holds, bind_eq_ok] at answered
    obtain ⟨first, leftAnswered, rest⟩ := answered
    rw [Node.holds, ← leftMakes leftAnswered]
    cases first with
    | true => cases rest; rfl
    | false => rw [← rightMakes rest, Bool.false_or]

theorem Translates.exists_answer {make : Node α → Except Refusal τ} {n : Node α} {φ : Formula τ}
    (translated : Translates make n φ) {passes : τ → Except Refusal Bool}
    (answers : ∀ item ∈ n.items, ∀ t, make item = .ok t → ∃ answer, passes t = .ok answer) :
    ∃ answer, φ.holds passes = .ok answer := by
  induction translated with
  | item made => exact answers _ (Node.self_mem_items _ _) _ made
  | both _ _ left right =>
    simp only [Node.items, List.forall_mem_append] at answers
    obtain ⟨first, leftAnswered⟩ := left answers.1
    rw [holds, leftAnswered]
    cases first with
    | false => exact ⟨false, rfl⟩
    | true => exact right answers.2
  | either _ _ left right =>
    simp only [Node.items, List.forall_mem_append] at answers
    obtain ⟨first, leftAnswered⟩ := left answers.1
    rw [holds, leftAnswered]
    cases first with
    | false => exact right answers.2
    | true => exact ⟨true, rfl⟩

end Formula

end TableQuery
