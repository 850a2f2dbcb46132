import TableQuery.Condition
import TableQuery.Proofs.Statement.Nodes
import TableQuery.Proofs.Statement.Parts

/-! # Statements without their marks

Two trees are the same when they are equal without their marks, and nothing
that is read off a node depends on its mark: what is read off the erased node
is what is read off the node, and a node that is read off it comes erased.
Much of this is true of any map of trees that keeps the kinds of nodes.
-/

namespace TableQuery

variable {α β : Type}

def Test.map (f : Node α → Node β) (t : Test α) : Test β := ⟨f t.operand, t.comparison, t.literal⟩

def Test.erase (t : Test α) : Test Unit := ⟨t.operand.erase, t.comparison, t.literal⟩

namespace Node

theorem eraseAll_eq_map (ns : List (Node α)) : eraseAll ns = ns.map erase := by
  induction ns with
  | nil => rfl
  | cons n ns ih => rw [eraseAll, ih, List.map_cons]

@[simp] theorem erase_mk (mark : α) (kind : Kind) (children : List (Node α)) :
    erase ⟨mark, kind, children⟩ = ⟨(), kind, children.map erase⟩ := by
  rw [erase, eraseAll_eq_map]

@[simp] theorem children_erase (n : Node α) : n.erase.children = n.children.map erase := by
  obtain ⟨mark, kind, children⟩ := n
  rw [erase_mk]

@[simp] theorem kind_erase (n : Node α) : n.erase.kind = n.kind := by
  obtain ⟨mark, kind, children⟩ := n
  rw [erase_mk]

theorem kind_of_erase {n : Node α} {m : Node β} (same : n.erase = m.erase) : n.kind = m.kind := by
  rw [← kind_erase, same, kind_erase]

mutual

theorem same_iff_erase : ∀ {n : Node α} {m : Node β}, n.same m = true ↔ n.erase = m.erase
  | ⟨_, kind, children⟩, ⟨_, kind', children'⟩ => by
    rw [same, Bool.and_eq_true, beq_iff_eq, sameAll_iff_erase, erase, erase, Node.mk.injEq]
    simp

theorem sameAll_iff_erase : ∀ {ns : List (Node α)} {ms : List (Node β)},
    sameAll ns ms = true ↔ eraseAll ns = eraseAll ms
  | [], [] => by simp [sameAll, eraseAll]
  | [], _ :: _ | _ :: _, [] => by simp [sameAll, eraseAll]
  | n :: ns, m :: ms => by
    rw [sameAll, Bool.and_eq_true, same_iff_erase, sameAll_iff_erase, eraseAll, eraseAll,
      List.cons.injEq]

end

/-! ## Parts of nodes -/

section Mapped

variable {f : Node α → Node β} (kinds : ∀ n, (f n).kind = n.kind) {n : Node α}
  (children : (f n).children = n.children.map f)

include kinds

theorem tag_map (n : Node α) : (f n).tag = n.tag := by
  rw [tag, tag, kinds]

theorem malformed_map (n : Node α) (expected : Expectation) :
    (f n).malformed expected = n.malformed expected := by
  rw [malformed, malformed, label, label, kinds]

theorem identifier?_map (n : Node α) : (f n).identifier? = n.identifier? := by
  rw [identifier?, identifier?, kinds]

theorem comparison?_map (n : Node α) : (f n).comparison? = n.comparison? := by
  rw [comparison?, comparison?, kinds]

include children

omit kinds in
theorem findSome?_children_map {γ : Type} {read : Node α → Option γ} {other : Node β → Option γ}
    (same : ∀ child, other (f child) = read child) :
    (f n).children.findSome? other = n.children.findSome? read := by
  rw [children, List.findSome?_map]
  exact congrArg (List.findSome? · n.children) (funext same)

theorem name_map : (f n).name = n.name := by
  rw [name, name, findSome?_children_map children (identifier?_map kinds), label, label, kinds]

theorem test_map : (f n).test = Test.map f <$> n.test := by
  rw [test, test, findSome?_children_map children (comparison?_map kinds),
    findSome?_children_map children (identifier?_map kinds), children, List.head?_map, label, label,
    kinds, malformed_map kinds]
  cases n.children.head? with
  | none => rfl
  | some operand =>
    simp only [Option.map_some, tag_map kinds]
    split
    · split
      · rfl
      · split <;> rfl
    · rfl

theorem itemExpression_map : (f n).itemExpression = f <$> n.itemExpression := by
  rw [itemExpression, itemExpression, children, List.head?_map, malformed_map kinds]
  cases n.children.head? <;> rfl

omit children in
theorem conditionOf_map {clause : Tag}
    (children : n.tag = clause → (f n).children = n.children.map f) :
    (f n).conditionOf clause = f <$> n.conditionOf clause := by
  rw [conditionOf, conditionOf, tag_map kinds, malformed_map kinds]
  split
  · next isClause =>
    rw [children isClause, List.head?_map]
    cases n.children.head? <;> rfl
  · rfl

end Mapped

@[simp] theorem tag_erase (n : Node α) : n.erase.tag = n.tag := tag_map kind_erase n

@[simp] theorem malformed_erase (n : Node α) (expected : Expectation) :
    n.erase.malformed expected = n.malformed expected := malformed_map kind_erase n expected

@[simp] theorem identifier?_erase (n : Node α) : n.erase.identifier? = n.identifier? :=
  identifier?_map kind_erase n

@[simp] theorem name_erase (n : Node α) : n.erase.name = n.name :=
  name_map kind_erase n.children_erase

@[simp] theorem isCall_erase (first arg : Node α) :
    isCall first.erase arg.erase = isCall first arg := by
  rw [isCall, isCall, tag_erase, tag_erase]

theorem argument_erase (n : Node α) : n.erase.argument = erase <$> n.argument := by
  rw [argument, argument, children_erase, malformed_erase]
  rcases n.children with _ | ⟨first, _ | ⟨arg, _ | ⟨third, rest⟩⟩⟩
  · rfl
  · rfl
  · simp only [List.map_cons, List.map_nil, isCall_erase]
    split <;> rfl
  · rfl

@[simp] theorem heading_erase (n : Node α) : n.erase.heading = n.heading := by
  induction n using induction with
  | step n ih =>
    rw [heading_eq, heading_eq, name_erase, argument_erase]
    refine bind_congr fun name => ?_
    cases argued : n.argument with
    | error refusal => rfl
    | ok arg =>
      rw [map_ok, ok_bind, ok_bind, argumentHeading, argumentHeading, kind_erase, name_erase,
        ih arg (mem_of_argument argued)]

@[simp] theorem alias?_erase (n : Node α) : n.erase.alias? = n.alias? := by
  rw [alias?, alias?, children_erase, List.getElem?_map]
  cases n.children[1]? with
  | none => rfl
  | some child => exact identifier?_erase child

theorem test_erase (n : Node α) : n.erase.test = Test.erase <$> n.test :=
  test_map kind_erase n.children_erase

theorem conditionOf_erase (clause : Tag) (n : Node α) :
    n.erase.conditionOf clause = erase <$> n.conditionOf clause :=
  conditionOf_map kind_erase fun _ => n.children_erase

theorem itemExpression_erase (n : Node α) :
    n.erase.itemExpression = erase <$> n.itemExpression :=
  itemExpression_map kind_erase n.children_erase

theorem isLimit_congr {ns : List (Node α)} {ms : List (Node β)}
    (sameKinds : ns.map kind = ms.map kind) : isLimit ns = isLimit ms := by
  match ns, ms with
  | [], [] | _ :: _ :: _, _ :: _ :: _ => rfl
  | [n], [m] =>
    obtain ⟨same, _⟩ := List.cons_eq_cons.1 sameKinds
    simp only [isLimit, count?, identifier?, same]
  | [], _ :: _ | _ :: _, [] | [_], _ :: _ :: _ | _ :: _ :: _, [_] => simp at sameKinds

/-- Whether the children of a node have the wrong shape is decided by kinds alone. -/
theorem fault?_congr {n : Node α} {m : Node β} (sameKind : n.kind = m.kind)
    (sameKinds : n.children.map kind = m.children.map kind) : n.fault? = m.fault? := by
  have tags : n.childTags = m.childTags := by
    have mapped := congrArg (List.map Kind.tag) sameKinds
    rwa [List.map_map, List.map_map] at mapped
  simp only [fault?, sameKind, tags, isLimit_congr sameKinds]

theorem map_kind_erase (ns : List (Node α)) : (ns.map erase).map kind = ns.map kind := by
  rw [List.map_map]
  exact List.map_congr_left fun n _ => n.kind_erase

theorem validateAll_map_erase {ns : List (Node α)}
    (each : ∀ n ∈ ns, n.erase.validate = n.validate) :
    validateAll (ns.map erase) = validateAll ns := by
  induction ns with
  | nil => rfl
  | cons n ns ih =>
    obtain ⟨first, others⟩ := List.forall_mem_cons.1 each
    rw [List.map_cons, validateAll, validateAll, first, ih others]

theorem validate_erase (n : Node α) : n.erase.validate = n.validate := by
  induction n using induction with
  | step n ih =>
    obtain ⟨mark, kind, children⟩ := n
    have faults : fault? ⟨(), kind, children.map erase⟩ = fault? ⟨mark, kind, children⟩ :=
      fault?_congr rfl (map_kind_erase children)
    rw [erase_mk, validate, validate, validateAll_map_erase ih, faults]
    rfl

theorem validate_of_erase {n : Node α} {m : Node β} (same : n.erase = m.erase) :
    n.validate = m.validate := by
  rw [← validate_erase, same, validate_erase]

end Node

/-! ## Conditions -/

namespace Formula

variable {τ : Type} {make : Node α → Except Refusal τ}

/-- A condition makes the same formula under a map of trees that keeps kinds, up to the wording of
refusals, when its filter items make the same tests. -/
theorem ofNode_map {f : Node α → Node β} {other : Node β → Except Refusal τ}
    {reword : Refusal → Refusal} (kinds : ∀ n, (f n).kind = n.kind)
    (children : ∀ n connective, n.kind = .logicalOperation connective →
      (f n).children = n.children.map f)
    (same : ∀ item, item.kind = .filterItem →
      (other (f item)).mapError reword = (make item).mapError reword) (n : Node α) :
    (ofNode other (f n)).mapError reword = (ofNode make n).mapError reword := by
  induction n using Node.induction with
  | step n ih =>
    have sameKind := kinds n
    have sameChildren := children n
    have tests := same n
    generalize f n = m at sameKind sameChildren tests ⊢
    obtain ⟨mark, kind, below⟩ := n
    obtain ⟨otherMark, otherKind, otherBelow⟩ := m
    obtain rfl : otherKind = kind := sameKind
    cases otherKind with
    | filterItem => rw [ofNode, ofNode, mapError_bind, mapError_bind, tests rfl]
    | logicalOperation connective =>
      obtain rfl : otherBelow = below.map f := sameChildren connective rfl
      rcases below with _ | ⟨left, _ | ⟨right, _ | ⟨third, rest⟩⟩⟩
      · rfl
      · rfl
      · simp only [List.map_cons, List.map_nil, ofNode, mapError_bind, ih left (by simp),
          ih right (by simp)]
      · simp [ofNode]
    | _ => rfl

theorem ofNode_erase {other : Node Unit → Except Refusal τ}
    (same : ∀ item, other item.erase = make item) (n : Node α) :
    ofNode other n.erase = ofNode make n := by
  have formulas : (ofNode other n.erase).mapError id = (ofNode make n).mapError id :=
    ofNode_map Node.kind_erase (fun n _ _ => n.children_erase)
      (fun item _ => congrArg _ (same item)) n
  rwa [mapError_id, mapError_id] at formulas

end Formula

end TableQuery
