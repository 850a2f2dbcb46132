import TableQuery.Proofs.Statement.Erasure
import TableQuery.Proofs.Statement.Parts
import TableQuery.Proofs.Text.LetterCase

/-! # The spelling of function names

The name of a function is an identifier right below it.  Two trees differ in
the letter case of such names alone when they are equal with these put into
lower case.  What is read off a node is then the same, except for the name and
the heading of a function, and these are the same in lower case.  All other
identifiers, such as the literals of conditions and the names of columns, stay
as they are written.
-/

namespace TableQuery

variable {α : Type}

namespace Node

def foldValue : Node α → Node α
  | ⟨mark, .identifier value, children⟩ => ⟨mark, .identifier (foldCase value), children⟩
  | n => n

mutual

/-- The tree with all marks taken away and the names of its functions in lower case. -/
def foldNames : Node α → Node Unit
  | ⟨_, kind, children⟩ => ⟨(), kind, foldNamesAll kind.tag children⟩

/-- The same for the children of a node.  Identifiers below a function are its name. -/
def foldNamesAll (parent : Tag) : List (Node α) → List (Node Unit)
  | [] => []
  | n :: ns =>
    (if parent = .function then n.foldNames.foldValue else n.foldNames) :: foldNamesAll parent ns

end

def foldBelow (parent : Tag) (n : Node α) : Node Unit :=
  if parent = .function then n.foldNames.foldValue else n.foldNames

variable {n first arg : Node α} {parent : Tag}

@[simp] theorem tag_foldValue (n : Node α) : n.foldValue.tag = n.tag := by
  obtain ⟨mark, kind, children⟩ := n
  cases kind <;> rfl

theorem identifier?_foldValue (n : Node α) :
    n.foldValue.identifier? = n.identifier?.map foldCase := by
  obtain ⟨mark, kind, children⟩ := n
  cases kind <;> rfl

theorem foldValue_of_isExpression (isExpression : n.tag.isExpression = true) :
    n.foldValue = n := by
  obtain ⟨mark, kind, children⟩ := n
  cases kind <;> first | rfl | cases isExpression

theorem foldNamesAll_eq_map (parent : Tag) (ns : List (Node α)) :
    foldNamesAll parent ns = ns.map (foldBelow parent) := by
  induction ns with
  | nil => rfl
  | cons n ns ih => rw [foldNamesAll, ih, List.map_cons, foldBelow]

theorem foldNames_mk (mark : α) (kind : Kind) (children : List (Node α)) :
    foldNames ⟨mark, kind, children⟩ = ⟨(), kind, children.map (foldBelow kind.tag)⟩ := by
  rw [foldNames, foldNamesAll_eq_map]

@[simp] theorem kind_foldNames (n : Node α) : n.foldNames.kind = n.kind := by
  obtain ⟨mark, kind, children⟩ := n
  rw [foldNames]

@[simp] theorem tag_foldNames (n : Node α) : n.foldNames.tag = n.tag := tag_map kind_foldNames n

@[simp] theorem malformed_foldNames (n : Node α) (expected : Expectation) :
    n.foldNames.malformed expected = n.malformed expected := malformed_map kind_foldNames n expected

theorem children_foldNames (n : Node α) :
    n.foldNames.children = n.children.map (foldBelow n.tag) := by
  obtain ⟨mark, kind, children⟩ := n
  rw [foldNames_mk]
  rfl

theorem foldBelow_of_other (noFunction : parent ≠ .function) :
    foldBelow parent = foldNames (α := α) :=
  funext fun _ => if_neg noFunction

theorem children_foldNames_of_other (noFunction : n.tag ≠ .function) :
    n.foldNames.children = n.children.map foldNames := by
  rw [children_foldNames, foldBelow_of_other noFunction]

@[simp] theorem tag_foldBelow (parent : Tag) (n : Node α) : (foldBelow parent n).tag = n.tag := by
  unfold foldBelow
  split
  · rw [tag_foldValue, tag_foldNames]
  · rw [tag_foldNames]

theorem foldBelow_of_isExpression (isExpression : n.tag.isExpression = true) :
    foldBelow parent n = n.foldNames := by
  unfold foldBelow
  split
  · exact foldValue_of_isExpression (by rwa [tag_foldNames])
  · rfl

@[simp] theorem isCall_foldBelow (parent : Tag) (first arg : Node α) :
    isCall (foldBelow parent first) (foldBelow parent arg) = isCall first arg := by
  rw [isCall, isCall, tag_foldBelow, tag_foldBelow]

theorem name_foldNames_of_other (noFunction : n.tag ≠ .function) : n.foldNames.name = n.name :=
  name_map kind_foldNames (children_foldNames_of_other noFunction)

theorem name_foldNames_of_function (isFunction : n.tag = .function) :
    n.foldNames.name = foldCase <$> n.name := by
  have found : n.foldNames.children.findSome? identifier? =
      (n.children.findSome? identifier?).map foldCase := by
    rw [children_foldNames, isFunction, List.findSome?_map, List.map_findSome?]
    congr 1
    funext child
    have folded := identifier?_foldValue child.foldNames
    rwa [identifier?_map kind_foldNames child] at folded
  rw [name, name, found, label, label, kind_foldNames]
  cases n.children.findSome? identifier? <;> rfl

theorem foldCase_name_foldNames (n : Node α) :
    foldCase <$> n.foldNames.name = foldCase <$> n.name := by
  by_cases isFunction : n.tag = .function
  · rw [name_foldNames_of_function isFunction, Functor.map_map]
    simp only [foldCase_foldCase]
  · rw [name_foldNames_of_other isFunction]

/-- The argument of a function is no name, and what is below it is put into lower case. -/
theorem argument_foldNames (n : Node α) : n.foldNames.argument = foldNames <$> n.argument := by
  rw [argument, argument, children_foldNames, malformed_foldNames]
  rcases n.children with _ | ⟨first, _ | ⟨arg, _ | ⟨third, rest⟩⟩⟩
  · rfl
  · rfl
  · simp only [List.map_cons, List.map_nil, isCall_foldBelow]
    split
    · next shape =>
      rw [foldBelow_of_isExpression ((Bool.and_eq_true _ _).mp shape).2]
      rfl
    · rfl
  · rfl

theorem foldCase_parenthesised (name inner : Except Refusal String) :
    foldCase <$> (return (← name) ++ "(" ++ (← inner) ++ ")") =
      (return (← foldCase <$> name) ++ "(" ++ (← foldCase <$> inner) ++ ")") := by
  cases name with
  | error refusal => rfl
  | ok name =>
    cases inner with
    | error refusal => rfl
    | ok inner =>
      refine congrArg Except.ok ?_
      rw [foldCase_append, foldCase_append, foldCase_append]
      rfl

theorem argumentHeading_foldNames (isExpression : arg.tag.isExpression = true)
    (headings : foldCase <$> arg.foldNames.heading = foldCase <$> arg.heading) :
    foldCase <$> arg.foldNames.argumentHeading = foldCase <$> arg.argumentHeading := by
  unfold argumentHeading
  rw [kind_foldNames]
  rcases kind_of_isExpression isExpression with isColumn | isFunction | ⟨owner, isStar⟩
  · have noFunction : arg.tag ≠ .function := by rw [tag, isColumn]; decide
    simp only [isColumn, name_foldNames_of_other noFunction]
  · simp only [isFunction]
    exact headings
  · simp only [isStar]

theorem refused_after_name {name other : Except Refusal String} (refusal : Refusal)
    (same : foldCase <$> name = foldCase <$> other) :
    foldCase <$> (name >>= fun _ => throw refusal) =
      foldCase <$> (other >>= fun _ => throw refusal) := by
  cases name with
  | error cause =>
    cases other with
    | error _ => exact same
    | ok _ => cases same
  | ok _ =>
    cases other with
    | error _ => cases same
    | ok _ => rfl

theorem foldCase_heading_foldNames (n : Node α) :
    foldCase <$> n.foldNames.heading = foldCase <$> n.heading := by
  induction n using induction with
  | step n ih =>
    have named := n.foldCase_name_foldNames
    rw [heading_eq, heading_eq, argument_foldNames]
    cases argued : n.argument with
    | error refusal => exact refused_after_name refusal named
    | ok arg =>
      have isExpression := isExpression_of_argument argued
      have inner := argumentHeading_foldNames isExpression (ih arg (mem_of_argument argued))
      simp only [map_ok, ok_bind]
      rw [foldCase_parenthesised, foldCase_parenthesised, named, inner]

theorem test_foldNames (noFunction : n.tag ≠ .function) :
    n.foldNames.test = Test.map foldNames <$> n.test :=
  test_map kind_foldNames (children_foldNames_of_other noFunction)

theorem itemExpression_foldNames (noFunction : n.tag ≠ .function) :
    n.foldNames.itemExpression = foldNames <$> n.itemExpression :=
  itemExpression_map kind_foldNames (children_foldNames_of_other noFunction)

theorem conditionOf_foldNames {clause : Tag} (noFunction : clause ≠ .function) (n : Node α) :
    n.foldNames.conditionOf clause = foldNames <$> n.conditionOf clause :=
  conditionOf_map kind_foldNames fun isClause =>
    children_foldNames_of_other (by rwa [isClause])

end Node

end TableQuery
