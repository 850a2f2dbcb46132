import TableQuery.Condition
import TableQuery.Proofs.Condition.Truth
import TableQuery.Proofs.Statement.Grammar
import TableQuery.Proofs.Statement.Validation

/-! # Parts of well-formed nodes

Every part that a query reads off a node is there when the node is well formed:
its grammar says which children it has, and the part is one of these.  What is
read is well formed again, so that reading can go on below it.
-/

namespace TableQuery

namespace Node

variable {α : Type} {n : Node α}

theorem childTags_of_valid (valid : n.validate = .ok ()) :
    n.childTags ∈ n.tag.grammar.matches' :=
  (fault?_eq_none_iff.1 (validate_eq_ok.1 valid).1).1

theorem valid_of_mem (valid : n.validate = .ok ()) {child : Node α} (member : child ∈ n.children) :
    child.validate = .ok () :=
  (validate_eq_ok.1 valid).2 child member

theorem exists_child_of_tag {t : Tag} (found : n.childTags = [t]) :
    ∃ child, n.children = [child] ∧ child.tag = t :=
  List.map_eq_singleton_iff.1 found

theorem exists_children_of_tags {t u : Tag} (found : n.childTags = [t, u]) :
    ∃ first second, n.children = [first, second] ∧ first.tag = t ∧ second.tag = u := by
  obtain ⟨first, rest, split, isFirst, others⟩ := List.map_eq_cons_iff.1 found
  obtain ⟨second, rfl, isSecond⟩ := List.map_eq_singleton_iff.1 others
  exact ⟨first, second, split, isFirst, isSecond⟩

theorem exists_identifier? (isIdentifier : n.tag = .identifier) :
    ∃ value, n.identifier? = some value := by
  obtain ⟨mark, kind, children⟩ := n
  cases kind <;> simp [tag, Kind.tag] at isIdentifier
  exact ⟨_, rfl⟩

theorem exists_name_of_column (valid : n.validate = .ok ()) (isColumn : n.tag = .column) :
    ∃ name, n.name = .ok name := by
  have tags := childTags_of_valid valid
  simp only [isColumn, Tag.grammar, Tag.mem_char] at tags
  obtain ⟨child, only, isIdentifier⟩ := exists_child_of_tag tags
  obtain ⟨value, held⟩ := exists_identifier? isIdentifier
  refine ⟨value, ?_⟩
  simp [name, only, held, pure, Except.pure]

theorem exists_argument (valid : n.validate = .ok ()) (isFunction : n.tag = .function) :
    ∃ arg, n.argument = .ok arg ∧ arg.validate = .ok () := by
  have tags := childTags_of_valid valid
  simp only [isFunction, Tag.grammar, Tag.mem_char_mul, Tag.mem_oneOf, Tag.mem_expressions] at tags
  obtain ⟨_, ⟨t, expression, rfl⟩, found⟩ := tags
  obtain ⟨first, arg, both, isName, isArg⟩ := exists_children_of_tags found
  have shape : isCall first arg = true := by simp [isCall, isName, isArg, expression]
  exact ⟨arg, argument_eq_ok.2 ⟨first, both, shape⟩, valid_of_mem valid (by simp [both])⟩

theorem exists_name_of_expression (valid : n.validate = .ok ())
    (isExpression : n.tag.isExpression = true) (noStar : ∀ owner, n.kind ≠ .star owner) :
    ∃ name, n.name = .ok name := by
  rcases kind_of_isExpression isExpression with isColumn | isFunction | ⟨owner, isStar⟩
  · exact exists_name_of_column valid (congrArg Kind.tag isColumn)
  · obtain ⟨arg, argued, _⟩ := exists_argument valid (congrArg Kind.tag isFunction)
    obtain ⟨_, name, _, _, named⟩ := exists_name_of_argument argued
    exact ⟨name, named⟩
  · exact absurd isStar (noStar owner)

theorem exists_heading (valid : n.validate = .ok ()) (isFunction : n.tag = .function) :
    ∃ text, n.heading = .ok text := by
  induction n using induction with
  | step n ih =>
    obtain ⟨arg, argued, argValid⟩ := exists_argument valid isFunction
    obtain ⟨_, name, _, _, named⟩ := exists_name_of_argument argued
    have inner : ∃ text, arg.argumentHeading = .ok text := by
      unfold argumentHeading
      rcases kind_of_isExpression (isExpression_of_argument argued) with
        isColumn | isFunction | ⟨owner, isStar⟩
      · simp only [isColumn]
        exact exists_name_of_column argValid (congrArg Kind.tag isColumn)
      · simp only [isFunction]
        exact ih arg (mem_of_argument argued) argValid (congrArg Kind.tag isFunction)
      · simp only [isStar]
        exact ⟨_, rfl⟩
    obtain ⟨text, read⟩ := inner
    rw [heading_eq, named, argued, ok_bind, ok_bind, read]
    exact ⟨_, rfl⟩

theorem exists_comparison? (isComparator : n.tag = .comparator) :
    ∃ comparison, n.comparison? = some comparison := by
  obtain ⟨mark, kind, children⟩ := n
  cases kind <;> simp [tag, Kind.tag] at isComparator
  exact ⟨_, rfl⟩

theorem exists_test (valid : n.validate = .ok ()) (isItem : n.tag = .filterItem) :
    ∃ test, n.test = .ok test ∧ n.children.head? = some test.operand ∧
      test.operand.tag.isOperand = true ∧ test.operand.validate = .ok () := by
  have tags := childTags_of_valid valid
  simp only [isItem, Tag.grammar, Tag.mem_oneOf_mul, Tag.mem_char_mul, Tag.mem_char,
    Tag.mem_operands] at tags
  obtain ⟨_, isOperand, _, ⟨_, rfl, rfl⟩, found⟩ := tags
  obtain ⟨operand, rest, split, rfl, others⟩ := List.map_eq_cons_iff.1 found
  obtain ⟨comparator, literal, rfl, isComparator, isLiteral⟩ := exists_children_of_tags
    (n := ⟨n.mark, n.kind, rest⟩) others
  obtain ⟨comparison, compares⟩ := exists_comparison? isComparator
  obtain ⟨value, holds⟩ := exists_identifier? isLiteral
  have compared : (n.children.findSome? comparison?).isSome = true := by
    rw [List.findSome?_isSome_iff]
    exact ⟨comparator, by simp [split], by simp [compares]⟩
  have written : (n.children.findSome? identifier?).isSome = true := by
    rw [List.findSome?_isSome_iff]
    exact ⟨literal, by simp [split], by simp [holds]⟩
  obtain ⟨comparison, compared⟩ := Option.isSome_iff_exists.1 compared
  obtain ⟨value, written⟩ := Option.isSome_iff_exists.1 written
  have first : n.children.head? = some operand := by rw [split]; rfl
  refine ⟨⟨operand, comparison, value⟩, ?_, first, isOperand, valid_of_mem valid (by simp [split])⟩
  rw [test, first]
  simp only [isOperand, if_true, compared, written]
  rfl

theorem exists_operands {connective : Connective} (valid : n.validate = .ok ())
    (joins : n.kind = .logicalOperation connective) :
    ∃ left right, n.operands connective = .ok (left, right) ∧
      left.tag.isCondition = true ∧ left.validate = .ok () ∧
      right.tag.isCondition = true ∧ right.validate = .ok () := by
  have tags := childTags_of_valid valid
  simp only [show n.tag = .logicalOperation from congrArg Kind.tag joins, Tag.grammar,
    Tag.mem_oneOf_mul, Tag.mem_oneOf, Tag.mem_conditions] at tags
  obtain ⟨_, leftCondition, _, ⟨_, rightCondition, rfl⟩, found⟩ := tags
  obtain ⟨left, right, both, rfl, rfl⟩ := exists_children_of_tags found
  exact ⟨left, right, operands_eq_ok.2 both, leftCondition, valid_of_mem valid (by simp [both]),
    rightCondition, valid_of_mem valid (by simp [both])⟩

theorem exists_condition {clause : Tag} (valid : n.validate = .ok ()) (isClause : n.tag = clause)
    (holds : clause = .whereClause ∨ clause = .havingClause) :
    ∃ condition, n.conditionOf clause = .ok condition ∧ n.children.head? = some condition ∧
      condition.tag.isCondition = true ∧ condition.validate = .ok () := by
  have tags := childTags_of_valid valid
  have only : ∃ t, t.isCondition = true ∧ n.childTags = [t] := by
    rcases holds with rfl | rfl <;>
      simpa only [isClause, Tag.grammar, Tag.mem_oneOf, Tag.mem_conditions] using tags
  obtain ⟨_, isCondition, found⟩ := only
  obtain ⟨condition, single, rfl⟩ := exists_child_of_tag found
  refine ⟨condition, ?_, by simp [single], isCondition, valid_of_mem valid (by simp [single])⟩
  simp [conditionOf, isClause, single, pure, Except.pure]

theorem kind_of_isCondition (isCondition : n.tag.isCondition = true) :
    n.kind = .filterItem ∨ ∃ connective, n.kind = .logicalOperation connective := by
  obtain ⟨mark, kind, children⟩ := n
  cases kind <;> simp [tag, Kind.tag, Tag.isCondition] at isCondition ⊢

/-- The filter items of a well-formed condition are well formed, and there is nothing else in the
condition that could be refused. -/
theorem refusesOnly_ofNode {τ : Type} {make : Node α → Except Refusal τ}
    {allowed : Refusal → Prop} (valid : n.validate = .ok ())
    (isCondition : n.tag.isCondition = true)
    (each : ∀ item ∈ n.items, item.validate = .ok () → item.tag = .filterItem →
      RefusesOnly allowed (make item)) :
    RefusesOnly allowed (Formula.ofNode make n) := by
  induction n using induction with
  | step n ih =>
    obtain ⟨mark, kind, children⟩ := n
    rcases kind_of_isCondition isCondition with isItem | ⟨connective, joins⟩
    · cases isItem
      rw [Formula.ofNode]
      apply RefusesOnly.bind (each _ (self_mem_items mark children) valid rfl)
      exact fun _ _ => RefusesOnly.pure _
    · cases joins
      obtain ⟨left, right, operands, leftCondition, leftValid, rightCondition, rightValid⟩ :=
        exists_operands valid rfl
      rw [Formula.ofNode_logicalOperation rfl, operands, ok_bind]
      obtain rfl : children = [left, right] := operands_eq_ok.1 operands
      simp only [items, List.forall_mem_append] at each
      apply RefusesOnly.bind (ih left (by simp) leftValid leftCondition each.1)
      intro l _
      apply RefusesOnly.bind (ih right (by simp) rightValid rightCondition each.2)
      exact fun _ _ => RefusesOnly.pure _

theorem exists_itemExpression (valid : n.validate = .ok ()) (isItem : n.tag = .selectItem) :
    ∃ expression, n.itemExpression = .ok expression ∧ expression.tag.isExpression = true ∧
      expression.validate = .ok () := by
  have tags := childTags_of_valid valid
  simp only [isItem, Tag.grammar, Tag.mem_oneOf_mul, Tag.mem_expressions] at tags
  obtain ⟨_, isExpression, rest, _, found⟩ := tags
  obtain ⟨expression, others, split, rfl, _⟩ := List.map_eq_cons_iff.1 found
  refine ⟨expression, ?_, isExpression, valid_of_mem valid (by simp [split])⟩
  simp [itemExpression, split, pure, Except.pure]

theorem tag_of_mem_groupBy (valid : n.validate = .ok ()) (isGroupBy : n.tag = .groupByClause) :
    n.children ≠ [] ∧ ∀ column ∈ n.children, column.tag = .column ∧ column.validate = .ok () := by
  have tags := childTags_of_valid valid
  simp only [isGroupBy, Tag.grammar, Tag.mem_oneOrMore_char] at tags
  refine ⟨fun empty => tags.1 (by simp [childTags, empty]), fun column member => ?_⟩
  exact ⟨tags.2 column.tag (List.mem_map_of_mem member), valid_of_mem valid member⟩

theorem exists_selectItems (valid : n.validate = .ok ()) (isQuery : n.tag = .query) :
    ∃ clause rest, n.children = clause :: rest ∧ clause.tag = .selectClause ∧
      n.selectItems = .ok clause.children ∧
      ∀ item ∈ clause.children, item.tag = .selectItem ∧ item.validate = .ok () := by
  have tags := childTags_of_valid valid
  simp only [isQuery, Tag.grammar, Tag.mem_char_mul] at tags
  obtain ⟨_, _, found⟩ := tags
  obtain ⟨clause, rest, split, isSelect, _⟩ := List.map_eq_cons_iff.1 found
  have selects : n.selectItems = .ok clause.children := by
    simp [selectItems, childWith, split, isSelect, bind, Except.bind, pure, Except.pure]
  refine ⟨clause, rest, split, isSelect, selects, fun item member => ⟨?_, ?_⟩⟩
  · exact tag_of_mem_selectItems valid selects item member
  · exact valid_of_mem (valid_of_mem valid (by simp [split])) member

theorem valid_of_mem_selectItems {items : List (Node α)} (valid : n.validate = .ok ())
    (selects : n.selectItems = .ok items) : ∀ item ∈ items, item.validate = .ok () := by
  rw [selectItems, bind_eq_ok] at selects
  obtain ⟨clause, found, same⟩ := selects
  cases same
  exact fun item member => valid_of_mem (valid_of_mem valid (mem_of_childWith found).1) member

theorem valid_of_clause? {t : Tag} {clause : Node α} (valid : n.validate = .ok ())
    (found : n.clause? t = some clause) : clause.validate = .ok () :=
  valid_of_mem valid (List.mem_of_find?_eq_some found)

end Node

end TableQuery
