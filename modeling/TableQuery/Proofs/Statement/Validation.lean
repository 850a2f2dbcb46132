import TableQuery.Proofs.Decimal.Counts
import TableQuery.Proofs.Statement.Language

/-! # Validation accepts the language

The checks of validation on the tags of the children of a node, each tied to
the expression that it decides.  The clauses of a query are the one check that
is a loop: it follows the places of the clauses, one place per step, and so
accepts what can be left of the list of all clauses.
-/

namespace TableQuery

theorem someOf_iff {t : Tag} {tags : List Tag} :
    someOf (· == t) tags = true ↔ tags ≠ [] ∧ ∀ u ∈ tags, u = t := by
  simp [someOf]

theorem thenAlias_iff {allowed : Tag → Bool} {tags : List Tag} : thenAlias allowed tags = true ↔
    ∃ t, allowed t = true ∧ (tags = [t] ∨ tags = [t, .identifier]) := by
  unfold thenAlias
  split
  · simp
  · simp
  · next noSingle noPair =>
    refine iff_of_false Bool.false_ne_true ?_
    rintro ⟨t, _, single | pair⟩
    · exact noSingle t single
    · exact noPair t pair

namespace Tag

theorem mem_operands {t : Tag} : t ∈ [column, function] ↔ t.isOperand = true := by
  simp [isOperand, or_iff_not_imp_left]

theorem mem_expressions {t : Tag} : t ∈ [column, function, star] ↔ t.isExpression = true := by
  simp [isExpression, or_iff_not_imp_left]

theorem mem_conditions {t : Tag} : t ∈ [filterItem, logicalOperation] ↔ t.isCondition = true := by
  simp [isCondition, or_iff_not_imp_left]

theorem eq_of_clausePlace? {t u : Tag} {place : Nat} (left : t.clausePlace? = some place)
    (right : u.clausePlace? = some place) : t = u := by
  cases t <;> simp [clausePlace?] at left <;> cases u <;> simp [clausePlace?] at right ⊢ <;> omega

end Tag

/-! ## Clauses -/

/-- Above a place, the clause of the next place may come first or be left out. -/
theorem clausesAbove_step {place : Nat} {clause : Tag}
    (placed : clause.clausePlace? = some (place + 1)) {tags : List Tag} :
    clausesAbove place tags = true ↔ clausesAbove (place + 1) tags = true ∨
      ∃ rest, tags = clause :: rest ∧ clausesAbove (place + 1) rest = true := by
  cases tags with
  | nil => simp [clausesAbove]
  | cons t rest =>
    simp only [clausesAbove, List.cons.injEq]
    cases found : t.clausePlace? with
    | none =>
      have different : t ≠ clause := by
        rintro rfl
        rw [placed] at found
        cases found
      simp [different]
    | some p =>
      simp only [Bool.and_eq_true, decide_eq_true_eq]
      constructor
      · rintro ⟨above, others⟩
        by_cases next : p = place + 1
        · subst next
          exact .inr ⟨rest, ⟨Tag.eq_of_clausePlace? found placed, rfl⟩, others⟩
        · exact .inl ⟨by omega, others⟩
      · rintro (⟨above, others⟩ | ⟨_, ⟨rfl, rfl⟩, others⟩)
        · exact ⟨by omega, others⟩
        · rw [placed] at found
          cases found
          exact ⟨by omega, others⟩

theorem clausesAbove_cons {place : Nat} {clause : Tag} {later : List Tag}
    (placed : clause.clausePlace? = some (place + 1))
    (above : ∀ tags, clausesAbove (place + 1) tags = true ↔ tags.Sublist later) (tags : List Tag) :
    clausesAbove place tags = true ↔ tags.Sublist (clause :: later) := by
  rw [clausesAbove_step placed, List.sublist_cons_iff, above]
  simp only [above]

theorem clausesAbove_last (tags : List Tag) : clausesAbove 6 tags = true ↔ tags.Sublist [] := by
  cases tags with
  | nil => simp [clausesAbove]
  | cons t rest => cases t <;> simp [clausesAbove, Tag.clausePlace?]

theorem clausesAbove_iff_sublist (tags : List Tag) : clausesAbove 0 tags = true ↔
    tags.Sublist [.fromItem, .whereClause, .groupByClause, .havingClause, .orderByClause,
      .limitClause] := by
  have limit := @clausesAbove_cons 5 .limitClause _ rfl clausesAbove_last
  have orderBy := @clausesAbove_cons 4 .orderByClause _ rfl limit
  have having := @clausesAbove_cons 3 .havingClause _ rfl orderBy
  have groupBy := @clausesAbove_cons 2 .groupByClause _ rfl having
  exact @clausesAbove_cons 0 .fromItem _ rfl (@clausesAbove_cons 1 .whereClause _ rfl groupBy) tags

/-- Whether characters write a count of 64 bits: digits, after a plus sign or without one. -/
def Decimal.IsCount (cs : List Char) : Prop :=
  ∃ digits, (cs = digits ∨ cs = '+' :: digits) ∧ digits ≠ [] ∧
    (∀ c ∈ digits, c.isDigit = true) ∧ ofDigits digits < 2 ^ 64

theorem Decimal.isSome_count?_iff {cs : List Char} : (count? cs).isSome = true ↔ IsCount cs := by
  simp only [Option.isSome_iff_exists, count?_eq_some, Writes, IsCount, ← ofDigits_eq]
  constructor
  · rintro ⟨_, ⟨digits, written, nonempty, each, rfl⟩, small⟩
    exact ⟨digits, written, nonempty, each, small⟩
  · rintro ⟨digits, written, nonempty, each, small⟩
    exact ⟨_, ⟨digits, written, nonempty, each, rfl⟩, small⟩

/-- What the children of a node with a tag are described as. -/
def Tag.shape : Tag → Shape
  | query => .clauseOrder
  | selectClause => .selectItems
  | selectItem => .selectItem
  | column | table => .named
  | function => .call
  | identifier | star | orderingDirection => .leaf
  | comparator => .comparator
  | filterItem => .filterItem
  | logicalOperation => .operands
  | whereClause | havingClause => .condition
  | fromItem => .source
  | groupByClause => .groupColumns
  | orderByClause => .sortItems
  | orderItem => .sortItem
  | limitClause => .limit

namespace Node

variable {α : Type}

/-! ## One node -/

/-- Whether a node is an identifier for a count, blanks around it aside. -/
def IsCount (n : Node α) : Prop :=
  ∃ value, n.kind = .identifier value ∧ Decimal.IsCount (Text.trim value.toList)

/-- Whether the children of a node are what its kind asks for. -/
def IsWellShaped (n : Node α) : Prop :=
  n.childTags ∈ n.tag.grammar.matches' ∧
    (n.tag = .limitClause → ∀ child ∈ n.children, child.IsCount)

theorem isLimit_iff {children : List (Node α)} : isLimit children = true ↔
    children.map tag = [.identifier] ∧ ∀ child ∈ children, child.IsCount := by
  match children with
  | [] | _ :: _ :: _ => simp [isLimit]
  | [⟨mark, kind, below⟩] =>
    have read : isLimit [⟨mark, kind, below⟩] =
        (count? (⟨mark, kind, below⟩ : Node α)).isSome := rfl
    rw [read, List.forall_mem_singleton, IsCount]
    cases kind with
    | identifier value => simp [count?, identifier?, tag, Kind.tag, Decimal.isSome_count?_iff]
    | _ => simp [count?, identifier?]

theorem check_eq_none {holds : Bool} {expected : Expectation} :
    (if holds then none else some expected) = none ↔ holds = true := by
  cases holds <;> simp

theorem fault?_eq_none_iff {n : Node α} : n.fault? = none ↔ n.IsWellShaped := by
  obtain ⟨mark, kind, children⟩ := n
  unfold fault? IsWellShaped
  have found : childTags ⟨mark, kind, children⟩ = children.map tag := rfl
  generalize childTags ⟨mark, kind, children⟩ = tags at found ⊢
  -- On the right stands what the expression of each kind matches, on the left its check.
  cases kind <;>
    simp only [tag, Kind.tag, Tag.grammar, Tag.mem_char, Tag.mem_epsilon, Tag.mem_oneOf,
      Tag.mem_maybe, Tag.mem_char_mul, Tag.mem_oneOf_mul, Tag.mem_maybe_char_mul,
      Tag.mem_oneOrMore_char, Tag.mem_prod_maybe, Tag.mem_operands, Tag.mem_expressions,
      Tag.mem_conditions, check_eq_none, reduceCtorEq, false_implies, true_implies, and_true]
  case query =>
    split
    · next rest =>
      rw [check_eq_none, clausesAbove_iff_sublist]
      simp
    · next other =>
      refine iff_of_false (by simp) ?_
      rintro ⟨rest, _, same⟩
      exact other rest same
  case selectClause | groupByClause | orderByClause => exact someOf_iff
  case selectItem | fromItem =>
    rw [thenAlias_iff]
    simp
  case column | table => exact beq_iff_eq
  case identifier | star | orderingDirection => exact List.isEmpty_iff
  case function =>
    split
    · next arg => simp
    · next other =>
      refine iff_of_false (by simp) ?_
      rintro ⟨_, ⟨arg, _, rfl⟩, same⟩
      exact other arg same
  case comparator => rw [Bool.or_eq_true, List.isEmpty_iff, beq_iff_eq]
  case filterItem =>
    split
    · next operand => simp
    · next other =>
      refine iff_of_false (by simp) ?_
      rintro ⟨operand, _, _, ⟨_, rfl, rfl⟩, same⟩
      exact other operand same
  case logicalOperation =>
    rcases tags with _ | ⟨left, _ | ⟨right, _ | ⟨third, rest⟩⟩⟩ <;> simp
  case whereClause | havingClause =>
    split
    · next condition => simp
    · next other =>
      refine iff_of_false (by simp) ?_
      rintro ⟨condition, _, same⟩
      exact other condition same
  case orderItem =>
    split
    · next operand => simp
    · next operand => simp
    · next noSingle noPair =>
      refine iff_of_false (by simp) ?_
      rintro (⟨operand, _, same⟩ | ⟨_, same, operand, _, rfl⟩)
      · exact noSingle operand same
      · exact noPair operand same
  case limitClause => rw [isLimit_iff, found]

/-- What a node is told to have when its children are not what its kind asks for. -/
def complaint (n : Node α) : Expectation :=
  if n.tag = .query ∧ n.childTags.head? ≠ some .selectClause then
    .children .leadingSelect n.childTags
  else if n.tag = .logicalOperation ∧ n.childTags.length ≠ 2 then
    .twoOperands n.childTags.length
  else .children n.tag.shape n.childTags

theorem eq_complaint_of_fault? {n : Node α} {expected : Expectation}
    (faulty : n.fault? = some expected) : expected = n.complaint := by
  obtain ⟨mark, kind, children⟩ := n
  unfold fault? at faulty
  unfold complaint
  generalize childTags ⟨mark, kind, children⟩ = tags at faulty ⊢
  cases kind <;> simp [tag, Kind.tag, Tag.shape] at faulty ⊢
  case query =>
    split at faulty
    · simp at faulty ⊢
      exact faulty.2.symm
    · next other =>
      have noSelect : tags.head? ≠ some .selectClause := by
        intro first
        obtain ⟨rest, rfl⟩ := List.head?_eq_some_iff.1 first
        exact other rest rfl
      rw [if_neg noSelect]
      exact (Option.some.inj faulty).symm
  case logicalOperation =>
    split at faulty
    · next two =>
      simp at faulty
      rw [if_pos two, faulty.2]
    · next other =>
      rw [if_neg other]
      exact (Option.some.inj faulty).symm
  case function | filterItem | whereClause | havingClause =>
    split at faulty
    · simp at faulty
      exact faulty.2.symm
    · exact (Option.some.inj faulty).symm
  case orderItem =>
    split at faulty
    · simp at faulty
      exact faulty.2.symm
    · simp at faulty
      exact faulty.2.symm
    · exact (Option.some.inj faulty).symm
  all_goals exact faulty.2.symm

/-! ## Whole trees -/

/-- Validation accepts the trees of which every node has the children that its kind asks for, and
otherwise refuses the first node that has others, with what it was expected to have. -/
theorem validate_accepts_grammar (n : Node α) :
    (n.validate = .ok () ↔ ∀ m ∈ n.nodes, m.IsWellShaped) ∧
      ∀ refusal, n.validate = .error refusal ↔
        ∃ before bad after, n.nodes = before ++ bad :: after ∧
          (∀ m ∈ before, m.IsWellShaped) ∧ ¬ bad.IsWellShaped ∧
          refusal = bad.malformed bad.complaint := by
  constructor
  · rw [validate_eq_ok_iff_nodes]
    simp only [fault?_eq_none_iff]
  · intro refusal
    rw [validate_eq_error_iff_nodes]
    constructor
    · rintro ⟨before, bad, after, expected, split, earlier, faulty, rfl⟩
      refine ⟨before, bad, after, split, ?_, ?_, ?_⟩
      · exact fun m member => fault?_eq_none_iff.1 (earlier m member)
      · intro shaped
        rw [fault?_eq_none_iff.2 shaped] at faulty
        cases faulty
      · rw [eq_complaint_of_fault? faulty]
    · rintro ⟨before, bad, after, split, earlier, misshaped, rfl⟩
      obtain ⟨expected, faulty⟩ :=
        Option.ne_none_iff_exists'.1 fun faultless => misshaped (fault?_eq_none_iff.1 faultless)
      refine ⟨before, bad, after, expected, split, ?_, faulty, ?_⟩
      · exact fun m member => fault?_eq_none_iff.2 (earlier m member)
      · rw [eq_complaint_of_fault? faulty]

end Node

end TableQuery
