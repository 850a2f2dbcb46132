import TableQuery.Proofs.Statement.WellFormed

/-! # Limits of queries

The limit of a query is read twice: by validation, which wants to know that it
is a count, and by whoever asks how many rows to take.  Both look at the same
text, and a well-formed query has one place for it at most, so that a query
that passes validation has a limit exactly when it has a clause for one.
-/

namespace TableQuery.Node

variable {α : Type}

/-- Whether the one child of a node is an identifier for a count, with nothing but blanks around
it. -/
def LimitsTo (clause : Node α) (count : Nat) : Prop :=
  ∃ child value, clause.children = [child] ∧ child.kind = .identifier value ∧
    Decimal.IsPadded value.toList count

theorem count?_eq_some {n : Node α} {count : Nat} : n.count? = some count ↔
    ∃ value, n.kind = .identifier value ∧ Decimal.IsPadded value.toList count := by
  obtain ⟨mark, kind, children⟩ := n
  cases kind <;> simp [count?, identifier?, Decimal.count?_trim_eq_some]

theorem head?_bind_count? {clause : Node α} {count : Nat} (limits : clause.LimitsTo count) :
    clause.children.head?.bind count? = some count := by
  obtain ⟨child, value, single, isIdentifier, padded⟩ := limits
  rw [single]
  exact count?_eq_some.2 ⟨value, isIdentifier, padded⟩

theorem exists_limitsTo_iff {clause : Node α} :
    (∃ count, clause.LimitsTo count) ↔ isLimit clause.children = true := by
  obtain ⟨mark, kind, children⟩ := clause
  match children with
  | [] | _ :: _ :: _ => simp [LimitsTo, isLimit]
  | [child] => simp [LimitsTo, isLimit, Option.isSome_iff_exists, count?_eq_some]

theorem fault?_of_limitClause {clause : Node α} (isClause : clause.tag = .limitClause) :
    clause.fault? = none ↔ ∃ count, clause.LimitsTo count := by
  have kind : clause.kind = .limitClause := Kind.eq_of_tag isClause rfl
  rw [exists_limitsTo_iff, fault?, kind]
  exact check_eq_none

theorem eq_query_of_mem {tags : List Tag} {t : Tag} (shaped : tags ∈ t.grammar.matches')
    (member : .limitClause ∈ tags) : t = .query := by
  cases t <;>
    simp only [Tag.grammar, Tag.mem_char, Tag.mem_epsilon, Tag.mem_oneOf, Tag.mem_maybe,
      Tag.mem_char_mul, Tag.mem_oneOf_mul, Tag.mem_maybe_char_mul, Tag.mem_oneOrMore_char] at shaped
  case query => rfl
  all_goals grind

theorem count_limitClause_le {tags : List Tag} {t : Tag} (shaped : tags ∈ t.grammar.matches') :
    tags.count .limitClause ≤ 1 := by
  by_cases member : .limitClause ∈ tags
  · obtain rfl := eq_query_of_mem shaped member
    simp only [Tag.grammar, Tag.mem_char_mul, Tag.mem_prod_maybe] at shaped
    obtain ⟨rest, clauses, rfl⟩ := shaped
    exact (clauses.cons_cons .selectClause).count_le .limitClause
  · rw [List.count_eq_zero.2 member]
    exact Nat.zero_le 1

theorem clause?_of_limitClause {n clause : Node α} (valid : n.validate = .ok ())
    (member : clause ∈ n.children) (isClause : clause.tag = .limitClause) :
    n.clause? .limitClause = some clause := by
  have among : clause ∈ n.children.filter fun c => c.tag == .limitClause :=
    List.mem_filter.2 ⟨member, beq_of_eq isClause⟩
  have few : (n.children.filter fun c => c.tag == .limitClause).length ≤ 1 := by
    have atMostOne := count_limitClause_le (childTags_of_valid valid)
    rwa [childTags, List.count, List.countP_map, List.countP_eq_length_filter] at atMostOne
  rw [clause?, ← List.head?_filter]
  obtain ⟨first, rest, split⟩ := List.exists_cons_of_ne_nil (List.ne_nil_of_mem among)
  rw [split] at among few ⊢
  have alone : rest = [] := by simpa using few
  rw [alone] at among
  rw [List.mem_singleton.1 among]
  rfl

theorem limit?_of_clause {n clause : Node α} {count : Nat}
    (found : n.clause? .limitClause = some clause) (limits : clause.LimitsTo count) :
    n.limit? = some count := by
  rw [limit?, found]
  exact head?_bind_count? limits

/-- A well-formed query has a limit if and only if it has a clause for one, and the limit is the
count that the clause writes.  A tree with a limit clause that writes no count is refused. -/
theorem limit?_agrees_with_validate (n : Node α) :
    (n.validate = .ok () →
      (n.limit?.isSome = true ↔ ∃ clause ∈ n.children, clause.tag = .limitClause) ∧
      ∀ clause ∈ n.children, clause.tag = .limitClause →
        ∃ count, clause.LimitsTo count ∧ n.limit? = some count) ∧
    ∀ clause ∈ n.nodes, clause.tag = .limitClause → (¬ ∃ count, clause.LimitsTo count) →
      ∃ refusal, n.validate = .error refusal := by
  constructor
  · intro valid
    have limited : ∀ clause ∈ n.children, clause.tag = .limitClause →
        ∃ count, clause.LimitsTo count ∧ n.limit? = some count := by
      intro clause member isClause
      have faultless := (validate_eq_ok.1 (valid_of_mem valid member)).1
      obtain ⟨count, limits⟩ := (fault?_of_limitClause isClause).1 faultless
      exact ⟨count, limits, limit?_of_clause (clause?_of_limitClause valid member isClause) limits⟩
    refine ⟨⟨fun some => ?_, ?_⟩, limited⟩
    · obtain ⟨count, found⟩ := Option.isSome_iff_exists.1 some
      obtain ⟨clause, isFirst, _⟩ := Option.bind_eq_some_iff.1 found
      exact ⟨clause, List.mem_of_find?_eq_some isFirst, tag_of_clause? isFirst⟩
    · rintro ⟨clause, member, isClause⟩
      obtain ⟨count, _, found⟩ := limited clause member isClause
      rw [found]
      rfl
  · intro clause member isClause noCount
    cases outcome : n.validate with
    | error refusal => exact ⟨refusal, rfl⟩
    | ok done =>
      have faultless := validate_eq_ok_iff_nodes.1 outcome clause member
      exact absurd ((fault?_of_limitClause isClause).1 faultless) noCount

def allUpTo (limit : String) : Node Unit :=
  ⟨(), .query, [
    ⟨(), .selectClause, [⟨(), .selectItem, [⟨(), .star none, []⟩]⟩]⟩,
    ⟨(), .limitClause, [⟨(), .identifier limit, []⟩]⟩]⟩

/-- The greatest limit is one with a zero before it and blanks around it, and one more is none. -/
theorem limit?_of_greatest :
    (∃ clause ∈ (allUpTo "\u00a0+018446744073709551615\n").children,
      clause.LimitsTo (2 ^ 64 - 1)) ∧
    ∃ refusal, (allUpTo "18446744073709551616").validate = .error refusal := by
  constructor
  · have valid : (allUpTo "\u00a0+018446744073709551615\n").validate = .ok () := rfl
    have read : (allUpTo "\u00a0+018446744073709551615\n").limit? = some (2 ^ 64 - 1) := rfl
    obtain ⟨agrees, _⟩ := limit?_agrees_with_validate (allUpTo "\u00a0+018446744073709551615\n")
    obtain ⟨count, limits, found⟩ :=
      (agrees valid).2 _ (List.mem_cons_of_mem _ List.mem_cons_self) rfl
    cases found.symm.trans read
    exact ⟨_, List.mem_cons_of_mem _ List.mem_cons_self, limits⟩
  · obtain ⟨_, refuses⟩ := limit?_agrees_with_validate (allUpTo "18446744073709551616")
    refine refuses ⟨(), .limitClause, [⟨(), .identifier "18446744073709551616", []⟩]⟩ ?_ rfl ?_
    · simp [allUpTo, nodes, nodesAll]
    · rw [exists_limitsTo_iff]
      decide

end TableQuery.Node
