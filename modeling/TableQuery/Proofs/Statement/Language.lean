import TableQuery.Proofs.Statement.Nodes
import Mathlib.Computability.RegularExpressions

/-! # The language of statements

The grammar of statements as regular expressions over tags: for every kind of
node, the sequences of tags that its children may have.  A tree is well formed
when every node in it keeps to the expression of its kind and every limit holds
a count.  Validation accepts exactly these trees, and otherwise reports the
first node that does not keep to its expression.
-/

namespace TableQuery

open RegularExpression (char matches')

namespace Tag

def oneOf (tags : List Tag) : RegularExpression Tag := (tags.map char).sum

def maybe (r : RegularExpression Tag) : RegularExpression Tag := 1 + r

def oneOrMore (r : RegularExpression Tag) : RegularExpression Tag := r * r.star

/-- The sequences of tags that the children of a node may have. -/
def grammar : Tag → RegularExpression Tag
  | query =>
    char selectClause
      * ([fromItem, whereClause, groupByClause, havingClause, orderByClause, limitClause].map
          fun clause => maybe (char clause)).prod
  | selectClause => oneOrMore (char selectItem)
  | selectItem => oneOf [column, function, star] * maybe (char identifier)
  | column | table => char identifier
  | function => char identifier * oneOf [column, function, star]
  | identifier | star | orderingDirection => 1
  | comparator => maybe (char identifier)
  | filterItem => oneOf [column, function] * (char comparator * char identifier)
  | logicalOperation => oneOf [filterItem, logicalOperation] * oneOf [filterItem, logicalOperation]
  | whereClause | havingClause => oneOf [filterItem, logicalOperation]
  | fromItem => char table * maybe (char identifier)
  | groupByClause => oneOrMore (char column)
  | orderByClause => oneOrMore (char orderItem)
  | orderItem => maybe (char orderingDirection) * oneOf [column, function]
  | limitClause => char identifier

variable {t : Tag} {tags word : List Tag} {r : RegularExpression Tag}

theorem mem_char : word ∈ (char t).matches' ↔ word = [t] := Iff.rfl

theorem mem_epsilon : word ∈ (1 : RegularExpression Tag).matches' ↔ word = [] := Iff.rfl

theorem mem_oneOf : word ∈ (oneOf tags).matches' ↔ ∃ t ∈ tags, word = [t] := by
  induction tags with
  | nil => exact iff_of_false (fun member => member) (by simp)
  | cons t tags ih =>
    change word ∈ (char t).matches' ∨ word ∈ (oneOf tags).matches' ↔ _
    rw [ih, mem_char]
    simp

theorem mem_maybe : word ∈ (maybe r).matches' ↔ word = [] ∨ word ∈ r.matches' := Iff.rfl

theorem mem_char_mul :
    word ∈ (char t * r).matches' ↔ ∃ rest ∈ r.matches', word = t :: rest := by
  rw [RegularExpression.matches'_mul, Language.mem_mul]
  constructor
  · rintro ⟨first, isChar, rest, member, rfl⟩
    rw [mem_char.1 isChar]
    exact ⟨rest, member, rfl⟩
  · rintro ⟨rest, member, rfl⟩
    exact ⟨[t], mem_char.2 rfl, rest, member, rfl⟩

theorem mem_oneOf_mul :
    word ∈ (oneOf tags * r).matches' ↔ ∃ t ∈ tags, ∃ rest ∈ r.matches', word = t :: rest := by
  rw [RegularExpression.matches'_mul, Language.mem_mul]
  constructor
  · rintro ⟨first, isOne, rest, member, rfl⟩
    obtain ⟨t, among, rfl⟩ := mem_oneOf.1 isOne
    exact ⟨t, among, rest, member, rfl⟩
  · rintro ⟨t, among, rest, member, rfl⟩
    exact ⟨[t], mem_oneOf.2 ⟨t, among, rfl⟩, rest, member, rfl⟩

theorem mem_maybe_char_mul : word ∈ (maybe (char t) * r).matches' ↔
    word ∈ r.matches' ∨ ∃ rest, word = t :: rest ∧ rest ∈ r.matches' := by
  rw [RegularExpression.matches'_mul, Language.mem_mul]
  constructor
  · rintro ⟨first, isMaybe, rest, member, rfl⟩
    rcases mem_maybe.1 isMaybe with rfl | isChar
    · exact .inl member
    · rw [mem_char.1 isChar]
      exact .inr ⟨rest, rfl, member⟩
  · rintro (member | ⟨rest, rfl, member⟩)
    · exact ⟨[], .inl rfl, word, member, rfl⟩
    · exact ⟨[t], .inr rfl, rest, member, rfl⟩

theorem mem_oneOrMore_char :
    word ∈ (oneOrMore (char t)).matches' ↔ word ≠ [] ∧ ∀ u ∈ word, u = t := by
  have star : ∀ rest : List Tag, rest ∈ (char t).star.matches' ↔ ∀ u ∈ rest, u = t := by
    intro rest
    rw [RegularExpression.matches'_star, Language.mem_kstar]
    constructor
    · rintro ⟨words, rfl, each⟩ u member
      obtain ⟨word, held, inside⟩ := List.mem_flatten.1 member
      rw [mem_char.1 (each word held)] at inside
      exact List.mem_singleton.1 inside
    · intro each
      refine ⟨rest.map fun u => [u], ?_, ?_⟩
      · rw [← List.flatMap_def, List.flatMap_singleton']
      intro word member
      obtain ⟨u, held, rfl⟩ := List.mem_map.1 member
      rw [each u held]
      exact mem_char.2 rfl
  rw [oneOrMore, mem_char_mul]
  constructor
  · rintro ⟨rest, member, rfl⟩
    exact ⟨List.cons_ne_nil _ _, List.forall_mem_cons.2 ⟨rfl, (star rest).1 member⟩⟩
  · rintro ⟨nonempty, each⟩
    obtain ⟨first, rest, rfl⟩ := List.exists_cons_of_ne_nil nonempty
    obtain ⟨rfl, others⟩ := List.forall_mem_cons.1 each
    exact ⟨rest, (star rest).2 others, rfl⟩

/-- What may be left out one by one leaves the sublists. -/
theorem mem_prod_maybe :
    word ∈ ((tags.map fun clause => maybe (char clause)).prod).matches' ↔ word.Sublist tags := by
  induction tags generalizing word with
  | nil => exact List.sublist_nil.symm
  | cons t tags ih =>
    rw [List.map_cons, List.prod_cons, mem_maybe_char_mul, List.sublist_cons_iff, ih]
    simp only [ih]

end Tag

end TableQuery
