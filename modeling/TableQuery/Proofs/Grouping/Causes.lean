import TableQuery.Proofs.Grouping.Form
import TableQuery.Proofs.Table.Clashes

/-! # What HAVING is refused for

A condition on groups is translated before any group is looked at, so that what
it is refused for there does not depend on the groups.  Once it is translated,
every filter item is tried on every group: connectives join what is left of the
groups afterwards and spare no item and no group.  The refusal is that of the
leftmost item that is refused anywhere, on the first group where it is.
-/

namespace TableQuery

variable {α : Type}

theorem Call.evaluate_eq_error {c : Call} {rows : List Row} {refusal : Refusal} :
    c.evaluate rows = .error refusal ↔
      ∃ a cells, c.Applies rows a cells ∧ a.reduce cells = .error refusal := by
  constructor
  · exact c.refusesOnly_applied rows refusal
  · rintro ⟨a, cells, applies, refused⟩
    induction applies with
    | ordinals a => exact refused
    | column a position => exact refused
    | value a read => rw [evaluate, read, ok_bind, refused]
    | inside a _ ih => rw [evaluate, ih refused, error_bind]

namespace Grouping

variable {g h : Grouping}

/-- What a filter item is refused for on a group. -/
inductive ItemRefuses (g : Grouping) (item : Node α) (group : Key × List Row) : Refusal → Prop where
  /-- An aggregate in the function that is compared refuses the column that it is applied to. -/
  | aggregate {test : Test α} {c : Call} {a : Aggregate} {cells : List Cell} {refusal : Refusal}
      (read : item.test = .ok test) (isFunction : test.operand.tag = .function)
      (called : g.call test.operand = .ok c) (applies : c.Applies group.2 a cells)
      (refused : a.reduce cells = .error refusal) : ItemRefuses g item group refusal
  /-- The cell that is compared is a number, and the literal is none. -/
  | literal {test : Test α} {cell : Cell} {literal : String} (read : item.test = .ok test)
      (unquoted : Text.unquote g.settings.literalQuotes test.literal = literal)
      (found : g.operandCell? test.operand group = some cell)
      (clashes : cell.clashes literal = true) :
      ItemRefuses g item group (.literalNotNumeric literal)

theorem evaluate_eq_error {n : Node α} {operand : GroupExpression}
    (found : g.operand n = .ok operand) (group : Key × List Row) (refusal : Refusal) :
    operand.evaluate group.1 group.2 = .error refusal ↔
      n.tag = .function ∧ ∃ c a cells, g.call n = .ok c ∧ c.Applies group.2 a cells ∧
        a.reduce cells = .error refusal := by
  by_cases isFunction : n.tag = .function
  · rw [Grouping.operand, if_pos isFunction] at found
    simp only [bind_eq_ok, pure_eq_ok] at found
    obtain ⟨c, called, rfl⟩ := found
    constructor
    · intro refused
      obtain ⟨a, cells, applies, refused⟩ := Call.evaluate_eq_error.1 refused
      exact ⟨isFunction, c, a, cells, called, applies, refused⟩
    · rintro ⟨_, d, a, cells, calledAgain, applies, refused⟩
      cases called.symm.trans calledAgain
      exact Call.evaluate_eq_error.2 ⟨a, cells, applies, refused⟩
  · obtain ⟨_, _, place, _, _, _, rfl⟩ := operand_eq_ok_of_column found isFunction
    refine iff_of_false (fun refused => ?_) fun claimed => isFunction claimed.1
    cases refused

theorem passes_eq_error {item : Node α} {t : GroupTest} (made : g.groupTest item = .ok t)
    (group : Key × List Row) (refusal : Refusal) :
    t.passes group = .error refusal ↔ g.ItemRefuses item group refusal := by
  simp only [groupTest, bind_eq_ok, pure_eq_ok] at made
  obtain ⟨test, read, operand, found, rfl⟩ := made
  rw [GroupTest.passes, bind_eq_error, evaluate_eq_error found]
  have compared := any_operand found group (p := fun cell =>
    cell.clashes (Text.unquote g.settings.literalQuotes test.literal)) rfl
  rw [Bool.eq_iff_iff, Option.any_eq_true, Option.any_eq_true] at compared
  simp only [toOption_eq_some] at compared
  simp only [Cell.satisfies_eq_error]
  constructor
  · rintro (⟨isFunction, c, a, cells, called, applies, refused⟩ | ⟨cell, evaluated, clashes, rfl⟩)
    · exact .aggregate read isFunction called applies refused
    · obtain ⟨cell, found, clashes⟩ := compared.1 ⟨cell, evaluated, clashes⟩
      exact .literal read rfl found clashes
  · intro refuses
    cases refuses with
    | aggregate readAgain isFunction called applies refused =>
      cases read.symm.trans readAgain
      exact .inl ⟨isFunction, _, _, _, called, applies, refused⟩
    | literal readAgain unquoted found clashes =>
      cases read.symm.trans readAgain
      subst unquoted
      obtain ⟨cell, evaluated, clashes⟩ := compared.2 ⟨_, found, clashes⟩
      exact .inr ⟨cell, evaluated, clashes, rfl⟩

/-- The formula that the condition of a HAVING clause, or the condition itself, makes on groups. -/
def formula (g : Grouping) (clause : Node α) : Except Refusal (Formula GroupTest) := do
  Formula.ofNode g.groupTest (← clause.conditionOf .havingClause)

theorem having_eq (g : Grouping) (clause : Node α) :
    g.having clause = do
      let φ ← g.formula clause
      return { g with groups := ← g.groups.satisfying φ } := by
  rw [having, formula, bind_assoc]

theorem formula_eq_ok {clause : Node α} {φ : Formula GroupTest} : g.formula clause = .ok φ ↔
    ∃ condition, clause.conditionOf .havingClause = .ok condition ∧
      Formula.Translates g.groupTest condition φ := by
  rw [formula, bind_eq_ok]
  constructor
  · rintro ⟨condition, below, made⟩
    exact ⟨condition, below, Formula.translates_of_ofNode made⟩
  · rintro ⟨condition, below, translated⟩
    exact ⟨condition, below, translated.ofNode_eq⟩

theorem SameForm.groupTest_eq (alike : g.SameForm h) (item : Node α) :
    h.groupTest item = g.groupTest item := by
  have place (position : Nat) : h.keyPlace? position = g.keyPlace? position := by
    rw [keyPlace?, keyPlace?, alike.positions]
  have operand (n : Node α) : h.operand n = g.operand n := by
    simp only [Grouping.operand, place, alike.header,
      call_congr alike.header alike.settings alike.catalog]
  simp only [groupTest, operand, alike.settings]

theorem SameForm.formula_eq (alike : g.SameForm h) (clause : Node α) :
    h.formula clause = g.formula clause := by
  rw [formula, formula, funext alike.groupTest_eq]

theorem refusal?_having {clause condition : Node α} {φ : Formula GroupTest}
    (below : clause.conditionOf .havingClause = .ok condition)
    (translated : Formula.Translates g.groupTest condition φ) :
    refusal? (g.having clause) =
      condition.items.findSome? fun item => g.groups.entries.findSome? fun group =>
        refusal? (g.groupTest item >>= fun t => t.passes group) := by
  rw [having_eq, formula_eq_ok.2 ⟨condition, below, translated⟩, ok_bind,
    ← Groups.refusal?_satisfying translated]
  cases g.groups.satisfying φ <;> rfl

theorem refusal?_item_eq_some {item : Node α} {t : GroupTest} (made : g.groupTest item = .ok t)
    {group : Key × List Row} {refusal : Refusal} :
    refusal? (g.groupTest item >>= fun t => t.passes group) = some refusal ↔
      g.ItemRefuses item group refusal := by
  rw [made, ok_bind, refusal?_eq_some, passes_eq_error made]

theorem refusal?_item_eq_none {item : Node α} {t : GroupTest} (made : g.groupTest item = .ok t)
    {group : Key × List Row} :
    refusal? (g.groupTest item >>= fun t => t.passes group) = none ↔
      ∀ refusal, ¬ g.ItemRefuses item group refusal := by
  rw [Option.eq_none_iff_forall_ne_some]
  exact forall_congr' fun refusal => not_congr (refusal?_item_eq_some made)

/-- Whether a refusal is that of the leftmost of some filter items that is refused on any group, on
the first group where this item is refused. -/
def IsFirstRefusal (g : Grouping) (items : List (Node α)) (refusal : Refusal) : Prop :=
  ∃ first item rest before group after,
    items = first ++ item :: rest ∧ g.groups.entries = before ++ group :: after ∧
    (∀ earlier ∈ first, ∀ group ∈ g.groups.entries, ∀ refusal,
      ¬ g.ItemRefuses earlier group refusal) ∧
    (∀ earlier ∈ before, ∀ refusal, ¬ g.ItemRefuses item earlier refusal) ∧
    g.ItemRefuses item group refusal

theorem having_eq_error {clause condition : Node α} {φ : Formula GroupTest} {refusal : Refusal}
    (below : clause.conditionOf .havingClause = .ok condition)
    (translated : Formula.Translates g.groupTest condition φ) :
    g.having clause = .error refusal ↔ g.IsFirstRefusal condition.items refusal := by
  have made := translated.made
  rw [← refusal?_eq_some, refusal?_having below translated, List.findSome?_eq_some_iff]
  constructor
  · rintro ⟨first, item, rest, items, found, noneFirst⟩
    obtain ⟨before, group, after, groups, refused, noneBefore⟩ := List.findSome?_eq_some_iff.1 found
    obtain ⟨t, isTest⟩ := made item (by simp [items])
    refine ⟨first, item, rest, before, group, after, items, groups, ?_, ?_,
      (refusal?_item_eq_some isTest).1 refused⟩
    · intro earlier member
      obtain ⟨_, isTest⟩ := made earlier (by simp [items, member])
      exact fun group isGroup => (refusal?_item_eq_none isTest).1
        (List.findSome?_eq_none_iff.1 (noneFirst earlier member) group isGroup)
    · exact fun earlier member => (refusal?_item_eq_none isTest).1 (noneBefore earlier member)
  · rintro ⟨first, item, rest, before, group, after, items, groups, noneFirst, noneBefore, refuses⟩
    obtain ⟨t, isTest⟩ := made item (by simp [items])
    refine ⟨first, item, rest, items, List.findSome?_eq_some_iff.2 ⟨before, group, after, groups,
      (refusal?_item_eq_some isTest).2 refuses, ?_⟩, ?_⟩
    · exact fun earlier member => (refusal?_item_eq_none isTest).2 (noneBefore earlier member)
    · intro earlier member
      obtain ⟨_, isTest⟩ := made earlier (by simp [items, member])
      exact List.findSome?_eq_none_iff.2 fun group isGroup =>
        (refusal?_item_eq_none isTest).2 (noneFirst earlier member group isGroup)

theorem exists_having_eq_error_iff {clause condition : Node α} {φ : Formula GroupTest}
    (below : clause.conditionOf .havingClause = .ok condition)
    (translated : Formula.Translates g.groupTest condition φ) :
    (∃ refusal, g.having clause = .error refusal) ↔
      ∃ item ∈ condition.items, ∃ group ∈ g.groups.entries, ∃ refusal,
        g.ItemRefuses item group refusal := by
  constructor
  · rintro ⟨refusal, refused⟩
    obtain ⟨first, item, rest, before, group, after, items, groups, _, _, refuses⟩ :=
      (having_eq_error below translated).1 refused
    exact ⟨item, by simp [items], group, by simp [groups], refusal, refuses⟩
  · rintro ⟨item, member, group, isGroup, refusal, refuses⟩
    cases answer : g.having clause with
    | error refusal => exact ⟨refusal, rfl⟩
    | ok h =>
      have accepted := refusal?_eq_none.2 ⟨h, answer⟩
      rw [refusal?_having below translated, List.findSome?_eq_none_iff] at accepted
      obtain ⟨t, made⟩ := translated.made item member
      have plain := List.findSome?_eq_none_iff.1 (accepted item member) group isGroup
      exact absurd refuses ((refusal?_item_eq_none made).1 plain refusal)

/-- HAVING is refused while its condition is translated, and then for the same cause in all
groupings of one form, or its condition makes the same formula in all of them.  Then it is refused
exactly when some filter item is refused on some group, wherever the item stands in the condition
and whatever the other items say of the group.  The cause is that of the leftmost such item on the
first group where it is refused. -/
theorem having_of_sameForm (g : Grouping) (clause : Node α) :
    (∃ refusal, ∀ h, g.SameForm h →
      h.formula clause = .error refusal ∧ h.having clause = .error refusal) ∨
    ∃ condition φ, clause.conditionOf .havingClause = .ok condition ∧ ∀ h, g.SameForm h →
      h.formula clause = .ok φ ∧
      ((∃ refusal, h.having clause = .error refusal) ↔
        ∃ item ∈ condition.items, ∃ group ∈ h.groups.entries, ∃ refusal,
          h.ItemRefuses item group refusal) ∧
      ∀ refusal, h.having clause = .error refusal ↔
        h.IsFirstRefusal condition.items refusal := by
  cases made : g.formula clause with
  | error refusal =>
    refine .inl ⟨refusal, fun h alike => ?_⟩
    have sameMade := (alike.formula_eq clause).trans made
    refine ⟨sameMade, ?_⟩
    rw [having_eq, sameMade, error_bind]
  | ok φ =>
    obtain ⟨condition, below, _⟩ := formula_eq_ok.1 made
    refine .inr ⟨condition, φ, below, fun h alike => ?_⟩
    have sameMade := (alike.formula_eq clause).trans made
    obtain ⟨_, belowAgain, translated⟩ := formula_eq_ok.1 sameMade
    cases below.symm.trans belowAgain
    exact ⟨sameMade, exists_having_eq_error_iff below translated,
      fun refusal => having_eq_error below translated⟩

def manySalesInTheEast : Node Unit :=
  ⟨(), .logicalOperation .and, [
    ⟨(), .filterItem, [⟨(), .column, [⟨(), .identifier "region", []⟩]⟩,
      ⟨(), .comparator .eq, []⟩, ⟨(), .identifier "'east'", []⟩]⟩,
    ⟨(), .filterItem, [⟨(), .function, [⟨(), .identifier "count", []⟩, ⟨(), .star none, []⟩]⟩,
      ⟨(), .comparator .gt, []⟩, ⟨(), .identifier "'many'", []⟩]⟩]⟩

/-- No region is in the east, and still their sales are counted, unless there are no regions. -/
theorem having_of_manySalesInTheEast :
    salesByRegion.IsFirstRefusal manySalesInTheEast.items (.literalNotNumeric "many") ∧
      ∃ h, { salesByRegion with groups := ∅ }.having manySalesInTheEast = .ok h := by
  have refused : salesByRegion.having manySalesInTheEast = .error (.literalNotNumeric "many") := rfl
  have translated : salesByRegion.formula manySalesInTheEast = .ok _ := rfl
  refine ⟨?_, _, rfl⟩
  rcases having_of_sameForm salesByRegion manySalesInTheEast with
    ⟨_, untranslated⟩ | ⟨condition, _, below, tried⟩
  · cases translated.symm.trans (untranslated salesByRegion ⟨rfl, rfl, rfl, rfl⟩).1
  · cases below
    exact ((tried salesByRegion ⟨rfl, rfl, rfl, rfl⟩).2.2 _).1 refused

end Grouping

end TableQuery
