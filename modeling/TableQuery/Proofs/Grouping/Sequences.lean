import TableQuery.Proofs.Grouping.Causes

/-! # Conditions one after the other

A condition that joins two others by AND does what the two do one after the
other.  On rows either way is accepted where the other one is, since the right
side is looked at where the left side is true and nowhere else.  On groups both
sides are tried on all groups, and one after the other the right side is tried
on fewer of them, so that it is accepted there when it was before; OR may bring
what it keeps into another order.  For the same reason HAVING can be repeated:
what it has kept it accepts, and keeps again in the order that it has by then.
-/

namespace TableQuery

variable {α : Type}

section Rows

variable {τ : Type} {passes : τ → Except Refusal Bool} {φ ψ : Formula τ}

theorem Formula.exists_answer_both :
    (∃ answer, (both φ ψ).holds passes = .ok answer) ↔
      (∃ answer, φ.holds passes = .ok answer) ∧
        (affirms (φ.holds passes) = true → ∃ answer, ψ.holds passes = .ok answer) := by
  rw [holds]
  cases φ.holds passes with
  | error refusal => simp
  | ok answer => cases answer <;> simp [pure_eq_ok]

theorem Formula.affirms_both :
    affirms ((both φ ψ).holds passes) =
      (affirms (φ.holds passes) && affirms (ψ.holds passes)) := by
  rw [holds]
  cases φ.holds passes with
  | error refusal => rfl
  | ok answer => cases answer <;> rfl

end Rows

namespace Table

theorem filter_filter (t : Table) (p q : Row → Bool) :
    (t.filter p).filter q = t.filter fun row => p row && q row := by
  unfold Table.filter
  simp only [List.filter_filter, Bool.and_comm]

/-- To keep the rows for which two formulas hold is to keep those for which the one holds, and of
these those for which the other one does. -/
theorem keep_both {t u : Table} {φ ψ : Formula RowTest} :
    t.keep (.both φ ψ) = .ok u ↔ ∃ v, t.keep φ = .ok v ∧ v.keep ψ = .ok u := by
  simp only [keep_eq_ok, Formula.exists_answer_both, Formula.affirms_both]
  constructor
  · rintro ⟨answers, rfl⟩
    refine ⟨_, ⟨fun row member => (answers row member).1, rfl⟩, fun row kept => ?_,
      (filter_filter _ _ _).symm⟩
    obtain ⟨member, holds⟩ := List.mem_filter.1 kept
    exact (answers row member).2 holds
  · rintro ⟨_, ⟨leftAnswers, rfl⟩, rightAnswers, rfl⟩
    refine ⟨fun row member => ⟨leftAnswers row member, fun holds => ?_⟩, filter_filter _ _ _⟩
    exact rightAnswers row (List.mem_filter.2 ⟨member, holds⟩)

variable {settings : Settings} {a b : Node α}

theorem filterBy_eq_ok_of_isCondition {t u : Table} {condition : Node α}
    (isCondition : condition.tag.isCondition = true) :
    t.filterBy settings condition = .ok u ↔
      ∃ φ, Formula.Translates (rowTest t.header settings) condition φ ∧ t.keep φ = .ok u := by
  rw [filterBy_eq_ok, Node.conditionOf_of_isCondition isCondition rfl]
  simp

/-- WHERE with two conditions joined by AND is accepted exactly when WHERE with the left one is, and
WHERE with the right one is on what is left, and it leaves what these leave. -/
theorem filterBy_both {t u : Table} (mark : α) (leftIsCondition : a.tag.isCondition = true)
    (rightIsCondition : b.tag.isCondition = true) :
    t.filterBy settings ⟨mark, .logicalOperation .and, [a, b]⟩ = .ok u ↔
      ∃ v, t.filterBy settings a = .ok v ∧ v.filterBy settings b = .ok u := by
  rw [filterBy_eq_ok_of_isCondition rfl]
  simp only [filterBy_eq_ok_of_isCondition leftIsCondition,
    filterBy_eq_ok_of_isCondition rightIsCondition]
  constructor
  · rintro ⟨_, translated, kept⟩
    cases translated with
    | both leftMakes rightMakes =>
      obtain ⟨v, leftKept, rightKept⟩ := keep_both.1 kept
      exact ⟨v, ⟨_, leftMakes, leftKept⟩, _, header_of_keep leftKept ▸ rightMakes, rightKept⟩
  · rintro ⟨v, ⟨_, leftMakes, leftKept⟩, _, rightMakes, rightKept⟩
    rw [header_of_keep leftKept] at rightMakes
    exact ⟨_, .both leftMakes rightMakes, keep_both.2 ⟨v, leftKept, rightKept⟩⟩

def inTheEast : Node Unit :=
  ⟨(), .filterItem, [⟨(), .column, [⟨(), .identifier "region", []⟩]⟩, ⟨(), .comparator .eq, []⟩,
    ⟨(), .identifier "'east'", []⟩]⟩

def manySold : Node Unit :=
  ⟨(), .filterItem, [⟨(), .column, [⟨(), .identifier "amount", []⟩]⟩, ⟨(), .comparator .gt, []⟩,
    ⟨(), .identifier "'many'", []⟩]⟩

/-- No amount can be compared with many, but in the east there is none to compare. -/
theorem filterBy_both_inTheEast :
    (∃ refusal, sales.filterBy {} manySold = .error refusal) ∧
      ∃ v u, sales.filterBy {} inTheEast = .ok v ∧ v.filterBy {} manySold = .ok u ∧
        sales.filterBy {} ⟨(), .logicalOperation .and, [inTheEast, manySold]⟩ = .ok u := by
  have filtered :
      sales.filterBy {} ⟨(), .logicalOperation .and, [inTheEast, manySold]⟩ = .ok _ := rfl
  obtain ⟨v, left, right⟩ := (filterBy_both () rfl rfl).1 filtered
  exact ⟨⟨_, rfl⟩, v, _, left, right, filtered⟩

end Table

namespace Grouping

variable {g h k : Grouping} {a b clause condition : Node α}

theorem having_of_translated {φ : Formula GroupTest} {kept : Groups}
    (below : clause.conditionOf .havingClause = .ok condition)
    (translated : Formula.Translates g.groupTest condition φ)
    (satisfied : g.groups.satisfying φ = .ok kept) :
    g.having clause = .ok { g with groups := kept } := by
  rw [having_eq, formula_eq_ok.2 ⟨condition, below, translated⟩, ok_bind, satisfied]
  rfl

/-- A condition that is accepted is accepted on any of the groups as well, and picks from them. -/
theorem exists_having_of_subset {φ : Formula GroupTest} {kept others : Groups}
    (below : clause.conditionOf .havingClause = .ok condition)
    (translated : Formula.Translates g.groupTest condition φ)
    (satisfied : g.groups.satisfying φ = .ok kept) (among : others.entries ⊆ g.groups.entries) :
    ∃ found, { g with groups := others }.having clause = .ok { g with groups := found } ∧
      found.entries = condition.pick g.itemHolds others.entries := by
  obtain ⟨found, accepted⟩ := Groups.exists_satisfying_of_subset translated satisfied among
  have alike : g.SameForm { g with groups := others } := ⟨rfl, rfl, rfl, rfl⟩
  refine ⟨found, having_of_translated below ?_ accepted, ?_⟩
  · rwa [funext alike.groupTest_eq]
  · exact Groups.entries_satisfying translated (fun _ _ group made => affirms_groupTest made group)
      accepted

/-- HAVING accepts what it has kept and keeps it again, in the same order. -/
theorem having_having (kept : g.having clause = .ok h) : h.having clause = .ok h := by
  obtain ⟨condition, φ, groups, below, translated, satisfied, rfl⟩ := having_eq_ok kept
  obtain ⟨again, accepted, picked⟩ := exists_having_of_subset below translated satisfied
    (Groups.satisfying_subset satisfied)
  rw [entries_having translated satisfied, translated.pick_pick,
    ← entries_having translated satisfied] at picked
  rw [accepted, OrderedMap.eq_of_entries picked]

def southOrSeveralRows : Node Unit :=
  ⟨(), .logicalOperation .or, [
    ⟨(), .filterItem, [⟨(), .column, [⟨(), .identifier "region", []⟩]⟩, ⟨(), .comparator .eq, []⟩,
      ⟨(), .identifier "'south'", []⟩]⟩,
    severalRows]⟩

theorem having_having_southFirst : ∃ h, salesByRegion.having southOrSeveralRows = .ok h ∧
    h.groups.keys = [[.text "south"], [.text "north"]] ∧ h.having southOrSeveralRows = .ok h := by
  have kept : salesByRegion.having southOrSeveralRows = .ok _ := rfl
  exact ⟨_, kept, rfl, having_having kept⟩

/-- Where HAVING with two conditions joined by AND is accepted, HAVING with the left one is, and
HAVING with the right one is on what is left.  It leaves the same groups; without OR in the right
condition they are in the same order. -/
theorem having_both (mark : α)
    (kept : g.having ⟨mark, .logicalOperation .and, [a, b]⟩ = .ok k) :
    ∃ h u, g.having a = .ok h ∧ h.having b = .ok u ∧
      u.groups.entries.Perm k.groups.entries ∧ u = { k with groups := u.groups } ∧
      (b.hasOr = false → u = k) := by
  obtain ⟨_, _, groups, below, translated, satisfied, rfl⟩ := having_eq_ok kept
  cases below
  have joined := entries_having translated satisfied
  cases translated with
  | both leftMakes rightMakes =>
    simp only [Groups.satisfying, bind_eq_ok] at satisfied
    obtain ⟨l, leftKept, r, rightKept, _⟩ := satisfied
    obtain ⟨found, accepted, picked⟩ :=
      exists_having_of_subset (Node.conditionOf_of_isCondition rightMakes.isCondition rfl)
        rightMakes rightKept (Groups.satisfying_subset leftKept)
    rw [Node.pick, ← entries_having leftMakes leftKept] at joined
    refine ⟨_, _, having_of_translated (Node.conditionOf_of_isCondition leftMakes.isCondition rfl)
      leftMakes leftKept, accepted, ?_, rfl, ?_⟩
    · rw [List.perm_ext_iff_of_nodup found.distinct.nodup groups.distinct.nodup]
      intro group
      rw [picked, joined, rightMakes.mem_pick, List.mem_filter]
    · intro noOr
      rw [rightMakes.pick_eq_filter _ _ noOr, ← joined] at picked
      rw [OrderedMap.eq_of_entries picked]

def soldMoreThanTwo : Node Unit :=
  ⟨(), .filterItem, [
    ⟨(), .function, [⟨(), .identifier "sum", []⟩, ⟨(), .column, [⟨(), .identifier "amount", []⟩]⟩]⟩,
    ⟨(), .comparator .gt, []⟩, ⟨(), .identifier "2", []⟩]⟩

/-- The sums are made of the groups that are left, with the south before the north. -/
theorem having_both_southFirst : ∃ h u, salesByRegion.having southOrSeveralRows = .ok h ∧
    h.having soldMoreThanTwo = .ok u ∧
    salesByRegion.having
      ⟨(), .logicalOperation .and, [southOrSeveralRows, soldMoreThanTwo]⟩ = .ok u ∧
    u.groups.keys = [[.text "south"], [.text "north"]] := by
  have kept : salesByRegion.having
      ⟨(), .logicalOperation .and, [southOrSeveralRows, soldMoreThanTwo]⟩ = .ok _ := rfl
  obtain ⟨h, u, left, right, _, _, same⟩ := having_both () kept
  obtain rfl := same rfl
  exact ⟨h, _, left, right, kept, rfl⟩

end Grouping

end TableQuery
