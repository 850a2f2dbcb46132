import TableQuery.Grouping.Having
import TableQuery.Proofs.Cell.Sameness
import TableQuery.Proofs.Condition.Truth
import TableQuery.Proofs.Grouping.Value
import TableQuery.Proofs.OrderedMap
import TableQuery.Proofs.Table.Rows

/-! # Conditions on groups as booleans

HAVING joins sets of groups: an intersection for AND, a union for OR.  The
groups that are left are those of which the condition is true when it is read
as a boolean formula, and they come in the order in which the sets were
joined.  The invariant behind this is that every set on the way has whole
entries of the groups it was picked from, so that a key stands for its entry.
-/

namespace TableQuery

variable {α : Type}

/-! ## Sets of groups -/

namespace Groups

theorem sift_entries {groups kept : Groups} {passes : Key × List Row → Except Refusal Bool}
    (sifted : groups.sift passes = .ok kept) :
    TableQuery.sift passes groups.entries = .ok kept.entries := by
  unfold Groups.sift at sifted
  split at sifted
  · next entries accepted =>
    cases sifted
    exact accepted
  · cases sifted

theorem entries_of_sift {groups kept : Groups} {passes : Key × List Row → Except Refusal Bool}
    (sifted : groups.sift passes = .ok kept) :
    kept.entries = groups.entries.filter fun group => affirms (passes group) :=
  (sift_eq_ok.1 (sift_entries sifted)).2

theorem entries_inter_subset {l r groups : Groups} (left : l.entries ⊆ groups.entries)
    (right : r.entries ⊆ groups.entries) : (l.inter r).entries ⊆ groups.entries := by
  rw [OrderedMap.entries_inter groups.distinct left right]
  exact List.Subset.trans List.filter_sublist.subset left

theorem entries_union_subset {l r groups : Groups} (left : l.entries ⊆ groups.entries)
    (right : r.entries ⊆ groups.entries) : (l.union r).entries ⊆ groups.entries := by
  rw [OrderedMap.entries_union]
  exact List.append_subset.2 ⟨left, List.Subset.trans List.filter_sublist.subset right⟩

/-- Groups are left out whole; none is changed. -/
theorem satisfying_subset {groups : Groups} {φ : Formula GroupTest} {kept : Groups}
    (satisfied : groups.satisfying φ = .ok kept) : kept.entries ⊆ groups.entries := by
  induction φ generalizing kept with
  | test t =>
    rw [entries_of_sift satisfied]
    exact List.filter_sublist.subset
  | both φ ψ left right =>
    simp only [satisfying, bind_eq_ok, pure_eq_ok] at satisfied
    obtain ⟨l, leftKept, r, rightKept, rfl⟩ := satisfied
    exact entries_inter_subset (left leftKept) (right rightKept)
  | either φ ψ left right =>
    simp only [satisfying, bind_eq_ok, pure_eq_ok] at satisfied
    obtain ⟨l, leftKept, r, rightKept, rfl⟩ := satisfied
    exact entries_union_subset (left leftKept) (right rightKept)

/-- Joining sets of groups picks those of which the condition is true. -/
theorem entries_satisfying {groups kept : Groups} {make : Node α → Except Refusal GroupTest}
    {n : Node α} {φ : Formula GroupTest} (translated : Formula.Translates make n φ)
    {item : Node α → Key × List Row → Bool}
    (agree : ∀ n t group, make n = .ok t → affirms (t.passes group) = item n group)
    (satisfied : groups.satisfying φ = .ok kept) : kept.entries = n.pick item groups.entries := by
  induction translated generalizing kept with
  | item made =>
    rw [entries_of_sift satisfied, Node.pick]
    exact List.filter_congr fun group _ => agree _ _ group made
  | both _ rightMakes left right =>
    simp only [satisfying, bind_eq_ok, pure_eq_ok] at satisfied
    obtain ⟨l, leftKept, r, rightKept, rfl⟩ := satisfied
    -- Both sides hold entries of `groups`, among which having a key is having its entry.
    have among := satisfying_subset leftKept
    rw [OrderedMap.entries_inter groups.distinct among (satisfying_subset rightKept), Node.pick,
      ← left leftKept]
    refine List.filter_congr fun group member => ?_
    rw [Bool.eq_iff_iff, OrderedMap.contains_iff_mem groups.distinct (satisfying_subset rightKept)
      (among member), right rightKept, rightMakes.mem_pick]
    exact and_iff_right (among member)
  | either leftMakes _ left right =>
    simp only [satisfying, bind_eq_ok, pure_eq_ok] at satisfied
    obtain ⟨l, leftKept, r, rightKept, rfl⟩ := satisfied
    rw [OrderedMap.entries_union, Node.pick, ← left leftKept, ← right rightKept]
    congr 1
    refine List.filter_congr fun group member => ?_
    have known := satisfying_subset rightKept member
    rw [Bool.not_inj_iff, Bool.eq_iff_iff,
      OrderedMap.contains_iff_mem groups.distinct (satisfying_subset leftKept) known,
      left leftKept, leftMakes.mem_pick]
    exact and_iff_right known

theorem refusal?_sift (groups : Groups) (passes : Key × List Row → Except Refusal Bool) :
    refusal? (groups.sift passes) =
      groups.entries.findSome? fun group => refusal? (passes group) := by
  rw [← TableQuery.refusal?_sift]
  unfold Groups.sift
  split
  · next sifted => exact (congrArg refusal? sifted).symm
  · next sifted => exact (congrArg refusal? sifted).symm

/-- Both sides of a connective are evaluated on all groups, so that a formula is refused for its
leftmost test that refuses a group, on the first group that this test refuses. -/
theorem refusal?_satisfying {make : Node α → Except Refusal GroupTest} {n : Node α}
    {φ : Formula GroupTest} (translated : Formula.Translates make n φ) (groups : Groups) :
    refusal? (groups.satisfying φ) =
      n.items.findSome? fun item =>
        groups.entries.findSome? fun group => refusal? (make item >>= fun t => t.passes group) := by
  induction translated with
  | item made =>
    rw [satisfying, refusal?_sift, Node.items]
    simp only [List.findSome?_singleton, made, ok_bind]
  | both _ _ left right | either _ _ left right =>
    rw [satisfying, refusal?_join, left, right, Node.items, List.findSome?_append]

theorem exists_satisfying_iff {make : Node α → Except Refusal GroupTest} {n : Node α}
    {φ : Formula GroupTest} (translated : Formula.Translates make n φ) {groups : Groups} :
    (∃ kept, groups.satisfying φ = .ok kept) ↔
      ∀ item ∈ n.items, ∀ t, make item = .ok t → ∀ group ∈ groups.entries,
        ∃ answer, t.passes group = .ok answer := by
  rw [← refusal?_eq_none, refusal?_satisfying translated]
  simp only [List.findSome?_eq_none_iff]
  constructor
  · intro accepted item member t made group isGroup
    have answered := accepted item member group isGroup
    rwa [made, ok_bind, refusal?_eq_none] at answered
  · intro answers item member group isGroup
    obtain ⟨t, made⟩ := translated.made item member
    rw [made, ok_bind, refusal?_eq_none]
    exact answers item member t made group isGroup

theorem exists_satisfying_of_subset {make : Node α → Except Refusal GroupTest} {n : Node α}
    {φ : Formula GroupTest} (translated : Formula.Translates make n φ) {groups kept others : Groups}
    (satisfied : groups.satisfying φ = .ok kept) (among : others.entries ⊆ groups.entries) :
    ∃ found, others.satisfying φ = .ok found := by
  have answers := (exists_satisfying_iff translated).1 ⟨kept, satisfied⟩
  rw [exists_satisfying_iff translated]
  exact fun item member t made group isOther => answers item member t made group (among isOther)

end Groups

namespace Grouping

/-- The cell that an operand has on a group: the value of a function on its rows, or the cell of
its key at the place of a column. -/
def operandCell? (g : Grouping) (operand : Node α) (group : Key × List Row) : Option Cell :=
  match operand.kind with
  | .function => g.value? group.2 operand
  | _ => do
    let position ← (g.header.position (← operand.name.toOption)).toOption
    group.1[← g.keyPlace? position]?

def itemHolds (g : Grouping) (item : Node α) (group : Key × List Row) : Bool :=
  item.isMet g.settings fun operand => g.operandCell? operand group

theorem affirms_compared (cell : Except Refusal Cell) (comparison : Comparison) (literal : String) :
    affirms (cell >>= fun c => c.satisfies comparison literal) =
      cell.toOption.any fun c => c.meets comparison literal := by
  cases cell with
  | error refusal => rfl
  | ok c => exact c.affirms_satisfies comparison literal

theorem operand_eq_ok_of_column {g : Grouping} {n : Node α} {operand : GroupExpression}
    (found : g.operand n = .ok operand) (noFunction : n.tag ≠ .function) :
    ∃ name position place, n.name = .ok name ∧ g.header.position name = .ok position ∧
      g.keyPlace? position = some place ∧ operand = .key place := by
  rw [Grouping.operand, if_neg noFunction, bind_eq_ok] at found
  obtain ⟨name, named, rest⟩ := found
  split at rest
  · next place placed =>
    obtain ⟨column, resolved, among⟩ := Option.bind_eq_some_iff.1 placed
    cases rest
    exact ⟨name, column.2, place, named, Header.position_of_column? resolved, among, rfl⟩
  · cases rest

/-- An expression has the cell of its operand, as far as tests that an empty cell fails can tell. -/
theorem any_operand {g : Grouping} {n : Node α} {operand : GroupExpression} {p : Cell → Bool}
    (found : g.operand n = .ok operand) (group : Key × List Row) (empty : p .null = false) :
    (operand.evaluate group.1 group.2).toOption.any p = (g.operandCell? n group).any p := by
  by_cases isFunction : n.tag = .function
  · rw [Grouping.operand, if_pos isFunction] at found
    simp only [bind_eq_ok, pure_eq_ok] at found
    obtain ⟨c, called, rfl⟩ := found
    have kind : n.kind = .function := Kind.eq_of_tag isFunction rfl
    rw [operandCell?, kind, ← evaluate_call called]
    rfl
  · obtain ⟨name, position, place, named, resolved, among, rfl⟩ :=
      operand_eq_ok_of_column found isFunction
    have cell : g.operandCell? n group = group.1[place]? := by
      unfold operandCell?
      split
      · next kind => exact absurd (congrArg Kind.tag kind) isFunction
      · simp [named, resolved, Except.toOption, among]
    rw [cell]
    change p (group.1.getD place .null) = _
    rw [List.getD_eq_getElem?_getD]
    cases group.1[place]? with
    | none => exact empty
    | some cell => rfl

theorem affirms_groupTest {g : Grouping} {item : Node α} {t : GroupTest}
    (made : g.groupTest item = .ok t) (group : Key × List Row) :
    affirms (t.passes group) = g.itemHolds item group := by
  simp only [groupTest, bind_eq_ok, pure_eq_ok] at made
  obtain ⟨test, read, operand, found, rfl⟩ := made
  rw [GroupTest.passes, affirms_compared, any_operand found group rfl, itemHolds,
    Node.isMet_of_test read]

/-! ## HAVING -/

theorem having_eq_ok {g h : Grouping} {clause : Node α} (kept : g.having clause = .ok h) :
    ∃ condition φ groups, clause.conditionOf .havingClause = .ok condition ∧
      Formula.Translates g.groupTest condition φ ∧ g.groups.satisfying φ = .ok groups ∧
      h = { g with groups } := by
  simp only [having, bind_eq_ok, pure_eq_ok] at kept
  obtain ⟨condition, below, φ, made, groups, satisfied, rfl⟩ := kept
  exact ⟨condition, φ, groups, below, Formula.translates_of_ofNode made, satisfied, rfl⟩

theorem entries_having {g : Grouping} {condition : Node α} {φ : Formula GroupTest} {kept : Groups}
    (translated : Formula.Translates g.groupTest condition φ)
    (satisfied : g.groups.satisfying φ = .ok kept) :
    kept.entries = condition.pick g.itemHolds g.groups.entries :=
  Groups.entries_satisfying translated (fun _ _ group made => affirms_groupTest made group)
    satisfied

/-- HAVING keeps exactly the groups of which its condition is true, each once and unchanged, in the
order in which the condition picks them; without OR this is the order of the groups. -/
theorem having_keeps {g h : Grouping} {clause : Node α} (kept : g.having clause = .ok h) :
    ∃ condition, clause.conditionOf .havingClause = .ok condition ∧
      (∀ group ∈ g.groups.entries, group ∈ h.groups.entries ↔
        condition.holds (fun item => g.itemHolds item group) = true) ∧
      h.groups.entries ⊆ g.groups.entries ∧ h.groups.entries.Nodup ∧
      h.groups.entries = condition.pick g.itemHolds g.groups.entries ∧
      (condition.hasOr = false → h.groups.entries.Sublist g.groups.entries) ∧
      h = { g with groups := h.groups } := by
  obtain ⟨condition, φ, groups, below, translated, satisfied, rfl⟩ := having_eq_ok kept
  have picked := entries_having translated satisfied
  refine ⟨condition, below, ?_, Groups.satisfying_subset satisfied, groups.distinct.nodup, picked,
    ?_, rfl⟩
  · intro group member
    rw [picked, translated.mem_pick]
    exact and_iff_right member
  · intro noOr
    rw [picked, translated.pick_eq_filter _ _ noOr]
    exact List.filter_sublist

def salesByRegion : Grouping where
  positions := [0]
  header := Table.sales.header
  groups := .ofRows [0] Table.sales.rows

def severalRows : Node Unit :=
  ⟨(), .filterItem, [⟨(), .function, [⟨(), .identifier "COUNT", []⟩, ⟨(), .star none, []⟩]⟩,
    ⟨(), .comparator .gt, []⟩, ⟨(), .identifier "1", []⟩]⟩

/-- `(SUM(amount) <> 3 OR COUNT(*) > 1) AND region <> 'east'` -/
def otherThanThreeOrSeveralOutsideEast : Node Unit :=
  ⟨(), .logicalOperation .and, [
    ⟨(), .logicalOperation .or, [
      ⟨(), .filterItem, [
        ⟨(), .function, [⟨(), .identifier "SUM", []⟩,
          ⟨(), .column, [⟨(), .identifier "amount", []⟩]⟩]⟩,
        ⟨(), .comparator .ne, []⟩, ⟨(), .identifier "3", []⟩]⟩,
      severalRows]⟩,
    ⟨(), .filterItem, [⟨(), .column, [⟨(), .identifier "region", []⟩]⟩,
      ⟨(), .comparator .ne, []⟩, ⟨(), .identifier "'east'", []⟩]⟩]⟩

def salesOfFourRegions : Grouping where
  positions := [0]
  header := Table.sales.header
  groups := .ofRows [0] (Table.sales.rows ++ [[.text "east", .int 9], [.text "west", .null]])

/-- OR brings the north in behind the south, AND takes the east out again, and the west, which has
no sum, is neither three nor anything else. -/
theorem having_keeps_southFirst :
    ∃ h, salesOfFourRegions.having otherThanThreeOrSeveralOutsideEast = .ok h ∧
      (∀ group ∈ salesOfFourRegions.groups.entries, group ∈ h.groups.entries ↔
        otherThanThreeOrSeveralOutsideEast.holds
          (fun item => salesOfFourRegions.itemHolds item group) = true) ∧
      h.groups.entries = otherThanThreeOrSeveralOutsideEast.pick salesOfFourRegions.itemHolds
        salesOfFourRegions.groups.entries ∧
      salesOfFourRegions.groups.keys =
        [[.text "north"], [.text "south"], [.text "east"], [.text "west"]] ∧
      h.groups.keys = [[.text "south"], [.text "north"]] := by
  have kept : salesOfFourRegions.having otherThanThreeOrSeveralOutsideEast = .ok _ := rfl
  obtain ⟨_, below, boolean, _, _, picked, _, _⟩ := having_keeps kept
  cases below
  exact ⟨_, kept, boolean, picked, rfl, rfl⟩

end Grouping

end TableQuery
