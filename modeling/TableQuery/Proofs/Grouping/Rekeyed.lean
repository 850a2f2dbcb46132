import TableQuery.Grouping.Having
import TableQuery.Proofs.Cell.Sameness
import TableQuery.Proofs.Condition.Related
import TableQuery.Proofs.Grouping.Select
import TableQuery.Proofs.RelatedMaps
import TableQuery.Proofs.Statement.Nodes

/-! # Groups at the same positions in another order

Grouping at positions in another order, or at some of them more than once,
gives the same groups under other keys.  A key stands for its row, at whatever
places the cells are found in it, so that everything that is read off a group
is the same, and the two groupings go on side by side: through HAVING, where
sets of groups are joined by their keys, to the rows that are selected.
-/

namespace TableQuery

variable {α : Type}

/-- Whether two keys are those of one row at two lists of positions. -/
def OfOneRow (positions others : List Nat) (k l : Key) : Prop :=
  ∃ row : Row, row.key positions = k ∧ row.key others = l

theorem Row.key_beq_iff {positions : List Nat} {row other : Row} :
    (row.key positions == other.key positions) = true ↔
      ∀ position ∈ positions, row.cell position == other.cell position := by
  induction positions with
  | nil => simp [Row.key]
  | cons position positions ih =>
    rw [List.forall_mem_cons, ← ih, Row.key, Row.key, List.map_cons, List.map_cons,
      List.cons_beq_cons, Bool.and_eq_true]
    rfl

section Keys

variable {positions others : List Nat} (same : ∀ position, position ∈ positions ↔ position ∈ others)

include same

theorem respectsSameness_ofOneRow : RespectsSameness (OfOneRow positions others) := by
  rintro _ _ ⟨row, rfl, rfl⟩ _ _ ⟨other, rfl, rfl⟩
  rw [Bool.eq_iff_iff, Row.key_beq_iff, Row.key_beq_iff]
  simp only [same]

theorem Groups.related_ofRows (rows : List Row) :
    OrderedMap.Related (OfOneRow positions others) (ofRows positions rows)
      (ofRows others rows) := by
  have each : List.Forall₂ (· = ·) rows rows := List.forall₂_refl rows
  refine List.rel_foldl ?_ OrderedMap.Related.empty each
  rintro groups groups' related row _ rfl
  exact related.alter (respectsSameness_ofOneRow same) ⟨row, rfl, rfl⟩ _

end Keys

/-! ## What is read off a group -/

/-- Whether two expressions read the same off a group, at the places that cells have in its keys. -/
inductive GroupExpression.Rekeyed (positions others : List Nat) :
    GroupExpression → GroupExpression → Prop where
  | key {place place' position : Nat} (placed : positions[place]? = some position)
      (otherPlaced : others[place']? = some position) :
      Rekeyed positions others (.key place) (.key place')
  | call (c : Call) : Rekeyed positions others (.call c) (.call c)

theorem Row.getD_key {row : Row} {positions : List Nat} {place position : Nat}
    (placed : positions[place]? = some position) :
    (row.key positions).getD place .null = row.cell position := by
  rw [Row.key, List.getD_eq_getElem?_getD, List.getElem?_map, placed]
  rfl

theorem GroupExpression.Rekeyed.evaluate_eq {positions others : List Nat} {e f : GroupExpression}
    (rekeyed : Rekeyed positions others e f) {k l : Key} (keys : OfOneRow positions others k l)
    (rows : List Row) : e.evaluate k rows = f.evaluate l rows := by
  obtain ⟨row, rfl, rfl⟩ := keys
  cases rekeyed with
  | key placed otherPlaced =>
    rw [evaluate, evaluate, Row.getD_key placed, Row.getD_key otherPlaced]
  | call c => rfl

structure GroupTest.Rekeyed (positions others : List Nat) (t u : GroupTest) : Prop where
  operand : t.operand.Rekeyed positions others u.operand
  comparison : t.comparison = u.comparison
  literal : t.literal = u.literal

theorem GroupTest.Rekeyed.passes_eq {positions others : List Nat} {t u : GroupTest}
    (rekeyed : Rekeyed positions others t u) {group other : Key × List Row}
    (groups : OrderedMap.EntryRelated (OfOneRow positions others) group other) :
    t.passes group = u.passes other := by
  obtain ⟨keys, rows⟩ := groups
  rw [passes, passes, rekeyed.operand.evaluate_eq keys, rows, rekeyed.comparison, rekeyed.literal]

namespace Grouping.Item

structure Rekeyed (positions others : List Nat) (i j : Item) : Prop where
  name : i.name = j.name
  expression : i.expression.Rekeyed positions others j.expression

namespace Rekeyed

variable {positions others : List Nat} {items items' : List Item}

theorem names_eq (lists : List.Forall₂ (Rekeyed positions others) items items') :
    items.map (·.name) = items'.map (·.name) := by
  induction lists with
  | nil => rfl
  | cons first _ ih => rw [List.map_cons, List.map_cons, first.name, ih]

theorem row_eq (lists : List.Forall₂ (Rekeyed positions others) items items') {k l : Key}
    (keys : OfOneRow positions others k l) (rows : List Row) :
    row items k rows = row items' l rows := by
  rw [row, row]
  induction lists with
  | nil => rfl
  | cons first _ ih =>
    rw [List.mapM_cons, List.mapM_cons, first.expression.evaluate_eq keys rows, ih]

end Rekeyed

end Grouping.Item

namespace Groups

variable {positions others : List Nat} {groups groups' : Groups}

theorem agree_sift {passes passes' : Key × List Row → Except Refusal Bool}
    (related : OrderedMap.Related (OfOneRow positions others) groups groups')
    (each : ∀ group other, OrderedMap.EntryRelated (OfOneRow positions others) group other →
      passes group = passes' other) :
    Agree (OrderedMap.Related (OfOneRow positions others)) (groups.sift passes)
      (groups'.sift passes') := by
  have agree := Agree.sift related each
  -- Both sides carry the proof of their own outcome, so that they are split one after the other.
  unfold Groups.sift
  split
  · next entries kept =>
    rw [kept] at agree
    split
    · next entries' kept' =>
      rw [kept'] at agree
      cases agree with
      | accepted lists => exact .accepted lists
    · next refused =>
      rw [refused] at agree
      cases agree
  · next refusal refused =>
    rw [refused] at agree
    split
    · next kept' =>
      rw [kept'] at agree
      cases agree
    · next refused' =>
      rw [refused'] at agree
      cases agree with
      | refused refusal => exact .refused refusal

/-- Sets of groups are joined alike, since related keys are found where their partners are. -/
theorem agree_satisfying (same : ∀ position, position ∈ positions ↔ position ∈ others)
    (related : OrderedMap.Related (OfOneRow positions others) groups groups')
    {φ ψ : Formula GroupTest} (formulas : φ.Related (GroupTest.Rekeyed positions others) ψ) :
    Agree (OrderedMap.Related (OfOneRow positions others)) (groups.satisfying φ)
      (groups'.satisfying ψ) := by
  have respects := respectsSameness_ofOneRow same
  induction formulas with
  | test tests => exact agree_sift related fun _ _ entries => tests.passes_eq entries
  | both _ _ left right =>
    refine left.bind fun l l' leftRelated => right.bind fun r r' rightRelated => ?_
    exact .accepted (leftRelated.inter respects rightRelated)
  | either _ _ left right =>
    refine left.bind fun l l' leftRelated => right.bind fun r r' rightRelated => ?_
    exact .accepted (leftRelated.union respects rightRelated)

end Groups

/-! ## Groupings -/

namespace Grouping

/-- Whether two groupings have the same groups at the same positions, up to the order and the
repetition of positions. -/
structure Rekeyed (g h : Grouping) : Prop where
  positions : ∀ position, position ∈ g.positions ↔ position ∈ h.positions
  groups : g.groups.Related (OfOneRow g.positions h.positions) h.groups
  header : g.header = h.header
  settings : g.settings = h.settings
  catalog : g.catalog = h.catalog

theorem call_congr {g h : Grouping} (header : g.header = h.header)
    (settings : g.settings = h.settings) (catalog : g.catalog = h.catalog) (n : Node α) :
    g.call n = h.call n := by
  induction n using Node.induction with
  | step n ih =>
    rw [call_eq, call_eq, settings, catalog]
    cases argued : n.argument with
    | error refusal => rfl
    | ok arg =>
      rw [ok_bind, ok_bind, callOn, callOn, header, ih arg (Node.mem_of_argument argued)]

namespace Rekeyed

variable {g h : Grouping} (rekeyed : g.Rekeyed h)

include rekeyed

theorem keyPlace?_cases (position : Nat) :
    (g.keyPlace? position = none ∧ h.keyPlace? position = none) ∨
      ∃ place place', g.keyPlace? position = some place ∧ h.keyPlace? position = some place' ∧
        (GroupExpression.key place).Rekeyed g.positions h.positions (.key place') := by
  by_cases member : position ∈ g.positions
  · have otherMember := (rekeyed.positions position).1 member
    obtain ⟨place, placed⟩ := Option.isSome_iff_exists.1 (List.isSome_idxOf?.2 member)
    obtain ⟨place', otherPlaced⟩ := Option.isSome_iff_exists.1 (List.isSome_idxOf?.2 otherMember)
    exact .inr ⟨place, place', placed, otherPlaced,
      .key (getElem?_of_keyPlace? placed) (getElem?_of_keyPlace? otherPlaced)⟩
  · have missing := mt (rekeyed.positions position).2 member
    exact .inl ⟨List.idxOf?_eq_none_iff.2 member, List.idxOf?_eq_none_iff.2 missing⟩

theorem call_eq (n : Node α) : g.call n = h.call n :=
  call_congr rekeyed.header rekeyed.settings rekeyed.catalog n

theorem agree_operand (n : Node α) :
    Agree (GroupExpression.Rekeyed g.positions h.positions) (g.operand n) (h.operand n) := by
  rw [operand, operand, rekeyed.call_eq, rekeyed.header]
  split
  · exact Agree.bind_same fun c => .accepted (.call c)
  · refine Agree.bind_same fun name => ?_
    cases h.header.column? name with
    | none => exact .refused _
    | some column =>
      rcases rekeyed.keyPlace?_cases column.2 with
        ⟨missing, otherMissing⟩ | ⟨place, place', placed, otherPlaced, keys⟩
      · simp only [Option.bind_some, missing, otherMissing]
        exact .refused _
      · simp only [Option.bind_some, placed, otherPlaced]
        exact .accepted keys

theorem agree_groupTest (item : Node α) :
    Agree (GroupTest.Rekeyed g.positions h.positions) (g.groupTest item) (h.groupTest item) := by
  rw [groupTest, groupTest, rekeyed.settings]
  refine Agree.bind_same fun test => ?_
  exact (rekeyed.agree_operand test.operand).bind fun e f operands => .accepted ⟨operands, rfl, rfl⟩

theorem agree_having (clause : Node α) : Agree Rekeyed (g.having clause) (h.having clause) := by
  rw [having, having]
  refine Agree.bind_same fun condition => ?_
  have made := Formula.agree_ofNode condition fun item _ => rekeyed.agree_groupTest item
  refine made.bind fun φ ψ formulas => ?_
  refine (Groups.agree_satisfying rekeyed.positions rekeyed.groups formulas).bind ?_
  intro groups groups' related
  exact .accepted ⟨rekeyed.positions, related, rekeyed.header, rekeyed.settings, rekeyed.catalog⟩

theorem agree_expressionItem (expression : Node α) :
    Agree (Item.Rekeyed g.positions h.positions) (g.expressionItem expression)
      (h.expressionItem expression) := by
  rw [expressionItem, expressionItem, rekeyed.call_eq, rekeyed.header]
  split
  · refine Agree.bind_same fun name => Agree.bind_same ?_
    rintro ⟨column, position⟩
    rcases rekeyed.keyPlace?_cases position with
      ⟨missing, otherMissing⟩ | ⟨place, place', placed, otherPlaced, keys⟩
    · simp only [missing, otherMissing]
      exact .refused _
    · simp only [placed, otherPlaced]
      exact .accepted ⟨rfl, keys⟩
  · exact Agree.bind_same fun heading => Agree.bind_same fun c => .accepted ⟨rfl, .call c⟩
  · exact .refused _
  · exact .refused _

theorem agree_item (n : Node α) :
    Agree (Item.Rekeyed g.positions h.positions) (g.item n) (h.item n) := by
  by_cases isItem : n.tag = .selectItem
  · rw [item_of_selectItem isItem, item_of_selectItem isItem]
    exact Agree.bind_same rekeyed.agree_expressionItem
  · rw [item_of_expression isItem, item_of_expression isItem]
    exact rekeyed.agree_expressionItem n

theorem select_eq (nodes : List (Node α)) : g.select nodes = h.select nodes := by
  apply Agree.eq
  rw [select, select, rekeyed.header]
  have made : Agree (List.Forall₂ (Item.Rekeyed g.positions h.positions)) (nodes.mapM g.item)
      (nodes.mapM h.item) := by
    have same : List.Forall₂ (· = ·) nodes nodes := List.forall₂_refl nodes
    apply Agree.mapM same
    rintro n _ rfl
    exact rekeyed.agree_item n
  refine made.bind fun items others lists => ?_
  have rows : Agree (List.Forall₂ (· = ·))
      (g.groups.entries.mapM fun group => row items group.1 group.2)
      (h.groups.entries.mapM fun group => row others group.1 group.2) := by
    apply Agree.mapM rekeyed.groups
    rintro group other ⟨keys, members⟩
    rw [Item.Rekeyed.row_eq lists keys, members]
    exact Agree.refl _
  rw [Item.Rekeyed.names_eq lists]
  refine Agree.bind rows fun rows others same => ?_
  rw [List.forall₂_eq_eq_eq] at same
  rw [same]
  exact Agree.refl _

end Rekeyed

end Grouping

end TableQuery
