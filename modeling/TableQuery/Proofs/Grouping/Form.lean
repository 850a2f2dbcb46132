import TableQuery.Proofs.Grouping.Having
import TableQuery.Proofs.Grouping.Refusals
import TableQuery.Proofs.Grouping.Reordered

/-! # What a selection owes to its form

Items are made before any group is looked at, so that groupings that differ in
their groups alone make the same items, or are refused for the same cause, even
where one of them has no groups at all.  Once the items are made, the columns
of the answer are known, and the one thing that can still be refused is a
column of cells, by an aggregate of the catalog.
-/

namespace TableQuery

variable {α : Type}

/-! ## Refusals of items -/

/-- Whether a refusal is one that the making of items can have. -/
def Refusal.isOfItems : Refusal → Bool
  | .columnNotFound _ | .notGrouped _ | .unknownFunction _ | .malformedNode _ _
  | .missingChild _ _ _ => true
  | _ => false

abbrev RefusesItems {β : Type} (x : Except Refusal β) : Prop :=
  RefusesOnly (fun refusal => refusal.isOfItems = true) x

theorem Header.refusesItems_column (h : Header) (name : String) : RefusesItems (h.column name) := by
  intro refusal refused
  obtain ⟨rfl, _⟩ := column_eq_error.1 refused
  rfl

theorem Catalog.refusesItems_resolve (c : Catalog) (settings : Settings) (name : String) :
    RefusesItems (c.resolve settings name) := by
  intro refusal refused
  obtain ⟨rfl, _⟩ := resolve_eq_error.1 refused
  rfl

namespace Node

theorem refusesItems_name (n : Node α) : RefusesItems n.name := by
  unfold name
  split
  · exact RefusesOnly.pure _
  · exact RefusesOnly.throw rfl

theorem refusesItems_selected (n : Node α) : RefusesItems n.selected := by
  unfold selected
  split
  · unfold itemExpression
    split
    · exact RefusesOnly.pure _
    · exact RefusesOnly.throw rfl
  · exact RefusesOnly.pure _

theorem refusesItems_argument (n : Node α) : RefusesItems n.argument := by
  unfold argument
  split
  · split
    · exact RefusesOnly.pure _
    · exact RefusesOnly.throw rfl
  · exact RefusesOnly.throw rfl

theorem refusesItems_heading (n : Node α) : RefusesItems n.heading := by
  induction n using induction with
  | step n ih =>
    rw [heading_eq]
    apply RefusesOnly.bind n.refusesItems_name
    intro name _
    apply RefusesOnly.bind n.refusesItems_argument
    intro arg argued
    apply RefusesOnly.bind
    · unfold argumentHeading
      split
      · exact arg.refusesItems_name
      · exact RefusesOnly.pure _
      · exact ih arg (mem_of_argument argued)
    · exact fun _ _ => RefusesOnly.pure _

end Node

namespace Grouping

variable {g h : Grouping}

theorem refusesItems_call (g : Grouping) (n : Node α) : RefusesItems (g.call n) := by
  induction n using Node.induction with
  | step n ih =>
    rw [call_eq]
    apply RefusesOnly.bind n.refusesItems_argument
    intro arg argued
    apply RefusesOnly.bind
    · unfold callOn
      split
      · apply RefusesOnly.bind arg.refusesItems_name
        intro column _
        apply RefusesOnly.bind
        · apply RefusesOnly.bind (g.header.refusesItems_column column)
          exact fun _ _ => RefusesOnly.pure _
        · exact fun _ _ => RefusesOnly.pure _
      · exact RefusesOnly.pure _
      · apply RefusesOnly.bind (ih arg (Node.mem_of_argument argued))
        exact fun _ _ => RefusesOnly.pure _
    · intro make _
      apply RefusesOnly.bind n.refusesItems_name
      intro name _
      apply RefusesOnly.bind (g.catalog.refusesItems_resolve g.settings name)
      exact fun _ _ => RefusesOnly.pure _

theorem refusesItems_expressionItem (g : Grouping) (e : Node α) :
    RefusesItems (g.expressionItem e) := by
  unfold expressionItem
  split
  · apply RefusesOnly.bind (Node.refusesItems_name e)
    intro name _
    apply RefusesOnly.bind (g.header.refusesItems_column name)
    rintro ⟨column, position⟩ _
    simp only
    split
    · exact RefusesOnly.pure _
    · exact RefusesOnly.throw rfl
  · apply RefusesOnly.bind (Node.refusesItems_heading e)
    intro heading _
    apply RefusesOnly.bind (g.refusesItems_call e)
    exact fun _ _ => RefusesOnly.pure _
  · exact RefusesOnly.throw rfl
  · exact RefusesOnly.throw rfl

theorem refusesItems_item (g : Grouping) (n : Node α) : RefusesItems (g.item n) := by
  rw [item_eq]
  apply RefusesOnly.bind (Node.refusesItems_selected n)
  exact fun e _ => g.refusesItems_expressionItem e

end Grouping

/-! ## Refusals of aggregates -/

/-- Whether a call applies an aggregate to a column of cells, on the rows of a group. -/
inductive Call.Applies (rows : List Row) : Call → Aggregate → List Cell → Prop where
  | ordinals (a : Aggregate) :
      Applies rows (.ofOrdinals a) a ((List.range' 1 rows.length).map fun n : Nat => Cell.ofInt n)
  | column (a : Aggregate) (position : Nat) :
      Applies rows (.ofColumn a position) a (rows.map fun row => row.cell position)
  | value {inner : Call} {cell : Cell} (a : Aggregate) (read : inner.evaluate rows = .ok cell) :
      Applies rows (.ofCall a inner) a [cell]
  | inside {inner : Call} {b : Aggregate} {cells : List Cell} (a : Aggregate)
      (applies : Applies rows inner b cells) : Applies rows (.ofCall a inner) b cells

theorem Call.refusesOnly_applied (c : Call) (rows : List Row) :
    RefusesOnly (fun refusal => ∃ a cells, c.Applies rows a cells ∧ a.reduce cells = .error refusal)
      (c.evaluate rows) := by
  induction c with
  | ofOrdinals a => exact fun refusal refused => ⟨a, _, .ordinals a, refused⟩
  | ofColumn a position => exact fun refusal refused => ⟨a, _, .column a position, refused⟩
  | ofCall a inner ih =>
    apply RefusesOnly.bind
    · refine ih.imp ?_
      rintro refusal ⟨b, cells, applies, refused⟩
      exact ⟨b, cells, .inside a applies, refused⟩
    · exact fun cell read refusal refused => ⟨a, [cell], .value a read, refused⟩

namespace Grouping

variable {g h : Grouping} {nodes : List (Node α)}

/-- Whether a refusal is that of an aggregate in a selected item, for cells of some group. -/
def AggregateRefuses (g : Grouping) (nodes : List (Node α)) (refusal : Refusal) : Prop :=
  ∃ n ∈ nodes, ∃ i c, g.item n = .ok i ∧ i.expression = .call c ∧
    ∃ group ∈ g.groups.entries, ∃ a cells,
      c.Applies group.2 a cells ∧ a.reduce cells = .error refusal

/-- Once the items are made, only aggregates refuse. -/
theorem refusesOnly_select_of_made {items : List Item} (made : nodes.mapM g.item = .ok items) :
    RefusesOnly (g.AggregateRefuses nodes) (g.select nodes) := by
  apply refusesOnly_select
  · intro n member
    obtain ⟨i, _, isItem⟩ := exists_outcome_of_mem made member
    exact RefusesOnly.of_ok isItem
  · intro n member i isItem group isGroup
    cases isExpression : i.expression with
    | key place => exact RefusesOnly.pure _
    | call c =>
      rintro refusal refused
      obtain ⟨a, cells, applies, refused⟩ := c.refusesOnly_applied group.2 refusal refused
      exact ⟨n, member, i, c, isItem, isExpression, group, isGroup, a, cells, applies, refused⟩

/-! ## Groupings of one form -/

/-- Whether two groupings differ in their groups alone. -/
structure SameForm (g h : Grouping) : Prop where
  positions : g.positions = h.positions
  header : g.header = h.header
  settings : g.settings = h.settings
  catalog : g.catalog = h.catalog

theorem SameForm.mapM_item (alike : g.SameForm h) (nodes : List (Node α)) :
    nodes.mapM g.item = nodes.mapM h.item := by
  rw [funext (item_congr alike.positions alike.header alike.settings alike.catalog)]

theorem select_of_refused {refusal : Refusal} (refused : nodes.mapM g.item = .error refusal) :
    g.select nodes = .error refusal := by
  rw [select, refused]
  rfl

/-- Whether a node asks of a group more than its key has: a column that is not grouped by, or all
columns. -/
inductive IsUngrouped (g : Grouping) (n : Node α) : Prop where
  | column {e : Node α} {name : String} {position : Nat} (selected : n.selected = .ok e)
      (isColumn : e.kind = .column) (named : e.name = .ok name)
      (resolved : g.header.position name = .ok position) (outside : position ∉ g.positions)
  | star {e : Node α} {owner : Option String} (selected : n.selected = .ok e)
      (isStar : e.kind = .star owner)

theorem IsUngrouped.item_eq_error {n : Node α} (ungrouped : g.IsUngrouped n) :
    ∃ name, g.item n = .error (.notGrouped name) := by
  cases ungrouped with
  | @column e name position selected isColumn named resolved outside =>
    obtain ⟨column, found, rfl⟩ := Header.position_eq_ok.1 resolved
    have missing : g.keyPlace? column.2 = none := List.idxOf?_eq_none_iff.2 outside
    refine ⟨name, ?_⟩
    rw [item_eq, selected, ok_bind, expressionItem, isColumn]
    simp only [named, ok_bind, Header.column_eq_ok.2 found, missing]
    rfl
  | star selected isStar =>
    refine ⟨Kind.starText none, ?_⟩
    rw [item_eq, selected, ok_bind, expressionItem, isStar]
    rfl

/-- Two selections of the same nodes from groupings of one form are both refused for what the nodes
are, for the same cause, or both make their items.  Then each of them can only be refused by an
aggregate for cells of one of its groups, and answers have the same header.  What is not grouped by
is refused whatever the groups are. -/
theorem select_of_sameForm (alike : g.SameForm h) (nodes : List (Node α)) :
    ((∃ refusal, refusal.isOfItems = true ∧
        nodes.mapM g.item = .error refusal ∧ nodes.mapM h.item = .error refusal ∧
        g.select nodes = .error refusal ∧ h.select nodes = .error refusal) ∨
      (∃ items, nodes.mapM g.item = .ok items ∧ nodes.mapM h.item = .ok items) ∧
        (∀ refusal, g.select nodes = .error refusal → g.AggregateRefuses nodes refusal) ∧
        (∀ refusal, h.select nodes = .error refusal → h.AggregateRefuses nodes refusal) ∧
        ∀ t u, g.select nodes = .ok t → h.select nodes = .ok u → t.header = u.header) ∧
    ∀ n ∈ nodes, g.IsUngrouped n →
      ∃ refusal, refusal.isOfItems = true ∧
        g.select nodes = .error refusal ∧ h.select nodes = .error refusal := by
  have same := alike.mapM_item nodes
  cases made : nodes.mapM g.item with
  | error refusal =>
    have otherMade := same.symm.trans made
    have ofItems : refusal.isOfItems = true :=
      RefusesOnly.mapM (fun n _ => g.refusesItems_item n) refusal made
    have refused := select_of_refused made
    have otherRefused := select_of_refused otherMade
    exact ⟨.inl ⟨refusal, ofItems, rfl, otherMade, refused, otherRefused⟩,
      fun _ _ _ => ⟨refusal, ofItems, refused, otherRefused⟩⟩
  | ok items =>
    have otherMade := same.symm.trans made
    refine ⟨.inr ⟨⟨items, rfl, otherMade⟩, refusesOnly_select_of_made made,
      refusesOnly_select_of_made otherMade, ?_⟩, ?_⟩
    · intro t u selected otherSelected
      obtain ⟨_, madeAgain, header, _⟩ := select_eq_ok selected
      obtain ⟨_, otherMadeAgain, otherHeader, _⟩ := select_eq_ok otherSelected
      cases made.symm.trans madeAgain
      cases otherMade.symm.trans otherMadeAgain
      rw [header, otherHeader, alike.header]
    · -- A node that is not grouped by makes no item, but all of them have made theirs.
      intro n member ungrouped
      obtain ⟨name, refused⟩ := ungrouped.item_eq_error
      obtain ⟨i, _, isItem⟩ := exists_outcome_of_mem made member
      cases isItem.symm.trans refused

def amountByRegion : List (Node Unit) :=
  [⟨(), .column, [⟨(), .identifier "region", []⟩]⟩,
    ⟨(), .column, [⟨(), .identifier "amount", []⟩]⟩]

/-- Without any sales, the regions are counted under the same columns, and their amounts are refused
for the same cause. -/
theorem select_of_noSales :
    (∃ t u, salesByRegion.select Table.countByRegion = .ok t ∧
      { salesByRegion with groups := ∅ }.select Table.countByRegion = .ok u ∧
        t.header = u.header) ∧
    ∃ refusal, refusal.isOfItems = true ∧ salesByRegion.select amountByRegion = .error refusal ∧
      { salesByRegion with groups := ∅ }.select amountByRegion = .error refusal := by
  have alike : salesByRegion.SameForm { salesByRegion with groups := ∅ } := ⟨rfl, rfl, rfl, rfl⟩
  have counted : salesByRegion.select Table.countByRegion = .ok _ := rfl
  have noneCounted :
      { salesByRegion with groups := ∅ }.select Table.countByRegion = .ok _ := rfl
  obtain ⟨answers, _⟩ := select_of_sameForm alike Table.countByRegion
  obtain ⟨_, ungrouped⟩ := select_of_sameForm alike amountByRegion
  constructor
  · cases answers with
    | inl refused =>
      obtain ⟨refusal, _, _, _, refused, _⟩ := refused
      cases counted.symm.trans refused
    | inr made =>
      obtain ⟨_, _, _, sameHeader⟩ := made
      exact ⟨_, _, counted, noneCounted, sameHeader _ _ counted noneCounted⟩
  · exact ungrouped _ (List.mem_cons_of_mem _ List.mem_cons_self)
      (.column rfl rfl rfl rfl (by decide : 1 ∉ salesByRegion.positions))

end Grouping

end TableQuery
