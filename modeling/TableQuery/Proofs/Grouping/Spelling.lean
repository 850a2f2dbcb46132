import TableQuery.Proofs.Grouping.Nested
import TableQuery.Proofs.Grouping.Select
import TableQuery.Proofs.Statement.Spelling

/-! # Functions under names of any letter case

Where the settings fold the letter case of function names, a call is the same
for all spellings of the names in it, as deep as they are nested, and so is
what is made of calls: the operands and tests of conditions, and what an item
reads off a group.  Only the heading of a function, under which its values are
selected, is spelled as its names are, and so is the refusal of a function that
has no aggregate.  Headings that are the same in one spelling may differ in
another, so that the columns of the two tables need not be as many; but rows do
not depend on names.
-/

namespace TableQuery

variable {α β : Type}

/-- The refusal with the name of an unknown function in lower case.  No other refusal says how a
function was spelled. -/
def Refusal.folded : Refusal → Refusal
  | .unknownFunction name => .unknownFunction (foldCase name)
  | refusal => refusal

/-- Whether two tables have the same rows, each under names that are the names of the other one up
to letter case. -/
structure Table.Respelled (t u : Table) : Prop where
  rows : t.rows = u.rows
  headers : ∃ (names others : List String) (aliases : Aliases),
    names.map foldCase = others.map foldCase ∧ t.header = .ofNamesFirst names aliases ∧
      u.header = .ofNamesFirst others aliases

theorem Catalog.resolve_foldCase {settings : Settings} (folds : settings.foldFunctionNames = true)
    (c : Catalog) (name : String) :
    (c.resolve settings (foldCase name)).mapError Refusal.folded =
      (c.resolve settings name).mapError Refusal.folded := by
  simp only [resolve, folds, if_true, foldCase_foldCase]
  cases c.get? (foldCase name) with
  | none =>
    refine congrArg (fun name => Except.error (Refusal.unknownFunction name)) ?_
    exact foldCase_foldCase name
  | some a => rfl

namespace Grouping

/-! ## Calls and conditions -/

section Folded

variable {g : Grouping} (folds : g.settings.foldFunctionNames = true)

include folds

theorem resolve_name_foldNames (n : Node α) (next : Aggregate → Except Refusal β) :
    (do next (← g.catalog.resolve g.settings (← n.foldNames.name))).mapError Refusal.folded =
      (do next (← g.catalog.resolve g.settings (← n.name))).mapError Refusal.folded := by
  have folded : ∀ name : Except Refusal String,
      (do next (← g.catalog.resolve g.settings (← foldCase <$> name))).mapError Refusal.folded =
        (do next (← g.catalog.resolve g.settings (← name))).mapError Refusal.folded := by
    intro name
    cases name with
    | error refusal => rfl
    | ok name =>
      rw [map_ok, ok_bind, ok_bind, mapError_bind, mapError_bind,
        Catalog.resolve_foldCase folds g.catalog name]
  rw [← folded n.foldNames.name, Node.foldCase_name_foldNames, folded]

omit folds in
theorem callOn_foldNames {arg : Node α} (isExpression : arg.tag.isExpression = true)
    (called : (g.call arg.foldNames).mapError Refusal.folded =
      (g.call arg).mapError Refusal.folded) :
    (g.callOn arg.foldNames).mapError Refusal.folded =
      (g.callOn arg).mapError Refusal.folded := by
  unfold callOn
  rw [Node.kind_foldNames]
  rcases Node.kind_of_isExpression isExpression with isColumn | isFunction | ⟨owner, isStar⟩
  · have noFunction : arg.tag ≠ .function := by rw [Node.tag, isColumn]; decide
    simp only [isColumn, Node.name_foldNames_of_other noFunction]
  · simp only [isFunction, mapError_bind, called]
  · simp only [isStar]

theorem call_foldNames (n : Node α) :
    (g.call n.foldNames).mapError Refusal.folded = (g.call n).mapError Refusal.folded := by
  induction n using Node.induction with
  | step n ih =>
    rw [call_eq, call_eq, Node.argument_foldNames]
    cases argued : n.argument with
    | error refusal => rfl
    | ok arg =>
      have made := callOn_foldNames (Node.isExpression_of_argument argued)
        (ih arg (Node.mem_of_argument argued))
      rw [map_ok, ok_bind, ok_bind, mapError_bind, mapError_bind, made]
      exact bind_congr fun make => resolve_name_foldNames folds n _

theorem operand_foldNames (n : Node α) :
    (g.operand n.foldNames).mapError Refusal.folded = (g.operand n).mapError Refusal.folded := by
  rw [operand, operand, Node.tag_foldNames]
  split
  · rw [mapError_bind, mapError_bind, call_foldNames folds]
  · next noFunction => rw [Node.name_foldNames_of_other noFunction]

theorem groupTest_foldNames {n : Node α} (noFunction : n.tag ≠ .function) :
    (g.groupTest n.foldNames).mapError Refusal.folded =
      (g.groupTest n).mapError Refusal.folded := by
  rw [groupTest, groupTest, Node.test_foldNames noFunction, bind_map_left, mapError_bind,
    mapError_bind]
  refine bind_congr fun test => ?_
  rw [mapError_bind, mapError_bind, Test.map, operand_foldNames folds]

theorem formula_foldNames (condition : Node α) :
    (Formula.ofNode g.groupTest condition.foldNames).mapError Refusal.folded =
      (Formula.ofNode g.groupTest condition).mapError Refusal.folded := by
  apply Formula.ofNode_map Node.kind_foldNames
  · intro n connective isLogical
    exact Node.children_foldNames_of_other (by rw [Node.tag, isLogical, Kind.tag]; decide)
  · intro item isItem
    exact groupTest_foldNames folds (by rw [Node.tag, isItem]; decide)

theorem having_foldNames (clause : Node α) :
    (g.having clause.foldNames).mapError Refusal.folded =
      (g.having clause).mapError Refusal.folded := by
  rw [having, having, Node.conditionOf_foldNames (by decide), bind_map_left, mapError_bind,
    mapError_bind]
  refine bind_congr fun condition => ?_
  rw [mapError_bind, mapError_bind, formula_foldNames folds]

end Folded

def Item.folded (i : Item) : Item := { i with name := foldCase i.name }

theorem folded_function (heading : Except Refusal String) (call : Except Refusal Call) :
    Item.folded <$> Except.mapError Refusal.folded
        (do return ⟨← heading, .call (← call)⟩ : Except Refusal Item) =
      (do return ⟨← (foldCase <$> heading).mapError Refusal.folded,
        .call (← call.mapError Refusal.folded)⟩ : Except Refusal Item) := by
  cases heading <;> cases call <;> rfl

section Folded

variable {g : Grouping} (folds : g.settings.foldFunctionNames = true)

include folds

theorem expressionItem_foldNames (n : Node α) :
    Item.folded <$> (g.expressionItem n.foldNames).mapError Refusal.folded =
      Item.folded <$> (g.expressionItem n).mapError Refusal.folded := by
  unfold expressionItem
  rw [Node.kind_foldNames, Node.malformed_foldNames]
  split
  · next isColumn =>
    have noFunction : n.tag ≠ .function := by rw [Node.tag, isColumn]; decide
    rw [Node.name_foldNames_of_other noFunction]
  · rw [folded_function, folded_function, Node.foldCase_heading_foldNames, call_foldNames folds]
  · rfl
  · rfl

theorem item_foldNames (n : Node α) :
    Item.folded <$> (g.item n.foldNames).mapError Refusal.folded =
      Item.folded <$> (g.item n).mapError Refusal.folded := by
  by_cases isItem : n.tag = .selectItem
  · rw [item_of_selectItem isItem, item_of_selectItem (n.tag_foldNames.trans isItem),
      Node.itemExpression_foldNames (by rw [isItem]; decide), bind_map_left, mapError_bind,
      mapError_bind, map_bind, map_bind]
    simp only [expressionItem_foldNames folds]
  · have noItem : n.foldNames.tag ≠ .selectItem := by rwa [Node.tag_foldNames]
    rw [item_of_expression isItem, item_of_expression noItem, expressionItem_foldNames folds]

theorem agree_item_of_foldNames {n : Node α} {m : Node β} (alike : n.foldNames = m.foldNames) :
    Agree (fun i j => i.folded = j.folded) ((g.item n).mapError Refusal.folded)
      ((g.item m).mapError Refusal.folded) := by
  apply Agree.of_map_eq
  rw [← item_foldNames folds n, alike, item_foldNames folds m]

end Folded

/-! ## Tables -/

section Respelled

variable {items others : List Item}
  (alike : List.Forall₂ (fun i j => i.folded = j.folded) items others)

include alike

theorem row_of_folded : row items = row others := by
  funext key rows
  refine mapM_congr_of_forall₂ (alike.imp ?_)
  intro i j same
  rw [(Item.mk.inj same).2]

theorem names_of_folded :
    (items.map (·.name)).map foldCase = (others.map (·.name)).map foldCase := by
  rw [List.map_map, List.map_map, ← List.forall₂_eq_eq_eq, List.forall₂_map_left_iff,
    List.forall₂_map_right_iff]
  exact alike.imp fun _ _ same => (Item.mk.inj same).1

theorem agree_tabulate (g : Grouping) :
    Agree Table.Respelled (g.tabulate items) (g.tabulate others) := by
  rw [tabulate, tabulate, row_of_folded alike]
  cases read : g.groups.entries.mapM fun group => row others group.1 group.2 with
  | error refusal => exact .refused refusal
  | ok rows =>
    -- The rows are as wide as there are items, however many columns the names make.
    obtain ⟨u, right⟩ := exists_table_of_rows g.header.aliases read
    rw [← row_of_folded alike] at read
    obtain ⟨t, left⟩ := exists_table_of_rows g.header.aliases read
    rw [ok_bind, ok_bind, left, right]
    refine .accepted ⟨?_, _, _, _, names_of_folded alike, Table.header_of_ofRows left,
      Table.header_of_ofRows right⟩
    rw [Table.rows_of_ofRows left, Table.rows_of_ofRows right]

end Respelled

/-- Where function names are folded, items that differ in the spelling of function names alone
select the same rows, and conditions that differ so keep the same groups in the same order; or they
are refused for the same cause, which may say how a function was spelled. -/
theorem ignores_spelling {g : Grouping} (folds : g.settings.foldFunctionNames = true) :
    (∀ (nodes : List (Node α)) (others : List (Node β)),
      nodes.map Node.foldNames = others.map Node.foldNames →
        Agree Table.Respelled ((g.select nodes).mapError Refusal.folded)
          ((g.select others).mapError Refusal.folded)) ∧
    ∀ (clause : Node α) (other : Node β), clause.foldNames = other.foldNames →
      (g.having clause).mapError Refusal.folded = (g.having other).mapError Refusal.folded := by
  constructor
  · intro nodes others alike
    rw [← List.forall₂_eq_eq_eq, List.forall₂_map_left_iff, List.forall₂_map_right_iff] at alike
    rw [select_eq_tabulate, select_eq_tabulate, mapError_bind, mapError_bind, mapError_mapM,
      mapError_mapM]
    refine Agree.bind (Agree.mapM alike fun _ _ => agree_item_of_foldNames folds) ?_
    intro items otherItems same
    exact (agree_tabulate same g).mapError Refusal.folded
  · intro clause other alike
    rw [← having_foldNames folds clause, alike, having_foldNames folds other]

/-- The greatest sum of amounts, once for every spelling of its two names. -/
def greatestSums (spellings : List (String × String)) : List (Node Unit) :=
  spellings.map fun spelling => ofFunction spelling.1 (ofAmounts spelling.2)

def severalRowsBy (name : String) : Node Unit :=
  ⟨(), .filterItem, [ofFunction name ⟨(), .star none, []⟩, ⟨(), .comparator .gt, []⟩,
    ⟨(), .identifier "1", []⟩]⟩

/-- Two headings that are one column in one spelling and two columns in another. -/
theorem ignores_spelling_of_greatestSums : ∃ t u,
    salesByRegion.select (greatestSums [("max", "sum"), ("max", "sum")]) = .ok t ∧
    salesByRegion.select (greatestSums [("MAX", "sum"), ("Max", "SUM")]) = .ok u ∧
    t.header.columns.keys = ["max(sum(amount))"] ∧
    u.header.columns.keys = ["MAX(sum(amount))", "Max(SUM(amount))"] ∧ t.rows = u.rows ∧
    ∃ kept, salesByRegion.having (severalRowsBy "count") = .ok kept ∧
      salesByRegion.having (severalRowsBy "Count") = .ok kept := by
  have left : ∃ t, salesByRegion.select (greatestSums [("max", "sum"), ("max", "sum")]) = .ok t ∧
      t.header.columns.keys = ["max(sum(amount))"] := ⟨_, rfl, rfl⟩
  have right : ∃ u, salesByRegion.select (greatestSums [("MAX", "sum"), ("Max", "SUM")]) = .ok u ∧
      u.header.columns.keys = ["MAX(sum(amount))", "Max(SUM(amount))"] := ⟨_, rfl, rfl⟩
  have kept : salesByRegion.having (severalRowsBy "count") = .ok _ := rfl
  obtain ⟨t, selected, columns⟩ := left
  obtain ⟨u, otherSelected, otherColumns⟩ := right
  obtain ⟨selects, keeps⟩ := ignores_spelling (α := Unit) (β := Unit) (g := salesByRegion) rfl
  have tables := selects (greatestSums [("max", "sum"), ("max", "sum")])
    (greatestSums [("MAX", "sum"), ("Max", "SUM")]) rfl
  have groups := keeps (severalRowsBy "Count") (severalRowsBy "count") rfl
  rw [selected, otherSelected] at tables
  rw [kept] at groups
  cases tables with
  | accepted same =>
    exact ⟨t, u, selected, otherSelected, columns, otherColumns, same.rows, _, kept,
      mapError_eq_ok.1 groups⟩

end Grouping

end TableQuery
