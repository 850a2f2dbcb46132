import TableQuery.Proofs.Grouping.Rekeyed
import TableQuery.Proofs.Query.Refusals
import TableQuery.Proofs.Query.Sameness

/-! # Queries that group by the same columns

The order of the columns of GROUP BY does not count, nor does it count whether
one of them is repeated, under its name or an alias: only the positions do
that the columns stand for.
-/

namespace TableQuery

namespace Node

variable {α β : Type} {n : Node α} {m : Node β} {settings : Settings} {catalog : Catalog}
  {t : Table} {positions otherPositions : List Nat}

theorem isSome_groupBy_iff (valid : n.validate = .ok ()) {header : Header}
    (resolved : n.groupPositions header = .ok positions) :
    (n.clause? .groupByClause).isSome = true ↔ ∃ position, position ∈ positions := by
  unfold groupPositions at resolved
  split at resolved
  · next clause found =>
    obtain ⟨nonempty, _⟩ := tag_of_mem_groupBy (valid_of_clause? valid found) (tag_of_clause? found)
    have sameLength := (mapM_eq_ok.1 resolved).length_eq
    have positive := List.length_pos_iff.2 nonempty
    rw [found]
    exact iff_of_true rfl (List.exists_mem_of_length_pos (by omega))
  · next missing =>
    cases resolved
    rw [missing]
    simp

theorem selectGroups_of_positions {items : List (Node α)} {others : List (Node β)}
    (sameItems : items.map erase = others.map erase)
    (sameHaving : sameClause .havingClause n m = true)
    (resolved : n.groupPositions t.header = .ok positions)
    (otherResolved : m.groupPositions t.header = .ok otherPositions)
    (same : ∀ position, position ∈ positions ↔ position ∈ otherPositions) :
    n.selectGroups items settings catalog t = m.selectGroups others settings catalog t := by
  obtain ⟨g, grouped⟩ := exists_groupAt_of_groupPositions resolved
  obtain ⟨h, otherGrouped⟩ := exists_groupAt_of_groupPositions otherResolved
  rw [selectGroups, selectGroups, resolved, otherResolved, ok_bind, ok_bind, grouped, otherGrouped,
    ok_bind, ok_bind]
  obtain ⟨_, rfl⟩ := Table.groupAt_eq_ok.1 grouped
  obtain ⟨_, rfl⟩ := Table.groupAt_eq_ok.1 otherGrouped
  have rekeyed : Grouping.Rekeyed
      ⟨positions, t.header, .ofRows positions t.rows, settings, catalog⟩
      ⟨otherPositions, t.header, .ofRows otherPositions t.rows, settings, catalog⟩ :=
    ⟨same, Groups.related_ofRows same t.rows, rfl, rfl, rfl⟩
  have selects : ∀ g h : Grouping, g.Rekeyed h → g.select items = h.select others := by
    intro g h rekeyed
    rw [rekeyed.select_eq, select_of_erase sameItems]
  rcases sameClause_cases sameHaving with
    ⟨missing, otherMissing⟩ | ⟨clause, other, found, otherFound, alike⟩
  · rw [missing, otherMissing]
    exact selects _ _ rekeyed
  · simp only [found, otherFound, ← having_congr alike]
    apply Agree.eq
    refine (rekeyed.agree_having clause).bind fun g h kept => ?_
    rw [selects g h kept]
    exact Agree.refl _

end Node

/-- Well-formed queries that differ in GROUP BY only have the same answer, or are refused for the
same cause, when the columns that they group by stand for the same positions under the aliases of
the selected items, in any order and however often. -/
theorem Query.run_eq_of_samePositions {q r : Query} {items : List (Node Nat)} {settings : Settings}
    {catalog : Catalog} {t u : Table} {positions otherPositions : List Nat}
    (valid : q.root.validate = .ok ()) (otherValid : r.root.validate = .ok ())
    (sameSelect : Node.sameClause .selectClause q.root r.root = true)
    (sameWhere : Node.sameClause .whereClause q.root r.root = true)
    (sameHaving : Node.sameClause .havingClause q.root r.root = true)
    (selects : q.root.selectItems = .ok items) (aliased : Node.addAliases items t = .ok u)
    (resolved : q.root.groupPositions u.header = .ok positions)
    (otherResolved : r.root.groupPositions u.header = .ok otherPositions)
    (same : ∀ position, position ∈ positions ↔ position ∈ otherPositions) :
    q.run settings catalog t = r.run settings catalog t := by
  obtain ⟨others, otherSelects, sameItems⟩ := Node.exists_selectItems_of_same sameSelect selects
  have sameGroupBy : (q.root.clause? .groupByClause).isSome =
      (r.root.clause? .groupByClause).isSome := by
    rw [Bool.eq_iff_iff, Node.isSome_groupBy_iff valid resolved,
      Node.isSome_groupBy_iff otherValid otherResolved]
    exact exists_congr same
  apply Node.run_congr valid otherValid selects otherSelects sameItems sameWhere
  intro left v sameHeader aliasedAgain
  obtain ⟨_, w, aliasedTable, header⟩ := Node.addAliases_congr sameHeader aliasedAgain
  obtain rfl := Except.ok.inj (aliased.symm.trans aliasedTable)
  rw [header] at resolved otherResolved
  rw [Node.isGrouped_congr sameItems sameGroupBy sameHaving, Node.selectRows_of_erase sameItems,
    Node.selectGroups_of_positions sameItems sameHaving resolved otherResolved same]

def Query.salesByAmount : Query :=
  ⟨"amounts", 0, 15, ⟨0, .query, [
    ⟨1, .selectClause, [
      ⟨2, .selectItem, [⟨3, .column, [⟨4, .identifier "region", []⟩]⟩,
        ⟨5, .identifier "place", []⟩]⟩,
      ⟨6, .selectItem, [⟨7, .function, [⟨8, .identifier "COUNT", []⟩, ⟨9, .star none, []⟩]⟩]⟩]⟩,
    ⟨10, .groupByClause, [
      ⟨11, .column, [⟨12, .identifier "region", []⟩]⟩,
      ⟨13, .column, [⟨14, .identifier "amount", []⟩]⟩]⟩]⟩⟩

/-- The same with the amount first, and with the region under its alias as well. -/
def Query.salesByAmountAndPlace : Query :=
  ⟨"places", 1, 17, ⟨0, .query, [
    ⟨1, .selectClause, [
      ⟨2, .selectItem, [⟨3, .column, [⟨4, .identifier "region", []⟩]⟩,
        ⟨5, .identifier "place", []⟩]⟩,
      ⟨6, .selectItem, [⟨7, .function, [⟨8, .identifier "COUNT", []⟩, ⟨9, .star none, []⟩]⟩]⟩]⟩,
    ⟨10, .groupByClause, [
      ⟨11, .column, [⟨12, .identifier "amount", []⟩]⟩,
      ⟨13, .column, [⟨14, .identifier "place", []⟩]⟩,
      ⟨15, .column, [⟨16, .identifier "region", []⟩]⟩]⟩]⟩⟩

theorem Query.run_salesByAmountAndPlace :
    salesByAmount.run {} .builtin Table.sales =
      salesByAmountAndPlace.run {} .builtin Table.sales := by
  have same : ∀ position, position ∈ [0, 1] ↔ position ∈ [1, 0, 0] := by
    intro position
    simp only [List.mem_cons, List.not_mem_nil, or_false]
    omega
  exact run_eq_of_samePositions rfl rfl rfl rfl rfl rfl rfl rfl rfl same

end TableQuery
