import TableQuery.Proofs.Aggregate.Accumulators
import TableQuery.Proofs.Aggregate.Catalog
import TableQuery.Proofs.Grouping.Rekeyed
import Mathlib.Data.Multiset.MapFold

/-! # Groups of rows in another order

The order of the rows decides in which order their groups come, how the key of
a group is spelled and in which order its members stand.  It does not decide
which groups there are nor which rows they hold, and a count, of rows or of the
cells of a column, sees no more than that.
-/

namespace TableQuery

variable {α : Type}

section Distinct

variable [BEq α] [EquivBEq α]

theorem any_eq_false_of_apart {as : List α} {a b : α} (alike : a == b)
    (apart : ∀ c ∈ as, (a == c) = false) : as.any (· == b) = false := by
  rw [List.any_eq_false]
  intro c member found
  have different := apart c member
  rw [BEq.trans alike (BEq.symm found)] at different
  cases different

theorem rel_of_distinct {as bs : List α} (distinct : as.Pairwise fun a b => (a == b) = false)
    (others : bs.Pairwise fun a b => (a == b) = false)
    (same : ∀ a, as.any (· == a) = bs.any (· == a)) :
    Multiset.Rel (fun a b => a == b) (as : Multiset α) (bs : Multiset α) := by
  induction as generalizing bs with
  | nil =>
    have empty : bs = [] := by
      rw [List.eq_nil_iff_forall_not_mem]
      intro b member
      have held : bs.any (· == b) = true := List.any_eq_true.2 ⟨b, member, BEq.rfl⟩
      rw [← same b] at held
      cases held
    rw [empty]
    exact .zero
  | cons a as ih =>
    obtain ⟨apart, distinctRest⟩ := List.pairwise_cons.1 distinct
    have held : bs.any (· == a) = true := by
      rw [← same a, List.any_cons, BEq.rfl, Bool.true_or]
    obtain ⟨b, member, alike⟩ := List.any_eq_true.1 held
    obtain ⟨before, after, rfl⟩ := List.append_of_mem member
    have perm : (before ++ b :: after).Perm (b :: (before ++ after)) := List.perm_middle
    have symmetric {c d : α} (different : (c == d) = false) : (d == c) = false := by
      rw [BEq.comm]
      exact different
    obtain ⟨otherApart, othersRest⟩ := List.pairwise_cons.1 (perm.pairwise others symmetric)
    rw [Multiset.coe_eq_coe.2 perm, ← Multiset.cons_coe, ← Multiset.cons_coe]
    refine .cons (BEq.symm alike) (ih distinctRest othersRest fun c => ?_)
    cases first : a == c with
    | true =>
      rw [any_eq_false_of_apart first apart,
        any_eq_false_of_apart (BEq.trans alike first) otherApart]
    | false =>
      have whole := same c
      rw [perm.any_eq, List.any_cons, List.any_cons, BEq.congr_left alike, first] at whole
      exact whole

end Distinct

/-! ## Groups -/

/-- Whether two groups have one key, in any spelling, and the same members, in any order. -/
structure SameGroup (group other : Key × List Row) : Prop where
  key : group.1 == other.1
  members : group.2.Perm other.2

namespace Groups

variable {positions : List Nat} {rows others : List Row}

theorem rel_keysOf (perm : rows.Perm others) :
    Multiset.Rel (fun k l : Key => k == l) (keysOf positions rows : Multiset Key)
      (keysOf positions others : Multiset Key) := by
  apply rel_of_distinct (distinct_keysOf positions rows) (distinct_keysOf positions others)
  intro key
  rw [any_keysOf, any_keysOf, perm.any_eq]

theorem membersOf_perm (perm : rows.Perm others) {k l : Key} (alike : k == l) :
    (membersOf positions rows k).Perm (membersOf positions others l) := by
  have spelling : membersOf positions rows k = membersOf positions rows l :=
    List.filter_congr fun row _ => BEq.congr_right alike
  rw [spelling]
  exact perm.filter _

/-- Rows in any order make the same groups. -/
theorem rel_ofRows (perm : rows.Perm others) :
    Multiset.Rel SameGroup ((ofRows positions rows).entries : Multiset (Key × List Row))
      ((ofRows positions others).entries : Multiset (Key × List Row)) := by
  rw [entries_ofRows, entries_ofRows, ← Multiset.map_coe, ← Multiset.map_coe, Multiset.rel_map]
  exact (rel_keysOf perm).mono fun k _ l _ alike => ⟨alike, membersOf_perm perm alike⟩

end Groups

/-! ## Counts -/

theorem Catalog.eq_count_of_resolve {settings : Settings} {name : String} {a : Aggregate}
    (counts : foldCase name = "count") (found : builtin.resolve settings name = .ok a) :
    a = .count := by
  have key : foldCase (if settings.foldFunctionNames then foldCase name else name) = "count" := by
    split
    · rw [counts]
      rfl
    · exact counts
  have member := OrderedMap.get?_eq_some_iff.1 (resolve_eq_ok.1 found)
  have entries : builtin.aggregates.entries = [("count", .count), ("sum", .sum), ("avg", .avg),
      ("min", .min), ("max", .max)] := rfl
  rw [entries] at member
  simp only [List.mem_cons, Prod.mk.injEq, List.not_mem_nil, or_false] at member
  rcases member with ⟨_, rfl⟩ | ⟨named, _⟩ | ⟨named, _⟩ | ⟨named, _⟩ | ⟨named, _⟩
  · rfl
  all_goals
    rw [named] at key
    exact absurd key (by decide)

/-- What is read off a group whatever the order of its members. -/
inductive GroupExpression.IgnoresOrder : GroupExpression → Prop where
  | key (place : Nat) : IgnoresOrder (.key place)
  | ordinals : IgnoresOrder (.call (.ofOrdinals .count))
  | column (position : Nat) : IgnoresOrder (.call (.ofColumn .count position))

theorem GroupExpression.IgnoresOrder.exists_cell {e : GroupExpression} (ignores : e.IgnoresOrder) :
    ∃ cell : Key × List Row → Cell, (∀ group, e.evaluate group.1 group.2 = .ok (cell group)) ∧
      ∀ group other, SameGroup group other → cell group == cell other := by
  have counted (rows : Key × List Row → List Cell)
      (length : ∀ group, (rows group).length = group.2.length) :
      ∃ cell : Key × List Row → Cell, (∀ group, Aggregate.count.reduce (rows group) =
        .ok (cell group)) ∧ ∀ group other, SameGroup group other → cell group == cell other := by
    refine ⟨fun group => Cell.ofInt group.2.length, fun group => ?_, fun group other same => ?_⟩
    · rw [Aggregate.count_reduce, length]
    · simp only [same.members.length_eq, BEq.rfl]
  cases ignores with
  | key place =>
    exact ⟨fun group => group.1.getD place .null, fun _ => rfl,
      fun _ _ same => getD_beq place .null same.key⟩
  | ordinals => exact counted _ fun _ => by rw [List.length_map, List.length_range']
  | column position => exact counted _ fun _ => List.length_map _

namespace Grouping

theorem exists_row {items : List Item} (ignores : ∀ i ∈ items, i.expression.IgnoresOrder) :
    ∃ cells : Key × List Row → Row, (∀ group, row items group.1 group.2 = .ok (cells group)) ∧
      ∀ group other, SameGroup group other → cells group == cells other := by
  induction items with
  | nil => exact ⟨fun _ => [], fun _ => rfl, fun _ _ _ => BEq.rfl⟩
  | cons item items ih =>
    obtain ⟨first, rest⟩ := List.forall_mem_cons.1 ignores
    obtain ⟨cell, read, same⟩ := first.exists_cell
    obtain ⟨cells, restRead, restSame⟩ := ih rest
    refine ⟨fun group => cell group :: cells group, fun group => ?_, fun group other alike => ?_⟩
    · have others := restRead group
      rw [row] at others ⊢
      rw [List.mapM_cons, read, ok_bind, others]
      rfl
    · rw [List.cons_beq_cons, same group other alike, restSame group other alike]
      rfl

end Grouping

/-! ## Selections -/

/-- The expression that a node selects: that of an item, or the node itself. -/
def Node.selected (n : Node α) : Except Refusal (Node α) :=
  if n.tag = .selectItem then n.itemExpression else pure n

/-- Whether a node is a column, or a call that counts rows or the cells of a column. -/
inductive Node.IsColumnOrCount : Node α → Prop where
  | column {n : Node α} (isColumn : n.tag = .column) : IsColumnOrCount n
  | count {mark : α} {first arg : Node α} {name : String} (named : first.identifier? = some name)
      (counts : foldCase name = "count") (plain : arg.tag = .column ∨ arg.tag = .star) :
      IsColumnOrCount ⟨mark, .function, [first, arg]⟩

namespace Grouping

variable {g : Grouping}

theorem item_eq (n : Node α) : g.item n = n.selected >>= g.expressionItem := by
  by_cases isItem : n.tag = .selectItem
  · rw [item_of_selectItem isItem, Node.selected, if_pos isItem]
  · rw [item_of_expression isItem, Node.selected, if_neg isItem]
    rfl

theorem item_congr {h : Grouping} (positions : g.positions = h.positions)
    (header : g.header = h.header) (settings : g.settings = h.settings)
    (catalog : g.catalog = h.catalog) (n : Node α) : g.item n = h.item n := by
  have place (position : Nat) : g.keyPlace? position = h.keyPlace? position := by
    rw [keyPlace?, keyPlace?, positions]
  have expression (e : Node α) : g.expressionItem e = h.expressionItem e := by
    simp only [expressionItem, place, header, call_congr header settings catalog]
  rw [item_eq, item_eq, funext expression]

theorem ignoresOrder_of_call {mark : α} {first arg : Node α} {name : String} {c : Call}
    (builtin : g.catalog = .builtin) (named : first.identifier? = some name)
    (counts : foldCase name = "count") (plain : arg.tag = .column ∨ arg.tag = .star)
    (called : g.call ⟨mark, .function, [first, arg]⟩ = .ok c) :
    (GroupExpression.call c).IgnoresOrder := by
  obtain ⟨_, _, a, argued, ownName, found, call⟩ := call_eq_ok called
  obtain ⟨_, _, children, carried, sameName⟩ := Node.exists_name_of_argument argued
  cases children
  cases named.symm.trans carried
  cases ownName.symm.trans sameName
  rw [builtin] at found
  obtain rfl := Catalog.eq_count_of_resolve counts found
  rcases call with ⟨_, position, _, _, _, rfl⟩ | ⟨_, _, rfl⟩ | ⟨_, isFunction, _, _⟩
  · exact .column position
  · exact .ordinals
  · rw [Node.tag, isFunction] at plain
    simp [Kind.tag] at plain

theorem ignoresOrder_of_item {n : Node α} {i : Item} (builtin : g.catalog = .builtin)
    (simple : ∀ e, n.selected = .ok e → e.IsColumnOrCount) (made : g.item n = .ok i) :
    i.expression.IgnoresOrder := by
  rw [item_eq, bind_eq_ok] at made
  obtain ⟨e, selected, made⟩ := made
  rcases expressionItem_eq_ok made with ⟨_, _, place, _, _, _, _, rfl⟩ |
    ⟨_, c, isFunction, _, called, rfl⟩
  · exact .key place
  · cases simple e selected with
    | column isColumn => simp [Node.tag, isFunction, Kind.tag] at isColumn
    | count named counts plain => exact ignoresOrder_of_call builtin named counts plain called

/-- Whether two groupings have the same groups in any order, and all else alike. -/
structure Reordered (g h : Grouping) : Prop where
  groups : Multiset.Rel SameGroup (g.groups.entries : Multiset (Key × List Row))
    (h.groups.entries : Multiset (Key × List Row))
  positions : g.positions = h.positions
  header : g.header = h.header
  settings : g.settings = h.settings
  catalog : g.catalog = h.catalog

theorem select_of_items {nodes : List (Node α)} {items : List Item}
    (made : nodes.mapM g.item = .ok items) {cells : Key × List Row → Row}
    (read : ∀ group, row items group.1 group.2 = .ok (cells group)) :
    ∃ t, g.select nodes = .ok t ∧
      t.header = Header.ofNamesFirst (items.map (·.name)) g.header.aliases ∧
      t.rows = g.groups.entries.map cells := by
  have rows : g.groups.entries.mapM (fun group => row items group.1 group.2) =
      .ok (g.groups.entries.map cells) := by
    rw [mapM_eq_ok, List.forall₂_map_right_iff, List.forall₂_same]
    exact fun group _ => read group
  obtain ⟨t, fits⟩ := exists_table_of_rows g.header.aliases rows
  refine ⟨t, ?_, Table.header_of_ofRows fits, Table.rows_of_ofRows fits⟩
  rw [select, made, ok_bind, rows]
  exact fits

end Grouping

/-- Whether two tables have the same rows in any order, cell by cell the same, under one header. -/
structure Table.Reordered (t u : Table) : Prop where
  header : t.header = u.header
  rows : Multiset.Rel (fun r s : Row => r == s) (t.rows : Multiset Row) (u.rows : Multiset Row)

namespace Grouping.Reordered

variable {g h : Grouping} (reordered : g.Reordered h)

include reordered

theorem item_eq (n : Node α) : g.item n = h.item n :=
  item_congr reordered.positions reordered.header reordered.settings reordered.catalog n

theorem withSettings (settings : Settings) :
    (g.withSettings settings).Reordered (h.withSettings settings) :=
  ⟨reordered.groups, reordered.positions, reordered.header, rfl, reordered.catalog⟩

theorem agree_select (builtin : g.catalog = .builtin) {nodes : List (Node α)}
    (simple : ∀ n ∈ nodes, ∀ e, n.selected = .ok e → e.IsColumnOrCount) :
    Agree Table.Reordered (g.select nodes) (h.select nodes) := by
  have items : nodes.mapM g.item = nodes.mapM h.item := by
    rw [funext reordered.item_eq]
  cases made : nodes.mapM g.item with
  | error refusal =>
    rw [select, select, ← items, made]
    exact .refused refusal
  | ok chosen =>
    have ignores : ∀ i ∈ chosen, i.expression.IgnoresOrder := by
      intro i member
      obtain ⟨n, isNode, isItem⟩ := exists_of_mem_mapM made member
      exact ignoresOrder_of_item builtin (simple n isNode) isItem
    obtain ⟨cells, read, same⟩ := exists_row ignores
    obtain ⟨t, selected, header, rows⟩ := select_of_items made read
    obtain ⟨u, otherSelected, otherHeader, otherRows⟩ := select_of_items (items ▸ made) read
    rw [selected, otherSelected]
    refine .accepted ⟨by rw [header, otherHeader, reordered.header], ?_⟩
    rw [rows, otherRows, ← Multiset.map_coe, ← Multiset.map_coe, Multiset.rel_map]
    exact reordered.groups.mono fun group _ other _ => same group other

end Grouping.Reordered

namespace Table

variable {t : Table} {rows : List Row}

def inOrder (t : Table) (perm : rows.Perm t.rows) : Table :=
  ⟨t.header, rows, t.fits.of_subset perm.subset⟩

theorem width_inOrder (perm : rows.Perm t.rows) : (t.inOrder perm).width = t.width := by
  cases rows with
  | nil =>
    rw [width, width, ← perm.nil_eq]
    rfl
  | cons row rest =>
    have member : row ∈ (t.inOrder perm).rows := List.mem_cons_self
    rw [← length_eq_width member, length_eq_width (perm.subset member)]

/-- Grouping the rows of a table in any order makes the same groups and, as far as columns and
counts go, the same selections. -/
theorem groupAt_inOrder (perm : rows.Perm t.rows) {positions : List Nat}
    (inside : ∀ position ∈ positions, position < t.width) :
    ∃ g h, t.groupAt positions = .ok g ∧ (t.inOrder perm).groupAt positions = .ok h ∧
      g.Reordered h ∧ ∀ (settings : Settings) (nodes : List (Node α)),
        (∀ n ∈ nodes, ∀ e, n.selected = .ok e → e.IsColumnOrCount) →
          Agree Table.Reordered ((g.withSettings settings).select nodes)
            ((h.withSettings settings).select nodes) := by
  have otherInside : ∀ position ∈ positions, position < (t.inOrder perm).width := by
    rw [width_inOrder]
    exact inside
  have reordered : Grouping.Reordered
      { positions, header := t.header, groups := Groups.ofRows positions t.rows }
      { positions, header := t.header, groups := Groups.ofRows positions rows } :=
    ⟨Groups.rel_ofRows perm.symm, rfl, rfl, rfl, rfl⟩
  refine ⟨_, _, groupAt_eq_ok.2 ⟨inside, rfl⟩, groupAt_eq_ok.2 ⟨otherInside, rfl⟩, reordered, ?_⟩
  exact fun settings nodes simple => (reordered.withSettings settings).agree_select rfl simple

def countByRegion : List (Node Unit) :=
  [⟨(), .column, [⟨(), .identifier "region", []⟩]⟩,
    ⟨(), .function, [⟨(), .identifier "COUNT", []⟩, ⟨(), .star none, []⟩]⟩]

theorem groupAt_inOrder_sales :
    ∃ g h, sales.groupAt [0] = .ok g ∧
      (sales.inOrder (List.reverse_perm _)).groupAt [0] = .ok h ∧ g.Reordered h ∧
        Agree Table.Reordered ((g.withSettings {}).select countByRegion)
          ((h.withSettings {}).select countByRegion) := by
  have inside : ∀ position ∈ [0], position < sales.width := by decide
  obtain ⟨g, h, grouped, otherGrouped, reordered, agree⟩ :=
    groupAt_inOrder (List.reverse_perm sales.rows) inside
  refine ⟨g, h, grouped, otherGrouped, reordered, agree {} countByRegion ?_⟩
  intro n member e selected
  simp only [countByRegion, List.mem_cons, List.not_mem_nil, or_false] at member
  rcases member with rfl | rfl
  · cases selected
    exact .column rfl
  · cases selected
    exact .count rfl (by decide : foldCase "COUNT" = "count") (.inr rfl)

end Table

end TableQuery
