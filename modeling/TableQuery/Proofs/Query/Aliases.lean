import TableQuery.Proofs.Query.Erasure
import TableQuery.Proofs.Query.Grouped
import Mathlib.Algebra.Ring.Nat

/-! # Aliases of selected items

An item may give its column an alias, by which the column can be found in the
answer.  The alias is added before the rows are selected, and stands for the
name that the column of the item will have in the answer.  That name is looked
up in the table as it was, whereas the column is selected under the aliases of
all items; where the two are the same, the alias leads to the first column of
the answer with that name, and this is the column of the item or one that is
like it.
-/

namespace TableQuery

namespace Node

variable {α : Type}

/-- The name that the column of an item has in an answer, under the names of a header: the column
that its name stands for, or the heading of a function. -/
def outputName? (header : Header) (item : Node α) : Option String := do
  let expression ← item.itemExpression.toOption
  match expression.kind with
  | .column => (header.column? (← expression.name.toOption)).map (·.1)
  | .function => expression.heading.toOption
  | _ => none

def selectsField (item : Node α) : Bool :=
  item.children.head?.any fun expression =>
    expression.tag == .column || expression.tag == .function

/-- The number of columns that an item selects: all columns for a star, and one otherwise. -/
def selectedWidth (header : Header) (item : Node α) : Nat :=
  match item.children.head?.map kind with
  | some (.star _) => header.names.length
  | _ => 1

/-- Whether two items select the same where they select columns of one name: two columns do, and a
function does by itself. -/
def SelectsLike (m n : Node α) : Prop :=
  ∃ e f, m.itemExpression = .ok e ∧ n.itemExpression = .ok f ∧
    (e.kind = .column ∧ f.kind = .column ∨ e.erase = f.erase)

/-! ## Aliases -/

theorem itemAlias_of_outputName? {header : Header} {item : Node α} {added target : String}
    (named : item.alias? = some added) (known : item.outputName? header = some target) :
    item.itemAlias header = .ok (some (added, target)) := by
  unfold outputName? at known
  obtain ⟨expression, below, known⟩ := Option.bind_eq_some_iff.1 known
  rw [toOption_eq_some] at below
  rw [itemAlias, named]
  simp only [below, ok_bind]
  cases isKind : expression.kind with
  | column =>
    rw [isKind] at known
    obtain ⟨name, read, resolved⟩ := Option.bind_eq_some_iff.1 known
    rw [toOption_eq_some] at read
    simp only [read, ok_bind, resolved, Option.getD_some]
    rfl
  | function =>
    rw [isKind] at known
    have headed := toOption_eq_some.1 known
    simp only [headed, ok_bind]
    rfl
  | _ =>
    rw [isKind] at known
    cases known

theorem field_of_itemAlias {header : Header} {item : Node α} {entry : String × String}
    (made : item.itemAlias header = .ok (some entry)) :
    item.alias? = some entry.1 ∧ item.selectsField = true := by
  unfold itemAlias at made
  split at made
  · cases made
  · next added named =>
    rw [bind_eq_ok] at made
    obtain ⟨expression, below, made⟩ := made
    have head := head?_of_itemExpression below
    split at made
    · next isColumn =>
      simp only [bind_eq_ok, pure_eq_ok] at made
      obtain ⟨_, _, same⟩ := made
      cases same
      exact ⟨named, by simp [selectsField, head, tag, isColumn, Kind.tag]⟩
    · next isFunction =>
      simp only [bind_eq_ok, pure_eq_ok] at made
      obtain ⟨_, _, same⟩ := made
      cases same
      exact ⟨named, by simp [selectsField, head, tag, isFunction, Kind.tag]⟩
    · cases made

theorem get?_foldl_insert {entries : List (String × String)} {m : Aliases} {key : String}
    (others : ∀ e ∈ entries, e.1 ≠ key) :
    (entries.foldl (fun m e => m.insert e.1 e.2) m).get? key = m.get? key := by
  induction entries generalizing m with
  | nil => rfl
  | cons e entries ih =>
    obtain ⟨first, rest⟩ := List.forall_mem_cons.1 others
    rw [List.foldl_cons, ih rest, OrderedMap.get?_insert]
    simp [first]

theorem others_of_unused {header : Header} {items : List (Node α)}
    {added : List (Option (String × String))} {key : String}
    (made : (items.mapM fun item => item.itemAlias header) = .ok added)
    (unused : ∀ other ∈ items, other.selectsField = true → other.alias? ≠ some key) :
    ∀ e ∈ added.filterMap id, e.1 ≠ key := by
  intro e member same
  obtain ⟨entry, among, isEntry⟩ := List.mem_filterMap.1 member
  obtain ⟨other, isItem, otherMade⟩ := exists_of_mem_mapM made among
  rw [show entry = some e from isEntry] at otherMade
  obtain ⟨named, isField⟩ := field_of_itemAlias otherMade
  exact unused other isItem isField (by rw [named, same])

/-- The last of the items that give an alias says what it stands for. -/
theorem get?_of_addAliases {before after : List (Node α)} {item : Node α} {t w : Table}
    {added target : String} (aliased : addAliases (before ++ item :: after) t = .ok w)
    (made : item.itemAlias t.header = .ok (some (added, target)))
    (last : ∀ other ∈ after, other.selectsField = true → other.alias? ≠ some added) :
    w.header.aliases.get? added = some target := by
  simp only [addAliases, bind_eq_ok, pure_eq_ok, List.mapM_append, List.mapM_cons, made] at aliased
  obtain ⟨_, ⟨earlier, _, _, ⟨_, own, later, afterMade, rfl⟩, rfl⟩, rfl⟩ := aliased
  cases own
  have others := others_of_unused afterMade last
  show OrderedMap.get? (List.foldl _ _ _) added = some target
  rw [List.filterMap_append, List.foldl_append, List.filterMap_cons]
  show OrderedMap.get? (List.foldl _ (OrderedMap.insert _ added target) _) added = some target
  rw [get?_foldl_insert others, OrderedMap.get?_insert, if_pos BEq.rfl]

theorem get?_of_addAliases_unused {items : List (Node α)} {t w : Table} {key : String}
    (aliased : addAliases items t = .ok w)
    (unused : ∀ other ∈ items, other.selectsField = true → other.alias? ≠ some key) :
    w.header.aliases.get? key = t.header.aliases.get? key := by
  simp only [addAliases, bind_eq_ok, pure_eq_ok] at aliased
  obtain ⟨added, made, rfl⟩ := aliased
  exact get?_foldl_insert (others_of_unused made unused)

end Node

/-- Whether an alias can be found in a table, and the column that it leads to has the same cells as
the column at a position. -/
def Table.Finds (t : Table) (added : String) (own : Nat) : Prop :=
  ∃ position, t.header.position added = .ok position ∧
    ∀ row ∈ t.rows, ∃ cell, row[position]? = some cell ∧ row[own]? = some cell

/-- Rows whose cells are read off fields have the same cell wherever they have the same field. -/
theorem Table.finds_of_fields {σ : Type} {out : Table} {fields : List σ} {name : σ → String}
    {aliases : Aliases} (header : out.header = .ofNamesFirst (fields.map name) aliases)
    {added : String} {f : σ} {own : Nat} (free : out.header.columns.contains added = false)
    (aliased : aliases.get? added = some (name f)) (isOwn : fields[own]? = some f)
    (alike : ∀ position ≤ own, ∀ g, fields[position]? = some g → name g = name f → g = f)
    (rows : ∀ row ∈ out.rows, ∃ read : σ → Cell, row = fields.map read) : out.Finds added own := by
  have isTarget : (fields.map name)[own]? = some (name f) := by
    rw [List.getElem?_map, isOwn]
    rfl
  rw [header] at free
  obtain ⟨position, first, resolved, named⟩ :=
    Header.exists_position_of_alias free aliased isTarget
  rw [List.getElem?_map] at named
  obtain ⟨g, isField, same⟩ := Option.map_eq_some_iff.1 named
  rw [alike position first g isField same] at isField
  refine ⟨position, by rw [header]; exact resolved, fun row member => ?_⟩
  obtain ⟨read, made⟩ := rows row member
  refine ⟨read f, ?_, ?_⟩
  · rw [made, List.getElem?_map, isField]
    rfl
  · rw [made, List.getElem?_map, isOwn]
    rfl

/-! ## Without groups -/

namespace Node

variable {α : Type}

theorem length_selectedNames {header : Header} {item : Node α} {names : List String}
    (read : selectedNames header item = .ok names) :
    names.length = item.selectedWidth header := by
  rw [selectedNames, bind_eq_ok] at read
  obtain ⟨expression, below, read⟩ := read
  rw [selectedWidth, head?_of_itemExpression below, Option.map_some]
  split at read
  · next isStar =>
    cases read
    simp only [isStar]
  · next noStar =>
    simp only [bind_eq_ok, pure_eq_ok] at read
    obtain ⟨name, _, same⟩ := read
    rw [← same]
    split
    · next isStar => exact absurd (Option.some.inj isStar) (noStar _)
    · rfl

theorem length_flatten_selectedNames {header : Header} {items : List (Node α)}
    {names : List (List String)} (read : items.mapM (selectedNames header) = .ok names) :
    names.flatten.length = (items.map (selectedWidth header)).sum := by
  have related := mapM_eq_ok.1 read
  clear read
  induction related with
  | nil => rfl
  | cons head _ ih =>
    rw [List.flatten_cons, List.length_append, length_selectedNames head, ih, List.map_cons,
      List.sum_cons]

theorem finds_of_selectRows {before after : List (Node α)} {item expression : Node α}
    {u out : Table} {added : String}
    (selected : selectRows (before ++ item :: after) u = .ok out)
    (below : item.itemExpression = .ok expression) (isColumn : expression.kind = .column)
    (aliased : ∀ target, item.outputName? u.header = some target →
      u.header.aliases.get? added = some target)
    (free : out.header.columns.contains added = false) :
    out.Finds added (before.map (selectedWidth u.header)).sum := by
  rw [selectRows, bind_eq_ok] at selected
  obtain ⟨names, read, projected⟩ := selected
  obtain ⟨columns, resolved, header, rows⟩ := Table.project_eq_ok projected
  simp only [List.mapM_append, List.mapM_cons, bind_eq_ok, pure_eq_ok] at read
  obtain ⟨earlier, earlierRead, _, ⟨own, ownRead, later, _, rfl⟩, rfl⟩ := read
  simp only [selectedNames, below, ok_bind, isColumn, bind_eq_ok, pure_eq_ok] at ownRead
  obtain ⟨name, isName, rfl⟩ := ownRead
  rw [← length_flatten_selectedNames earlierRead]
  have place : (earlier ++ [name] :: later).flatten[earlier.flatten.length]? = some name := by
    rw [List.flatten_append, List.getElem?_append_right (Nat.le_refl _)]
    simp
  obtain ⟨column, isOwn, found⟩ := exists_target_of_mapM resolved place
  rw [Header.column_eq_ok] at found
  have ownName : item.outputName? u.header = some column.1 := by
    simp [outputName?, below, Except.toOption, isColumn, isName, found]
  refine Table.finds_of_fields header free (aliased _ ownName) isOwn ?_ ?_
  · intro position _ other isOther sameName
    obtain ⟨_, _, otherFound⟩ := exists_source_of_mapM resolved isOther
    exact Header.eq_of_column? (Header.column_eq_ok.1 otherFound) found sameName
  · intro row member
    rw [rows] at member
    obtain ⟨source, _, made⟩ := List.mem_map.1 member
    exact ⟨fun column => source.cell column.2, made.symm⟩

end Node

/-! ## With groups -/

namespace Grouping

variable {α : Type} {g : Grouping}

theorem exists_read_of_row {items : List Item} {group : Key × List Row} {row : Row}
    (made : Grouping.row items group.1 group.2 = .ok row) :
    ∃ read : Item → Cell, row = items.map read := by
  refine ⟨fun i => (i.expression.evaluate group.1 group.2).toOption.getD .null, ?_⟩
  rw [Grouping.row, mapM_eq_ok] at made
  induction made with
  | nil => rfl
  | cons head _ ih =>
    rw [List.map_cons, ← ih, head]
    rfl

theorem outputName?_of_item {n : Node α} {i : Item} (isItem : n.tag = .selectItem)
    (made : g.item n = .ok i) : n.outputName? g.header = some i.name := by
  obtain ⟨expression, below, made⟩ := expressionItem_of_item isItem made
  rcases expressionItem_eq_ok made with ⟨name, column, place, isColumn, named, resolved, _, rfl⟩ |
    ⟨heading, c, isFunction, headed, _, rfl⟩
  · simp [Node.outputName?, below, Except.toOption, isColumn, named, resolved]
  · simp [Node.outputName?, below, Except.toOption, isFunction, headed]

theorem selectedWidth_of_item {n : Node α} {i : Item} (header : Header)
    (isItem : n.tag = .selectItem) (made : g.item n = .ok i) : n.selectedWidth header = 1 := by
  obtain ⟨expression, below, made⟩ := expressionItem_of_item isItem made
  have head := Node.head?_of_itemExpression below
  rcases expressionItem_eq_ok made with ⟨_, _, _, isColumn, _⟩ | ⟨_, _, isFunction, _⟩
  · simp [Node.selectedWidth, head, isColumn]
  · simp [Node.selectedWidth, head, isFunction]

theorem eq_of_selectsLike {m n : Node α} {i j : Item} (isItem : m.tag = .selectItem)
    (isOther : n.tag = .selectItem) (left : g.item m = .ok i) (right : g.item n = .ok j)
    (alike : m.SelectsLike n) (same : i.name = j.name) : i = j := by
  obtain ⟨e, f, below, otherBelow, alike⟩ := alike
  obtain ⟨_, found, left⟩ := expressionItem_of_item isItem left
  cases below.symm.trans found
  obtain ⟨_, found, right⟩ := expressionItem_of_item isOther right
  cases otherBelow.symm.trans found
  rcases alike with ⟨isColumn, otherColumn⟩ | equal
  · rcases expressionItem_eq_ok left with ⟨_, column, place, _, _, resolved, placed, rfl⟩ |
      ⟨_, _, isFunction, _⟩
    · rcases expressionItem_eq_ok right with
        ⟨_, other, otherPlace, _, _, otherResolved, otherPlaced, rfl⟩ | ⟨_, _, isFunction, _⟩
      · have oneColumn : column = other := Header.eq_of_column? resolved otherResolved same
        rw [oneColumn, otherPlaced] at placed
        cases placed
        rw [oneColumn]
      · rw [otherColumn] at isFunction
        cases isFunction
    · rw [isColumn] at isFunction
      cases isFunction
  · rw [← expressionItem_erase, equal, expressionItem_erase, right] at left
    exact (Except.ok.inj left).symm

theorem finds_of_select {before after : List (Node α)} {item : Node α} {out : Table}
    {added : String} (selected : g.select (before ++ item :: after) = .ok out)
    (areItems : ∀ n ∈ before ++ item :: after, n.tag = .selectItem)
    (aliased : ∀ target, item.outputName? g.header = some target →
      g.header.aliases.get? added = some target)
    (free : out.header.columns.contains added = false)
    (alike : ∀ other ∈ before, other.outputName? g.header = item.outputName? g.header →
      other.SelectsLike item)
    (header : Header) : out.Finds added (before.map (Node.selectedWidth header)).sum := by
  obtain ⟨items, made, outHeader, rows⟩ := select_eq_ok selected
  have isItem := areItems item (by simp)
  have ownPlace : (before ++ item :: after)[before.length]? = some item := by simp
  obtain ⟨own, isOwn, ownMade⟩ := exists_target_of_mapM made ownPlace
  have ownName := outputName?_of_item isItem ownMade
  have width : (before.map (Node.selectedWidth header)).sum = before.length := by
    have ones : ∀ n ∈ before, n.selectedWidth header = 1 := by
      intro n member
      obtain ⟨_, _, itemMade⟩ :=
        exists_outcome_of_mem made (List.mem_append_left (item :: after) member)
      exact selectedWidth_of_item header (areItems n (by simp [member])) itemMade
    rw [List.map_congr_left ones]
    simp
  rw [width]
  refine Table.finds_of_fields outHeader free (aliased _ ownName) isOwn ?_ ?_
  · intro position first other isOther sameName
    obtain ⟨n, isNode, otherMade⟩ := exists_source_of_mapM made isOther
    by_cases isSame : position = before.length
    · rw [isSame, isOwn] at isOther
      exact (Option.some.inj isOther).symm
    -- Before the item, a column of its name is one that is selected alike.
    · have earlier : n ∈ before := by
        rw [List.getElem?_append_left (by omega)] at isNode
        exact List.mem_of_getElem? isNode
      have otherItem := areItems n (by simp [earlier])
      have otherName := outputName?_of_item otherItem otherMade
      rw [sameName, ← ownName] at otherName
      have selectsLike := alike n earlier otherName
      exact eq_of_selectsLike otherItem isItem otherMade ownMade selectsLike sameName
  · intro row member
    obtain ⟨group, read⟩ := rows row member
    exact exists_read_of_row read

end Grouping

namespace Node

variable {α : Type} {n : Node α} {settings : Settings} {catalog : Catalog} {t out : Table}

theorem exists_select_of_selectGroups {items : List (Node α)}
    (selected : n.selectGroups items settings catalog t = .ok out) :
    ∃ g : Grouping, g.header = t.header ∧ g.select items = .ok out := by
  simp only [selectGroups, bind_eq_ok] at selected
  obtain ⟨positions, _, g, grouped, selected⟩ := selected
  obtain ⟨_, built⟩ := Table.groupAt_eq_ok.1 grouped
  split at selected
  · rw [bind_eq_ok] at selected
    obtain ⟨h, kept, selected⟩ := selected
    obtain ⟨_, _, _, _, _, _, same⟩ := Grouping.having_eq_ok kept
    exact ⟨h, by rw [same, built], selected⟩
  · rw [bind_eq_ok] at selected
    obtain ⟨h, kept, selected⟩ := selected
    exact ⟨h, by rw [← pure_eq_ok.1 kept, built], selected⟩

theorem exists_column_of_field {item : Node α} (isField : item.selectsField = true)
    (noFunction : item.selectsFunction = false) :
    ∃ expression, item.itemExpression = .ok expression ∧ expression.kind = .column := by
  rw [selectsField, Option.any_eq_true] at isField
  obtain ⟨expression, head, field⟩ := isField
  rw [selectsFunction, head] at noFunction
  have noFunction : (expression.tag == .function) = false := noFunction
  rw [noFunction, Bool.or_false, beq_iff_eq] at field
  exact ⟨expression, by rw [itemExpression, head]; rfl, Kind.eq_of_tag field rfl⟩

end Node

/-- In an answer, the alias of an item leads to the cells of the item, if no later item gives the
alias and no column has it for a name, if the name of the item stands for the same column with and
without the aliases of the items, and if the earlier items with columns of that name select
alike. -/
theorem Query.finds_alias {q : Query} {settings : Settings} {catalog : Catalog} {t w out : Table}
    (ran : q.run settings catalog t = .ok out) {before after : List (Node Nat)} {item : Node Nat}
    (selects : q.root.selectItems = .ok (before ++ item :: after)) {added : String}
    (named : item.alias? = some added) (isField : item.selectsField = true)
    (last : ∀ other ∈ after, other.selectsField = true → other.alias? ≠ some added)
    (free : out.header.columns.contains added = false)
    (aliased : Node.addAliases (before ++ item :: after) t = .ok w)
    (settled : item.outputName? w.header = item.outputName? t.header)
    (alike : ∀ other ∈ before, other.outputName? w.header = item.outputName? w.header →
      other.SelectsLike item) :
    out.Finds added (before.map (Node.selectedWidth t.header)).sum := by
  obtain ⟨items, u, valid, selectsAgain, _, ⟨v, aliasedAgain, header⟩, answered⟩ :=
    Node.answered_of_run ran
  obtain rfl := Except.ok.inj (selects.symm.trans selectsAgain)
  obtain rfl := Except.ok.inj (aliased.symm.trans aliasedAgain)
  have leads : ∀ target, item.outputName? u.header = some target →
      u.header.aliases.get? added = some target := by
    intro target known
    rw [← header, settled] at known
    rw [← header]
    exact Node.get?_of_addAliases aliased (Node.itemAlias_of_outputName? named known) last
  split at answered
  · obtain ⟨g, sameHeader, selected⟩ := Node.exists_select_of_selectGroups answered
    rw [header, ← sameHeader] at alike
    rw [← sameHeader] at leads
    exact Grouping.finds_of_select selected (Node.tag_of_mem_selectItems valid selects) leads free
      alike t.header
  · next noGroups =>
    have noFunction : item.selectsFunction = false := by
      by_contra function
      apply noGroups
      simp [Node.isGrouped, Bool.of_not_eq_false function]
    obtain ⟨expression, below, isColumn⟩ := Node.exists_column_of_field isField noFunction
    have found := Node.finds_of_selectRows answered below isColumn leads free
    have widths : Node.selectedWidth u.header = Node.selectedWidth (α := Nat) t.header := by
      funext n
      rw [Node.selectedWidth, Node.selectedWidth, ← header, Header.names, Header.names,
        Node.columns_of_addAliases aliased]
    rw [widths] at found
    exact found

def Query.salesOfPlaces : Query :=
  ⟨"places", 0, 13, ⟨0, .query, [
    ⟨1, .selectClause, [
      ⟨2, .selectItem, [⟨3, .column, [⟨4, .identifier "region", []⟩]⟩,
        ⟨5, .identifier "place", []⟩]⟩,
      ⟨6, .selectItem, [⟨7, .function, [⟨8, .identifier "COUNT", []⟩, ⟨9, .star none, []⟩]⟩,
        ⟨10, .identifier "sold", []⟩]⟩]⟩,
    ⟨11, .groupByClause, [⟨12, .column, [⟨13, .identifier "place", []⟩]⟩]⟩]⟩⟩

theorem Query.finds_sold : ∃ out, salesOfPlaces.run {} .builtin Table.sales = .ok out ∧
    out.rows = [[.text "north", .int 2], [.text "south", .int 1]] ∧ out.Finds "sold" 1 := by
  have ran : salesOfPlaces.run {} .builtin Table.sales = .ok _ := rfl
  have selects : salesOfPlaces.root.selectItems = .ok ([_] ++ _ :: []) := rfl
  refine ⟨_, ran, rfl, finds_alias ran selects rfl rfl (List.forall_mem_nil _) rfl rfl rfl ?_⟩
  intro other member same
  rw [List.mem_singleton.1 member] at same
  have oneName : some "region" = some "COUNT(*)" := same
  exact absurd oneName (by decide)

def Query.areasOfPlaces : Query :=
  ⟨"areas", 0, 10, ⟨0, .query, [
    ⟨1, .selectClause, [
      ⟨2, .selectItem, [⟨3, .column, [⟨4, .identifier "region", []⟩]⟩,
        ⟨5, .identifier "place", []⟩]⟩,
      ⟨6, .selectItem, [⟨7, .column, [⟨8, .identifier "place", []⟩]⟩,
        ⟨9, .identifier "area", []⟩]⟩]⟩]⟩⟩

/-- An alias of an alias that the query itself gives leads nowhere. -/
theorem Query.not_finds_area : ∃ out first item,
    areasOfPlaces.run {} .builtin Table.sales = .ok out ∧
      out.rows = [[.text "north", .text "north"], [.text "south", .text "south"],
        [.text "north", .text "north"]] ∧
      areasOfPlaces.root.selectItems = .ok ([first] ++ item :: []) ∧
      item.alias? = some "area" ∧ item.selectsField = true ∧
      out.header.columns.contains "area" = false ∧ ¬ out.Finds "area" 1 := by
  have ran : areasOfPlaces.run {} .builtin Table.sales = .ok _ := rfl
  refine ⟨_, _, _, ran, rfl, rfl, rfl, rfl, rfl, ?_⟩
  rintro ⟨position, resolved, _⟩
  cases resolved

end TableQuery
