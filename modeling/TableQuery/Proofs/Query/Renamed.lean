import TableQuery.Proofs.Query.Aliases
import TableQuery.Proofs.Query.Sameness

/-! # Queries that group by an alias

In GROUP BY, the alias of a selected column may stand for the column, under
whatever name the column was selected.  The alias names the column by the name
that the table has for it, and not by the name that was written: so it leads
there in one step, even where the written name is an alias itself.
-/

namespace TableQuery

namespace Node

variable {α β : Type} {old new : String} {m : Node α} {n : Node β}

def columnNamed (name : String) : Node Unit := ⟨(), .column, [⟨(), .identifier name, []⟩]⟩

/-- Whether a column is another one, or the other one has its name in place of an old name. -/
inductive RenamesColumn (old new : String) (m : Node α) (n : Node β) : Prop where
  | kept (same : m.erase = n.erase)
  | renamed (before : m.erase = columnNamed old) (after : n.erase = columnNamed new)

/-- Whether a clause is another one, or is a GROUP BY with some of its columns renamed. -/
inductive RenamesClause (old new : String) (m : Node α) (n : Node β) : Prop where
  | kept (same : m.erase = n.erase)
  | groupBy (before : m.kind = .groupByClause) (after : n.kind = .groupByClause)
      (columns : List.Forall₂ (RenamesColumn old new) m.children n.children)

structure Renames (old new : String) (m : Node α) (n : Node β) : Prop where
  kind : m.kind = n.kind
  clauses : List.Forall₂ (RenamesClause old new) m.children n.children

theorem validate_columnNamed (name : String) : (columnNamed name).validate = .ok () := rfl

/-- A node is well formed if its children are like those of a node that is. -/
theorem valid_of_children {related : Node α → Node β → Prop} (sameKind : m.kind = n.kind)
    (children : List.Forall₂ related m.children n.children)
    (each : ∀ c d, related c d →
      c.kind = d.kind ∧ (c.validate = .ok () → d.validate = .ok ()))
    (valid : m.validate = .ok ()) : n.validate = .ok () := by
  obtain ⟨faultless, below⟩ := validate_eq_ok.1 valid
  have kinds : m.children.map kind = n.children.map kind := by
    rw [← List.forall₂_eq_eq_eq, List.forall₂_map_left_iff, List.forall₂_map_right_iff]
    exact children.imp fun c d alike => (each c d alike).1
  refine validate_eq_ok.2 ⟨fault?_congr sameKind kinds ▸ faultless, fun d member => ?_⟩
  obtain ⟨c, isChild, alike⟩ := exists_of_mem_related children member
  exact (each c d alike).2 (below c isChild)

theorem RenamesColumn.kind_eq (renames : RenamesColumn old new m n) : m.kind = n.kind := by
  cases renames with
  | kept same => exact kind_of_erase same
  | renamed before after =>
    rw [← m.kind_erase, ← n.kind_erase, before, after]
    rfl

theorem RenamesColumn.valid (renames : RenamesColumn old new m n) (valid : m.validate = .ok ()) :
    n.validate = .ok () := by
  cases renames with
  | kept same => rw [← validate_of_erase same, valid]
  | renamed before after => rw [← validate_erase, after, validate_columnNamed]

theorem RenamesClause.kind_eq (renames : RenamesClause old new m n) : m.kind = n.kind := by
  cases renames with
  | kept same => exact kind_of_erase same
  | groupBy before after _ => rw [before, after]

theorem RenamesClause.valid (renames : RenamesClause old new m n) (valid : m.validate = .ok ()) :
    n.validate = .ok () := by
  cases renames with
  | kept same => rw [← validate_of_erase same, valid]
  | groupBy before after columns =>
    exact valid_of_children (before.trans after.symm) columns
      (fun _ _ column => ⟨column.kind_eq, column.valid⟩) valid

theorem Renames.valid (renames : Renames old new m n) (valid : m.validate = .ok ()) :
    n.validate = .ok () :=
  valid_of_children renames.kind renames.clauses
    (fun _ _ clause => ⟨clause.kind_eq, clause.valid⟩) valid

theorem Renames.clause?_cases (renames : Renames old new m n) (tag : Tag) :
    (m.clause? tag = none ∧ n.clause? tag = none) ∨
      ∃ clause other, m.clause? tag = some clause ∧ n.clause? tag = some other ∧
        RenamesClause old new clause other := by
  have clauses := renames.clauses
  unfold clause?
  generalize m.children = ms at clauses
  generalize n.children = ns at clauses
  -- Clauses keep their tags, so that both searches stop at the same place.
  induction clauses with
  | nil => exact .inl ⟨rfl, rfl⟩
  | @cons clause other _ _ head _ ih =>
    have sameTag : clause.tag = other.tag := congrArg Kind.tag head.kind_eq
    rw [List.find?_cons, List.find?_cons, sameTag]
    cases other.tag == tag with
    | true => exact .inr ⟨clause, other, rfl, rfl, head⟩
    | false => exact ih

theorem Renames.sameClause (renames : Renames old new m n) {tag : Tag}
    (noGroupBy : tag ≠ .groupByClause) : sameClause tag m n = true := by
  rcases renames.clause?_cases tag with
    ⟨missing, otherMissing⟩ | ⟨clause, other, found, otherFound, head⟩
  · rw [Node.sameClause, missing, otherMissing]
  · rw [Node.sameClause, found, otherFound]
    cases head with
    | kept same => exact same_iff_erase.2 same
    -- Only GROUP BY may be renamed, and it is not the clause that was looked for.
    | groupBy before _ _ =>
      have isGroupBy : clause.tag = .groupByClause := congrArg Kind.tag before
      exact absurd ((tag_of_clause? found).symm.trans isGroupBy) noGroupBy

theorem Renames.isSome_groupBy (renames : Renames old new m n) :
    (m.clause? .groupByClause).isSome = (n.clause? .groupByClause).isSome := by
  rcases renames.clause?_cases .groupByClause with
    ⟨missing, otherMissing⟩ | ⟨clause, other, found, otherFound, _⟩
  · rw [missing, otherMissing]
    rfl
  · rw [found, otherFound]
    rfl

theorem RenamesColumn.position_eq {header : Header} (renames : RenamesColumn old new m n)
    (same : header.position old = header.position new) :
    (do header.position (← m.name)) = (do header.position (← n.name)) := by
  cases renames with
  | kept equal => rw [← m.name_erase, equal, n.name_erase]
  | renamed before after =>
    rw [← m.name_erase, ← n.name_erase, before, after]
    exact same

theorem Renames.groupPositions_eq {header : Header} (renames : Renames old new m n)
    (same : header.position old = header.position new) :
    m.groupPositions header = n.groupPositions header := by
  rw [groupPositions, groupPositions]
  rcases renames.clause?_cases .groupByClause with
    ⟨missing, otherMissing⟩ | ⟨clause, other, found, otherFound, head⟩
  · rw [missing, otherMissing]
  · simp only [found, otherFound]
    cases head with
    | kept equal => rw [← mapM_position_erase, map_children_erase equal, mapM_position_erase]
    | groupBy _ _ columns =>
      exact mapM_congr_of_forall₂ (columns.imp fun _ _ column => column.position_eq same)

section Aliases

variable {items : List (Node α)} {t w : Table} {name : String} {column : String × Nat}

theorem column?_of_addAliases (aliased : addAliases items t = .ok w)
    (settled : t.header.columns.contains name = true ∨
      ∀ other ∈ items, other.selectsField = true → other.alias? ≠ some name) :
    w.header.column? name = t.header.column? name := by
  rw [Header.column?, Header.column?, columns_of_addAliases aliased]
  cases settled with
  | inl isColumn =>
    obtain ⟨e, member, alike⟩ := OrderedMap.contains_iff.1 isColumn
    rw [OrderedMap.find?_of_mem member alike, Option.some_or, Option.some_or]
  | inr unused => rw [get?_of_addAliases_unused aliased unused]

theorem column?_of_alias {before after : List (Node α)} {item expression : Node α} {added : String}
    (aliased : addAliases (before ++ item :: after) t = .ok w) (named : item.alias? = some added)
    (below : item.itemExpression = .ok expression) (isColumn : expression.kind = .column)
    (read : expression.name = .ok name) (resolved : t.header.column? name = some column)
    (fresh : t.header.columns.contains added = false)
    (last : ∀ other ∈ after, other.selectsField = true → other.alias? ≠ some added) :
    w.header.column? added = some column := by
  have output : item.outputName? t.header = some column.1 := by
    simp [outputName?, below, Except.toOption, isColumn, read, resolved]
  have leads := get?_of_addAliases aliased (itemAlias_of_outputName? named output) last
  have noColumn : t.header.columns.find? added = none :=
    Option.map_eq_none_iff.1 (OrderedMap.get?_eq_none_iff.2 fresh)
  rw [Header.column?, columns_of_addAliases aliased, noColumn, leads]
  exact OrderedMap.find?_of_mem (Header.mem_of_column? resolved) BEq.rfl

end Aliases

end Node

/-- The alias of a selected column may be replaced in GROUP BY by the name under which the column is
selected, wherever it occurs: the answer is the same, or the refusal.  The alias is not a column of
the table, and no later item gives it; the name is that of a column of the table, or an alias in the
table that no item gives anew. -/
theorem Query.run_eq_of_renames {q r : Query} {before after : List (Node Nat)}
    {item expression : Node Nat} {added name : String} {position : Nat} {t : Table}
    (valid : q.root.validate = .ok ())
    (selects : q.root.selectItems = .ok (before ++ item :: after))
    (named : item.alias? = some added) (below : item.itemExpression = .ok expression)
    (isColumn : expression.kind = .column) (read : expression.name = .ok name)
    (fresh : t.header.columns.contains added = false)
    (last : ∀ other ∈ after, other.selectsField = true → other.alias? ≠ some added)
    (resolved : t.header.position name = .ok position)
    (settled : t.header.columns.contains name = true ∨
      ∀ other ∈ before ++ item :: after, other.selectsField = true → other.alias? ≠ some name)
    (renames : q.root.Renames added name r.root) (settings : Settings) (catalog : Catalog) :
    q.run settings catalog t = r.run settings catalog t := by
  have sameHaving := renames.sameClause (by decide : Tag.havingClause ≠ .groupByClause)
  obtain ⟨others, otherSelects, sameItems⟩ := Node.exists_selectItems_of_same
    (renames.sameClause (by decide : Tag.selectClause ≠ .groupByClause)) selects
  apply Node.run_congr valid (renames.valid valid) selects otherSelects sameItems
    (renames.sameClause (by decide : Tag.whereClause ≠ .groupByClause))
  intro u v sameHeader aliased
  rw [← sameHeader] at fresh resolved settled
  obtain ⟨column, found, _⟩ := Header.position_eq_ok.1 resolved
  have ofAlias := Node.column?_of_alias aliased named below isColumn read found fresh last
  have ofName := (Node.column?_of_addAliases aliased settled).trans found
  have samePosition : v.header.position added = v.header.position name := by
    rw [Header.position_of_column? ofAlias, Header.position_of_column? ofName]
  have samePositions := renames.groupPositions_eq samePosition
  rw [Node.isGrouped_congr sameItems renames.isSome_groupBy sameHaving,
    Node.selectGroups_of_samePositions sameItems samePositions sameHaving,
    Node.selectRows_of_erase sameItems]

/-- The number of sales in every area, grouped by another name for the areas. -/
def Query.salesOfZones : Query :=
  ⟨"zones", 0, 12, ⟨0, .query, [
    ⟨1, .selectClause, [
      ⟨2, .selectItem, [⟨3, .column, [⟨4, .identifier "area", []⟩]⟩, ⟨5, .identifier "zone", []⟩]⟩,
      ⟨6, .selectItem, [⟨7, .function, [⟨8, .identifier "COUNT", []⟩, ⟨9, .star none, []⟩]⟩]⟩]⟩,
    ⟨10, .groupByClause, [⟨11, .column, [⟨12, .identifier "zone", []⟩]⟩]⟩]⟩⟩

/-- The same, grouped by the areas, which are regions by another name themselves. -/
def Query.salesOfAreas : Query :=
  ⟨"areas", 0, 12, ⟨0, .query, [
    ⟨1, .selectClause, [
      ⟨2, .selectItem, [⟨3, .column, [⟨4, .identifier "area", []⟩]⟩, ⟨5, .identifier "zone", []⟩]⟩,
      ⟨6, .selectItem, [⟨7, .function, [⟨8, .identifier "COUNT", []⟩, ⟨9, .star none, []⟩]⟩]⟩]⟩,
    ⟨10, .groupByClause, [⟨11, .column, [⟨12, .identifier "area", []⟩]⟩]⟩]⟩⟩

theorem Query.run_salesOfAreas :
    let t := Table.sales.withAliases (.ofList [("area", "region")])
    salesOfZones.run {} .builtin t = salesOfAreas.run {} .builtin t ∧
      ∃ out, salesOfAreas.run {} .builtin t = .ok out ∧
        out.rows = [[.text "north", .int 2], [.text "south", .int 1]] := by
  have renames : salesOfZones.root.Renames "zone" "area" salesOfAreas.root :=
    ⟨rfl, .cons (.kept rfl) (.cons (.groupBy rfl rfl (.cons (.renamed rfl rfl) .nil)) .nil)⟩
  have selects : salesOfZones.root.selectItems = .ok ([] ++ _ :: [_]) := rfl
  refine ⟨?_, _, rfl, rfl⟩
  exact run_eq_of_renames rfl selects rfl rfl rfl rfl rfl (by decide) rfl (.inr (by decide)) renames
    {} .builtin

end TableQuery
