import TableQuery.Proofs.Table.Projection
import TableQuery.Proofs.Table.Records

/-! # What a name stands for

A name stands for the column of this name, whatever the aliases say.  Only a
name that is no column is looked up as an alias, and what the alias names is
looked up among the columns alone, so that neither chains nor cycles of aliases
are followed.  What a name stands for is thus a column that its own name stands
for, too, under these aliases and any others.
-/

namespace TableQuery.Header

variable {h : Header} {name target : String} {position : Nat} {column : String × Nat}

theorem column_of_alias (free : h.columns.get? name = none)
    (aliased : h.aliases.get? name = some target)
    (member : (target, position) ∈ h.columns.entries) :
    h.column name = .ok (target, position) := by
  rw [OrderedMap.get?, Option.map_eq_none_iff] at free
  rw [column_eq_ok, column?, free, aliased]
  exact OrderedMap.find?_of_mem member BEq.rfl

/-- A name stands for its own column or else for the column behind its alias. -/
theorem column_eq_ok_iff : h.column name = .ok column ↔
    column ∈ h.columns.entries ∧ (column.1 = name ∨
      h.columns.get? name = none ∧ h.aliases.get? name = some column.1) := by
  constructor
  · intro resolved
    rw [column_eq_ok] at resolved
    refine ⟨mem_of_column? resolved, ?_⟩
    rw [column?, Option.or_eq_some_iff, Option.bind_eq_some_iff] at resolved
    rcases resolved with direct | ⟨free, target, aliased, found⟩
    · exact .inl (by simpa using List.find?_some direct)
    · obtain rfl : column.1 = target := by simpa using List.find?_some found
      exact .inr ⟨by rw [OrderedMap.get?, free, Option.map_none], aliased⟩
  · rintro ⟨member, rfl | ⟨free, aliased⟩⟩
    · exact column_of_mem member
    · exact column_of_alias free aliased member

theorem column_refused (missing : ∀ column, h.column name ≠ .ok column) :
    h.column name = .error (.columnNotFound name) := by
  cases resolved : h.column? name with
  | none => exact column_eq_error.2 ⟨rfl, resolved⟩
  | some column => exact absurd (column_eq_ok.2 resolved) (missing column)

section Numbered

variable {names : List String} {aliases : Aliases}

theorem exists_ofNames_iff : (∃ k, ofNames names aliases = .ok k) ↔ names.Nodup := by
  constructor
  · rintro ⟨k, numbered⟩
    rw [← names_of_ofNames numbered]
    exact k.nodup_names
  · intro nodup
    exact ⟨_, ofNames_of_nodup nodup aliases⟩

theorem get?_ofNames {k : Header} (numbered : ofNames names aliases = .ok k)
    (here : names[position]? = some name) : k.columns.get? name = some position := by
  rw [OrderedMap.get?_eq_some_iff, entries_of_ofNames numbered]
  exact List.mk_mem_zipIdx_iff_getElem?.2 here

theorem get?_ofNamesFirst (names : List String) (aliases : Aliases) (name : String) :
    (ofNamesFirst names aliases).columns.get? name =
      if name ∈ names then some (names.idxOf name) else none := by
  rw [OrderedMap.get?, find?_ofNamesFirst]
  split <;> rfl

end Numbered

/-- What every header promises of its names. -/
structure ResolvesNames (h : Header) : Prop where
  accepts : ∀ name, (∃ column, h.column name = .ok column) ↔
    h.columns.contains name = true ∨
      ∃ target, h.aliases.get? name = some target ∧ h.columns.contains target = true
  refuses : ∀ name, (∀ column, h.column name ≠ .ok column) →
    h.column name = .error (.columnNotFound name)
  /-- The aliases are not asked for a column. -/
  ownColumn : ∀ name position, h.columns.get? name = some position →
    ∀ aliases, ({ h with aliases } : Header).column name = .ok (name, position)
  /-- The target of an alias is not looked up as an alias. -/
  behindAlias : ∀ name target position, h.columns.get? name = none →
    h.aliases.get? name = some target → h.columns.get? target = some position →
      h.column name = .ok (target, position)
  isColumn : ∀ name column, h.column name = .ok column →
    h.columns.get? column.1 = some column.2 ∧ column.2 < h.width
  again : ∀ name column, h.column name = .ok column → h.column column.1 = .ok column
  listed : ∃ columns : List (String × Nat), columns.Perm h.columns.entries ∧
    columns.Pairwise (·.2 ≤ ·.2) ∧ h.names = columns.map (·.1) ∧ h.names.Nodup

theorem resolvesNames (h : Header) : h.ResolvesNames where
  accepts name := by
    simp only [OrderedMap.contains_iff_exists]
    constructor
    · rintro ⟨column, resolved⟩
      obtain ⟨member, rfl | ⟨_, aliased⟩⟩ := column_eq_ok_iff.1 resolved
      · exact .inl ⟨column.2, member⟩
      · exact .inr ⟨column.1, aliased, column.2, member⟩
    · rintro (⟨position, member⟩ | ⟨target, aliased, position, member⟩)
      · exact ⟨_, column_of_mem member⟩
      · -- A column of this name hides the alias.
        cases own : h.columns.get? name with
        | none => exact ⟨_, column_of_alias own aliased member⟩
        | some position => exact ⟨_, column_of_mem (OrderedMap.get?_eq_some_iff.1 own)⟩
  refuses _ := column_refused
  ownColumn name position own aliases :=
    column_of_mem (h := { h with aliases }) (OrderedMap.get?_eq_some_iff.1 own)
  behindAlias _ _ _ free aliased isTarget :=
    column_of_alias free aliased (OrderedMap.get?_eq_some_iff.1 isTarget)
  isColumn name column resolved := by
    obtain ⟨member, _⟩ := column_eq_ok_iff.1 resolved
    exact ⟨OrderedMap.get?_eq_some_iff.2 member, lt_width_of_mem member⟩
  again _ _ resolved := column_of_mem (column_eq_ok_iff.1 resolved).1
  listed :=
    ⟨h.sorted, h.sorted_perm, List.pairwise_map.1 h.rising_sorted, h.names_eq, h.nodup_names⟩

/-- Every header resolves names in one way, and the two ways of numbering names differ only in what
they make of a repeated one: the first refuses it, and the second keeps its first place. -/
theorem resolves_names_and_numbers (h : Header) (names : List String) (aliases : Aliases) :
    h.ResolvesNames ∧
      ((∃ k, ofNames names aliases = .ok k) ↔ names.Nodup) ∧
      (∀ k, ofNames names aliases = .ok k → k.columns.keys = names ∧ k.aliases = aliases ∧
        ∀ position name, names[position]? = some name → k.columns.get? name = some position) ∧
      (ofNamesFirst names aliases).aliases = aliases ∧
      ∀ name, (ofNamesFirst names aliases).columns.get? name =
        if name ∈ names then some (names.idxOf name) else none := by
  refine ⟨h.resolvesNames, exists_ofNames_iff, ?_, rfl, get?_ofNamesFirst names aliases⟩
  intro k numbered
  have keys : k.columns.keys = names := by
    rw [OrderedMap.keys, entries_of_ofNames numbered, List.zipIdx_map_fst]
  have sameAliases : k.aliases = aliases := by
    rw [eq_ofNamesFirst_of_ofNames numbered]
    rfl
  exact ⟨keys, sameAliases, fun _ _ here => get?_ofNames numbered here⟩

/-- Aliases in a circle, and one with the name of a column. -/
example :
    let h := ofNamesFirst ["region", "amount", "region"] (OrderedMap.ofList
      [("sum", "total"), ("total", "sum"), ("cost", "amount"), ("amount", "region")])
    h.column "sum" = .error (.columnNotFound "sum") ∧ h.column "cost" = .ok ("amount", 1) ∧
      h.column "amount" = .ok ("amount", 1) :=
  ⟨rfl, rfl, rfl⟩

end TableQuery.Header
