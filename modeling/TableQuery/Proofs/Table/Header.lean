import TableQuery.Table.Header
import TableQuery.Proofs.OrderedMap
import TableQuery.Proofs.Outcome

/-! # Positions under a header

A name that stands for a column stands for a position inside the least width
that the header asks of a row.
-/

namespace TableQuery.Header

variable {h : Header} {name : String} {position : Nat}

theorem column_eq_ok {column : String × Nat} :
    h.column name = .ok column ↔ h.column? name = some column := by
  rw [Header.column]
  cases h.column? name with
  | none => simp [throw_eq_ok]
  | some found => simp [pure_eq_ok]

theorem column_eq_error {refusal : Refusal} : h.column name = .error refusal ↔
    refusal = .columnNotFound name ∧ h.column? name = none := by
  rw [Header.column]
  cases h.column? name with
  | none =>
    rw [throw_eq_error]
    exact ⟨fun same => ⟨same.symm, rfl⟩, fun ⟨same, _⟩ => same.symm⟩
  | some found => simp [pure_eq_error]

theorem position_eq_ok : h.position name = .ok position ↔
    ∃ column, h.column? name = some column ∧ column.2 = position := by
  simp only [Header.position, bind_eq_ok, column_eq_ok, pure_eq_ok]

theorem position_of_column? {column : String × Nat} (resolved : h.column? name = some column) :
    h.position name = .ok column.2 :=
  position_eq_ok.2 ⟨column, resolved, rfl⟩

theorem mem_of_column? {column : String × Nat} (resolved : h.column? name = some column) :
    column ∈ h.columns.entries := by
  rcases Option.or_eq_some_iff.1 resolved with direct | ⟨_, aliased⟩
  · exact List.mem_of_find?_eq_some direct
  · obtain ⟨actual, _, found⟩ := Option.bind_eq_some_iff.1 aliased
    exact List.mem_of_find?_eq_some found

/-- A column is found under its own name, and no alias is asked. -/
theorem column_of_mem {column : String × Nat} (member : column ∈ h.columns.entries) :
    h.column column.1 = .ok column := by
  rw [column_eq_ok, column?, OrderedMap.find?_of_mem member BEq.rfl]
  rfl

theorem foldl_max_le_iff {positions : List Nat} {start width : Nat} :
    positions.foldl (fun w p => max w (p + 1)) start ≤ width ↔
      start ≤ width ∧ ∀ p ∈ positions, p < width := by
  induction positions generalizing start with
  | nil => simp
  | cons p positions ih =>
    rw [List.foldl_cons, ih, List.forall_mem_cons, Nat.max_le, and_assoc, Nat.succ_le_iff]

theorem width_le_iff {width : Nat} :
    h.width ≤ width ↔ ∀ column ∈ h.columns.entries, column.2 < width := by
  rw [Header.width, foldl_max_le_iff, OrderedMap.values, List.forall_mem_map]
  exact and_iff_right (Nat.zero_le width)

theorem lt_width_of_mem {column : String × Nat} (member : column ∈ h.columns.entries) :
    column.2 < h.width :=
  width_le_iff.1 (Nat.le_refl h.width) column member

theorem position_lt_width (resolved : h.position name = .ok position) : position < h.width := by
  obtain ⟨column, found, rfl⟩ := position_eq_ok.1 resolved
  exact lt_width_of_mem (mem_of_column? found)

theorem width_ofNamesFirst_le (names : List String) (aliases : Aliases) :
    (ofNamesFirst names aliases).width ≤ names.length := by
  apply width_le_iff.2
  intro column member
  have numbered := OrderedMap.mem_of_mem_ofListFirst member
  obtain ⟨_, small, _⟩ := List.mem_zipIdx numbered
  omega

theorem eq_of_column? {other : String} {first second : String × Nat}
    (left : h.column? name = some first) (right : h.column? other = some second)
    (same : first.1 = second.1) : first = second :=
  h.columns.distinct.eq_of_beq (mem_of_column? left) (mem_of_column? right) (beq_of_eq same)

theorem exists_position_of_alias {names : List String} {aliases : Aliases} {target : String}
    {own : Nat} (free : (ofNamesFirst names aliases).columns.contains name = false)
    (aliased : aliases.get? name = some target) (isTarget : names[own]? = some target) :
    ∃ position ≤ own, (ofNamesFirst names aliases).position name = .ok position ∧
      names[position]? = some target := by
  have isColumn : (names.zipIdx.find? fun e => e.1 == target).isSome = true := by
    rw [List.find?_isSome]
    exact ⟨(target, own), List.mk_mem_zipIdx_iff_getElem?.2 isTarget, BEq.rfl⟩
  obtain ⟨column, found⟩ := Option.isSome_iff_exists.1 isColumn
  obtain ⟨same, index, inside, here, first⟩ := List.find?_eq_some_iff_getElem.1 found
  have named : names[column.2]? = some column.1 :=
    List.mem_zipIdx_iff_getElem?.1 (List.mem_of_find?_eq_some found)
  have place : column.2 = index := by
    rw [← here]
    simp
  refine ⟨column.2, ?_, ?_, ?_⟩
  · by_contra later
    have small : own < index := by omega
    have ownName := first own small
    obtain ⟨_, sameName⟩ := List.getElem?_eq_some_iff.1 isTarget
    simp [sameName] at ownName
  · have direct : (ofNamesFirst names aliases).columns.find? name = none :=
      Option.map_eq_none_iff.1 (OrderedMap.get?_eq_none_iff.2 free)
    have behind : (ofNamesFirst names aliases).columns.find? target = some column := by
      rw [ofNamesFirst, OrderedMap.find?_ofListFirst, found]
    have known : (ofNamesFirst names aliases).aliases.get? name = some target := aliased
    apply position_of_column?
    rw [column?, direct, known]
    exact behind
  · rw [named, eq_of_beq same]

end TableQuery.Header
