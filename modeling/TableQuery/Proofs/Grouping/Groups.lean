import TableQuery.Grouping.Basic
import TableQuery.Proofs.Cell.Sameness
import TableQuery.Proofs.OrderedMap
import TableQuery.Proofs.Parted
import TableQuery.Proofs.Table.Rows
import Mathlib.Data.List.Induction

/-! # The groups of a list of rows

Grouping takes one row after the other.  After any number of rows, the keys
are the different keys of these rows in the order in which they first
occurred, and the members of a key are the rows that have it, in order.
-/

namespace TableQuery

section FirstOccurrences

variable {α : Type} [BEq α] [EquivBEq α]

theorem eraseDups_concat (as : List α) (a : α) :
    (as ++ [a]).eraseDups = if as.any (· == a) then as.eraseDups else as.eraseDups ++ [a] := by
  match as with
  | [] => rfl
  | b :: rest =>
    rw [List.cons_append, List.eraseDups_cons, List.eraseDups_cons, List.filter_append,
      List.any_cons]
    cases first : b == a with
    | true =>
      have dropped : [a].filter (fun x => !x == b) = [] := by simp [BEq.symm first]
      rw [dropped, List.append_nil]
      rfl
    | false =>
      have kept : [a].filter (fun x => !x == b) = [a] := by simp [BEq.comm (b := b), first]
      -- What equals `b` does not equal `a`, so that dropping it first changes no answer.
      have same : (rest.filter fun x => !x == b).any (· == a) = rest.any (· == a) := by
        rw [List.any_filter]
        refine List.any_congr rfl fun x => ?_
        cases alike : x == a with
        | false => exact Bool.and_false _
        | true => rw [BEq.congr_left alike, BEq.comm, first]; rfl
      rw [kept, eraseDups_concat (rest.filter fun x => !x == b) a, same, Bool.false_or]
      split <;> rfl
  termination_by as.length
  decreasing_by exact Nat.lt_succ_of_le (List.length_filter_le _ _)

theorem any_eraseDups (as : List α) (a : α) : as.eraseDups.any (· == a) = as.any (· == a) := by
  induction as using List.reverseRecOn with
  | nil => rfl
  | append_singleton as b ih =>
    rw [eraseDups_concat, List.any_append]
    split
    · next held =>
      rw [ih]
      cases alike : b == a with
      | false => simp [alike]
      | true => simp [← BEq.congr_right alike, held]
    · rw [List.any_append, ih]

/-- What is left of a list is the first spelling of everything in it. -/
theorem find?_of_mem_eraseDups {as : List α} {a : α} (member : a ∈ as.eraseDups) :
    as.find? (· == a) = some a := by
  induction as using List.reverseRecOn with
  | nil => cases member
  | append_singleton as b ih =>
    rw [eraseDups_concat] at member
    rw [List.find?_append]
    split at member
    · rw [ih member]
      rfl
    · next fresh =>
      rcases List.mem_append.1 member with member | last
      · rw [ih member]
        rfl
      · obtain rfl := List.mem_singleton.1 last
        have missing : as.find? (· == a) = none := by
          rw [List.find?_eq_none]
          intro x held alike
          exact fresh (List.any_eq_true.2 ⟨x, held, alike⟩)
        simp [missing]

theorem eraseDups_filter {q : α → Bool} (respects : ∀ a b, a == b → q a = q b) (as : List α) :
    (as.filter q).eraseDups = as.eraseDups.filter q := by
  induction as using List.reverseRecOn with
  | nil => rfl
  | append_singleton as a ih =>
    rw [List.filter_append, List.filter_singleton, eraseDups_concat]
    cases passes : q a with
    | false =>
      rw [cond_false, List.append_nil, ih]
      split
      · rfl
      · simp [passes]
    | true =>
      -- All spellings of `a` pass, so that leaving out what fails does not make `a` new.
      have same : (as.filter q).any (· == a) = as.any (· == a) := by
        rw [List.any_filter]
        refine List.any_congr rfl fun x => ?_
        cases alike : x == a with
        | false => exact Bool.and_false _
        | true => rw [respects x a alike, passes]; rfl
      rw [cond_true, eraseDups_concat, same, ih]
      split
      · rfl
      · simp [passes]

end FirstOccurrences

/-! ## Groups -/

namespace Groups

variable {positions : List Nat} {rows : List Row}

/-- The keys of rows in the order in which they first occur. -/
def keysOf (positions : List Nat) (rows : List Row) : List Key :=
  (rows.map (Row.key positions)).eraseDups

def membersOf (positions : List Nat) (rows : List Row) (key : Key) : List Row :=
  rows.filter fun row => row.key positions == key

theorem any_keysOf (key : Key) :
    (keysOf positions rows).any (· == key) = rows.any fun row => row.key positions == key := by
  rw [keysOf, any_eraseDups, List.any_map]
  rfl

theorem keysOf_concat (row : Row) :
    keysOf positions (rows ++ [row]) =
      if (keysOf positions rows).any (· == row.key positions) then keysOf positions rows
      else keysOf positions rows ++ [row.key positions] := by
  rw [keysOf, List.map_append, List.map_singleton, eraseDups_concat, ← any_eraseDups]
  rfl

theorem membersOf_concat (row : Row) (key : Key) :
    membersOf positions (rows ++ [row]) key =
      membersOf positions rows key ++ if row.key positions == key then [row] else [] := by
  rw [membersOf, List.filter_append, List.filter_singleton, Bool.cond_eq_ite]
  rfl

theorem keysOf_nil (nonempty : rows ≠ []) : keysOf [] rows = [[]] := by
  obtain ⟨first, rest, rfl⟩ := List.exists_cons_of_ne_nil nonempty
  have others : ((rest.map (Row.key [])).filter fun key => !key == Row.key [] first) = [] := by
    rw [List.filter_eq_nil_iff]
    intro key member
    obtain ⟨row, _, rfl⟩ := List.mem_map.1 member
    exact Bool.false_ne_true
  rw [keysOf, List.map_cons, List.eraseDups_cons, others]
  rfl

theorem exists_key_of_mem {row : Row} (member : row ∈ rows) :
    ∃ key ∈ keysOf positions rows, row.key positions == key := by
  have held : (keysOf positions rows).any (· == row.key positions) = true := by
    rw [any_keysOf]
    exact List.any_eq_true.2 ⟨row, member, BEq.rfl⟩
  obtain ⟨key, known, alike⟩ := List.any_eq_true.1 held
  exact ⟨key, known, BEq.symm alike⟩

/-- One group for every key, in the order in which the keys first occur, with the rows that have the
key in their order. -/
theorem entries_ofRows (positions : List Nat) (rows : List Row) :
    (ofRows positions rows).entries =
      (keysOf positions rows).map fun key => (key, membersOf positions rows key) := by
  induction rows using List.reverseRecOn with
  | nil => rfl
  | append_singleton rows row ih =>
    have step : ofRows positions (rows ++ [row]) = (ofRows positions rows).add positions row :=
      List.foldl_concat ..
    rw [step, keysOf_concat]
    change OrderedMap.alterEntries _ _ (ofRows positions rows).entries = _
    cases held : (keysOf positions rows).any (· == row.key positions) with
    | true =>
      -- The row joins the group of its key; in the other groups nothing is appended.
      obtain ⟨key, member, alike⟩ := List.any_eq_true.1 held
      have known : ∃ e ∈ (ofRows positions rows).entries, e.1 == row.key positions := by
        rw [ih]
        exact ⟨_, List.mem_map_of_mem member, alike⟩
      rw [OrderedMap.alterEntries_known (ofRows positions rows).distinct known, ih, List.map_map,
        if_pos rfl]
      refine List.map_congr_left fun key _ => ?_
      simp only [Function.comp_apply, membersOf_concat, BEq.comm (a := key)]
      split <;> simp
    | false =>
      -- The key goes to the end, and no earlier row is a member of its group.
      have fresh : ∀ key ∈ keysOf positions rows, (row.key positions == key) = false := by
        intro key member
        rw [BEq.comm]
        exact Bool.eq_false_iff.2 fun alike =>
          Bool.eq_false_iff.1 held (List.any_eq_true.2 ⟨key, member, alike⟩)
      have unused : membersOf positions rows (row.key positions) = [] := by
        rw [membersOf, List.filter_eq_nil_iff, ← List.any_eq_false, ← any_keysOf, held]
      rw [OrderedMap.alterEntries_fresh, ih, if_neg Bool.false_ne_true, List.map_append]
      · congr 1
        · refine List.map_congr_left fun key member => ?_
          rw [membersOf_concat, fresh key member]
          simp
        · rw [List.map_singleton, membersOf_concat, unused, BEq.rfl]
          rfl
      · rw [ih]
        intro e member
        obtain ⟨key, known, rfl⟩ := List.mem_map.1 member
        rw [BEq.comm]
        exact fresh key known

theorem exists_group_of_mem {row : Row} (member : row ∈ rows) :
    ∃ group ∈ (ofRows positions rows).entries, row.key positions == group.1 := by
  obtain ⟨key, known, alike⟩ := exists_key_of_mem member
  rw [entries_ofRows]
  exact ⟨_, List.mem_map_of_mem known, alike⟩

theorem find?_key {key : Key} (member : key ∈ keysOf positions rows) :
    ∃ row, (membersOf positions rows key).head? = some row ∧ row.key positions = key := by
  have first := find?_of_mem_eraseDups member
  rw [List.find?_map] at first
  obtain ⟨row, found, spelled⟩ := Option.map_eq_some_iff.1 first
  exact ⟨row, by rw [membersOf, List.head?_filter]; exact found, spelled⟩

/-- Rows may be left out by their keys before they are grouped, or with their groups. -/
theorem entries_ofRows_filter {q : Key → Bool} (respects : ∀ k l, k == l → q k = q l)
    (positions : List Nat) (rows : List Row) :
    (ofRows positions (rows.filter fun row => q (row.key positions))).entries =
      (ofRows positions rows).entries.filter fun group => q group.1 := by
  have keys : keysOf positions (rows.filter fun row => q (row.key positions)) =
      (keysOf positions rows).filter q := by
    rw [keysOf, keysOf, ← eraseDups_filter respects, List.filter_map]
    rfl
  rw [entries_ofRows, entries_ofRows, keys, List.filter_map]
  refine List.map_congr_left fun key member => ?_
  have passes : q key = true := (List.mem_filter.1 member).2
  rw [membersOf, membersOf, List.filter_filter]
  congr 1
  refine List.filter_congr fun row _ => ?_
  cases alike : row.key positions == key with
  | false => rfl
  | true => rw [respects _ _ alike, passes]; rfl

theorem distinct_keysOf (positions : List Nat) (rows : List Row) :
    (keysOf positions rows).Pairwise fun k l => (k == l) = false := by
  have distinct := (ofRows positions rows).distinct_keys
  rw [OrderedMap.keys, entries_ofRows, List.map_map] at distinct
  exact List.pairwise_map.1 distinct

theorem flatMap_membersOf_perm (positions : List Nat) (rows : List Row) {keys : List Key}
    (distinct : keys.Pairwise fun k l => (k == l) = false) :
    (keys.flatMap (membersOf positions rows)).Perm
      (rows.filter fun row => keys.any fun key => row.key positions == key) := by
  have apart : (keys.map fun (key : Key) (row : Row) => row.key positions == key).Pairwise
      fun p q => ∀ row ∈ rows, p row = true → q row = false := by
    rw [List.pairwise_map]
    refine distinct.imp fun different row _ found => ?_
    -- A row with one key that had another one as well would make the two keys the same.
    exact (BEq.congr_left found).trans different
  have parts := flatten_filters_perm rows apart
  simp only [List.map_map, List.any_map] at parts
  rw [List.flatMap_def]
  exact parts

theorem flatten_ofRows_perm (positions : List Nat) (rows : List Row) :
    (ofRows positions rows).values.flatten.Perm rows := by
  have held : ∀ row ∈ rows,
      ((keysOf positions rows).any fun key => row.key positions == key) = true :=
    fun _ member => List.any_eq_true.2 (exists_key_of_mem member)
  have all := flatMap_membersOf_perm positions rows (distinct_keysOf positions rows)
  rw [List.filter_eq_self.2 held] at all
  rwa [OrderedMap.values, entries_ofRows, List.map_map]

end Groups

theorem Grouping.getElem?_of_keyPlace? {g : Grouping} {position place : Nat}
    (placed : g.keyPlace? position = some place) : g.positions[place]? = some position := by
  obtain ⟨inside, same, _⟩ := List.idxOf?_eq_some_iff.1 placed
  rw [List.getElem?_eq_getElem inside, same]

/-! ## Grouping a table -/

namespace Table

variable {t : Table} {positions : List Nat}

theorem groupAt_eq_ok {g : Grouping} : t.groupAt positions = .ok g ↔
    (∀ position ∈ positions, position < t.width) ∧
      g = { positions, header := t.header, groups := Groups.ofRows positions t.rows } := by
  rw [Table.groupAt]
  split
  · next position found =>
    have outside := List.find?_some found
    simp only [throw_eq_ok, false_iff, not_and]
    intro inside
    have := inside position (List.mem_of_find?_eq_some found)
    simp at outside
    omega
  · next missing =>
    have inside : ∀ position ∈ positions, position < t.width := by
      intro position member
      simpa using List.find?_eq_none.1 missing position member
    rw [pure_eq_ok]
    exact ⟨fun same => ⟨inside, same.symm⟩, fun ⟨_, same⟩ => same.symm⟩

theorem groupBy_eq_ok {names : List String} {g : Grouping} : t.groupBy names = .ok g ↔
    ∃ positions, names.mapM t.header.position = .ok positions ∧
      g = { positions, header := t.header, groups := Groups.ofRows positions t.rows } := by
  simp only [Table.groupBy, bind_eq_ok, groupAt_eq_ok]
  constructor
  · rintro ⟨positions, resolved, _, rfl⟩
    exact ⟨positions, resolved, rfl⟩
  · rintro ⟨positions, resolved, rfl⟩
    refine ⟨positions, resolved, fun position member => ?_, rfl⟩
    obtain ⟨name, _, found⟩ := exists_of_mem_mapM resolved member
    exact lt_width_of_position found

end Table

end TableQuery
