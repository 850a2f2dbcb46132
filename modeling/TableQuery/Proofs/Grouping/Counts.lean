import TableQuery.Proofs.Aggregate.Sums
import TableQuery.Proofs.Grouping.Nested
import TableQuery.Proofs.Grouping.Partition
import Mathlib.Algebra.BigOperators.Group.List.Basic
import Mathlib.Tactic.Ring

/-! # Counting members

How many rows a group has is found without a look at their cells: a star stands
for the numbers of the rows, and the count of a column takes empty cells too.
The numbers of the rows add up without rounding where their whole fits, since
they only grow.  Until groups are left out, their counts add up to all rows.
-/

namespace TableQuery

variable {α : Type}

namespace Aggregate

theorem integerSum_ofInt {counts : List Nat} (fits : Cell.IsInt counts.sum) :
    integerSum (counts.map fun n : Nat => Cell.ofInt n) = counts.sum := by
  induction counts with
  | nil => rfl
  | cons n counts ih =>
    rw [List.sum_cons] at fits ⊢
    -- Counts are not negative, so that what the whole is small enough for, its parts are.
    have parts : Cell.IsInt n ∧ Cell.IsInt counts.sum := by
      unfold Cell.IsInt at *
      omega
    have first : (Int64.ofInt n).toInt = n := Int64.toInt_ofInt_of_le parts.1.1 parts.1.2
    have rest := ih parts.2
    simp only [integerSum, List.map_cons, Cell.ofInt, List.filterMap_cons, Cell.integer?,
      List.sum_cons, first] at rest ⊢
    omega

def ordinals (n : Nat) : List Cell := (List.range' 1 n).map fun k : Nat => Cell.ofInt k

def triangle (n : Nat) : Nat := n * (n + 1) / 2

theorem triangle_succ (n : Nat) : triangle (n + 1) = triangle n + (n + 1) := by
  have double : (n + 1) * (n + 1 + 1) = n * (n + 1) + (n + 1) * 2 := by ring
  rw [triangle, triangle, double, Nat.add_mul_div_right _ _ Nat.two_pos]

theorem sum_range'_eq_triangle (n : Nat) : (List.range' 1 n).sum = triangle n := by
  induction n with
  | zero => rfl
  | succ n ih =>
    rw [List.range'_1_concat, List.sum_append, ih, triangle_succ, List.sum_singleton]
    omega

theorem ordinals_succ (n : Nat) : ordinals (n + 1) = ordinals n ++ [Cell.ofInt (n + 1)] := by
  simp [ordinals, List.range'_1_concat, Nat.add_comm]

theorem integerSum_ordinals {n : Nat} (fits : Cell.IsInt (triangle n)) :
    integerSum (ordinals n) = triangle n := by
  rw [← sum_range'_eq_triangle] at fits ⊢
  exact integerSum_ofInt fits

theorem staysExact_ordinals {n : Nat} (fits : Cell.IsInt (triangle n)) :
    StaysExact (ordinals n) := by
  induction n with
  | zero => exact staysExact_of_nulls (by simp [ordinals])
  | succ n ih =>
    -- The sums only grow, so that those on the way fit where the last one does.
    have before : Cell.IsInt (triangle n) := by
      have next := triangle_succ n
      unfold Cell.IsInt at *
      omega
    rw [ordinals_succ, staysExact_concat, ← ordinals_succ, integerSum_ordinals fits]
    exact ⟨ih before, fits⟩

theorem sum_reduce_ordinals {n : Nat} (positive : 0 < n) (fits : Cell.IsInt (triangle n)) :
    sum.reduce (ordinals n) = .ok (Cell.ofInt (triangle n)) := by
  have noText : ∀ s, .text s ∉ ordinals n := by simp [ordinals, Cell.ofInt]
  have noFloat : ∀ f, .float f ∉ ordinals n := by simp [ordinals, Cell.ofInt]
  have first : ∃ i, .int i ∈ ordinals n := by
    obtain ⟨m, rfl⟩ := Nat.exists_eq_add_of_lt positive
    exact ⟨Int64.ofInt (0 + m + 1), by simp [ordinals_succ, Cell.ofInt]⟩
  have total : (Int64.ofInt (triangle n)).toInt = integerSum (ordinals n) := by
    rw [integerSum_ordinals fits, Int64.toInt_ofInt_of_le fits.1 fits.2]
  obtain ⟨_, described, summed⟩ := exists_sum_of_noText noText
  rw [summed, described.eq_exact ⟨first, noFloat, staysExact_ordinals fits, total⟩]
  rfl

end Aggregate

namespace Node

def CallsStar (n : Node α) (name : String) : Prop :=
  ∃ arg owner, n.Calls name arg ∧ arg.kind = .star owner

def CallsColumn (n : Node α) (name column : String) : Prop :=
  ∃ arg, n.Calls name arg ∧ arg.kind = .column ∧ arg.name = .ok column

end Node

namespace Grouping

variable {g : Grouping} {n : Node α} {name : String} {positions : List Nat} {rows : List Row}

theorem outcome_of_star {a : Aggregate} (builtin : g.catalog = .builtin)
    (filed : Catalog.builtin.get? a.name = some a)
    (named : g.settings.filedName name = a.name) (calls : n.CallsStar name) (members : List Row) :
    g.outcome members n = a.reduce (Aggregate.ordinals members.length) := by
  obtain ⟨arg, owner, calls, isStar⟩ := calls
  have found := resolve_of_builtin builtin filed named
  rw [outcome, call_of_star calls isStar found]
  rfl

theorem outcome_of_column {a : Aggregate} {column : String} {position : Nat}
    (builtin : g.catalog = .builtin) (filed : Catalog.builtin.get? a.name = some a)
    (named : g.settings.filedName name = a.name) (calls : n.CallsColumn name column)
    (resolved : g.header.position column = .ok position) (members : List Row) :
    g.outcome members n = a.reduce (members.map fun row => row.cell position) := by
  obtain ⟨arg, calls, isColumn, columnNamed⟩ := calls
  have found := resolve_of_builtin builtin filed named
  rw [outcome, call_of_column calls isColumn columnNamed resolved found]
  rfl

/-- Whether a node counts the members of a group, by a star or by any column. -/
def Counts (g : Grouping) (n : Node α) : Prop :=
  ∃ name, g.settings.filedName name = "count" ∧
    (n.CallsStar name ∨
      ∃ column position, n.CallsColumn name column ∧ g.header.position column = .ok position)

theorem Counts.outcome_eq (counts : g.Counts n) (builtin : g.catalog = .builtin)
    (members : List Row) : g.outcome members n = .ok (Cell.ofInt members.length) := by
  obtain ⟨name, named, star | ⟨column, position, ofColumn, resolved⟩⟩ := counts
  · rw [outcome_of_star (a := .count) builtin rfl named star, Aggregate.count_reduce]
    simp [Aggregate.ordinals]
  · rw [outcome_of_column (a := .count) builtin rfl named ofColumn resolved,
      Aggregate.count_reduce]
    simp

theorem Counts.mapM_outcome (counts : g.Counts n) (builtin : g.catalog = .builtin)
    (groups : List (Key × List Row)) :
    groups.mapM (fun group => g.outcome group.2 n) =
      .ok (groups.map fun group => Cell.ofInt group.2.length) := by
  simp only [counts.outcome_eq builtin]
  exact List.mapM_pure ..

/-- What becomes of the groups of some rows by settings and catalogs, which leave out none. -/
inductive Unfiltered (positions : List Nat) (rows : List Row) : Grouping → Prop where
  | formed {g : Grouping} (formed : Formed positions rows g) : Unfiltered positions rows g
  | withSettings {g : Grouping} (before : Unfiltered positions rows g) (settings : Settings) :
      Unfiltered positions rows (g.withSettings settings)
  | withCatalog {g : Grouping} (before : Unfiltered positions rows g) (catalog : Catalog) :
      Unfiltered positions rows (g.withCatalog catalog)

theorem Unfiltered.flatten_perm (unfiltered : Unfiltered positions rows g) :
    g.groups.values.flatten.Perm rows := by
  induction unfiltered with
  | formed formed => exact formed.flatten_perm
  | withSettings _ _ ih | withCatalog _ _ ih => exact ih

theorem sum_lengths_of_perm {groups : Groups} (perm : groups.values.flatten.Perm rows) :
    (groups.entries.map fun group => group.2.length).sum = rows.length := by
  rw [← perm.length_eq, List.length_flatten, OrderedMap.values, List.map_map]
  rfl

/-- With the built-in aggregates, whatever the cells of a group hold, a count of its rows or of a
column has the number of its rows, and the sum of a star that of the numbers up to there, if it
fits.  As long as no groups are left out, the counts add up to the number of rows grouped. -/
theorem counts_of_reached (reached : Reached positions rows g) (builtin : g.catalog = .builtin) :
    (∀ group ∈ g.groups.entries,
      (∀ n : Node α, g.Counts n → g.outcome group.2 n = .ok (Cell.ofInt group.2.length)) ∧
      ∀ (n : Node α) (name : String), g.settings.filedName name = "sum" → n.CallsStar name →
        Cell.IsInt (Aggregate.triangle group.2.length) →
          g.outcome group.2 n = .ok (Cell.ofInt (Aggregate.triangle group.2.length))) ∧
    (Unfiltered positions rows g → ∀ n : Node α, g.Counts n →
      ∃ cells, g.groups.entries.mapM (fun group => g.outcome group.2 n) = .ok cells ∧
        cells = g.groups.entries.map (fun group => Cell.ofInt group.2.length) ∧
        (g.groups.entries.map fun group => group.2.length).sum = rows.length ∧
        (Cell.IsInt rows.length → Aggregate.integerSum cells = rows.length)) := by
  refine ⟨fun group known => ⟨fun n counts => counts.outcome_eq builtin group.2, ?_⟩, ?_⟩
  · intro n name named star fits
    -- A sum of nothing would be empty, but no group is without rows.
    have positive : 0 < group.2.length :=
      List.length_pos_iff.2 (reached.isPartition.isGroup group known).nonempty
    rw [outcome_of_star (a := .sum) builtin rfl named star]
    exact Aggregate.sum_reduce_ordinals positive fits
  · intro unfiltered n counts
    have all := sum_lengths_of_perm unfiltered.flatten_perm
    refine ⟨_, counts.mapM_outcome builtin g.groups.entries, rfl, all, fun fits => ?_⟩
    rw [← all] at fits ⊢
    rw [← Aggregate.integerSum_ofInt fits, List.map_map]
    rfl

theorem counts_of_salesByRegion :
    (∀ group ∈ salesByRegion.groups.entries,
      salesByRegion.outcome group.2 (ofAmounts "Count") = .ok (Cell.ofInt group.2.length) ∧
      salesByRegion.outcome group.2 (ofFunction "sum" ⟨(), .star none, []⟩) =
        .ok (Cell.ofInt (Aggregate.triangle group.2.length))) ∧
    ∃ cells, salesByRegion.groups.entries.mapM (fun group =>
        salesByRegion.outcome group.2 (ofFunction "count" ⟨(), .star none, []⟩)) = .ok cells ∧
      Aggregate.integerSum cells = 3 := by
  have grouped : Table.sales.groupAt [0] = .ok salesByRegion := rfl
  have formed : Formed [0] Table.sales.rows salesByRegion := .atPositions rfl grouped
  obtain ⟨members, total⟩ := counts_of_reached (α := Unit) (.formed formed) rfl
  have small : ∀ group ∈ salesByRegion.groups.entries,
      Cell.IsInt (Aggregate.triangle group.2.length) := by decide
  constructor
  · intro group known
    obtain ⟨counted, summed⟩ := members group known
    constructor
    · exact counted _
        ⟨"Count", by decide, .inr ⟨"amount", 1, ⟨_, ⟨rfl, _, rfl, rfl⟩, rfl, rfl⟩, rfl⟩⟩
    · exact summed _ "sum" (by decide) ⟨_, none, ⟨rfl, _, rfl, rfl⟩, rfl⟩ (small group known)
  · obtain ⟨cells, counted, _, _, added⟩ := total (.formed formed)
      (ofFunction "count" ⟨(), .star none, []⟩)
      ⟨"count", by decide, .inl ⟨_, none, ⟨rfl, _, rfl, rfl⟩, rfl⟩⟩
    exact ⟨cells, counted, added (by decide)⟩

end Grouping

end TableQuery
