import TableQuery.Proofs.Grouping.Counts

/-! # Groupings by further columns

Rows that are grouped by some columns and then by further ones make finer groups.
A finer key begins with the key of one coarser group, in some spelling: the two
groupings take their keys from different rows, which may write a zero or what is
no number in different ways.  The rows of a coarser group are those of the finer
groups below it, so that their counts are its count.
-/

namespace TableQuery

variable {α : Type} {P Q : List Nat} {rows : List Row}

theorem Row.take_key (row : Row) (P Q : List Nat) :
    (row.key (P ++ Q)).take P.length = row.key P := by
  simp [Row.key]

theorem Row.key_beq_take {row : Row} {key : Key} (alike : row.key (P ++ Q) == key) :
    row.key P == key.take P.length := by
  rw [← row.take_key P Q]
  exact take_beq P.length alike

namespace Groups

/-- The groups of a finer grouping whose keys begin with a key of the coarser one. -/
def below (fine : Groups) (positions : List Nat) (key : Key) : List (Key × List Row) :=
  fine.entries.filter fun part => part.1.take positions.length == key

theorem membersOf_sublist {key whole : Key} (begins : key.take P.length == whole) :
    (membersOf (P ++ Q) rows key).Sublist (membersOf P rows whole) := by
  apply List.monotone_filter_right
  intro row alike
  exact BEq.trans (Row.key_beq_take alike) begins

theorem flatMap_below_perm (P Q : List Nat) (rows : List Row) (whole : Key) :
    (((ofRows (P ++ Q) rows).below P whole).flatMap (·.2)).Perm (membersOf P rows whole) := by
  have distinct : ((keysOf (P ++ Q) rows).filter fun key => key.take P.length == whole).Pairwise
      fun k l => (k == l) = false := (distinct_keysOf (P ++ Q) rows).filter _
  have held := flatMap_membersOf_perm (P ++ Q) rows distinct
  have sameRows : (rows.filter fun row =>
      ((keysOf (P ++ Q) rows).filter fun key => key.take P.length == whole).any fun key =>
        row.key (P ++ Q) == key) = membersOf P rows whole := by
    -- The key of a group need not be spelled as the key of each of its rows, so that both
    -- directions go through the beginning of the one and of the other.
    refine List.filter_congr fun row member => ?_
    rw [Bool.eq_iff_iff, List.any_eq_true]
    constructor
    · rintro ⟨key, known, alike⟩
      exact BEq.trans (Row.key_beq_take alike) (List.mem_filter.1 known).2
    · intro begins
      obtain ⟨key, known, alike⟩ : ∃ key ∈ keysOf (P ++ Q) rows, row.key (P ++ Q) == key :=
        exists_key_of_mem member
      refine ⟨key, List.mem_filter.2 ⟨known, ?_⟩, alike⟩
      exact BEq.trans (BEq.symm (Row.key_beq_take alike)) begins
  rw [below, entries_ofRows, List.filter_map, List.flatMap_map, ← sameRows]
  exact held

theorem exists_whole {part : Key × List Row} (known : part ∈ (ofRows (P ++ Q) rows).entries) :
    ∃ whole ∈ (ofRows P rows).entries, whole.1 == part.1.take P.length := by
  rw [entries_ofRows] at known
  obtain ⟨key, isKey, rfl⟩ := List.mem_map.1 known
  obtain ⟨row, head, rfl⟩ := find?_key isKey
  have member : row ∈ rows := (List.mem_filter.1 (List.mem_of_head? head)).1
  obtain ⟨whole, isGroup, alike⟩ : ∃ whole ∈ (ofRows P rows).entries, row.key P == whole.1 :=
    exists_group_of_mem member
  exact ⟨whole, isGroup, by rw [row.take_key]; exact BEq.symm alike⟩

theorem beq_take_of_mem {key whole : Key} {row : Row}
    (inPart : row ∈ membersOf (P ++ Q) rows key) (inWhole : row ∈ membersOf P rows whole) :
    whole == key.take P.length :=
  BEq.trans (BEq.symm (List.mem_filter.1 inWhole).2)
    (Row.key_beq_take (List.mem_filter.1 inPart).2)

end Groups

namespace Table

/-- Of two groupings of the rows of a table, the finer one by further columns, the rows of every
finer group are rows of one coarser group and of no other, the one whose key is the beginning of the
finer key.  The rows of a coarser group are those of the finer groups below it, each of which has
them in their order, and its count is the sum of their counts. -/
theorem groupAt_rollsUp {t : Table} {coarse fine : Grouping} (coarsely : t.groupAt P = .ok coarse)
    (finely : t.groupAt (P ++ Q) = .ok fine) :
    (∀ part ∈ fine.groups.entries, ∃ whole ∈ coarse.groups.entries,
      whole.1 == part.1.take P.length ∧ part.2 ⊆ whole.2 ∧
      ∀ other ∈ coarse.groups.entries,
        (∃ row ∈ part.2, row ∈ other.2) ∨ other.1 == part.1.take P.length → other = whole) ∧
    ∀ whole ∈ coarse.groups.entries,
      ((fine.groups.below P whole.1).flatMap (·.2)).Perm whole.2 ∧
      (∀ part ∈ fine.groups.below P whole.1, part.2.Sublist whole.2) ∧
      ∀ n : Node α, coarse.Counts n → ∃ counts : List Nat,
        (fine.groups.below P whole.1).mapM (fun part => fine.outcome part.2 n) =
          .ok (counts.map fun k : Nat => Cell.ofInt k) ∧
        coarse.outcome whole.2 n = .ok (Cell.ofInt counts.sum) := by
  have members {positions : List Nat} {g : Grouping} (grouped : t.groupAt positions = .ok g) :
      ∀ group ∈ g.groups.entries, group.2 = Groups.membersOf positions t.rows group.1 :=
    fun _ => (Grouping.Formed.atPositions rfl grouped).members_eq
  have wholes := members coarsely
  have parts := members finely
  obtain ⟨_, rfl⟩ := groupAt_eq_ok.1 coarsely
  obtain ⟨_, rfl⟩ := groupAt_eq_ok.1 finely
  refine ⟨fun part isPart => ?_, fun whole isWhole => ?_⟩
  · obtain ⟨whole, isWhole, begins⟩ := Groups.exists_whole isPart
    refine ⟨whole, isWhole, begins, ?_, fun other isOther shares => ?_⟩
    · rw [parts part isPart, wholes whole isWhole]
      exact (Groups.membersOf_sublist (BEq.symm begins)).subset
    · have otherBegins : other.1 == part.1.take P.length := by
        rcases shares with ⟨row, inPart, inOther⟩ | begins
        · rw [parts part isPart] at inPart
          rw [wholes other isOther] at inOther
          exact Groups.beq_take_of_mem inPart inOther
        · exact begins
      exact (Groups.ofRows P t.rows).distinct.eq_of_beq isOther isWhole
        (BEq.trans otherBegins (BEq.symm begins))
  · have held := Groups.flatMap_below_perm P Q t.rows whole.1
    rw [← wholes whole isWhole] at held
    refine ⟨held, fun part below => ?_, fun n counts => ?_⟩
    · obtain ⟨isPart, begins⟩ := List.mem_filter.1 below
      rw [parts part isPart, wholes whole isWhole]
      exact Groups.membersOf_sublist begins
    · have finer : Grouping.Counts
          { positions := P ++ Q, header := t.header, groups := .ofRows (P ++ Q) t.rows } n := counts
      refine ⟨(Groups.below (.ofRows (P ++ Q) t.rows) P whole.1).map fun part => part.2.length,
        ?_, ?_⟩
      · rw [finer.mapM_outcome rfl, List.map_map]
        rfl
      · rw [counts.outcome_eq rfl, ← held.length_eq, List.length_flatMap]

def zeros : Table :=
  ⟨.ofNamesFirst ["amount", "region"] ∅,
    [[.float 0.0, .text "north"], [.float (-0.0), .text "south"], [.float 0.0, .text "south"]],
    Header.fits_of_fault? rfl⟩

/-- The key of the zeros in the south is written in the other way than that of all zeros, and begins
with it. -/
theorem groupAt_rollsUp_zeros :
    ∃ coarse fine, zeros.groupAt [0] = .ok coarse ∧ zeros.groupAt [0, 1] = .ok fine ∧
      fine.groups.keys = [[.float 0.0, .text "north"], [.float (-0.0), .text "south"]] ∧
      ((fine.groups.below [0] [.float 0.0]).flatMap (·.2)).Perm zeros.rows ∧
      ∃ counts : List Nat, coarse.outcome zeros.rows (Grouping.ofAmounts "count") =
        .ok (Cell.ofInt counts.sum) := by
  have coarsely : zeros.groupAt [0] = .ok _ := rfl
  have finely : zeros.groupAt ([0] ++ [1]) = .ok _ := rfl
  obtain ⟨_, wholes⟩ := groupAt_rollsUp (α := Unit) coarsely finely
  have isWhole : ([.float 0.0], zeros.rows) ∈ (Groups.ofRows [0] zeros.rows).entries :=
    List.mem_singleton.2 rfl
  obtain ⟨held, _, counted⟩ := wholes _ isWhole
  obtain ⟨counts, _, total⟩ := counted (Grouping.ofAmounts "count")
    ⟨"count", by decide, .inr ⟨"amount", 0, ⟨_, ⟨rfl, _, rfl, rfl⟩, rfl, rfl⟩, rfl⟩⟩
  exact ⟨_, _, coarsely, finely, rfl, held, counts, total⟩

end Table

end TableQuery
