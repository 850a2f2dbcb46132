import TableQuery.Proofs.Aggregate.Extremes
import TableQuery.Proofs.Binary64.Integers
import Mathlib.Data.Finset.Dedup
import Mathlib.Data.Finset.Max

/-! # Extremes of integers

Integers are compared as the floats nearest to them.  Rounding keeps their order,
but takes integers beyond 53 bits to the same float.  The extreme of a column of
integers is the first one that is rounded to the float of the integer at the
end, and that need not be the integer at the end.  It is that one, whatever the
order of the cells, if and only if no other integer of the column has its float;
within 53 bits none has.
-/

namespace TableQuery.Aggregate.Extreme

open Binary64 (RoundAlike Within53 nearest roundAlike_iff)

variable {e : Extreme} {cells : List Cell} {g i : Int64}

def OfIntegers (cells : List Cell) : Prop := ∀ c ∈ cells, c = .null ∨ ∃ i, c = .int i

/-- Whether an integer is the one of a column at the end that is looked for. -/
def IsEnd (e : Extreme) (cells : List Cell) (g : Int64) : Prop :=
  .int g ∈ cells ∧ ∀ i, .int i ∈ cells → e.Bounds g.toInt i.toInt

/-- The rank of the float that the integer of a cell is rounded to. -/
def nearest? (c : Cell) : Option Int := c.integer?.map nearest

theorem orderedBy_nearest? : OrderedBy nearest? := by
  intro a b x y left right
  cases a with
  | int i =>
    cases b with
    | int j =>
      cases left
      cases right
      change some ((Binary64.order (Binary64.ofInt64 i) (Binary64.ofInt64 j)).getD .eq) = _
      rw [Binary64.order, Binary64.rank_ofInt64, Binary64.rank_ofInt64]
      rfl
    | _ => cases right
  | _ => cases left

theorem OfIntegers.keyed (integers : OfIntegers cells) : Keyed nearest? cells := by
  intro c member
  refine (integers c member).imp id ?_
  rintro ⟨i, rfl⟩
  exact ⟨_, rfl⟩

theorem bounds_nearest {i j : Int} (bounds : e.Bounds i j) : e.Bounds (nearest i) (nearest j) := by
  cases e <;> exact Binary64.nearest_le bounds

theorem bounds_antisymm {i j : Int} (bounds : e.Bounds i j) (back : e.Bounds j i) : i = j := by
  cases e
  · exact le_antisymm bounds back
  · exact le_antisymm back bounds

theorem exists_isEnd (e : Extreme) (inhabited : ∃ i, .int i ∈ cells) : ∃ g, e.IsEnd cells g := by
  let integers : Finset Int := (cells.filterMap Cell.integer?).toFinset
  have held {i : Int} : i ∈ integers ↔ ∃ n : Int64, .int n ∈ cells ∧ n.toInt = i := by
    simp only [integers, List.mem_toFinset, List.mem_filterMap]
    constructor
    · rintro ⟨c, member, same⟩
      cases c <;> cases same
      exact ⟨_, member, rfl⟩
    · rintro ⟨n, member, rfl⟩
      exact ⟨_, member, rfl⟩
  obtain ⟨i, member⟩ := inhabited
  have nonempty : integers.Nonempty := ⟨i.toInt, held.2 ⟨i, member, rfl⟩⟩
  cases e with
  | least =>
    obtain ⟨n, atEnd, same⟩ := held.1 (integers.min'_mem nonempty)
    refine ⟨n, atEnd, fun j other => ?_⟩
    exact same.trans_le (integers.min'_le _ (held.2 ⟨j, other, rfl⟩))
  | greatest =>
    obtain ⟨n, atEnd, same⟩ := held.1 (integers.max'_mem nonempty)
    refine ⟨n, atEnd, fun j other => ?_⟩
    exact (integers.le_max' _ (held.2 ⟨j, other, rfl⟩)).trans_eq same.symm

/-- Of integers, the first one is found that is rounded as the one at the end is. -/
theorem exists_first (integers : OfIntegers cells) (atEnd : e.IsEnd cells g) :
    ∃ m before after, e.aggregate.reduce cells = .ok (.int m) ∧
      cells = before ++ .int m :: after ∧ RoundAlike m g ∧
      ∀ i, .int i ∈ before → ¬ RoundAlike i g := by
  obtain ⟨c, reduced⟩ := (exists_reduce_iff (e := e)).2 ⟨.numeric, fun c member => by
    refine (integers c member).imp id ?_
    rintro ⟨i, rfl⟩
    rfl⟩
  have nonempty : c ≠ .null := by
    rintro rfl
    cases nulls_of_reduce reduced _ atEnd.1
  have first : e.IsFirst nearest? c cells :=
    isFirst_of_reduce orderedBy_nearest? integers.keyed reduced nonempty
  obtain ⟨before, after, x, parts, key, beaten, _⟩ := id first
  have member : c ∈ cells := mem_of_reduce reduced nonempty
  obtain ⟨m, rfl⟩ := (integers c member).resolve_left nonempty
  cases key
  have same : nearest m.toInt = nearest g.toInt :=
    bounds_antisymm (first.bounds rfl atEnd.1 rfl) (bounds_nearest (atEnd.2 m member))
  refine ⟨m, before, after, reduced, parts, roundAlike_iff.2 same, fun i earlier alike => ?_⟩
  have tied : nearest i.toInt = nearest m.toInt := (roundAlike_iff.1 alike).trans same.symm
  exact beaten _ earlier _ rfl (tied ▸ bounds_refl e _)

theorem reduce_eq_end (integers : OfIntegers cells) (atEnd : e.IsEnd cells g)
    (alone : ∀ i, .int i ∈ cells → RoundAlike i g → i = g) :
    e.aggregate.reduce cells = .ok (.int g) := by
  obtain ⟨m, before, after, reduced, parts, alike, _⟩ := exists_first integers atEnd
  rw [reduced, alone m (by simp [parts]) alike]

theorem reduce_cons (integers : OfIntegers (.int i :: cells))
    (atEnd : e.IsEnd (.int i :: cells) g) (alike : RoundAlike i g) :
    e.aggregate.reduce (.int i :: cells) = .ok (.int i) := by
  obtain ⟨m, before, after, reduced, parts, _, earlier⟩ := exists_first integers atEnd
  cases before with
  | nil =>
    cases parts
    exact reduced
  | cons c before =>
    cases parts
    exact absurd alike (earlier i List.mem_cons_self)

theorem OfIntegers.perm {others : List Cell} (integers : OfIntegers cells)
    (perm : others.Perm cells) : OfIntegers others :=
  fun c member => integers c (perm.mem_iff.1 member)

theorem IsEnd.perm {others : List Cell} (atEnd : e.IsEnd cells g) (perm : others.Perm cells) :
    e.IsEnd others g :=
  ⟨perm.mem_iff.2 atEnd.1, fun i member => atEnd.2 i (perm.mem_iff.1 member)⟩

/-- The integer at the end is found in every order of the cells if and only if it is the only one
that is rounded to its float. -/
theorem reduce_perm_iff (integers : OfIntegers cells) (atEnd : e.IsEnd cells g) :
    (∀ others, others.Perm cells → e.aggregate.reduce others = .ok (.int g)) ↔
      ∀ i, .int i ∈ cells → RoundAlike i g → i = g := by
  constructor
  · intro found i member alike
    -- An integer that is rounded alike would be found if it came first.
    obtain ⟨before, after, rfl⟩ := List.append_of_mem member
    have perm : (.int i :: (before ++ after)).Perm (before ++ .int i :: after) :=
      List.perm_middle.symm
    have first : e.aggregate.reduce (.int i :: (before ++ after)) = .ok (.int i) :=
      reduce_cons (integers.perm perm) (atEnd.perm perm) alike
    rw [found _ perm] at first
    cases first
    rfl
  · intro alone others perm
    refine reduce_eq_end (integers.perm perm) (atEnd.perm perm) fun i member => ?_
    exact alone i (perm.mem_iff.1 member)

/-- The extreme of integers is the first one that is rounded to the float of the integer at the end.
It is the integer at the end itself, in every order of the cells, if and only if no other one is
rounded to that float, as it is where all are within 53 bits. -/
theorem reduce_of_integers (integers : OfIntegers cells) (inhabited : ∃ i, .int i ∈ cells) :
    ∃ m g, e.aggregate.reduce cells = .ok (.int m) ∧ e.IsEnd cells g ∧
      (∃ before after, cells = before ++ .int m :: after ∧ RoundAlike m g ∧
        ∀ i, .int i ∈ before → ¬ RoundAlike i g) ∧
      ((∀ others, others.Perm cells → e.aggregate.reduce others = .ok (.int g)) ↔
        ∀ i, .int i ∈ cells → RoundAlike i g → i = g) ∧
      ((∀ i, .int i ∈ cells → Within53 i) →
        ∀ others, others.Perm cells → e.aggregate.reduce others = .ok (.int g)) := by
  obtain ⟨g, atEnd⟩ := exists_isEnd e inhabited
  obtain ⟨m, before, after, reduced, parts, alike, earlier⟩ := exists_first integers atEnd
  have everyOrder := reduce_perm_iff integers atEnd
  refine ⟨m, g, reduced, atEnd, ⟨before, after, parts, alike, earlier⟩, everyOrder,
    fun within => ?_⟩
  apply everyOrder.2
  intro i member
  exact Binary64.eq_of_roundAlike (within i member) (within g atEnd.1)

/-- Two integers beyond 53 bits that have different floats, and a cell between them. -/
def distinctFloats : List Cell := [.int 9007199254740993, .null, .int 9007199254740994]

theorem greatest_of_distinctFloats :
    OfIntegers distinctFloats ∧ (∃ i, .int i ∈ distinctFloats) ∧
      ∀ others, others.Perm distinctFloats →
        greatest.aggregate.reduce others = .ok (.int 9007199254740994) := by
  have integers : OfIntegers distinctFloats := by simp [OfIntegers, distinctFloats]
  have inhabited : ∃ i, .int i ∈ distinctFloats := ⟨9007199254740993, List.mem_cons_self⟩
  have cases_of {i : Int64} (member : .int i ∈ distinctFloats) :
      i = 9007199254740993 ∨ i = 9007199254740994 := by
    simpa [distinctFloats] using member
  obtain ⟨m, g, _, atEnd, _, everyOrder, _⟩ :=
    reduce_of_integers (e := .greatest) integers inhabited
  obtain rfl : g = 9007199254740994 := by
    refine (cases_of atEnd.1).resolve_left ?_
    rintro rfl
    have bounded : (9007199254740994 : Int64).toInt ≤ (9007199254740993 : Int64).toInt :=
      atEnd.2 9007199254740994 (by simp [distinctFloats])
    exact absurd bounded (by decide)
  refine ⟨integers, inhabited, everyOrder.2 fun i member alike => ?_⟩
  refine (cases_of member).resolve_left ?_
  rintro rfl
  cases alike

/-- Of two integers with one float the first one is found, whether it is the greater one or not. -/
theorem not_greatest_of_oneFloat :
    greatest.aggregate.reduce [.int 9007199254740992, .int 9007199254740993] =
      .ok (.int 9007199254740992) ∧
    greatest.IsEnd [.int 9007199254740992, .int 9007199254740993] 9007199254740993 ∧
    greatest.aggregate.reduce [.int 9007199254740993, .int 9007199254740992] =
      .ok (.int 9007199254740993) := by
  refine ⟨rfl, ⟨by simp, fun i member => ?_⟩, rfl⟩
  have known : i = 9007199254740992 ∨ i = 9007199254740993 := by simpa using member
  obtain rfl | rfl := known
  · show (9007199254740992 : Int64).toInt ≤ (9007199254740993 : Int64).toInt
    decide
  · exact bounds_refl .greatest _

end TableQuery.Aggregate.Extreme
