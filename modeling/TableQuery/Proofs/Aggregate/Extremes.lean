import TableQuery.Proofs.Aggregate.Accumulators
import TableQuery.Proofs.Cell.Kinds
import TableQuery.Proofs.Text.Bytes

/-! # Extremes

The least and the greatest cell of a column are cells of the column.  Texts are
compared with texts and numbers with numbers, so that the first cell that is
not empty fixes what the others have to be, and the first one of the other kind
is refused.  Where the order of the cells is that of some keys, an extreme is
the first cell whose key nothing in the column beats.
-/

namespace TableQuery.Aggregate.Extreme

variable {e : Extreme}

theorem add_eq_ok {present next : Option Cell} {c : Cell} (added : e.add present c = .ok next) :
    (c = .null ∧ next = present) ∨
    (c ≠ .null ∧ present = none ∧ next = some c) ∨
    ∃ best o, present = some best ∧ order? best c = some o ∧
      next = some (if e.beats o then c else best) := by
  unfold add at added
  cases empty : c.isNull with
  | true =>
    rw [empty, if_pos rfl, pure_eq_ok] at added
    cases c <;> cases empty
    exact .inl ⟨rfl, added.symm⟩
  | false =>
    rw [empty, if_neg Bool.false_ne_true] at added
    right
    cases present with
    | none =>
      rw [pure_eq_ok] at added
      refine .inl ⟨?_, rfl, added.symm⟩
      rintro rfl
      cases empty
    | some best =>
      dsimp only at added
      split at added
      · next o compared =>
        rw [pure_eq_ok] at added
        exact .inr ⟨best, o, rfl, compared, added.symm⟩
      · cases added

theorem kind_of_order? {a b : Cell} {o : Ordering} (compared : order? a b = some o) :
    b.kind? = a.kind? := by
  cases a <;> cases b <;> first | rfl | cases compared

/-! ## Refused kinds -/

/-- The cause that an extreme has against a cell, once there was one of a kind. -/
def kindCause? (e : Extreme) (kind : Cell.Kind) (c : Cell) : Option Refusal :=
  (Option.guard (Cell.differs kind) c).map (.notNumeric e.name)

/-- What is present is of the kind of the first cell. -/
def Holds (kind : Cell.Kind) (present : Option Cell) : Prop :=
  ∃ best, present = some best ∧ best.kind? = some kind

theorem Holds.refusal?_add {kind : Cell.Kind} {present : Option Cell} (c : Cell)
    (holds : Holds kind present) : refusal? (e.add present c) = e.kindCause? kind c := by
  obtain ⟨best, rfl, sameKind⟩ := holds
  cases best <;> cases sameKind <;> cases c <;> rfl

theorem Holds.add {kind : Cell.Kind} {present next : Option Cell} {c : Cell}
    (holds : Holds kind present) (added : e.add present c = .ok next) : Holds kind next := by
  obtain ⟨best, rfl, sameKind⟩ := holds
  obtain ⟨_, rfl⟩ | ⟨_, none, _⟩ | ⟨_, o, same, compared, rfl⟩ := add_eq_ok added
  · exact ⟨best, rfl, sameKind⟩
  · cases none
  · cases same
    split
    · exact ⟨c, rfl, (kind_of_order? compared).trans sameKind⟩
    · exact ⟨best, rfl, sameKind⟩

/-- An extreme is refused for the first cell of another kind than the first one that is not
empty. -/
theorem refusal?_reduce (e : Extreme) (cells : List Cell) :
    refusal? (e.aggregate.reduce cells) =
      (cells.findSome? Cell.kind?).bind fun kind =>
        (cells.find? (Cell.differs kind)).map (.notNumeric e.name) := by
  refine (Accumulator.refusal?_reduce _ cells).trans ?_
  change refusal? (cells.foldlM e.add none) = _
  induction cells with
  | nil => rfl
  | cons c cells ih =>
    rw [List.foldlM_cons, List.findSome?_cons]
    cases first : c.kind? with
    | none =>
      obtain rfl := Cell.kind?_eq_none.1 first
      exact ih
    | some kind =>
      have taken : e.add none c = .ok (some c) := by
        cases c <;> cases first <;> rfl
      have same : c.differs kind = false := Cell.differs_eq_false.2 (.inr first)
      have others := refusal?_foldlM (Holds kind) (Holds.refusal?_add (e := e)) Holds.add
        ⟨c, rfl, first⟩ cells
      rw [taken, ok_bind, others, Option.bind_some, List.find?_cons_of_neg (by simp [same]),
        ← List.findSome?_guard, List.map_findSome?]
      rfl

/-- What is present after some cells: one of them, if they are not all empty. -/
def Presents : Option Cell → List Cell → Prop
  | none, cells => ∀ c ∈ cells, c = .null
  | some best, cells => best ∈ cells ∧ best ≠ .null

theorem presents_add {cells : List Cell} {present next : Option Cell} {c : Cell}
    (presents : Presents present cells) (added : e.add present c = .ok next) :
    Presents next (cells ++ [c]) := by
  obtain ⟨rfl, rfl⟩ | ⟨nonempty, _, rfl⟩ | ⟨best, o, rfl, compared, rfl⟩ := add_eq_ok added
  · cases next with
    | none => exact List.forall_mem_append.2 ⟨presents, List.forall_mem_singleton.2 rfl⟩
    | some best => exact ⟨List.mem_append_left _ presents.1, presents.2⟩
  · exact ⟨by simp, nonempty⟩
  · split
    · refine ⟨by simp, ?_⟩
      rintro rfl
      cases best <;> cases compared
    · exact ⟨List.mem_append_left _ presents.1, presents.2⟩

theorem reduce_eq_ok {cells : List Cell} {c : Cell} (reduced : e.aggregate.reduce cells = .ok c) :
    (c = .null ∧ ∀ d ∈ cells, d = .null) ∨ (c ∈ cells ∧ c ≠ .null) := by
  obtain ⟨last, ran, rfl⟩ := Accumulator.reduce_eq_ok.1 reduced
  have start : Presents none [] := fun _ member => nomatch member
  have presents := holds_of_foldlM presents_add start ran
  cases last with
  | none => exact .inl ⟨rfl, presents⟩
  | some best => exact .inr presents

theorem nulls_of_reduce {cells : List Cell}
    (empty : e.aggregate.reduce cells = .ok .null) : ∀ c ∈ cells, c = .null := by
  obtain ⟨_, nulls⟩ | ⟨_, nonempty⟩ := reduce_eq_ok empty
  · exact nulls
  · exact absurd rfl nonempty

theorem mem_of_reduce {cells : List Cell} {c : Cell} (reduced : e.aggregate.reduce cells = .ok c)
    (nonempty : c ≠ .null) : c ∈ cells := by
  obtain ⟨null, _⟩ | ⟨member, _⟩ := reduce_eq_ok reduced
  · exact absurd null nonempty
  · exact member

/-! ## Ends of an order -/

/-- Whether `a` is at least as far towards the end that is looked for as `b`. -/
def Bounds {κ : Type} [LE κ] (e : Extreme) (a b : κ) : Prop :=
  match e with
  | .least => a ≤ b
  | .greatest => b ≤ a

section Keys

variable {κ : Type} [LinearOrder κ] {key? : Cell → Option κ}

theorem bounds_refl (e : Extreme) (a : κ) : e.Bounds a a := by
  cases e <;> exact le_refl a

theorem bounds_trans {a b c : κ} (first : e.Bounds a b) (second : e.Bounds b c) : e.Bounds a c := by
  cases e
  · exact le_trans first second
  · exact le_trans second first

theorem bounds_of_not {a b : κ} (beaten : ¬ e.Bounds a b) : e.Bounds b a := by
  cases e <;> exact (not_le.1 beaten).le

theorem beats_compare {a b : κ} : e.beats (compare a b) = true ↔ ¬ e.Bounds a b := by
  cases e
  · rw [beats, beq_iff_eq, compare_gt_iff_gt]
    exact not_le.symm
  · rw [beats, beq_iff_eq, compare_lt_iff_lt]
    exact not_le.symm

def OrderedBy (key? : Cell → Option κ) : Prop :=
  ∀ ⦃a b x y⦄, key? a = some x → key? b = some y → order? a b = some (compare x y)

/-- Whether all cells of a column have a key, empty ones aside. -/
def Keyed (key? : Cell → Option κ) (cells : List Cell) : Prop :=
  ∀ c ∈ cells, c = .null ∨ ∃ x, key? c = some x

/-- Whether a cell is the first one of a column whose key is at an end. -/
def IsFirst (e : Extreme) (key? : Cell → Option κ) (best : Cell) (cells : List Cell) : Prop :=
  ∃ before after x, cells = before ++ best :: after ∧ key? best = some x ∧
    (∀ c ∈ before, ∀ y, key? c = some y → ¬ e.Bounds y x) ∧
    ∀ c ∈ after, ∀ y, key? c = some y → e.Bounds x y

theorem OrderedBy.key?_null (ordered : OrderedBy key?) : key? .null = none := by
  cases keyed : key? .null with
  | none => rfl
  | some x => cases ordered keyed keyed

theorem IsFirst.bounds {best c : Cell} {cells : List Cell} {x y : κ}
    (first : e.IsFirst key? best cells) (atEnd : key? best = some x) (member : c ∈ cells)
    (keyed : key? c = some y) : e.Bounds x y := by
  obtain ⟨before, after, z, rfl, same, beaten, bounded⟩ := first
  obtain rfl : x = z := Option.some.inj (atEnd.symm.trans same)
  simp only [List.mem_append, List.mem_cons] at member
  obtain inFront | rfl | behind := member
  · exact bounds_of_not (beaten c inFront y keyed)
  · obtain rfl : x = y := Option.some.inj (atEnd.symm.trans keyed)
    exact bounds_refl e x
  · exact bounded c behind y keyed

theorem IsFirst.concat {best c : Cell} {cells : List Cell} {x : κ}
    (first : e.IsFirst key? best cells) (atEnd : key? best = some x)
    (bounded : ∀ y, key? c = some y → e.Bounds x y) : e.IsFirst key? best (cells ++ [c]) := by
  obtain ⟨before, after, z, rfl, same, beaten, others⟩ := first
  obtain rfl : x = z := Option.some.inj (atEnd.symm.trans same)
  refine ⟨before, after ++ [c], x, by simp, same, beaten, ?_⟩
  exact List.forall_mem_append.2 ⟨others, List.forall_mem_singleton.2 bounded⟩

/-- What a run over cells with keys has found: nothing in empty cells, or else the first cell at the
end. -/
def Finds (e : Extreme) (key? : Cell → Option κ) : Option Cell → List Cell → Prop
  | none, cells => ∀ c ∈ cells, c = .null
  | some best, cells => e.IsFirst key? best cells

theorem IsFirst.replace {best c : Cell} {cells : List Cell} {x y : κ}
    (first : e.IsFirst key? best cells) (atEnd : key? best = some x) (keyed : key? c = some y)
    (beaten : ¬ e.Bounds x y) : e.IsFirst key? c (cells ++ [c]) := by
  refine ⟨cells, [], y, rfl, keyed, fun d member z others bounds => ?_, fun _ member => ?_⟩
  · exact beaten (bounds_trans (first.bounds atEnd member others) bounds)
  · cases member

theorem finds_add (ordered : OrderedBy key?) {cells : List Cell} {present next : Option Cell}
    {c : Cell} (finds : e.Finds key? present cells) (keyed : c = .null ∨ ∃ y, key? c = some y)
    (added : e.add present c = .ok next) : e.Finds key? next (cells ++ [c]) := by
  obtain ⟨rfl, rfl⟩ | ⟨nonempty, rfl, rfl⟩ | ⟨best, o, rfl, compared, rfl⟩ := add_eq_ok added
  · cases next with
    | none => exact List.forall_mem_append.2 ⟨finds, List.forall_mem_singleton.2 rfl⟩
    | some best =>
      obtain ⟨_, _, x, _, atEnd, _⟩ := id finds
      refine IsFirst.concat finds atEnd fun y keyed => ?_
      rw [ordered.key?_null] at keyed
      cases keyed
  · obtain ⟨y, keyed⟩ := keyed.resolve_left nonempty
    refine ⟨cells, [], y, rfl, keyed, fun d member z others => ?_, fun _ member => ?_⟩
    · rw [finds d member, ordered.key?_null] at others
      cases others
    · cases member
  · obtain ⟨_, _, x, _, atEnd, _⟩ := id finds
    have nonempty : c ≠ .null := by
      rintro rfl
      cases best <;> cases compared
    obtain ⟨y, keyed⟩ := keyed.resolve_left nonempty
    -- The cells are compared as their keys, so that it is the key that stays or is beaten.
    obtain rfl : compare x y = o := Option.some.inj ((ordered atEnd keyed).symm.trans compared)
    split
    · next beaten => exact IsFirst.replace finds atEnd keyed (beats_compare.1 beaten)
    · next stays =>
      refine IsFirst.concat finds atEnd fun z same => ?_
      obtain rfl : y = z := Option.some.inj (keyed.symm.trans same)
      exact not_not.1 (mt beats_compare.2 stays)

/-- An extreme of cells with keys is the first one whose key is at the end. -/
theorem isFirst_of_reduce (ordered : OrderedBy key?) {cells : List Cell} {c : Cell}
    (keyed : Keyed key? cells) (reduced : e.aggregate.reduce cells = .ok c)
    (nonempty : c ≠ .null) : e.IsFirst key? c cells := by
  obtain ⟨last, ran, rfl⟩ := Accumulator.reduce_eq_ok.1 reduced
  -- The invariant asks for keys of the cells taken in so far only, not of the whole column.
  let holds (present : Option Cell) (taken : List Cell) : Prop :=
    Keyed key? taken → e.Finds key? present taken
  have each : ∀ {taken present c next}, holds present taken → e.add present c = .ok next →
      holds next (taken ++ [c]) := by
    intro taken present c next before added all
    refine finds_add ordered (before fun d member => ?_) (all c (by simp)) added
    exact all d (List.mem_append_left _ member)
  have start : holds none [] := fun _ _ member => nomatch member
  have finds := holds_of_foldlM each start ran keyed
  cases last with
  | none => exact absurd rfl nonempty
  | some best => exact finds

end Keys

/-! ## The outcome of an extreme -/

theorem orderedBy_text? : OrderedBy Cell.text? := by
  intro a b s t left right
  obtain rfl := Cell.text?_eq_some.1 left
  obtain rfl := Cell.text?_eq_some.1 right
  rfl

theorem exists_reduce_iff {cells : List Cell} :
    (∃ c, e.aggregate.reduce cells = .ok c) ↔
      ∃ kind, ∀ c ∈ cells, c = .null ∨ c.kind? = some kind := by
  simp only [← Cell.differs_eq_false]
  rw [← refusal?_eq_none, refusal?_reduce]
  constructor
  · intro accepted
    cases first : cells.findSome? Cell.kind? with
    | none =>
      refine ⟨.text, fun c member => ?_⟩
      exact Cell.differs_eq_false.2 (.inl (Cell.kind?_eq_none.1
        (List.findSome?_eq_none_iff.1 first c member)))
    | some kind =>
      rw [first, Option.bind_some, Option.map_eq_none_iff, List.find?_eq_none] at accepted
      exact ⟨kind, fun c member => Bool.eq_false_iff.2 (accepted c member)⟩
  · rintro ⟨kind, same⟩
    cases first : cells.findSome? Cell.kind? with
    | none => rfl
    | some firstKind =>
      obtain ⟨c, member, held⟩ := List.exists_of_findSome?_eq_some first
      have known := Cell.differs_eq_false.1 (same c member)
      rw [held] at known
      obtain rfl : firstKind = kind := by
        obtain rfl | equal := known
        · cases held
        · exact Option.some.inj equal
      rw [Option.bind_some, Option.map_eq_none_iff, List.find?_eq_none]
      exact fun c member => Bool.eq_false_iff.1 (same c member)

theorem bounds_of_reduce_text {cells : List Cell} {s t : String}
    (reduced : e.aggregate.reduce cells = .ok (.text s)) (member : .text t ∈ cells) :
    e.Bounds (Text.bytes s) (Text.bytes t) := by
  have taken : .text s ∈ cells := mem_of_reduce reduced nofun
  obtain ⟨kind, same⟩ := exists_reduce_iff.1 ⟨_, reduced⟩
  obtain rfl : Cell.Kind.text = kind := by
    obtain null | equal := same _ taken
    · cases null
    · exact Option.some.inj equal
  have keyed : Keyed Cell.text? cells := by
    intro c inColumn
    refine (same c inColumn).imp id fun equal => ?_
    cases c <;> cases equal
    exact ⟨_, rfl⟩
  have bounds : e.Bounds s t :=
    (isFirst_of_reduce orderedBy_text? keyed reduced nofun).bounds rfl member rfl
  cases e <;> exact Text.bytes_le bounds

/-- An extreme is taken of exactly the columns whose cells are all texts or all numbers, empty ones
aside.  It is empty where nothing else is in the column, and otherwise one of its cells; of texts it
is the one with the least or the greatest bytes.  Other columns are refused for the first cell of
another kind than the first one that is not empty. -/
theorem reduce_of_one_kind (e : Extreme) (cells : List Cell) :
    ((∃ c, e.aggregate.reduce cells = .ok c) ↔
      ∃ kind, ∀ c ∈ cells, c = .null ∨ c.kind? = some kind) ∧
    (e.aggregate.reduce cells = .ok .null ↔ ∀ c ∈ cells, c = .null) ∧
    (∀ c, e.aggregate.reduce cells = .ok c → c ≠ .null → c ∈ cells) ∧
    (∀ s, e.aggregate.reduce cells = .ok (.text s) →
      ∀ t, .text t ∈ cells → e.Bounds (Text.bytes s) (Text.bytes t)) ∧
    (∀ refusal, e.aggregate.reduce cells = .error refusal ↔
      ∃ kind c, cells.findSome? Cell.kind? = some kind ∧
        cells.find? (Cell.differs kind) = some c ∧ refusal = .notNumeric e.name c) := by
  refine ⟨exists_reduce_iff, ⟨nulls_of_reduce, fun nulls => ?_⟩, fun _ => mem_of_reduce,
    fun s reduced t member => bounds_of_reduce_text reduced member, fun refusal => ?_⟩
  · obtain ⟨c, reduced⟩ := (exists_reduce_iff (e := e)).2
      ⟨.text, fun c member => .inl (nulls c member)⟩
    obtain ⟨rfl, _⟩ | ⟨member, nonempty⟩ := reduce_eq_ok reduced
    · exact reduced
    · exact absurd (nulls c member) nonempty
  · rw [← refusal?_eq_some, refusal?_reduce]
    simp only [Option.bind_eq_some_iff, Option.map_eq_some_iff, exists_and_left, @eq_comm _ refusal]

end TableQuery.Aggregate.Extreme
