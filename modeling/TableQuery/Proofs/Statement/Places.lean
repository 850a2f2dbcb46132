import TableQuery.Proofs.Statement.Numbering

/-! # Places in a statement

The place of a node in a tree is the way down to it: the numbers of the
children to go to, the first step first.  A walk meets every place once, in
dictionary order, which is before all places below it and after those below
earlier children.
-/

namespace TableQuery.Node

variable {α : Type}

def at? : List Nat → Node α → Option (Node α)
  | [], n => some n
  | i :: place, n => n.children[i]?.bind (at? place)

mutual

/-- The places of a tree with the nodes there, every node before what is below it. -/
def walk : Node α → List (List Nat × Node α)
  | ⟨mark, kind, children⟩ => ([], ⟨mark, kind, children⟩) :: walkAll 0 children

/-- The places of a list of children with the nodes there, as seen from their parent; the first of
them is the child with a number. -/
def walkAll (first : Nat) : List (Node α) → List (List Nat × Node α)
  | [] => []
  | n :: ns => (n.walk.map fun step => (first :: step.1, step.2)) ++ walkAll (first + 1) ns

end

mutual

theorem map_snd_walk : ∀ n : Node α, n.walk.map Prod.snd = n.nodes
  | ⟨mark, kind, children⟩ => by rw [walk, nodes, List.map_cons, map_snd_walkAll 0 children]

theorem map_snd_walkAll :
    ∀ (first : Nat) (ns : List (Node α)), (walkAll first ns).map Prod.snd = nodesAll ns
  | _, [] => rfl
  | first, n :: ns => by
    rw [walkAll, nodesAll, List.map_append, List.map_map, map_snd_walkAll (first + 1) ns,
      ← map_snd_walk n]
    rfl

end

theorem length_walk (n : Node α) : n.walk.length = n.size := by
  rw [← length_marks, marks, List.length_map, ← map_snd_walk, List.length_map]

theorem mem_walkAll {first : Nat} {ns : List (Node α)} {place : List Nat} {m : Node α} :
    (place, m) ∈ walkAll first ns ↔
      ∃ i below n, place = (first + i) :: below ∧ ns[i]? = some n ∧ (below, m) ∈ n.walk := by
  induction ns generalizing first with
  | nil => simp [walkAll]
  | cons n ns ih =>
    rw [walkAll, List.mem_append, ih, List.mem_map]
    constructor
    · rintro (⟨⟨below, _⟩, member, same⟩ | ⟨i, below, c, rfl, found, member⟩)
      · cases same
        exact ⟨0, below, n, rfl, rfl, member⟩
      · exact ⟨i + 1, below, c, by rw [Nat.add_right_comm]; rfl, found, member⟩
    · rintro ⟨_ | i, below, c, rfl, found, member⟩
      · cases found
        exact .inl ⟨(below, m), member, rfl⟩
      · exact .inr ⟨i, below, c, by rw [Nat.add_right_comm]; rfl, found, member⟩

theorem mem_walk {n m : Node α} {place : List Nat} :
    (place, m) ∈ n.walk ↔ n.at? place = some m := by
  induction n using induction generalizing place with
  | step n ih =>
    obtain ⟨mark, kind, children⟩ := n
    rw [walk, List.mem_cons, mem_walkAll]
    cases place with
    | nil => simp [at?, eq_comm]
    | cons i below =>
      simp only [at?, Option.bind_eq_some_iff, Nat.zero_add, Prod.mk.injEq, reduceCtorEq, false_and,
        false_or, List.cons.injEq]
      constructor
      · rintro ⟨_, _, c, ⟨rfl, rfl⟩, found, member⟩
        exact ⟨c, found, (ih c (List.mem_of_getElem? found)).1 member⟩
      · rintro ⟨c, found, held⟩
        exact ⟨i, below, c, ⟨rfl, rfl⟩, found, (ih c (List.mem_of_getElem? found)).2 held⟩

mutual

theorem sorted_walk : ∀ n : Node α, n.walk.Pairwise fun earlier later => earlier.1 < later.1
  | ⟨mark, kind, children⟩ => by
    rw [walk, List.pairwise_cons]
    refine ⟨fun ⟨place, m⟩ member => ?_, sorted_walkAll 0 children⟩
    obtain ⟨i, below, _, rfl, _⟩ := mem_walkAll.1 member
    exact List.nil_lt_cons _ _

theorem sorted_walkAll : ∀ (first : Nat) (ns : List (Node α)),
    (walkAll first ns).Pairwise fun earlier later => earlier.1 < later.1
  | _, [] => .nil
  | first, n :: ns => by
    rw [walkAll, List.pairwise_append, List.pairwise_map]
    refine ⟨(sorted_walk n).imp fun before => ?_, sorted_walkAll (first + 1) ns, ?_⟩
    · exact List.cons_lt_cons_iff.2 (.inr ⟨rfl, before⟩)
    · rintro step inFirst ⟨place, m⟩ inLater
      obtain ⟨below, _, rfl⟩ := List.mem_map.1 inFirst
      obtain ⟨i, _, _, rfl, _⟩ := mem_walkAll.1 inLater
      exact List.cons_lt_cons_iff.2 (.inl (by omega))

end

end TableQuery.Node
