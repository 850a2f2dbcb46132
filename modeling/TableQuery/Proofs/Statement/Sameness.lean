import TableQuery.Proofs.Statement.References
import TableQuery.Statement.Outline

/-! # Equality of nodes

Nodes of two trees are compared by their kinds and then child by child.  What
decides is the tree of kinds that is seen from either node by going from
children to children.  The numbers of the nodes are not part of it, nor is the
order in which nodes below different parents were appended, nor anything that
is not below the nodes.
-/

namespace TableQuery

namespace Node

variable {α β : Type}

theorem outlineAllAt_eq_flatMap (depth : Nat) (ns : List (Node α)) :
    outlineAllAt depth ns = ns.flatMap (outlineAt depth) := by
  induction ns with
  | nil => rfl
  | cons n ns ih => rw [outlineAllAt, ih, List.flatMap_cons]

theorem outlineAt_erase (depth : Nat) (n : Node α) :
    n.erase.outlineAt depth = n.outlineAt depth := by
  induction n using induction generalizing depth with
  | step n ih =>
    obtain ⟨mark, kind, children⟩ := n
    rw [erase_mk, outlineAt, outlineAt, outlineAllAt_eq_flatMap, outlineAllAt_eq_flatMap,
      List.flatMap_map]
    rw [List.flatMap_congr fun child isChild => ih child isChild (depth + 1)]

theorem outline_erase (n : Node α) : n.erase.outline = n.outline := by
  rw [outline, outline, outlineAt_erase]

theorem outline_of_erase {n : Node α} {m : Node β} (same : n.erase = m.erase) :
    n.outline = m.outline := by
  rw [← outline_erase, same, outline_erase]

theorem equivalence_same : Equivalence fun n m : Node α => n.same m = true where
  refl _ := same_iff_erase.2 rfl
  symm alike := same_iff_erase.2 (same_iff_erase.1 alike).symm
  trans first second := same_iff_erase.2 ((same_iff_erase.1 first).trans (same_iff_erase.1 second))

/-- Grafts below different nodes may change their order, as long as neither node is in the tree that
is grafted below the other. -/
theorem erase_graft_graft {first second : Nat} (apart : first ≠ second) {a a' b b' : Node Nat}
    (alike : a.erase = a'.erase) (alikeNext : b.erase = b'.erase) (missing : second ∉ a.marks)
    (missingNext : first ∉ b'.marks) (n : Node Nat) :
    (graft second b (graft first a n)).erase = (graft first a' (graft second b' n)).erase := by
  induction n using induction with
  | step n ih =>
    obtain ⟨mark, kind, children⟩ := n
    have below : children.map (erase ∘ graft second b ∘ graft first a) =
        children.map (erase ∘ graft first a' ∘ graft second b') := List.map_congr_left ih
    simp only [graft_mk, erase_mk, List.map_append, List.map_map, below]
    -- A node gets one new child or the other, and neither of them gets a further one.
    by_cases here : mark = first
    · simp [here, apart, graft_of_not_mem missing, alike]
    · by_cases next : mark = second
      · simp [next, apart.symm, graft_of_not_mem missingNext, alikeNext]
      · simp [here, next]

end Node

namespace Tree

variable {t : Tree} {id : NodeId} {n : Node Nat}

/-- The tree of kinds that is seen from the node that a reference points to. -/
def seenFrom? (t : Tree) (id : NodeId) : Option (Node Unit) :=
  if id.family = t.family then (t.subtree? (t.size - id.index) id.index).map Node.erase else none

namespace IsNumbered

theorem seenFrom?_eq (numbered : t.IsNumbered) (found : t.find? id = some n) :
    t.seenFrom? id = some n.erase := by
  obtain ⟨own, held⟩ := find?_eq_some.1 found
  obtain ⟨member, marked⟩ := Node.mem_of_find? held
  have seen := numbered.subtree?_eq member (Nat.le_refl _)
  rw [marked] at seen
  rw [seenFrom?, if_pos own, seen]
  rfl

theorem exists_same_append_append (numbered : t.IsNumbered) (found : t.find? id = some n)
    {first second : Nat} (inside : first < t.size) (insideNext : second < t.size)
    (apart : first ≠ second) (kind next : Kind) :
    ∃ a b, ((t.append first kind).2.append second next).2.find? id = some a ∧
      ((t.append second next).2.append first kind).2.find? id = some b ∧ a.same b = true := by
  have grown := (numbered.append inside kind).find?_append (Nat.lt_succ_of_lt insideNext) next
    (numbered.find?_append inside kind found)
  have grownNext := (numbered.append insideNext next).find?_append (Nat.lt_succ_of_lt inside) kind
    (numbered.find?_append insideNext next found)
  refine ⟨_, _, grown, grownNext, Node.same_iff_erase.2 ?_⟩
  refine Node.erase_graft_graft apart ?_ ?_ ?_ ?_ n
  · rw [Node.erase_mk, Node.erase_mk]
  · rw [Node.erase_mk, Node.erase_mk]
  · simp; omega
  · simp; omega

end IsNumbered

/-- Whether a tree becomes another one by appending nodes, none of them below a node. -/
inductive GrowsElsewhere (t : Tree) (n : Node Nat) : Tree → Prop where
  | refl : GrowsElsewhere t n t
  | append {u : Tree} {parent : Nat} (before : GrowsElsewhere t n u) (inside : parent < u.size)
      (elsewhere : parent ∉ n.marks) (kind : Kind) : GrowsElsewhere t n (u.append parent kind).2

theorem GrowsElsewhere.grows {u : Tree} (growth : t.GrowsElsewhere n u) : t.Grows u := by
  induction growth with
  | refl => exact .refl
  | append _ inside _ kind ih => exact .append ih inside kind

theorem GrowsElsewhere.find?_eq {u : Tree} (growth : t.GrowsElsewhere n u) (numbered : t.IsNumbered)
    (found : t.find? id = some n) : u.find? id = some n := by
  induction growth with
  | refl => exact found
  | append before inside elsewhere kind ih =>
    have growing := before.grows.isNumbered numbered
    rw [growing.find?_append inside kind ih, Node.graft_of_not_mem elsewhere]

end Tree

/-- Two nodes, of one tree or of two, are equal exactly when the same tree of kinds is seen from
them.  This is an equivalence; whatever is appended elsewhere leaves a node as it is, nodes appended
below different parents may change their order, and equal nodes are validated and shown alike. -/
theorem Forest.same_iff_seenFrom {f g : Forest} (reached : f.Reached) (reached' : g.Reached)
    {t u : Tree} (isTree : t ∈ f.trees) (isTree' : u ∈ g.trees) {id id' : NodeId} {n m : Node Nat}
    (found : t.find? id = some n) (found' : u.find? id' = some m) :
    (∃ rose rose', t.seenFrom? id = some rose ∧ u.seenFrom? id' = some rose' ∧
      (n.same m = true ↔ rose = rose')) ∧
    (Equivalence fun a b : Node Nat => a.same b = true) ∧
    (∀ v, t.GrowsElsewhere n v → v.find? id = some n) ∧
    (∀ first < t.size, ∀ second < t.size, first ≠ second → ∀ kind next,
      ∃ a b, ((t.append first kind).2.append second next).2.find? id = some a ∧
        ((t.append second next).2.append first kind).2.find? id = some b ∧ a.same b = true) ∧
    (n.same m = true → n.validate = m.validate ∧ n.outline = m.outline) := by
  have numbered := reached.isNumbered t isTree
  have numbered' := reached'.isNumbered u isTree'
  refine ⟨?_, Node.equivalence_same, ?_, ?_, ?_⟩
  · exact ⟨_, _, numbered.seenFrom?_eq found, numbered'.seenFrom?_eq found', Node.same_iff_erase⟩
  · exact fun v growth => growth.find?_eq numbered found
  · intro first inside second insideNext apart kind next
    exact numbered.exists_same_append_append found inside insideNext apart kind next
  · intro alike
    have erased := Node.same_iff_erase.1 alike
    exact ⟨Node.validate_of_erase erased, Node.outline_of_erase erased⟩

/-- Two groupings by the same columns, one appended column by column and the other with both columns
first and the names after them, the last one first. -/
theorem Forest.same_of_columnsFirst : ∃ f : Forest, f.Reached ∧ ∃ t u n m, f.trees = [t, u] ∧
    t.childLists = [[1, 3], [2], [], [4], []] ∧ u.childLists = [[1, 2], [4], [3], [], []] ∧
    t.find? ⟨0, 0⟩ = some n ∧ u.find? ⟨1, 0⟩ = some m ∧ n.same m = true ∧
    n.validate = m.validate ∧ n.outline = m.outline := by
  have planted : ((Forest.empty.plant .groupByClause).2.plant .groupByClause).2.Reached :=
    (Reached.empty.plant .groupByClause).plant .groupByClause
  have first := @Reached.append _ _ 0 ⟨0, 0⟩ ⟨0, 1⟩ .column planted rfl
  have first := @Reached.append _ _ 0 ⟨0, 1⟩ ⟨0, 2⟩ (.identifier "region") first rfl
  have first := @Reached.append _ _ 0 ⟨0, 0⟩ ⟨0, 3⟩ .column first rfl
  have first := @Reached.append _ _ 0 ⟨0, 3⟩ ⟨0, 4⟩ (.identifier "year") first rfl
  have both := @Reached.append _ _ 1 ⟨1, 0⟩ ⟨1, 1⟩ .column first rfl
  have both := @Reached.append _ _ 1 ⟨1, 0⟩ ⟨1, 2⟩ .column both rfl
  have both := @Reached.append _ _ 1 ⟨1, 2⟩ ⟨1, 3⟩ (.identifier "year") both rfl
  have both := @Reached.append _ _ 1 ⟨1, 1⟩ ⟨1, 4⟩ (.identifier "region") both rfl
  obtain ⟨⟨rose, rose', seen, seen', same⟩, _, _, _, read⟩ :=
    @same_iff_seenFrom _ _ both both _ _ (.head _) (.tail _ (.head _)) ⟨0, 0⟩ ⟨1, 0⟩ _ _ rfl rfl
  have alike := same.2 (Option.some.inj (seen.symm.trans seen'))
  exact ⟨_, both, _, _, _, _, rfl, rfl, rfl, rfl, rfl, alike, read alike⟩

end TableQuery
