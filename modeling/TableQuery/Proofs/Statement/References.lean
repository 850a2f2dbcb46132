import TableQuery.Proofs.Statement.Growth
import Mathlib.Data.List.Find

/-! # References to nodes

A tree changes in one way only: nodes are appended below nodes that are there.
None is taken away and none moves, so that a reference that a tree accepts goes
on being accepted and goes on standing for the same node, of the same kind and
below the same parent (`Grows.exists_reading`).
-/

namespace TableQuery

theorem getElem?_concat_eq_some {α : Type} {as : List α} {a b : α} {i : Nat} :
    (as ++ [a])[i]? = some b ↔ as[i]? = some b ∨ i = as.length ∧ b = a := by
  rw [List.getElem?_append]
  by_cases old : i < as.length
  · have other : i ≠ as.length := by omega
    simp [old, other]
  · have beyond : as[i]? = none := by simp; omega
    rw [if_neg old, beyond]
    cases place : i - as.length with
    | zero =>
      have last : i = as.length := by omega
      simp [last, eq_comm]
    | succ k =>
      have other : i ≠ as.length := by omega
      simp [other]

namespace Tree

variable {t u : Tree}

/-- The number of the node that has the node with a number as a child. -/
def parentOf? (t : Tree) (index : Nat) : Option Nat :=
  (List.range t.size).find? fun parent => (t.childrenOf parent).contains index

/-- What a reference stands for: the kind of the node, and the reference to its parent unless it is
the root. -/
def reading? (t : Tree) (id : NodeId) : Option (Kind × Option NodeId) :=
  (t.find? id).map fun n => (n.kind, (t.parentOf? id.index).map (NodeId.mk t.family))

/-- The references that a tree gives out by becoming another one. -/
def given (t u : Tree) : List NodeId :=
  (List.range' t.size (u.size - t.size)).map (NodeId.mk t.family)

/-- Whether a tree becomes another one by appending nodes below nodes that are there. -/
inductive Grows (t : Tree) : Tree → Prop where
  | refl : Grows t t
  | append {u : Tree} {parent : Nat} (before : Grows t u) (inside : parent < u.size)
      (kind : Kind) : Grows t (u.append parent kind).2

theorem find?_eq_some {id : NodeId} {n : Node Nat} :
    t.find? id = some n ↔ id.family = t.family ∧ t.root.find? id.index = some n := by
  simp [find?]

namespace IsNumbered

variable {parent : Nat}

theorem find?_append (numbered : t.IsNumbered) (inside : parent < t.size) (kind : Kind)
    {id : NodeId} {n : Node Nat} (found : t.find? id = some n) :
    (t.append parent kind).2.find? id = some (Node.graft parent ⟨t.size, kind, []⟩ n) := by
  obtain ⟨own, held⟩ := find?_eq_some.1 found
  obtain ⟨member, marked⟩ := Node.mem_of_find? held
  have grown : Node.graft parent ⟨t.size, kind, []⟩ n ∈ (t.append parent kind).2.root.nodes :=
    Node.graft_mem_nodes member
  have again := Node.find?_of_mem (numbered.append inside kind).root.distinct grown
  rw [Node.mark_graft, marked] at again
  exact find?_eq_some.2 ⟨own, again⟩

theorem parentOf?_append (numbered : t.IsNumbered) (inside : parent < t.size) (kind : Kind)
    {index : Nat} (old : index < t.size) :
    (t.append parent kind).2.parentOf? index = t.parentOf? index := by
  have size : (t.append parent kind).2.size = t.size + 1 := rfl
  rw [parentOf?, parentOf?, size, List.range_succ, List.find?_append]
  -- The new node has no children, and the number of the new child is not the one asked for.
  have new : [t.size].find?
      (fun parent' => ((t.append parent kind).2.childrenOf parent').contains index) = none := by
    simp [numbered.childrenOf_append_new inside kind]
  have same : ∀ above ∈ List.range t.size,
      ((t.append parent kind).2.childrenOf above).contains index =
        (t.childrenOf above).contains index := by
    intro above member
    rw [numbered.childrenOf_append inside kind (List.mem_range.1 member)]
    by_cases here : above = parent
    · have other : index ≠ t.size := by omega
      simp [here, other]
    · simp [here]
  rw [new, Option.or_none, List.find?_congr same]

theorem reading?_append (numbered : t.IsNumbered) (inside : parent < t.size) (kind : Kind)
    {id : NodeId} (held : t.contains id = true) :
    (t.append parent kind).2.reading? id = t.reading? id := by
  obtain ⟨n, found⟩ := Option.isSome_iff_exists.1 held
  have old := (numbered.contains_iff.1 held).2
  rw [reading?, reading?, numbered.find?_append inside kind found, found,
    numbered.parentOf?_append inside kind old]
  simp only [Option.map_some, Node.kind_graft]
  rfl

theorem contains_append_iff (numbered : t.IsNumbered) (inside : parent < t.size) (kind : Kind)
    {id : NodeId} : (t.append parent kind).2.contains id = true ↔
      t.contains id = true ∨ id = (t.append parent kind).1 := by
  have family : (t.append parent kind).2.family = t.family := rfl
  have size : (t.append parent kind).2.size = t.size + 1 := rfl
  have new : (t.append parent kind).1 = ⟨t.family, t.size⟩ := rfl
  obtain ⟨own, index⟩ := id
  simp only [(numbered.append inside kind).contains_iff, numbered.contains_iff, family, size, new,
    NodeId.mk.injEq]
  omega

theorem mem_childrenOf_append (numbered : t.IsNumbered) (inside : parent < t.size) (kind : Kind)
    {above child : Nat} (isChild : child ∈ t.childrenOf above) :
    child ∈ (t.append parent kind).2.childrenOf above := by
  obtain ⟨later, small⟩ := numbered.below isChild
  rw [numbered.childrenOf_append inside kind (by omega)]
  exact List.mem_append_left _ isChild

end IsNumbered

/-! ## Trees that have grown -/

namespace Grows

variable (grows : t.Grows u) (numbered : t.IsNumbered)

include grows

theorem family_eq : u.family = t.family := by
  induction grows with
  | refl => rfl
  | append _ _ _ ih => exact ih

theorem size_le : t.size ≤ u.size := by
  induction grows with
  | refl => exact Nat.le_refl _
  | append _ _ _ ih => exact Nat.le_succ_of_le ih

theorem trans {v : Tree} (more : u.Grows v) : t.Grows v := by
  induction more with
  | refl => exact grows
  | append _ inside kind ih => exact .append ih inside kind

include numbered

theorem isNumbered : u.IsNumbered := by
  induction grows with
  | refl => exact numbered
  | append _ inside kind ih => exact ih.append inside kind

theorem keeps {id : NodeId} (held : t.contains id = true) :
    u.contains id = true ∧ u.reading? id = t.reading? id := by
  induction grows with
  | refl => exact ⟨held, rfl⟩
  | append before inside kind ih =>
    obtain ⟨still, same⟩ := ih
    have growing := before.isNumbered numbered
    exact ⟨(growing.contains_append_iff inside kind).2 (.inl still),
      (growing.reading?_append inside kind still).trans same⟩

theorem exists_reading {id : NodeId} (held : t.contains id = true) :
    u.contains id = true ∧
      ∃ reading, t.reading? id = some reading ∧ u.reading? id = some reading := by
  obtain ⟨still, same⟩ := grows.keeps numbered held
  obtain ⟨n, found⟩ := Option.isSome_iff_exists.1 held
  have meant := congrArg (Option.map fun n : Node Nat =>
    (n.kind, (t.parentOf? id.index).map (NodeId.mk t.family))) found
  exact ⟨still, _, meant, same.trans meant⟩

theorem contains_iff {id : NodeId} :
    u.contains id = true ↔ t.contains id = true ∨ id ∈ t.given u := by
  have larger := grows.size_le
  have own : id ∈ t.given u ↔ id.family = t.family ∧ t.size ≤ id.index ∧ id.index < u.size := by
    obtain ⟨family, index⟩ := id
    simp only [given, List.mem_map, List.mem_range', NodeId.mk.injEq]
    constructor
    · rintro ⟨index, ⟨k, small, rfl⟩, rfl, rfl⟩
      exact ⟨rfl, by omega, by omega⟩
    · rintro ⟨rfl, old, small⟩
      exact ⟨index, ⟨index - t.size, by omega, by omega⟩, rfl, rfl⟩
  rw [own, (grows.isNumbered numbered).contains_iff, numbered.contains_iff, grows.family_eq]
  omega

theorem mem_childrenOf {above child : Nat} (isChild : child ∈ t.childrenOf above) :
    child ∈ u.childrenOf above := by
  induction grows with
  | refl => exact isChild
  | append before inside kind ih =>
    exact (before.isNumbered numbered).mem_childrenOf_append inside kind ih

end Grows

section Replaced

variable {ts : List Tree} {tree : Nat} (isTree : ts[tree]? = some t) (grows : t.Grows u)

include isTree grows

theorem Grows.exists_before {i : Nat} {v : Tree} (isNow : (ts.set tree u)[i]? = some v) :
    ∃ w, ts[i]? = some w ∧ w.Grows v := by
  obtain ⟨inside, _⟩ := List.getElem?_eq_some_iff.1 isTree
  by_cases here : tree = i
  · subst here
    rw [List.getElem?_set_self inside] at isNow
    cases isNow
    exact ⟨t, isTree, grows⟩
  · rw [List.getElem?_set_ne here] at isNow
    exact ⟨v, isNow, .refl⟩

theorem Grows.exists_after {i : Nat} {v : Tree} (before : ts[i]? = some v) :
    ∃ w, (ts.set tree u)[i]? = some w ∧ v.Grows w := by
  obtain ⟨inside, _⟩ := List.getElem?_eq_some_iff.1 isTree
  by_cases here : tree = i
  · subst here
    obtain rfl := Option.some.inj (isTree.symm.trans before)
    exact ⟨u, List.getElem?_set_self inside, grows⟩
  · exact ⟨v, (List.getElem?_set_ne here).trans before, .refl⟩

end Replaced

/-! ## References that are accepted or refused -/

theorem exists_node_iff {id : NodeId} : (∃ n, t.node id = .ok n) ↔ t.contains id = true := by
  unfold node contains
  cases t.find? id <;> simp [pure_eq_ok, throw_eq_ok]

theorem node_eq_error {id : NodeId} (missing : t.contains id = false) :
    t.node id = .error (.unknownNode id) := by
  have none : t.find? id = none := by simpa [contains] using missing
  rw [node, none]
  rfl

theorem appendBelow_eq_error {id : NodeId} (missing : t.contains id = false) (kind : Kind) :
    t.appendBelow id kind = .error (.unknownNode id) := by
  simp only [appendBelow, append?, missing]
  rfl

theorem grows_appendBelow (numbered : t.IsNumbered) {parent id : NodeId} {kind : Kind}
    (grown : t.appendBelow parent kind = .ok (id, u)) : t.Grows u := by
  obtain ⟨held, appended⟩ := appendBelow_eq_ok.1 grown
  have step : t.Grows (t.append parent.index kind).2 :=
    .append .refl (numbered.contains_iff.1 held).2 kind
  rwa [appended] at step

end Tree

end TableQuery
