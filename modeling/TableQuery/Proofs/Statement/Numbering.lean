import TableQuery.Proofs.Statement.Erasure
import TableQuery.Statement.Tree
import Mathlib.Algebra.BigOperators.Ring.List
import Mathlib.Algebra.Ring.Nat
import Mathlib.Data.List.Nodup

/-! # Numbered trees

In a numbered tree every number below its size marks one node, a node comes
after its parent, and siblings come in their order.  Such numbers say in which
order the nodes can be appended, and appending gives such numbers:
`IsNumbered.graft` is the step, for a new last child under any of the nodes.

Grafting changes the marks of a tree by those of the new child, as often as
the parent occurs, which `count_marks_graft` says without asking that marks be
different.
-/

namespace TableQuery.Node

variable {α : Type}

@[simp] theorem nodesAll_eq_flatMap (ns : List (Node α)) : nodesAll ns = ns.flatMap nodes := by
  induction ns with
  | nil => rfl
  | cons n ns ih => rw [nodesAll, ih, List.flatMap_cons]

@[simp] theorem nodes_mk (mark : α) (kind : Kind) (children : List (Node α)) :
    nodes ⟨mark, kind, children⟩ = ⟨mark, kind, children⟩ :: children.flatMap nodes := by
  rw [nodes, nodesAll_eq_flatMap]

theorem mem_nodes {n m : Node α} : m ∈ n.nodes ↔ m = n ∨ ∃ c ∈ n.children, m ∈ c.nodes := by
  obtain ⟨mark, kind, children⟩ := n
  simp

theorem self_mem_nodes (n : Node α) : n ∈ n.nodes :=
  mem_nodes.2 (.inl rfl)

theorem mem_nodes_of_child {n m child : Node α} (member : m ∈ n.nodes)
    (below : child ∈ m.children) : child ∈ n.nodes := by
  induction n using induction with
  | step n ih =>
    rcases mem_nodes.1 member with same | ⟨other, among, inside⟩
    · rw [same] at below
      exact mem_nodes.2 (.inr ⟨child, below, self_mem_nodes child⟩)
    · exact mem_nodes.2 (.inr ⟨other, among, ih other among inside⟩)

def marks (n : Node α) : List α := n.nodes.map mark

@[simp] theorem marks_mk (mark : α) (kind : Kind) (children : List (Node α)) :
    marks ⟨mark, kind, children⟩ = mark :: children.flatMap marks := by
  simp only [marks, nodes_mk, List.map_cons, List.map_flatMap]
  rfl

theorem mem_marks {n : Node α} {a : α} : a ∈ n.marks ↔ ∃ m ∈ n.nodes, m.mark = a := by
  simp [marks]

def childMarks (n : Node α) : List α := n.children.map mark

/-- Every node but the root is a child of one node. -/
theorem marks_perm_childMarks (n : Node α) :
    n.marks.Perm (n.mark :: n.nodes.flatMap childMarks) := by
  induction n using induction with
  | step n ih =>
    obtain ⟨mark, kind, children⟩ := n
    rw [marks_mk, nodes_mk, List.flatMap_cons, List.flatMap_assoc]
    -- Below each child there is its own mark, and the marks of children further down.
    refine List.Perm.cons mark ((List.Perm.flatMap_left children ih).trans ?_)
    have apart := List.flatMap_append_perm children (fun c => [c.mark])
      fun c => c.nodes.flatMap childMarks
    rw [← List.map_eq_flatMap] at apart
    exact apart.symm

theorem sizeAll_eq_sum (ns : List (Node α)) : sizeAll ns = (ns.map size).sum := by
  induction ns with
  | nil => rfl
  | cons n ns ih => rw [sizeAll, ih, List.map_cons, List.sum_cons]

theorem length_marks (n : Node α) : n.marks.length = n.size := by
  induction n using induction with
  | step n ih =>
    obtain ⟨mark, kind, children⟩ := n
    have each : children.map (fun c => c.marks.length) = children.map size :=
      List.map_congr_left ih
    rw [marks_mk, List.length_cons, List.length_flatMap, each, size, sizeAll_eq_sum, Nat.add_comm]

theorem size_erase (n : Node α) : n.erase.size = n.size := by
  induction n using induction with
  | step n ih =>
    obtain ⟨mark, kind, children⟩ := n
    have each : children.map (size ∘ erase) = children.map size := List.map_congr_left ih
    rw [erase_mk, size, size, sizeAll_eq_sum, sizeAll_eq_sum, List.map_map, each]

/-! ## Finding nodes -/

theorem findAmong?_eq_findSome? (index : Nat) (ns : List (Node Nat)) :
    findAmong? index ns = ns.findSome? (find? index) := by
  induction ns with
  | nil => rfl
  | cons n ns ih =>
    rw [findAmong?, ih, List.findSome?_cons]
    cases find? index n <;> rfl

theorem find?_eq_find?_nodes (index : Nat) (n : Node Nat) :
    n.find? index = n.nodes.find? fun m => m.mark == index := by
  induction n using induction with
  | step n ih =>
    obtain ⟨mark, kind, children⟩ := n
    have below : children.findSome? (find? index) =
        children.findSome? fun c => c.nodes.find? fun m => m.mark == index := by
      rw [← Function.id_comp (find? index), ← List.findSome?_map, List.map_congr_left ih,
        List.findSome?_map]
      rfl
    rw [find?, nodes_mk, List.find?_cons, findAmong?_eq_findSome?, List.find?_flatMap, below]
    by_cases same : mark = index
    · simp [same]
    · simp [same, beq_eq_false_iff_ne.2 same]

theorem isSome_find?_iff {index : Nat} {n : Node Nat} :
    (n.find? index).isSome = true ↔ index ∈ n.marks := by
  rw [find?_eq_find?_nodes, List.find?_isSome, mem_marks]
  simp

theorem mem_of_find? {index : Nat} {n m : Node Nat} (found : n.find? index = some m) :
    m ∈ n.nodes ∧ m.mark = index := by
  rw [find?_eq_find?_nodes] at found
  have marked := List.find?_some found
  exact ⟨List.mem_of_find?_eq_some found, by simpa using marked⟩

theorem find?_of_mem {n m : Node Nat} (distinct : n.marks.Nodup) (member : m ∈ n.nodes) :
    n.find? m.mark = some m := by
  have found : (n.find? m.mark).isSome = true := isSome_find?_iff.2 (List.mem_map_of_mem member)
  obtain ⟨k, held⟩ := Option.isSome_iff_exists.1 found
  obtain ⟨inside, same⟩ := mem_of_find? held
  rw [held, List.inj_on_of_nodup_map distinct inside member same]

/-! ## Grafting -/

section Graft

variable {parent : Nat} {child n : Node Nat}

theorem graftAmong_eq_map (parent : Nat) (child : Node Nat) (ns : List (Node Nat)) :
    graftAmong parent child ns = ns.map (graft parent child) := by
  induction ns with
  | nil => rfl
  | cons n ns ih => rw [graftAmong, ih, List.map_cons]

@[simp] theorem graft_mk (mark : Nat) (kind : Kind) (children : List (Node Nat)) :
    graft parent child ⟨mark, kind, children⟩ = ⟨mark, kind,
      children.map (graft parent child) ++ if mark = parent then [child] else []⟩ := by
  rw [graft, graftAmong_eq_map]
  by_cases same : mark = parent <;> simp [same]

@[simp] theorem mark_graft : (graft parent child n).mark = n.mark := by
  obtain ⟨mark, kind, children⟩ := n
  rw [graft_mk]

@[simp] theorem kind_graft : (graft parent child n).kind = n.kind := by
  obtain ⟨mark, kind, children⟩ := n
  rw [graft_mk]

@[simp] theorem children_graft : (graft parent child n).children =
    n.children.map (graft parent child) ++ if n.mark = parent then [child] else [] := by
  obtain ⟨mark, kind, children⟩ := n
  rw [graft_mk]

theorem count_marks_graft (a : Nat) :
    (graft parent child n).marks.count a =
      n.marks.count a + n.marks.count parent * child.marks.count a := by
  induction n using induction with
  | step n ih =>
    obtain ⟨mark, kind, children⟩ := n
    have below : (children.map fun c => (graft parent child c).marks.count a).sum =
        (children.map fun c => c.marks.count a).sum +
          (children.map fun c => c.marks.count parent).sum * child.marks.count a := by
      rw [← List.sum_map_mul_right, ← List.sum_map_add, List.map_congr_left ih]
    simp only [graft_mk, marks_mk, List.flatMap_append, List.flatMap_map, List.count_cons,
      List.count_append, List.count_flatMap, Function.comp_def, below]
    -- The new child comes in here once, and below as often as the parent does.
    by_cases same : mark = parent
    · simp [same, Nat.add_mul]
      omega
    · have apart : (mark == parent) = false := by simp [same]
      simp [same, apart]
      omega

theorem mem_nodes_graft {m : Node Nat} (member : m ∈ (graft parent child n).nodes) :
    (∃ old ∈ n.nodes, m = graft parent child old) ∨ m ∈ child.nodes := by
  induction n using induction with
  | step n ih =>
    rcases mem_nodes.1 member with same | ⟨c, isChild, inside⟩
    · exact .inl ⟨n, self_mem_nodes n, same⟩
    · rw [children_graft, List.mem_append, List.mem_map] at isChild
      rcases isChild with ⟨old, among, same⟩ | new
      · rw [← same] at inside
        rcases ih old among inside with ⟨k, held, same⟩ | new
        · exact .inl ⟨k, mem_nodes.2 (.inr ⟨old, among, held⟩), same⟩
        · exact .inr new
      · split at new
        · rw [List.mem_singleton.1 new] at inside
          exact .inr inside
        · cases new

theorem mem_marks_graft {a : Nat}
    (member : a ∈ (graft parent child n).marks) : a ∈ n.marks ∨ a ∈ child.marks := by
  rw [mem_marks] at member
  obtain ⟨m, inside, marked⟩ := member
  rw [← marked]
  rcases mem_nodes_graft inside with ⟨old, held, same⟩ | new
  · rw [same, mark_graft]
    exact .inl (List.mem_map_of_mem held)
  · exact .inr (List.mem_map_of_mem new)

theorem graft_mem_nodes {m : Node Nat} (member : m ∈ n.nodes) :
    graft parent child m ∈ (graft parent child n).nodes := by
  induction n using induction with
  | step n ih =>
    rcases mem_nodes.1 member with same | ⟨c, among, inside⟩
    · rw [same]
      exact self_mem_nodes _
    · refine mem_nodes.2 (.inr ⟨graft parent child c, ?_, ih c among inside⟩)
      rw [children_graft]
      exact List.mem_append_left _ (List.mem_map_of_mem among)

theorem graft_of_not_mem (missing : parent ∉ n.marks) : graft parent child n = n := by
  induction n using induction with
  | step n ih =>
    obtain ⟨mark, kind, children⟩ := n
    simp only [marks_mk, List.mem_cons, List.mem_flatMap, not_or, not_exists, not_and] at missing
    have unchanged : children.map (graft parent child) = children := by
      rw [List.map_congr_left fun c among => ih c among (missing.2 c among), List.map_id']
    rw [graft_mk, unchanged, if_neg (Ne.symm missing.1), List.append_nil]

theorem graft_self {start : Nat} {kind : Kind} {children : List (Node Nat)}
    (fresh : start ∉ children.flatMap marks) :
    graft start child ⟨start, kind, children⟩ = ⟨start, kind, children ++ [child]⟩ := by
  have unchanged : children.map (graft start child) = children := by
    refine (List.map_congr_left fun c among => ?_).trans (List.map_id' children)
    exact graft_of_not_mem fun held => fresh (List.mem_flatMap.2 ⟨c, among, held⟩)
  rw [graft_mk, unchanged, if_pos rfl]

theorem graft_graft {start : Nat} {kind : Kind} {children : List (Node Nat)}
    (fresh : start ∉ n.marks) (freshBelow : start ∉ children.flatMap marks) :
    graft start child (graft parent ⟨start, kind, children⟩ n) =
      graft parent ⟨start, kind, children ++ [child]⟩ n := by
  induction n using induction with
  | step n ih =>
    obtain ⟨mark, other, siblings⟩ := n
    simp only [marks_mk, List.mem_cons, List.mem_flatMap, not_or, not_exists, not_and] at fresh
    have below : (siblings.map (graft parent ⟨start, kind, children⟩)).map (graft start child) =
        siblings.map (graft parent ⟨start, kind, children ++ [child]⟩) := by
      rw [List.map_map]
      exact List.map_congr_left fun c among => ih c among (fresh.2 c among)
    rw [graft_mk, graft_mk, graft_mk, List.map_append, below, if_neg (Ne.symm fresh.1),
      List.append_nil]
    by_cases same : mark = parent
    · simp only [same, if_true, List.map_singleton, graft_self freshBelow]
    · simp only [same, if_false, List.map_nil]

end Graft

/-! ## Numbers -/

/-- Whether the marks number the nodes: every number below the size marks one node, the root comes
first, children come after their parent and in their order. -/
structure IsNumbered (n : Node Nat) : Prop where
  once : n.marks.Perm (List.range n.size)
  first : n.mark = 0
  below : ∀ m ∈ n.nodes, ∀ child ∈ m.children, m.mark < child.mark
  inOrder : ∀ m ∈ n.nodes, (m.children.map mark).Pairwise (· < ·)

namespace IsNumbered

variable {n : Node Nat}

theorem distinct (numbered : n.IsNumbered) : n.marks.Nodup :=
  numbered.once.nodup_iff.2 List.nodup_range

theorem mem_marks_iff (numbered : n.IsNumbered) {index : Nat} :
    index ∈ n.marks ↔ index < n.size := by
  rw [numbered.once.mem_iff, List.mem_range]

theorem mark_lt (numbered : n.IsNumbered) {m : Node Nat} (member : m ∈ n.nodes) :
    m.mark < n.size :=
  numbered.mem_marks_iff.1 (List.mem_map_of_mem member)

theorem leaf (kind : Kind) : IsNumbered ⟨0, kind, []⟩ := by
  have only : nodes (⟨0, kind, []⟩ : Node Nat) = [⟨0, kind, []⟩] := by simp
  refine ⟨?_, rfl, ?_, ?_⟩
  · simp [size, sizeAll]
  · simp [only]
  · simp [only]

theorem marks_graft (numbered : n.IsNumbered) {parent : Nat} (inside : parent < n.size)
    (kind : Kind) :
    (Node.graft parent ⟨n.size, kind, []⟩ n).marks.Perm (List.range (n.size + 1)) := by
  have one : n.marks.count parent = 1 :=
    List.count_eq_one_of_mem numbered.distinct (numbered.mem_marks_iff.2 inside)
  rw [List.range_succ, List.perm_iff_count]
  intro a
  rw [count_marks_graft, one, List.count_append, numbered.once.count_eq]
  simp

theorem size_graft (numbered : n.IsNumbered) {parent : Nat} (inside : parent < n.size)
    (kind : Kind) : (Node.graft parent ⟨n.size, kind, []⟩ n).size = n.size + 1 := by
  rw [← length_marks, (numbered.marks_graft inside kind).length_eq, List.length_range]

theorem graft (numbered : n.IsNumbered) {parent : Nat} (inside : parent < n.size) (kind : Kind) :
    (graft parent ⟨n.size, kind, []⟩ n).IsNumbered := by
  have leafNodes : nodes (⟨n.size, kind, []⟩ : Node Nat) = [⟨n.size, kind, []⟩] := by simp
  refine ⟨?_, ?_, ?_, ?_⟩
  · rw [numbered.size_graft inside]
    exact numbered.marks_graft inside kind
  · rw [mark_graft, numbered.first]
  · intro m member child isChild
    rcases mem_nodes_graft member with ⟨old, held, same⟩ | new
    · subst same
      rw [children_graft, List.mem_append, List.mem_map] at isChild
      rw [mark_graft]
      rcases isChild with ⟨c, among, same⟩ | new
      · subst same
        rw [mark_graft]
        exact numbered.below old held c among
      · split at new
        · rw [List.mem_singleton.1 new]
          exact numbered.mark_lt held
        · cases new
    · rw [leafNodes, List.mem_singleton] at new
      subst new
      cases isChild
  · intro m member
    rcases mem_nodes_graft member with ⟨old, held, same⟩ | new
    · subst same
      have unchanged : (old.children.map (Node.graft parent ⟨n.size, kind, []⟩)).map mark =
          old.children.map mark := by
        rw [List.map_map]
        exact List.map_congr_left fun c _ => mark_graft
      rw [children_graft, List.map_append, unchanged, List.pairwise_append]
      refine ⟨numbered.inOrder old held, ?_, ?_⟩
      · split <;> simp
      · intro a among b new
        obtain ⟨c, isChild, rfl⟩ := List.mem_map.1 among
        have small := numbered.mark_lt (mem_nodes_of_child held isChild)
        split at new
        · simp at new
          omega
        · cases new
    · rw [leafNodes, List.mem_singleton] at new
      subst new
      simp

end IsNumbered

end TableQuery.Node
