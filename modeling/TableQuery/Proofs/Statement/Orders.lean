import TableQuery.Proofs.Statement.Numbering
import Mathlib.Data.List.Pairwise

/-! # Orders of the nodes of a tree

A tree can be put together from left to right and downwards before sidewards,
whole trees at a time: `numberFrom` gives its nodes the numbers of this order.
Or it can be put together node by node in any order in which a node comes after
its parent and after its earlier siblings, which is to say in the order of the
marks of a numbered tree.  Before each turn there is then a cut through the
tree, its part with numbers below some bound, and grafting the next node below
its parent makes the bound greater by one (`IsNumbered.graft_upTo`).
-/

namespace TableQuery

namespace Node

variable {α : Type}

mutual

/-- The tree with the numbers from `start` on as its marks, every node before the nodes below it. -/
def numberFrom (start : Nat) : Node α → Node Nat
  | ⟨_, kind, children⟩ => ⟨start, kind, numberAllFrom (start + 1) children⟩

def numberAllFrom (start : Nat) : List (Node α) → List (Node Nat)
  | [] => []
  | n :: ns => n.numberFrom start :: numberAllFrom (start + n.size) ns

end

mutual

theorem erase_numberFrom : ∀ (start : Nat) (n : Node α), (n.numberFrom start).erase = n.erase
  | start, ⟨_, kind, children⟩ => by
    rw [numberFrom, erase, erase, eraseAll_numberAllFrom]

theorem eraseAll_numberAllFrom : ∀ (start : Nat) (ns : List (Node α)),
    eraseAll (numberAllFrom start ns) = eraseAll ns
  | _, [] => rfl
  | start, n :: ns => by
    rw [numberAllFrom, eraseAll, eraseAll, erase_numberFrom, eraseAll_numberAllFrom]

end

mutual

theorem size_numberFrom : ∀ (start : Nat) (n : Node α), (n.numberFrom start).size = n.size
  | start, ⟨_, kind, children⟩ => by
    rw [numberFrom, size, size, sizeAll_numberAllFrom]

theorem sizeAll_numberAllFrom : ∀ (start : Nat) (ns : List (Node α)),
    sizeAll (numberAllFrom start ns) = sizeAll ns
  | _, [] => rfl
  | start, n :: ns => by
    rw [numberAllFrom, sizeAll, sizeAll, size_numberFrom, sizeAll_numberAllFrom]

end

mutual

theorem mem_marks_numberFrom : ∀ (start : Nat) (n : Node α) {a : Nat},
    a ∈ (n.numberFrom start).marks → start ≤ a ∧ a < start + n.size
  | start, ⟨_, kind, children⟩, a, member => by
    rw [numberFrom, marks_mk, List.mem_cons] at member
    rw [size]
    rcases member with same | below
    · omega
    · have bounds := mem_marks_numberAllFrom (start + 1) children below
      omega

theorem mem_marks_numberAllFrom : ∀ (start : Nat) (ns : List (Node α)) {a : Nat},
    a ∈ (numberAllFrom start ns).flatMap marks → start ≤ a ∧ a < start + sizeAll ns
  | _, [], _, member => by simp [numberAllFrom] at member
  | start, n :: ns, a, member => by
    rw [numberAllFrom, List.flatMap_cons, List.mem_append] at member
    rw [sizeAll]
    rcases member with first | later
    · have bounds := mem_marks_numberFrom start n first
      omega
    · have bounds := mem_marks_numberAllFrom (start + n.size) ns later
      omega

end

/-- The tree with new last children under the node with a number. -/
def graftAll (parent : Nat) (added : List (Node Nat)) (n : Node Nat) : Node Nat :=
  added.foldl (fun n child => graft parent child n) n

theorem not_mem_of_append {start : Nat} {first later : List (Node Nat)}
    (fresh : start ∉ (first ++ later).flatMap marks) : start ∉ first.flatMap marks := by
  rw [List.flatMap_append, List.mem_append, not_or] at fresh
  exact fresh.1

theorem graftAll_self {start : Nat} {kind : Kind} {added children : List (Node Nat)}
    (fresh : start ∉ (children ++ added).flatMap marks) :
    graftAll start added ⟨start, kind, children⟩ = ⟨start, kind, children ++ added⟩ := by
  induction added generalizing children with
  | nil => simp [graftAll]
  | cons child added ih =>
    have step : graft start child ⟨start, kind, children⟩ = ⟨start, kind, children ++ [child]⟩ :=
      graft_self (not_mem_of_append fresh)
    show graftAll start added (graft start child ⟨start, kind, children⟩) = _
    rw [step, ih (by simpa using fresh), List.append_assoc, List.singleton_append]

theorem graftAll_graft {start parent : Nat} {kind : Kind} {added children : List (Node Nat)}
    {n : Node Nat} (fresh : start ∉ n.marks)
    (freshBelow : start ∉ (children ++ added).flatMap marks) :
    graftAll start added (graft parent ⟨start, kind, children⟩ n) =
      graft parent ⟨start, kind, children ++ added⟩ n := by
  induction added generalizing children with
  | nil => simp [graftAll]
  | cons child added ih =>
    have step : graft start child (graft parent ⟨start, kind, children⟩ n) =
        graft parent ⟨start, kind, children ++ [child]⟩ n :=
      graft_graft fresh (not_mem_of_append freshBelow)
    show graftAll start added (graft start child (graft parent ⟨start, kind, children⟩ n)) = _
    rw [step, ih (by simpa using freshBelow), List.append_assoc, List.singleton_append]

/-! ## Cuts through a numbered tree -/

mutual

/-- The part of a tree with numbers below a bound. -/
def upTo (bound : Nat) : Node Nat → Node Nat
  | ⟨mark, kind, children⟩ => ⟨mark, kind, upToAll bound children⟩

def upToAll (bound : Nat) : List (Node Nat) → List (Node Nat)
  | [] => []
  | n :: ns => if n.mark < bound then n.upTo bound :: upToAll bound ns else upToAll bound ns

end

theorem upToAll_eq (bound : Nat) (ns : List (Node Nat)) :
    upToAll bound ns = (ns.filter fun n => n.mark < bound).map (upTo bound) := by
  induction ns with
  | nil => rfl
  | cons n ns ih =>
    rw [upToAll, ih]
    by_cases small : n.mark < bound <;> simp [small]

theorem upTo_mk (bound mark : Nat) (kind : Kind) (children : List (Node Nat)) :
    upTo bound ⟨mark, kind, children⟩ =
      ⟨mark, kind, (children.filter fun n => n.mark < bound).map (upTo bound)⟩ := by
  rw [upTo, upToAll_eq]

theorem filter_mark_lt {bound : Nat} {before after : List (Node Nat)}
    (earlier : ∀ n ∈ before, n.mark < bound) (later : ∀ n ∈ after, bound ≤ n.mark) :
    ((before ++ after).filter fun n => n.mark < bound) = before := by
  have kept : (before.filter fun n => n.mark < bound) = before := by
    rw [List.filter_eq_self]
    intro n member
    simpa using earlier n member
  have left : (after.filter fun n => n.mark < bound) = [] := by
    rw [List.filter_eq_nil_iff]
    intro n member
    simpa using later n member
  rw [List.filter_append, kept, left, List.append_nil]

/-- Among siblings in order, the next number brings in the one child that has it, as the last. -/
theorem filter_mark_lt_succ {children : List (Node Nat)} {child : Node Nat}
    (isChild : child ∈ children) (sorted : (children.map mark).Pairwise (· < ·)) :
    (children.filter fun c => c.mark < child.mark + 1) =
      (children.filter fun c => c.mark < child.mark) ++ [child] := by
  obtain ⟨before, after, rfl⟩ := List.append_of_mem isChild
  simp only [List.map_append, List.map_cons, List.pairwise_append, List.pairwise_cons,
    List.mem_map, List.mem_cons, forall_exists_index, and_imp, forall_apply_eq_imp_iff₂,
    forall_eq_or_imp] at sorted
  obtain ⟨-, ⟨later, -⟩, earlier⟩ := sorted
  have old : ((before ++ child :: after).filter fun c => c.mark < child.mark) = before := by
    refine filter_mark_lt (fun c held => (earlier c held).1) fun c held => ?_
    rcases List.mem_cons.1 held with same | beyond
    · rw [same]
    · exact (later c beyond).le
  rw [old, ← List.singleton_append, ← List.append_assoc]
  refine filter_mark_lt (fun c held => ?_) later
  rcases List.mem_append.1 held with known | new
  · have smaller := (earlier c known).1
    omega
  · rw [List.mem_singleton.1 new]
    omega

theorem filter_mark_lt_succ_of_ne {children : List (Node Nat)} {bound : Nat}
    (none : ∀ c ∈ children, c.mark ≠ bound) :
    (children.filter fun c => c.mark < bound + 1) = children.filter fun c => c.mark < bound := by
  refine List.filter_congr fun c member => ?_
  have other := none c member
  simp only [decide_eq_decide]
  omega

theorem upTo_eq_leaf {bound : Nat} {n : Node Nat}
    (later : ∀ child ∈ n.children, bound ≤ child.mark) : n.upTo bound = ⟨n.mark, n.kind, []⟩ := by
  obtain ⟨mark, kind, children⟩ := n
  have none : (children.filter fun n => n.mark < bound) = [] :=
    filter_mark_lt (List.forall_mem_nil _) later
  rw [upTo_mk, none]
  rfl

theorem upTo_eq_self {bound : Nat} {n : Node Nat} (inside : ∀ a ∈ n.marks, a < bound) :
    n.upTo bound = n := by
  induction n using induction with
  | step n ih =>
    obtain ⟨mark, kind, children⟩ := n
    have below : ∀ child ∈ children, ∀ a ∈ child.marks, a < bound := by
      intro child isChild a member
      refine inside a ?_
      rw [marks_mk]
      exact List.mem_cons_of_mem _ (List.mem_flatMap.2 ⟨child, isChild, member⟩)
    have all : (children.filter fun n => n.mark < bound) = children := by
      rw [List.filter_eq_self]
      intro child isChild
      have small := below child isChild child.mark (List.mem_map_of_mem (self_mem_nodes child))
      simpa using small
    have each : children.map (upTo bound) = children :=
      (List.map_congr_left fun child isChild => ih child isChild (below child isChild)).trans
        (List.map_id' children)
    rw [upTo_mk, all, each]

namespace IsNumbered

variable {order : Node Nat}

theorem eq_of_child (numbered : order.IsNumbered) {n m : Node Nat} (first : n ∈ order.nodes)
    (second : m ∈ order.nodes) {a : Nat} (belowFirst : a ∈ n.childMarks)
    (belowSecond : a ∈ m.childMarks) : n = m := by
  have distinct := numbered.distinct
  rw [(marks_perm_childMarks order).nodup_iff, List.nodup_cons, List.nodup_flatMap] at distinct
  have symmetric : Std.Symm (Function.onFun List.Disjoint (childMarks (α := Nat))) :=
    ⟨fun _ _ apart _ right left => apart left right⟩
  by_contra different
  exact distinct.2.2.forall first second different belowFirst belowSecond

/-- The cut through a numbered tree is widened by grafting the next node below its parent. -/
theorem graft_upTo (numbered : order.IsNumbered) {parent child : Node Nat}
    (among : parent ∈ order.nodes) (isChild : child ∈ parent.children) {n : Node Nat}
    (member : n ∈ order.nodes) (small : n.mark < child.mark) :
    Node.graft parent.mark ⟨child.mark, child.kind, []⟩ (n.upTo child.mark) =
      n.upTo (child.mark + 1) := by
  induction n using induction with
  | step n ih =>
    obtain ⟨mark, kind, children⟩ := n
    have old : (((children.filter fun c => c.mark < child.mark).map (upTo child.mark)).map
        (Node.graft parent.mark ⟨child.mark, child.kind, []⟩)) =
          (children.filter fun c => c.mark < child.mark).map (upTo (child.mark + 1)) := by
      rw [List.map_map]
      refine List.map_congr_left fun c kept => ?_
      rw [List.mem_filter, decide_eq_true_iff] at kept
      exact ih c kept.1 (mem_nodes_of_child member kept.1) kept.2
    rw [upTo_mk, upTo_mk, graft_mk, old]
    by_cases same : mark = parent.mark
    · -- The new number is that of a child of this node: the siblings before it are there already.
      have here : (⟨mark, kind, children⟩ : Node Nat) = parent :=
        List.inj_on_of_nodup_map numbered.distinct member among same
      rw [← here] at isChild
      have leaf : child.upTo (child.mark + 1) = ⟨child.mark, child.kind, []⟩ :=
        upTo_eq_leaf fun c below => numbered.below child (mem_nodes_of_child member isChild) c below
      rw [if_pos same, filter_mark_lt_succ isChild (numbered.inOrder _ member), List.map_append,
        List.map_singleton, leaf]
    · have none : ∀ c ∈ children, c.mark ≠ child.mark := by
        intro c below equal
        have shared := numbered.eq_of_child member among (List.mem_map_of_mem below)
          (equal ▸ List.mem_map_of_mem isChild)
        exact same (congrArg Node.mark shared)
      rw [if_neg same, List.append_nil, filter_mark_lt_succ_of_ne none]

end IsNumbered

/-! ## Turns -/

def parent? (order : Node Nat) (index : Nat) : Option (Node Nat) :=
  order.nodes.find? fun n => n.childMarks.contains index

/-- What is to be appended as the node with a number: the number of its parent, and its kind. -/
def turn? (order : Node Nat) (index : Nat) : Option (Nat × Kind) := do
  let parent ← order.parent? index
  let n ← order.find? index
  pure (parent.mark, n.kind)

def turns (order : Node Nat) : List (Nat × Kind) :=
  (List.range' 1 (order.size - 1)).filterMap order.turn?

theorem IsNumbered.exists_turn {order : Node Nat} (numbered : order.IsNumbered) {index : Nat}
    (positive : 0 < index) (inside : index < order.size) :
    ∃ parent ∈ order.nodes, ∃ child ∈ parent.children, child.mark = index ∧
      order.turn? index = some (parent.mark, child.kind) := by
  have marked := numbered.mem_marks_iff.2 inside
  rw [(marks_perm_childMarks order).mem_iff, List.mem_cons, numbered.first,
    List.mem_flatMap] at marked
  obtain ⟨some, among, isChild⟩ := marked.resolve_left positive.ne'
  have found : (order.parent? index).isSome = true := by
    rw [parent?, List.find?_isSome]
    exact ⟨some, among, by simpa using isChild⟩
  obtain ⟨parent, held⟩ := Option.isSome_iff_exists.1 found
  have member := List.mem_of_find?_eq_some held
  have above := List.find?_some held
  rw [List.contains_iff_mem, childMarks, List.mem_map] at above
  obtain ⟨child, below, same⟩ := above
  refine ⟨parent, member, child, below, same, ?_⟩
  have node := find?_of_mem numbered.distinct (mem_nodes_of_child member below)
  rw [same] at node
  rw [turn?, held, node]
  rfl

end Node

end TableQuery
