import TableQuery.Proofs.Outcome
import TableQuery.Proofs.Statement.Numbering
import TableQuery.Statement.Forest
import Mathlib.Logic.Relation

/-! # Trees as they grow

However the trees of a forest are planted, copied and appended to, each of them
is numbered in the order in which its nodes arrived.  Copies of a tree hand out
the same references from there on and still grow apart, since each of them
counts for itself.

Seen through its numbers alone, a tree is a list of children for every number.
`IsRooted` says what these lists are like: nothing is in two of them, nothing
leads back, and everything is below the root.  Hence whoever goes from a node
to its children, to their children and so on comes to an end, and has then seen
the tree that was built (`IsRooted.ends`, `IsRooted.subtree`).
-/

namespace TableQuery

/-- Whether the nodes of a tree are numbered, and the next node gets the next number. -/
structure Tree.IsNumbered (t : Tree) : Prop where
  root : t.root.IsNumbered
  size : t.root.size = t.size

namespace Tree

variable {t : Tree}

theorem isNumbered_new (family : Nat) (kind : Kind) : (Tree.new family kind).IsNumbered :=
  ⟨.leaf kind, rfl⟩

theorem IsNumbered.contains_iff (numbered : t.IsNumbered) {id : NodeId} :
    t.contains id = true ↔ id.family = t.family ∧ id.index < t.size := by
  rw [contains, Tree.find?]
  by_cases same : id.family = t.family
  · simp only [same, if_true, true_and]
    rw [Node.isSome_find?_iff, numbered.root.mem_marks_iff, numbered.size]
  · simp [same]

theorem IsNumbered.append (numbered : t.IsNumbered) {parent : Nat} (inside : parent < t.size)
    (kind : Kind) : (t.append parent kind).2.IsNumbered := by
  have below : parent < t.root.size := by rw [numbered.size]; exact inside
  have grown := numbered.root.graft below kind
  have size := numbered.root.size_graft below kind
  rw [numbered.size] at grown size
  exact ⟨grown, size⟩

theorem appendBelow_eq_ok {u : Tree} {parent id : NodeId} {kind : Kind} :
    t.appendBelow parent kind = .ok (id, u) ↔
      t.contains parent = true ∧ t.append parent.index kind = (id, u) := by
  by_cases held : t.contains parent = true
  · simp [appendBelow, append?, held, pure_eq_ok]
  · simp [appendBelow, append?, held, throw_eq_ok]

theorem IsNumbered.appendBelow (numbered : t.IsNumbered) {u : Tree} {parent id : NodeId}
    {kind : Kind} (grown : t.appendBelow parent kind = .ok (id, u)) : u.IsNumbered := by
  obtain ⟨held, appended⟩ := appendBelow_eq_ok.1 grown
  have step := numbered.append (numbered.contains_iff.1 held).2 kind
  rwa [appended] at step

end Tree

namespace Forest

/-- What becomes of the forest without trees by planting, copying and appending. -/
inductive Reached : Forest → Prop where
  | empty : Reached Forest.empty
  | plant {f : Forest} (before : Reached f) (kind : Kind) : Reached (f.plant kind).2
  | copy {f : Forest} (before : Reached f) (tree : Nat) : Reached (f.copy tree)
  | append {f g : Forest} {tree : Nat} {parent id : NodeId} {kind : Kind} (before : Reached f)
      (grown : f.append tree parent kind = some (.ok (id, g))) : Reached g
  /-- Appending below a number that is known to be there. -/
  | appendOwned {f : Forest} {tree parent : Nat} {t : Tree} (before : Reached f)
      (held : f.trees[tree]? = some t) (inside : parent < t.size) (kind : Kind) :
      Reached { f with trees := f.trees.set tree (t.append parent kind).2 }

theorem exists_tree_of_append {f g : Forest} {tree : Nat} {parent id : NodeId} {kind : Kind}
    (grown : f.append tree parent kind = some (.ok (id, g))) :
    ∃ t u, f.trees[tree]? = some t ∧ t.appendBelow parent kind = .ok (id, u) ∧
      g = { f with trees := f.trees.set tree u } := by
  obtain ⟨t, held, appended⟩ := Option.map_eq_some_iff.1 grown
  cases below : t.appendBelow parent kind with
  | error refusal =>
    rw [below] at appended
    cases appended
  | ok result =>
    rw [below] at appended
    cases appended
    exact ⟨t, result.2, held, below, rfl⟩

theorem Reached.isNumbered {f : Forest} (reached : f.Reached) : ∀ t ∈ f.trees, t.IsNumbered := by
  induction reached with
  | empty => intro t member; cases member
  | plant _ kind ih =>
    intro t member
    rcases List.mem_append.1 member with held | new
    · exact ih t held
    · rw [List.mem_singleton.1 new]
      exact Tree.isNumbered_new _ kind
  | copy _ tree ih =>
    intro t member
    rcases List.mem_append.1 member with held | copied
    · exact ih t held
    · exact ih t (List.mem_of_getElem? (Option.mem_toList.1 copied))
  | append _ grown ih =>
    obtain ⟨old, u, held, appended, rfl⟩ := exists_tree_of_append grown
    intro t member
    rcases List.mem_or_eq_of_mem_set member with member | rfl
    · exact ih t member
    · exact (ih old (List.mem_of_getElem? held)).appendBelow appended
  | appendOwned _ held inside kind ih =>
    intro t member
    rcases List.mem_or_eq_of_mem_set member with member | rfl
    · exact ih t member
    · exact (ih _ (List.mem_of_getElem? held)).append inside kind

end Forest

/-! ## Trees by their numbers -/

namespace Tree

variable {t : Tree}

/-- The numbers of the children of the node with a number. -/
def childrenOf (t : Tree) (index : Nat) : List Nat :=
  ((t.root.find? index).map Node.childMarks).getD []

def childLists (t : Tree) : List (List Nat) := (List.range t.size).map t.childrenOf

/-- The tree below a number, found by going from children to children on so many levels; nothing if
these are too few. -/
def subtree? (t : Tree) : Nat → Nat → Option (Node Nat)
  | 0, _ => none
  | levels + 1, index => do
    let n ← t.root.find? index
    let children ← (t.childrenOf index).mapM (t.subtree? levels)
    pure ⟨index, n.kind, children⟩

/-- What the lists of children of a tree are like. -/
structure IsRooted (t : Tree) : Prop where
  /-- Every number but that of the root is in one list, at one place. -/
  once : ∀ index, 0 < index → index < t.size → t.childLists.flatten.count index = 1
  /-- The root is in none. -/
  noRoot : 0 ∉ t.childLists.flatten
  inside : ∀ index, ∀ child ∈ t.childrenOf index, child < t.size
  below : ∀ index, ∀ child ∈ t.childrenOf index, index < child
  inOrder : ∀ index, (t.childrenOf index).Pairwise (· < ·)
  reached : ∀ index < t.size,
    Relation.ReflTransGen (fun parent child => child ∈ t.childrenOf parent) 0 index
  /-- No way down goes on for ever. -/
  ends : WellFounded fun child index => child ∈ t.childrenOf index
  /-- As many levels as there are numbers from here on are enough to see all of the tree below. -/
  subtree : ∀ index < t.size, ∃ n, t.root.find? index = some n ∧
    t.subtree? (t.size - index) index = some n
  /-- Appending puts the next number at the end of one list, and starts another list. -/
  grows : ∀ parent < t.size, ∀ kind, (t.append parent kind).2.childLists =
    t.childLists.modify parent (· ++ [t.size]) ++ [[]]

theorem mapM_eq_some {β : Type} {f : β → Option β} {bs : List β} (each : ∀ b ∈ bs, f b = some b) :
    bs.mapM f = some bs := by
  induction bs with
  | nil => rfl
  | cons b bs ih =>
    obtain ⟨first, others⟩ := List.forall_mem_cons.1 each
    rw [List.mapM_cons, first, ih others]
    rfl

theorem mem_of_mem_childrenOf {index child : Nat} (isChild : child ∈ t.childrenOf index) :
    ∃ n ∈ t.root.nodes, n.mark = index ∧ ∃ c ∈ n.children, c.mark = child := by
  unfold childrenOf at isChild
  cases found : t.root.find? index with
  | none => simp [found] at isChild
  | some n =>
    obtain ⟨member, marked⟩ := Node.mem_of_find? found
    simp only [found, Option.map_some, Option.getD_some, Node.childMarks, List.mem_map] at isChild
    exact ⟨n, member, marked, isChild⟩

namespace IsNumbered

theorem childrenOf_mark (numbered : t.IsNumbered) {n : Node Nat} (member : n ∈ t.root.nodes) :
    t.childrenOf n.mark = n.childMarks := by
  rw [childrenOf, Node.find?_of_mem numbered.root.distinct member]
  rfl

theorem exists_node (numbered : t.IsNumbered) {index : Nat} (inside : index < t.size) :
    ∃ n ∈ t.root.nodes, n.mark = index := by
  rw [← numbered.size, ← numbered.root.mem_marks_iff] at inside
  exact Node.mem_marks.1 inside

theorem childrenOf_append (numbered : t.IsNumbered) {parent : Nat} (inside : parent < t.size)
    (kind : Kind) {index : Nat} (old : index < t.size) :
    (t.append parent kind).2.childrenOf index =
      t.childrenOf index ++ if index = parent then [t.size] else [] := by
  obtain ⟨n, member, marked⟩ := numbered.exists_node old
  have grown := (numbered.append inside kind).childrenOf_mark (Node.graft_mem_nodes member)
  have marks : (n.children.map (Node.graft parent ⟨t.size, kind, []⟩)).map Node.mark =
      n.childMarks := by
    rw [List.map_map]
    exact List.map_congr_left fun c _ => Node.mark_graft
  rw [Node.mark_graft, Node.childMarks, Node.children_graft, List.map_append, marks,
    ← numbered.childrenOf_mark member, marked] at grown
  rw [grown]
  by_cases same : index = parent <;> simp [same]

theorem childrenOf_append_new (numbered : t.IsNumbered) {parent : Nat} (inside : parent < t.size)
    (kind : Kind) : (t.append parent kind).2.childrenOf t.size = [] := by
  obtain ⟨n, member, marked⟩ := numbered.exists_node inside
  have isChild : (⟨t.size, kind, []⟩ : Node Nat) ∈
      (Node.graft parent ⟨t.size, kind, []⟩ n).children := by
    rw [Node.children_graft, if_pos marked]
    simp
  have new := Node.mem_nodes_of_child (Node.graft_mem_nodes member) isChild
  exact (numbered.append inside kind).childrenOf_mark new

theorem childLists_append (numbered : t.IsNumbered) {parent : Nat} (inside : parent < t.size)
    (kind : Kind) : (t.append parent kind).2.childLists =
      t.childLists.modify parent (· ++ [t.size]) ++ [[]] := by
  have lists : (t.append parent kind).2.childLists =
      (List.range t.size).map (t.append parent kind).2.childrenOf ++
        [(t.append parent kind).2.childrenOf t.size] := by
    show (List.range (t.size + 1)).map _ = _
    rw [List.range_succ, List.map_append, List.map_singleton]
  rw [lists, numbered.childrenOf_append_new inside]
  congr 1
  refine List.ext_getElem (by simp [childLists]) fun index old _ => ?_
  have old : index < t.size := by simpa using old
  simp only [childLists, List.getElem_map, List.getElem_range, List.getElem_modify,
    numbered.childrenOf_append inside kind old]
  by_cases same : parent = index
  · simp [same]
  · simp [same, Ne.symm same]

theorem flatten_childLists_perm (numbered : t.IsNumbered) :
    (0 :: t.childLists.flatten).Perm (List.range t.size) := by
  -- Going through the nodes is going through their numbers, in another order.
  have lists : t.root.nodes.flatMap Node.childMarks = t.root.marks.flatMap t.childrenOf := by
    rw [Node.marks, List.flatMap_map]
    refine List.flatMap_congr fun n member => ?_
    rw [numbered.childrenOf_mark member]
  have once := numbered.root.once
  rw [numbered.size] at once
  have all := (Node.marks_perm_childMarks t.root).symm
  rw [lists, numbered.root.first] at all
  rw [childLists, ← List.flatMap_def]
  exact ((once.symm.flatMap_right t.childrenOf).cons 0).trans (all.trans once)

theorem below (numbered : t.IsNumbered) {index child : Nat}
    (isChild : child ∈ t.childrenOf index) : index < child ∧ child < t.size := by
  obtain ⟨n, member, rfl, c, among, rfl⟩ := mem_of_mem_childrenOf isChild
  have small := numbered.root.mark_lt (Node.mem_nodes_of_child member among)
  rw [numbered.size] at small
  exact ⟨numbered.root.below n member c among, small⟩

theorem inOrder (numbered : t.IsNumbered) (index : Nat) :
    (t.childrenOf index).Pairwise (· < ·) := by
  unfold childrenOf
  cases found : t.root.find? index with
  | none => exact List.Pairwise.nil
  | some n => exact numbered.root.inOrder n (Node.mem_of_find? found).1

theorem reached (numbered : t.IsNumbered) {n m : Node Nat} (among : n ∈ t.root.nodes)
    (member : m ∈ n.nodes) :
    Relation.ReflTransGen (fun parent child => child ∈ t.childrenOf parent) n.mark m.mark := by
  induction n using Node.induction with
  | step n ih =>
    rcases Node.mem_nodes.1 member with same | ⟨child, isChild, inside⟩
    · rw [same]
    · refine .head ?_ (ih child isChild (Node.mem_nodes_of_child among isChild) inside)
      rw [numbered.childrenOf_mark among]
      exact List.mem_map_of_mem isChild

theorem subtree?_eq (numbered : t.IsNumbered) {n : Node Nat} (among : n ∈ t.root.nodes)
    {levels : Nat} (enough : t.size - n.mark ≤ levels) : t.subtree? levels n.mark = some n := by
  induction n using Node.induction generalizing levels with
  | step n ih =>
    have small := numbered.root.mark_lt among
    rw [numbered.size] at small
    obtain ⟨rest, rfl⟩ : ∃ rest, levels = rest + 1 := ⟨levels - 1, by omega⟩
    -- One level is used up here, and the children come later than their parent.
    have each : ∀ child ∈ n.children, t.subtree? rest child.mark = some child := by
      intro child isChild
      have later := numbered.root.below n among child isChild
      exact ih child isChild (Node.mem_nodes_of_child among isChild) (by omega)
    have children : n.childMarks.mapM (t.subtree? rest) = some n.children := by
      rw [Node.childMarks, List.mapM_map]
      exact mapM_eq_some (f := t.subtree? rest ∘ Node.mark) each
    rw [subtree?, Node.find?_of_mem numbered.root.distinct among, numbered.childrenOf_mark among]
    simp only [Option.bind_eq_bind, Option.bind_some, children, Option.pure_def]
    cases n
    rfl

theorem isRooted (numbered : t.IsNumbered) : t.IsRooted where
  once index positive inside := by
    have all := numbered.flatten_childLists_perm.count_eq index
    rw [List.count_cons, List.count_range, if_pos inside] at all
    have noRoot : ((0 : Nat) == index) = false := by simp; omega
    simpa [noRoot] using all
  noRoot held := by
    have distinct := numbered.flatten_childLists_perm.nodup_iff.2 List.nodup_range
    exact (List.nodup_cons.1 distinct).1 held
  inside index child isChild := (numbered.below isChild).2
  below index child isChild := (numbered.below isChild).1
  inOrder := numbered.inOrder
  reached index inside := by
    obtain ⟨n, member, rfl⟩ := numbered.exists_node inside
    rw [← numbered.root.first]
    exact numbered.reached (Node.self_mem_nodes t.root) member
  ends := by
    refine Subrelation.wf (r := InvImage (· < ·) fun index => t.size - index) ?_
      (InvImage.wf _ Nat.lt_wfRel.wf)
    intro child index isChild
    have bounds := numbered.below isChild
    show t.size - child < t.size - index
    omega
  subtree index inside := by
    obtain ⟨n, member, rfl⟩ := numbered.exists_node inside
    exact ⟨n, Node.find?_of_mem numbered.root.distinct member,
      numbered.subtree?_eq member (Nat.le_refl _)⟩
  grows parent inside kind := numbered.childLists_append inside kind

end IsNumbered

end Tree

/-! ## Forests -/

/-- In every tree of a forest, whatever was planted, copied and appended, every node but the root is
the child of one node with a smaller number, children are in the order of their numbers, and going
down from any node comes to an end. -/
theorem Forest.isRooted_of_reached {f : Forest} (reached : f.Reached) : ∀ t ∈ f.trees, t.IsRooted :=
  fun t member => (reached.isNumbered t member).isRooted

/-- A tree and its copy both grow by a node, which gets the same reference in both; the copy also
grows below it. -/
theorem Forest.isRooted_of_copies : ∃ f : Forest,
    (∀ t ∈ f.trees, t.IsRooted) ∧
      f.trees.map Tree.childLists = [[[1], []], [[1], [2], []]] := by
  have planted : (Forest.empty.plant .query).2.Reached := .plant .empty .query
  have original := @Reached.append _ _ 0 ⟨0, 0⟩ ⟨0, 1⟩ .selectClause (planted.copy 0) rfl
  have copied := @Reached.append _ _ 1 ⟨0, 0⟩ ⟨0, 1⟩ .whereClause original rfl
  have below := @Reached.append _ _ 1 ⟨0, 1⟩ ⟨0, 2⟩ .filterItem copied rfl
  exact ⟨_, isRooted_of_reached below, rfl⟩

end TableQuery
