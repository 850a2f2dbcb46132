import TableQuery.Proofs.Statement.Growth
import TableQuery.Proofs.Statement.Orders
import TableQuery.Query.Draft

/-! # Two ways of drafting a statement

A statement can be drafted with the cursor, from left to right and downwards
before sidewards, or by appending its nodes below the references that earlier
appending has given out.  The second way leaves the order open, as long as a
node comes after its parent and after its earlier siblings: an order is a tree
whose marks number its nodes.

With the cursor the invariant is about whole trees.  What is done for a tree
grafts all of it below the cursor, with the numbers that come next, and leaves
the cursor where it was.  With references it is about a cut through the tree:
after `i` nodes there is the part of the tree with numbers below `i`, and every
turn widens the cut by one.
-/

namespace TableQuery

/-! ## With the cursor -/

namespace Node

variable {α : Type}

mutual

/-- The steps that draft a tree below the cursor: a node with children is entered and left. -/
def cursorSteps : Node α → List Draft.Step
  | ⟨_, kind, children⟩ =>
    if children.isEmpty then [.add kind] else .enter kind :: (cursorStepsAll children ++ [.leave])

def cursorStepsAll : List (Node α) → List Draft.Step
  | [] => []
  | n :: ns => n.cursorSteps ++ cursorStepsAll ns

end

end Node

namespace Draft

open Node

variable {α : Type}

def run (d : Draft) : List Step → Except Refusal Draft
  | [] => pure d
  | s :: steps => do
    let (_, d) ← d.step s
    d.run steps

theorem run_cons {d : Draft} {s : Step} {next : NodeId × Draft} (taken : d.step s = .ok next)
    (steps : List Step) : d.run (s :: steps) = next.2.run steps := by
  rw [run, taken, ok_bind]

theorem run_append {d e : Draft} {first : List Step} (done : d.run first = .ok e)
    (later : List Step) : d.run (first ++ later) = e.run later := by
  induction first generalizing d with
  | nil =>
    cases done
    rfl
  | cons s first ih =>
    rw [run, bind_eq_ok] at done
    obtain ⟨⟨id, next⟩, taken, rest⟩ := done
    rw [List.cons_append, run_cons taken, ih rest]

/-- The draft with trees grafted below the cursor, which stays where it is. -/
def grown (d : Draft) (added : List (Node Nat)) : Draft :=
  { d with tree := ⟨d.tree.family, d.tree.size + sizeAll added,
      graftAll d.current.index added d.tree.root⟩ }

/-- Whether the numbers from the size of the tree on are not in use. -/
def HasRoom (d : Draft) : Prop := ∀ a ∈ d.tree.root.marks, a < d.tree.size

theorem HasRoom.grown {d : Draft} (room : d.HasRoom) {n : Node Nat}
    (bounds : ∀ a ∈ n.marks, a < d.tree.size + n.size) : (d.grown [n]).HasRoom := by
  intro a member
  show a < d.tree.size + (n.size + 0)
  rcases mem_marks_graft member with old | new
  · have small := room a old
    omega
  · exact bounds a new

theorem HasRoom.enter {d : Draft} (room : d.HasRoom) (kind : Kind) : (d.enter kind).2.HasRoom := by
  refine room.grown (n := ⟨d.tree.size, kind, []⟩) fun a member => ?_
  rw [marks_mk, List.flatMap_nil, List.mem_singleton] at member
  rw [member, Node.size]
  omega

theorem grown_grown (d : Draft) (n : Node Nat) (more : List (Node Nat)) :
    (d.grown [n]).grown more = d.grown (n :: more) := by
  simp only [Draft.grown, sizeAll, Nat.add_zero, Nat.add_assoc]
  rfl

/-- Entering a node, drafting what is below it and leaving it is grafting all of it. -/
theorem leave_grown_enter {d : Draft} (room : d.HasRoom) (kind : Kind) {added : List (Node Nat)}
    (bounds : ∀ a ∈ added.flatMap marks, d.tree.size < a) :
    ∃ id, ((d.enter kind).2.grown added).step .leave =
      .ok (id, d.grown [⟨d.tree.size, kind, added⟩]) := by
  have grafted : graftAll d.tree.size added
      (graft d.current.index ⟨d.tree.size, kind, []⟩ d.tree.root) =
        graft d.current.index ⟨d.tree.size, kind, [] ++ added⟩ d.tree.root :=
    graftAll_graft (fun held => (room _ held).false) fun held => (bounds _ held).false
  have size : d.tree.size + 1 + sizeAll added =
      d.tree.size + sizeAll [⟨d.tree.size, kind, added⟩] := by
    simp [sizeAll, Node.size]
    omega
  refine ⟨⟨d.tree.family, d.tree.size⟩, ?_⟩
  show Except.ok (_, { d with tree := ⟨d.tree.family, d.tree.size + 1 + sizeAll added,
    graftAll d.tree.size added (graft d.current.index ⟨d.tree.size, kind, []⟩ d.tree.root)⟩ }) = _
  rw [grafted, size]
  rfl

mutual

theorem run_cursorSteps : ∀ (n : Node α) {d : Draft}, d.HasRoom →
    d.run n.cursorSteps = .ok (d.grown [n.numberFrom d.tree.size])
  | ⟨_, kind, children⟩, d, room => by
    rw [cursorSteps, numberFrom]
    by_cases leaf : children = []
    · rw [leaf]
      rfl
    -- A node with children is entered, and is a leaf until they are drafted.
    · have room' := room.enter kind
      have entered : d.step (.enter kind) = .ok (d.enter kind) := rfl
      have size : (d.enter kind).2.tree.size = d.tree.size + 1 := rfl
      have below := run_cursorStepsAll children room'
      have bounds : ∀ a ∈ (numberAllFrom (d.tree.size + 1) children).flatMap marks,
          d.tree.size < a := by
        intro a member
        have bound := mem_marks_numberAllFrom (d.tree.size + 1) children member
        omega
      obtain ⟨id, left⟩ := leave_grown_enter room kind bounds
      rw [if_neg (by simpa using leaf), run_cons entered, run_append below, size, run_cons left]
      rfl

theorem run_cursorStepsAll : ∀ (ns : List (Node α)) {d : Draft}, d.HasRoom →
    d.run (cursorStepsAll ns) = .ok (d.grown (numberAllFrom d.tree.size ns))
  | [], d, _ => rfl
  | n :: ns, d, room => by
    have first := run_cursorSteps n room
    have bounds : ∀ a ∈ (n.numberFrom d.tree.size).marks,
        a < d.tree.size + (n.numberFrom d.tree.size).size := by
      intro a member
      rw [size_numberFrom]
      exact (mem_marks_numberFrom d.tree.size n member).2
    have size : (d.grown [n.numberFrom d.tree.size]).tree.size = d.tree.size + n.size := by
      show d.tree.size + ((n.numberFrom d.tree.size).size + 0) = _
      rw [size_numberFrom, Nat.add_zero]
    rw [cursorStepsAll, numberAllFrom, run_append first, run_cursorStepsAll ns (room.grown bounds),
      grown_grown, size]

end

end Draft

/-! ## With references -/

namespace Draft

open Node

/-- Appends nodes, each below the reference that was given out at the turn of its parent; the first
reference is there already. -/
def addTurns (d : Draft) (ids : List NodeId) : List (Nat × Kind) → Except Refusal Draft
  | [] => pure d
  | (parent, kind) :: turns => do
    let (id, d) ← d.step (.addTo (ids.getD parent d.tree.rootId) kind)
    d.addTurns (ids ++ [id]) turns

/-- Appends all nodes of a numbered tree but its root, in the order of their numbers. -/
def addInOrder (d : Draft) (order : Node Nat) : Except Refusal Draft :=
  d.addTurns [d.tree.rootId] order.turns

theorem step_addTo {d : Draft} {parent : NodeId} (held : d.tree.contains parent = true)
    (kind : Kind) : d.step (.addTo parent kind) =
      .ok ((d.tree.append parent.index kind).1,
        { d with tree := (d.tree.append parent.index kind).2 }) := by
  rw [step, addTo, Tree.appendBelow, Tree.append?, if_pos held]
  rfl

/-- A tree that is cut out of another one by numbers is widened by appending the next node. -/
theorem append_upTo {order : Node Nat} (numbered : order.IsNumbered) {t : Tree} {turn : Nat}
    (positive : 0 < turn) (cut : t = ⟨t.family, turn, order.upTo turn⟩) {parent child : Node Nat}
    (among : parent ∈ order.nodes) (isChild : child ∈ parent.children) (next : child.mark = turn) :
    t.append parent.mark child.kind =
      (⟨t.family, turn⟩, ⟨t.family, turn + 1, order.upTo (turn + 1)⟩) := by
  have small : order.mark < child.mark := by
    rw [numbered.first, next]
    exact positive
  have grafted := numbered.graft_upTo among isChild (self_mem_nodes order) small
  rw [next] at grafted
  rw [← grafted, cut]
  rfl

theorem addTurns_upTo {order : Node Nat} (numbered : order.IsNumbered) {d : Draft} {turn left : Nat}
    (positive : 0 < turn) (rest : turn + left = order.size) (growing : d.tree.IsNumbered)
    (cut : d.tree = ⟨d.tree.family, turn, order.upTo turn⟩) :
    d.addTurns ((List.range turn).map (NodeId.mk d.tree.family))
        ((List.range' turn left).filterMap order.turn?) =
      .ok { d with tree := ⟨d.tree.family, order.size, order⟩ } := by
  induction left generalizing d turn with
  | zero =>
    have all : order.upTo turn = order := by
      refine upTo_eq_self fun a member => ?_
      have small := numbered.mem_marks_iff.1 member
      omega
    rw [all, show turn = order.size from rest] at cut
    rw [← cut]
    rfl
  | succ left ih =>
    have inside : turn < order.size := by omega
    obtain ⟨parent, among, child, isChild, same, now⟩ := numbered.exists_turn positive inside
    have earlier : parent.mark < turn := by
      rw [← same]
      exact numbered.below parent among child isChild
    have size : d.tree.size = turn := by rw [cut]
    have held : d.tree.contains ⟨d.tree.family, parent.mark⟩ = true :=
      growing.contains_iff.2 ⟨rfl, by rw [size]; exact earlier⟩
    have handle : ((List.range turn).map (NodeId.mk d.tree.family)).getD parent.mark
        d.tree.rootId = ⟨d.tree.family, parent.mark⟩ := by
      simp [List.getD_eq_getElem?_getD, earlier]
    have wider := append_upTo numbered positive cut among isChild same
    have added := step_addTo held child.kind
    have growing := growing.append (size ▸ earlier) child.kind
    simp only [wider] at added growing
    have more : (List.range turn).map (NodeId.mk d.tree.family) ++ [⟨d.tree.family, turn⟩] =
        (List.range (turn + 1)).map (NodeId.mk d.tree.family) := by
      rw [List.range_succ, List.map_append, List.map_singleton]
    rw [List.range'_succ, List.filterMap_cons, now]
    show d.addTurns _ ((parent.mark, child.kind) :: _) = _
    rw [addTurns, handle, added, ok_bind]
    show addTurns _ (_ ++ [⟨d.tree.family, turn⟩]) _ = _
    rw [more]
    exact ih (Nat.succ_pos turn) (by omega) growing rfl

theorem addInOrder_eq {order : Node Nat} (numbered : order.IsNumbered)
    (isQuery : order.kind = .query) (family : Nat) (name : String) :
    (Draft.new family name).addInOrder order =
      .ok { Draft.new family name with tree := ⟨family, order.size, order⟩ } := by
  have root : order.upTo 1 = ⟨0, .query, []⟩ := by
    rw [← numbered.first, ← isQuery]
    refine upTo_eq_leaf fun child isChild => ?_
    have later := numbered.below order (self_mem_nodes order) child isChild
    omega
  have some : 1 ≤ order.size := by
    rw [← length_marks]
    exact List.length_pos_of_mem (List.mem_map_of_mem (self_mem_nodes order))
  exact addTurns_upTo numbered Nat.one_pos (Nat.add_sub_cancel' some)
    (Tree.isNumbered_new family .query) (by rw [root]; rfl)

theorem run_cursorStepsAll_new (tree : Node α) (isQuery : tree.kind = .query) (family : Nat)
    (name : String) : (Draft.new family name).run (cursorStepsAll tree.children) =
      .ok { Draft.new family name with tree := ⟨family, tree.size, tree.numberFrom 0⟩ } := by
  obtain ⟨mark, kind, children⟩ := tree
  have isQuery : kind = .query := isQuery
  have room : (Draft.new family name).HasRoom := by
    intro a member
    have only : a = 0 := by simpa [Draft.new, Tree.new] using member
    rw [only]
    exact Nat.one_pos
  have fresh : 0 ∉ (numberAllFrom 1 children).flatMap marks := by
    intro member
    have bounds := mem_marks_numberAllFrom 1 children member
    omega
  have root : graftAll 0 (numberAllFrom 1 children) ⟨0, .query, []⟩ =
      ⟨0, .query, numberAllFrom 1 children⟩ := graftAll_self fresh
  have run := run_cursorStepsAll children room
  rw [run, numberFrom, isQuery, Node.size, ← sizeAll_numberAllFrom 1 children]
  show Except.ok (Draft.mk _ ⟨_, _, graftAll 0 (numberAllFrom 1 children) ⟨0, .query, []⟩⟩ _) = _
  rw [root]
  rfl

/-- Drafting a statement with the cursor and appending its nodes in any order yield it both, so that
the queries are the same; as many nodes were appended as the statement has, and the cursor is on the
root. -/
theorem same_of_cursor_of_order {tree : Node α} (isQuery : tree.kind = .query) {order : Node Nat}
    (ordered : order.erase = tree.erase) (numbered : order.IsNumbered) (family other : Nat)
    (name title : String) :
    ∃ d e, (Draft.new family name).run (cursorStepsAll tree.children) = .ok d ∧
      (Draft.new other title).addInOrder order = .ok e ∧
      d.finish.root.erase = tree.erase ∧ e.finish.root.erase = tree.erase ∧
      d.finish.same e.finish = true ∧ d.depth = 0 ∧
      d.finish.tree.size = tree.size ∧ e.finish.tree.size = tree.size := by
  have kind : order.kind = .query := by
    rw [← kind_erase, ordered, kind_erase, isQuery]
  have size : order.size = tree.size := by
    rw [← size_erase, ordered, size_erase]
  have drafted : (tree.numberFrom 0).erase = tree.erase := erase_numberFrom 0 tree
  exact ⟨_, _, run_cursorStepsAll_new tree isQuery family name,
    addInOrder_eq numbered kind other title, drafted, ordered,
    same_iff_erase.2 (drafted.trans ordered.symm), rfl, rfl, size⟩

/-- The three first amounts, clauses before what is in them. -/
def clausesFirst : Node Nat :=
  ⟨0, .query, [
    ⟨1, .selectClause, [⟨3, .selectItem, [⟨5, .column, [⟨6, .identifier "amount", []⟩]⟩]⟩]⟩,
    ⟨2, .limitClause, [⟨4, .identifier "3", []⟩]⟩]⟩

theorem isNumbered_clausesFirst : clausesFirst.IsNumbered := by
  refine ⟨?_, rfl, ?_, ?_⟩
  · decide
  · simp [clausesFirst]
  · simp [clausesFirst]

theorem same_of_clausesFirst : ∃ d e,
    (Draft.new 0 "downwards").run (cursorStepsAll clausesFirst.erase.children) = .ok d ∧
      (Draft.new 1 "sidewards").addInOrder clausesFirst = .ok e ∧
      d.finish.same e.finish = true ∧ d.finish.tree.size = 7 := by
  have isQuery : clausesFirst.erase.kind = .query := rfl
  obtain ⟨d, e, drafted, added, -, -, same, -, size, -⟩ := same_of_cursor_of_order isQuery
    rfl isNumbered_clausesFirst 0 1 "downwards" "sidewards"
  exact ⟨d, e, drafted, added, same, size⟩

end Draft

end TableQuery
