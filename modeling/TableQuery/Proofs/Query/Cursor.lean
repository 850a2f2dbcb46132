import TableQuery.Proofs.Query.Drafts
import TableQuery.Proofs.Statement.References
import Mathlib.Data.List.Chain

/-! # The cursor of a draft

The open nodes of a draft are a way down through its tree: the root, and then
nodes each of which is a child of the one before, to the node under the cursor.
A step leaves this stack as it is, puts one node on top or takes one away, so
that what is entered and left in between leaves no trace on it
(`Balanced.stack_eq`).
-/

namespace TableQuery.Draft

/-- The references to the open nodes, from the root to the node under the cursor. -/
def stack (d : Draft) : List NodeId :=
  d.tree.rootId :: d.entered.reverse.map (NodeId.mk d.tree.family)

/-- What a step does to the cursor, unless it is refused. -/
inductive Move where
  | stays | enters | leaves

def Step.move : Step → Move
  | .enter _ | .enterFunction _ => .enters
  | .leave => .leaves
  | .add _ | .addTo _ _ | .column _ | .literal _ | .star | .comparator _ => .stays

/-- Takes a step.  What is refused changes nothing. -/
def take (d : Draft) (s : Step) : Draft :=
  match d.step s with
  | .ok (_, e) => e
  | .error _ => d

variable {d e : Draft} {s : Step} {id : NodeId}

theorem take_of_ok (taken : d.step s = .ok (id, e)) : d.take s = e := by
  rw [take, taken]

theorem take_of_error {refusal : Refusal} (refused : d.step s = .error refusal) : d.take s = d := by
  rw [take, refused]

theorem length_stack : d.stack.length = d.depth + 1 := by
  simp [stack, depth]

theorem getLast?_stack : d.stack.getLast? = some d.current := by
  cases entered : d.entered with
  | nil => simp [stack, current, entered, Tree.rootId]
  | cons index rest => simp [stack, current, entered, List.getLast?_cons]

theorem stack_congr (d e : Draft) (family : e.tree.family = d.tree.family)
    (entered : e.entered = d.entered) : e.stack = d.stack := by
  rw [stack, stack, Tree.rootId, Tree.rootId, family, entered]

theorem stack_cons (d e : Draft) (family : e.tree.family = d.tree.family) {index : Nat}
    (entered : e.entered = index :: d.entered) :
    e.stack = d.stack ++ [⟨d.tree.family, index⟩] := by
  simp [stack, Tree.rootId, family, entered]

theorem step_addTo_eq_ok {parent : NodeId} {kind : Kind} :
    d.step (.addTo parent kind) = .ok (id, e) ↔
      d.tree.contains parent = true ∧ (d.tree.append parent.index kind).1 = id ∧
        e = { d with tree := (d.tree.append parent.index kind).2 } := by
  simp only [step, addTo, bind_eq_ok, pure_eq_ok]
  constructor
  · rintro ⟨⟨_, tree⟩, grown, same⟩
    obtain ⟨held, appended⟩ := Tree.appendBelow_eq_ok.1 grown
    cases same
    rw [appended]
    exact ⟨held, rfl, rfl⟩
  · rintro ⟨held, new, same⟩
    subst new same
    exact ⟨d.tree.append parent.index kind, Tree.appendBelow_eq_ok.2 ⟨held, rfl⟩, rfl⟩

theorem stack_of_stays (stays : s.move = .stays) : (d.take s).stack = d.stack := by
  cases s with
  | enter | enterFunction | leave => cases stays
  | addTo parent kind =>
    cases taken : d.step (.addTo parent kind) with
    | error refusal => rw [take_of_error taken]
    | ok next =>
      obtain ⟨id, e⟩ := next
      rw [take_of_ok taken]
      obtain ⟨_, _, rfl⟩ := step_addTo_eq_ok.1 taken
      exact stack_congr d _ rfl rfl
  | add | column | literal | star | comparator => exact stack_congr d _ rfl rfl

theorem stack_of_enters (enters : s.move = .enters) :
    ∃ id, d.step s = .ok (id, d.take s) ∧ (d.take s).stack = d.stack ++ [id] := by
  cases s with
  | enter kind => exact ⟨⟨d.tree.family, d.tree.size⟩, rfl, stack_cons d (d.enter kind).2 rfl rfl⟩
  | enterFunction name =>
    exact ⟨⟨d.tree.family, d.tree.size⟩, rfl, stack_cons d (d.enterFunction name).2 rfl rfl⟩
  | add | addTo | column | literal | star | comparator | leave => cases enters

theorem step_leave_eq_error : d.depth = 0 ↔ d.step .leave = .error .aboveRoot := by
  cases entered : d.entered <;>
    simp [depth, step, leave, entered, throw, throwThe, MonadExceptOf.throw, pure, Except.pure]

theorem stack_of_leaves (inside : d.depth ≠ 0) :
    d.step .leave = .ok (d.current, d.take .leave) ∧
      d.stack = (d.take .leave).stack ++ [d.current] ∧ (d.take .leave).tree = d.tree := by
  cases entered : d.entered with
  | nil => simp [depth, entered] at inside
  | cons index rest =>
    have left : d.step .leave = .ok (⟨d.tree.family, index⟩, { d with entered := rest }) := by
      simp [step, leave, entered, pure, Except.pure]
    have here : d.current = ⟨d.tree.family, index⟩ := by simp [current, entered]
    rw [take_of_ok left, here]
    exact ⟨left, stack_cons { d with entered := rest } d rfl entered, rfl⟩

theorem stack_of_leave (left : d.step .leave = .ok (id, e)) :
    d.stack = e.stack ++ [id] ∧ e.tree = d.tree := by
  have inside : d.depth ≠ 0 := by
    intro outside
    rw [step_leave_eq_error.1 outside] at left
    cases left
  obtain ⟨taken, top⟩ := stack_of_leaves inside
  rw [taken] at left
  cases left
  exact top

theorem step_leave_of_stack {below : List NodeId} (top : d.stack = below ++ [id])
    (nonempty : below ≠ []) :
    d.step .leave = .ok (id, d.take .leave) ∧ (d.take .leave).stack = below := by
  have inside : d.depth ≠ 0 := by
    have length := congrArg List.length top
    have positive := List.length_pos_of_ne_nil nonempty
    rw [length_stack, List.length_append, List.length_singleton] at length
    omega
  obtain ⟨left, stack, _⟩ := stack_of_leaves inside
  obtain ⟨same, last⟩ := List.append_inj' (top.symm.trans stack) rfl
  cases last
  exact ⟨left, same.symm⟩

/-! ## The way down -/

/-- Whether the open nodes are a way down through a numbered tree, from its root. -/
structure IsOpen (d : Draft) : Prop where
  numbered : d.tree.IsNumbered
  isQuery : d.tree.root.kind = .query
  inside : ∀ id ∈ d.stack, id.index < d.tree.size
  down : d.stack.IsChain fun above below => below.index ∈ d.tree.childrenOf above.index

theorem isOpen_new (family : Nat) (name : String) : (Draft.new family name).IsOpen where
  numbered := Tree.isNumbered_new family .query
  isQuery := rfl
  inside id member := by
    rw [List.mem_singleton.1 member]
    exact Nat.one_pos
  down := .singleton _

namespace IsOpen

variable (isOpen : d.IsOpen)

include isOpen

theorem current_lt : d.current.index < d.tree.size :=
  isOpen.inside _ (List.mem_of_getLast? getLast?_stack)

theorem contains {id : NodeId} (member : id ∈ d.stack) : d.tree.contains id = true := by
  refine isOpen.numbered.contains_iff.2 ⟨?_, isOpen.inside id member⟩
  rcases List.mem_cons.1 member with root | entered
  · rw [root]
    rfl
  · obtain ⟨index, _, rfl⟩ := List.mem_map.1 entered
    rfl

theorem grows_append (kind : Kind) : d.tree.Grows (d.tree.append d.current.index kind).2 :=
  .append .refl isOpen.current_lt kind

theorem grows_append_append (kind leaf : Kind) : d.tree.Grows
    ((d.tree.append d.current.index kind).2.append d.tree.size leaf).2 :=
  .append (isOpen.grows_append kind) (Nat.lt_succ_self _) leaf

theorem grows (taken : d.step s = .ok (id, e)) : d.tree.Grows e.tree := by
  cases s with
  | addTo parent kind =>
    obtain ⟨held, _, rfl⟩ := step_addTo_eq_ok.1 taken
    exact .append .refl (isOpen.numbered.contains_iff.1 held).2 kind
  | leave =>
    rw [(stack_of_leave taken).2]
    exact .refl
  | add kind | enter kind | literal value | star =>
    cases taken
    exact isOpen.grows_append _
  | column name | comparator c | enterFunction name =>
    cases taken
    exact isOpen.grows_append_append _ _

theorem mem_childrenOf (enters : s.move = .enters) (taken : d.step s = .ok (id, e)) :
    id.index ∈ e.tree.childrenOf d.current.index := by
  have child (kind : Kind) :
      d.tree.size ∈ (d.tree.append d.current.index kind).2.childrenOf d.current.index := by
    rw [isOpen.numbered.childrenOf_append isOpen.current_lt kind isOpen.current_lt, if_pos rfl]
    exact List.mem_append_right _ (List.mem_singleton_self _)
  cases s with
  | enter kind =>
    cases taken
    exact child kind
  | enterFunction name =>
    cases taken
    have numbered := isOpen.numbered.append isOpen.current_lt .function
    exact numbered.mem_childrenOf_append (Nat.lt_succ_self d.tree.size) _ (child .function)
  | add | addTo | column | literal | star | comparator | leave => cases enters

theorem step (taken : d.step s = .ok (id, e)) : e.IsOpen := by
  have grows := isOpen.grows taken
  have numbered := grows.isNumbered isOpen.numbered
  have isQuery : e.tree.root.kind = .query := (kind_root_step taken).trans isOpen.isQuery
  have inside : ∀ id ∈ d.stack, id.index < e.tree.size :=
    fun id member => Nat.lt_of_lt_of_le (isOpen.inside id member) grows.size_le
  have down : d.stack.IsChain fun above below => below.index ∈ e.tree.childrenOf above.index :=
    isOpen.down.imp fun _ _ => grows.mem_childrenOf isOpen.numbered
  cases moves : s.move with
  | stays =>
    have same := stack_of_stays (d := d) moves
    rw [take_of_ok taken] at same
    exact ⟨numbered, isQuery, same ▸ inside, same ▸ down⟩
  | enters =>
    obtain ⟨other, accepted, top⟩ := stack_of_enters (d := d) moves
    obtain ⟨rfl, rfl⟩ := Prod.mk.inj (Except.ok.inj (taken.symm.trans accepted))
    have child := isOpen.mem_childrenOf moves taken
    -- What is on top was under the cursor before, and the new node is a child of it.
    refine ⟨numbered, isQuery, ?_, ?_⟩
    · intro below member
      rw [top] at member
      rcases List.mem_append.1 member with old | new
      · exact inside below old
      · rw [List.mem_singleton.1 new]
        exact (numbered.below child).2
    · rw [top]
      refine down.append (.singleton _) fun above isLast below isFirst => ?_
      rw [getLast?_stack] at isLast
      cases isLast
      cases isFirst
      exact child
  | leaves =>
    cases s with
    | leave =>
      obtain ⟨top, same⟩ := stack_of_leave taken
      rw [top] at inside down
      exact ⟨numbered, isQuery, fun id member => inside id (List.mem_append_left _ member),
        down.left_of_append⟩
    | enter | enterFunction | add | addTo | column | literal | star | comparator => cases moves

theorem contains_of_step (taken : d.step s = .ok (id, e)) : e.tree.contains id = true := by
  have numbered := (isOpen.step taken).numbered
  cases s with
  | addTo parent kind =>
    obtain ⟨_, rfl, rfl⟩ := step_addTo_eq_ok.1 taken
    exact numbered.contains_iff.2 ⟨rfl, Nat.lt_succ_self _⟩
  | leave =>
    obtain ⟨top, same⟩ := stack_of_leave taken
    rw [same]
    exact isOpen.contains (top ▸ List.mem_append_right _ (List.mem_singleton_self _))
  | add kind | enter kind | literal value | star =>
    cases taken
    exact numbered.contains_iff.2 ⟨rfl, Nat.lt_succ_self _⟩
  | column name | comparator c | enterFunction name =>
    cases taken
    exact numbered.contains_iff.2 ⟨rfl, Nat.lt_succ_of_lt (Nat.lt_succ_self _)⟩

end IsOpen

/-! ## Steps that match -/

/-- Whether all that is entered in some steps is left again, and nothing else is. -/
inductive Balanced : List Step → Prop where
  | nil : Balanced []
  | stays {s : Step} {rest : List Step} (still : s.move = .stays) (others : Balanced rest) :
      Balanced (s :: rest)
  | nested {s : Step} {inner rest : List Step} (enters : s.move = .enters)
      (inside : Balanced inner) (others : Balanced rest) :
      Balanced (s :: (inner ++ .leave :: rest))

theorem stack_ne_nil (d : Draft) : d.stack ≠ [] :=
  List.cons_ne_nil _ _

theorem Balanced.stack_eq {steps : List Step} (balanced : Balanced steps) (d : Draft) :
    (steps.foldl take d).stack = d.stack := by
  induction balanced generalizing d with
  | nil => rfl
  | stays still _ ih => exact (ih _).trans (stack_of_stays still)
  | @nested s inner rest enters _ _ inside others =>
    obtain ⟨id, _, entered⟩ := stack_of_enters (d := d) enters
    have top := (inside (d.take s)).trans entered
    obtain ⟨_, left⟩ := step_leave_of_stack top d.stack_ne_nil
    rw [List.foldl_cons, List.foldl_append, List.foldl_cons, others, left]

end TableQuery.Draft
