import TableQuery.Proofs.Query.Cursor

/-! # Desks with several drafts

Drafts on one desk do not disturb each other: what becomes of a draft is what
its own steps make of it, in whatever order they come among the steps of the
others (`Chronicle.drafts_foldl`).  Nor can they be taken for each other, since
each has a family of its own: a draft takes as a parent what it has given out
itself, and nothing else.
-/

namespace TableQuery

namespace Draft

variable {d : Draft}

theorem take_eq_or (d : Draft) (s : Step) :
    (∃ id, d.step s = .ok (id, d.take s)) ∨
      (∃ refusal, d.step s = .error refusal) ∧ d.take s = d := by
  cases taken : d.step s with
  | ok next => exact .inl ⟨next.1, by rw [take_of_ok taken]⟩
  | error refusal => exact .inr ⟨⟨refusal, rfl⟩, take_of_error taken⟩

theorem IsOpen.take (isOpen : d.IsOpen) (s : Step) : (d.take s).IsOpen := by
  rcases d.take_eq_or s with ⟨id, taken⟩ | ⟨_, same⟩
  · exact isOpen.step taken
  · rw [same]
    exact isOpen

theorem IsOpen.grows_take (isOpen : d.IsOpen) (s : Step) : d.tree.Grows (d.take s).tree := by
  rcases d.take_eq_or s with ⟨id, taken⟩ | ⟨_, same⟩
  · exact isOpen.grows taken
  · rw [same]
    exact .refl

theorem current_of_stack {e : Draft} (same : e.stack = d.stack) : e.current = d.current := by
  have last := congrArg List.getLast? same
  rw [getLast?_stack, getLast?_stack] at last
  exact Option.some.inj last

theorem exists_addTo_iff {id : NodeId} {kind : Kind} :
    (∃ grown, d.addTo id kind = .ok grown) ↔ d.tree.contains id = true := by
  constructor
  · rintro ⟨⟨new, e⟩, grown⟩
    exact (step_addTo_eq_ok.1 grown).1
  · intro held
    exact ⟨_, step_addTo_eq_ok.2 ⟨held, rfl, rfl⟩⟩

theorem addTo_eq_error {id : NodeId} (missing : d.tree.contains id = false) (kind : Kind) :
    d.addTo id kind = .error (.unknownNode id) := by
  rw [addTo, Tree.appendBelow_eq_error missing]
  rfl

end Draft

namespace Desk

inductive Act where
  | begin (name : String)
  | step (draft : Nat) (s : Draft.Step)

def stepsOf (draft : Nat) (acts : List Act) : List Draft.Step :=
  acts.filterMap fun
    | .begin _ => none
    | .step other s => if other = draft then some s else none

theorem set_drafts_self {desk : Desk} {draft : Nat} {d : Draft}
    (isDraft : desk.drafts[draft]? = some d) : desk.drafts.set draft d = desk.drafts := by
  rw [← (List.getElem?_eq_some_iff.1 isDraft).2, List.set_getElem_self]

theorem step_eq {desk : Desk} {draft : Nat} {d : Draft} (isDraft : desk.drafts[draft]? = some d)
    (s : Draft.Step) : desk.step draft s =
      some ((d.step s).map Prod.fst, ⟨desk.drafts.set draft (d.take s)⟩) := by
  rcases d.take_eq_or s with ⟨id, taken⟩ | ⟨⟨refusal, refused⟩, same⟩
  · simp only [step, isDraft, Option.map_some, taken]
    rfl
  · simp only [step, isDraft, Option.map_some, refused, same, set_drafts_self isDraft]
    rfl

/-- A desk and what is remembered of its past. -/
structure Chronicle where
  desk : Desk
  /-- All references that were given out, each with the draft that gave it out. -/
  issued : List (Nat × NodeId)

namespace Chronicle

/-- Does something at a desk.  What is refused changes nothing. -/
def take (c : Chronicle) : Act → Chronicle
  | .begin name =>
    let draft := c.desk.drafts.length
    ⟨c.desk.begin name, c.issued ++ [(draft, ⟨draft, 0⟩)]⟩
  | .step draft s =>
    match c.desk.drafts[draft]?, c.desk.step draft s with
    | some d, some (_, desk) =>
      ⟨desk, c.issued ++ (d.tree.given (d.take s).tree).map (Prod.mk draft)⟩
    | _, _ => c

structure IsSound (c : Chronicle) : Prop where
  isOpen : ∀ (draft : Nat) (d : Draft), c.desk.drafts[draft]? = some d → d.IsOpen
  family : ∀ (draft : Nat) (d : Draft), c.desk.drafts[draft]? = some d → d.tree.family = draft
  held : ∀ (draft : Nat) (id : NodeId), (draft, id) ∈ c.issued ↔
    ∃ d, c.desk.drafts[draft]? = some d ∧ d.tree.contains id = true

variable {c : Chronicle} {draft : Nat} {d : Draft}

theorem take_step (isDraft : c.desk.drafts[draft]? = some d) (s : Draft.Step) :
    c.take (.step draft s) = ⟨⟨c.desk.drafts.set draft (d.take s)⟩,
      c.issued ++ (d.tree.given (d.take s).tree).map (Prod.mk draft)⟩ := by
  simp only [take, isDraft, step_eq isDraft]

theorem take_step_of_none (noDraft : c.desk.drafts[draft]? = none) (s : Draft.Step) :
    c.take (.step draft s) = c := by
  simp only [take, noDraft]

theorem take_step_of_error (isDraft : c.desk.drafts[draft]? = some d) {s : Draft.Step}
    {refusal : Refusal} (refused : d.step s = .error refusal) : c.take (.step draft s) = c := by
  -- The tree has not grown, so that nothing is given out either.
  rw [take_step isDraft, Draft.take_of_error refused, set_drafts_self isDraft]
  simp [Tree.given]

theorem drafts_take_step (isDraft : c.desk.drafts[draft]? = some d) (s : Draft.Step) :
    (c.take (.step draft s)).desk.drafts[draft]? = some (d.take s) := by
  rw [take_step isDraft]
  exact List.getElem?_set_self (List.getElem?_eq_some_iff.1 isDraft).1

theorem drafts_take_other {other : Nat} (apart : other ≠ draft) (s : Draft.Step) :
    (c.take (.step other s)).desk.drafts[draft]? = c.desk.drafts[draft]? := by
  cases isOther : c.desk.drafts[other]? with
  | none => rw [take_step_of_none isOther]
  | some e =>
    rw [take_step isOther]
    exact List.getElem?_set_ne apart

theorem drafts_take_begin (isDraft : c.desk.drafts[draft]? = some d) (name : String) :
    (c.take (.begin name)).desk.drafts[draft]? = some d :=
  getElem?_concat_eq_some.2 (.inl isDraft)

theorem drafts_foldl (isDraft : c.desk.drafts[draft]? = some d) (acts : List Act) :
    (acts.foldl take c).desk.drafts[draft]? = some ((stepsOf draft acts).foldl Draft.take d) := by
  induction acts generalizing c d with
  | nil => exact isDraft
  | cons act acts ih =>
    cases act with
    | begin name => exact ih (drafts_take_begin isDraft name)
    | step other s =>
      by_cases here : other = draft
      · subst here
        have own : stepsOf other (.step other s :: acts) = s :: stepsOf other acts := by
          simp [stepsOf]
        rw [own]
        exact ih (drafts_take_step isDraft s)
      · have foreign : stepsOf draft (.step other s :: acts) = stepsOf draft acts := by
          simp [stepsOf, here]
        rw [foreign]
        exact ih ((drafts_take_other here s).trans isDraft)

namespace IsSound

variable (sound : c.IsSound)

include sound

theorem begin (name : String) : (c.take (.begin name)).IsSound where
  isOpen draft d isDraft := by
    rcases getElem?_concat_eq_some.1 isDraft with old | ⟨_, rfl⟩
    · exact sound.isOpen draft d old
    · exact Draft.isOpen_new _ name
  family draft d isDraft := by
    rcases getElem?_concat_eq_some.1 isDraft with old | ⟨rfl, rfl⟩
    · exact sound.family draft d old
    · rfl
  held draft id := by
    have root : (Draft.new c.desk.drafts.length name).tree.contains id = true ↔
        id = ⟨c.desk.drafts.length, 0⟩ := by
      rw [(Draft.isOpen_new _ name).numbered.contains_iff]
      obtain ⟨family, index⟩ := id
      simp [Draft.new, Tree.new]
    have drafts : (c.take (.begin name)).desk.drafts =
        c.desk.drafts ++ [Draft.new c.desk.drafts.length name] := rfl
    have issued : (c.take (.begin name)).issued =
        c.issued ++ [(c.desk.drafts.length, ⟨c.desk.drafts.length, 0⟩)] := rfl
    simp only [drafts, issued, getElem?_concat_eq_some, List.mem_append, sound.held draft id,
      List.mem_singleton, Prod.mk.injEq]
    constructor
    · rintro (⟨d, isDraft, held⟩ | ⟨rfl, new⟩)
      · exact ⟨d, .inl isDraft, held⟩
      · exact ⟨_, .inr ⟨rfl, rfl⟩, root.2 new⟩
    · rintro ⟨d, isDraft | ⟨rfl, rfl⟩, held⟩
      · exact .inl ⟨d, isDraft, held⟩
      · exact .inr ⟨rfl, root.1 held⟩

theorem stepOf (isDraft : c.desk.drafts[draft]? = some d) (s : Draft.Step) :
    (c.take (.step draft s)).IsSound := by
  have isOpen := sound.isOpen draft d isDraft
  have grows := isOpen.grows_take s
  have other {b : Nat} (apart : draft ≠ b) := drafts_take_other (c := c) apart s
  have here := drafts_take_step isDraft s
  have issued : (c.take (.step draft s)).issued =
      c.issued ++ (d.tree.given (d.take s).tree).map (Prod.mk draft) := by
    rw [take_step isDraft]
  refine ⟨fun b e isNow => ?_, fun b e isNow => ?_, fun b id => ?_⟩ <;>
    by_cases same : draft = b
  · subst same
    cases here.symm.trans isNow
    exact isOpen.take s
  · exact sound.isOpen b e ((other same).symm.trans isNow)
  · subst same
    cases here.symm.trans isNow
    exact grows.family_eq.trans (sound.family _ d isDraft)
  · exact sound.family b e ((other same).symm.trans isNow)
  · subst same
    have old := sound.held draft id
    simp only [isDraft, Option.some.injEq, exists_eq_left'] at old
    simp only [issued, here, List.mem_append, old, Option.some.injEq, exists_eq_left',
      grows.contains_iff isOpen.numbered, List.mem_map, Prod.mk.injEq, true_and, exists_eq_right]
  · have foreign : (b, id) ∉ (d.tree.given (d.take s).tree).map (Prod.mk draft) := by
      simp [same]
    rw [issued, other same, List.mem_append, or_iff_left foreign]
    exact sound.held b id

theorem take (act : Act) : (c.take act).IsSound := by
  cases act with
  | begin name => exact sound.begin name
  | step draft s =>
    cases isDraft : c.desk.drafts[draft]? with
    | none =>
      rw [take_step_of_none isDraft]
      exact sound
    | some d => exact sound.stepOf isDraft s

theorem foldl (acts : List Act) : (acts.foldl Chronicle.take c).IsSound := by
  induction acts generalizing c with
  | nil => exact sound
  | cons act acts ih => exact ih (sound.take act)

theorem mem_issued_iff (isDraft : c.desk.drafts[draft]? = some d) (id : NodeId) :
    (draft, id) ∈ c.issued ↔ d.tree.contains id = true := by
  simp only [sound.held, isDraft, Option.some.injEq, exists_eq_left']

end IsSound

end Chronicle

/-- The desk after some acts, from the one without drafts, and its past. -/
def after (acts : List Act) : Chronicle := acts.foldl Chronicle.take ⟨.empty, []⟩

theorem after_append (acts more : List Act) :
    after (acts ++ more) = more.foldl Chronicle.take (after acts) :=
  List.foldl_append

theorem after_concat (acts : List Act) (act : Act) :
    after (acts ++ [act]) = (after acts).take act :=
  after_append acts [act]

theorem isSound_after (acts : List Act) : (after acts).IsSound := by
  apply Chronicle.IsSound.foldl
  constructor <;> simp [empty]

/-- What the cursor of a draft and its references are good for, after some acts and after any
further ones. -/
structure KeepsCursor (acts : List Act) (draft : Nat) (d : Draft) : Prop where
  /-- What becomes of the draft is what its own steps make of it. -/
  follows : ∀ more, (after (acts ++ more)).desk.drafts[draft]? =
    some ((stepsOf draft more).foldl Draft.take d)
  /-- The open nodes begin with the root, which is a query, and end with the node under the
  cursor. -/
  ends : d.stack.head? = some d.tree.rootId ∧ d.tree.root.tag = .query ∧
    d.stack.getLast? = some d.current ∧ d.stack.length = d.depth + 1
  /-- Each of them is a child of the one before. -/
  down : (∀ id ∈ d.stack, d.tree.contains id = true) ∧
    d.stack.IsChain fun above below => below.index ∈ d.tree.childrenOf above.index
  /-- What is added does not move the cursor. -/
  stays : ∀ s : Draft.Step, s.move = .stays → (d.take s).stack = d.stack
  /-- What is entered goes on top. -/
  enters : ∀ s : Draft.Step, s.move = .enters → ∃ id, d.step s = .ok (id, d.take s) ∧
    (d.take s).stack = d.stack ++ [id] ∧ (d.take s).depth = d.depth + 1
  /-- The root cannot be left, and trying to changes nothing. -/
  root : (d.depth = 0 ↔ d.step .leave = .error .aboveRoot) ∧
    (d.depth = 0 → after (acts ++ [.step draft .leave]) = after acts)
  /-- Any other node can, which yields the node and takes it from the top. -/
  leaves : d.depth ≠ 0 → d.step .leave = .ok (d.current, d.take .leave) ∧
    d.stack = (d.take .leave).stack ++ [d.current] ∧ (d.take .leave).tree = d.tree
  /-- What is entered is left again after any steps that match, and then the cursor is where it
  was. -/
  returns : ∀ (more : List Act) (s : Draft.Step) (inner : List Draft.Step),
    s.move = .enters → Draft.Balanced inner → stepsOf draft more = s :: inner →
      ∃ id e, d.step s = .ok (id, d.take s) ∧
        (after (acts ++ more)).desk.drafts[draft]? = some e ∧ e.current = id ∧
        e.step .leave = .ok (id, e.take .leave) ∧
        (e.take .leave).stack = d.stack ∧ (e.take .leave).current = d.current
  /-- The draft takes as a parent what it has given out. -/
  accepts : ∀ id kind, (∃ grown, d.addTo id kind = .ok grown) ↔ (draft, id) ∈ (after acts).issued
  /-- Any other parent is refused as unknown, which changes nothing. -/
  refuses : ∀ id kind, (draft, id) ∉ (after acts).issued →
    d.addTo id kind = .error (.unknownNode id) ∧
      after (acts ++ [.step draft (.addTo id kind)]) = after acts
  /-- What the draft has given out, the node under the cursor and what its steps yield among it, no
  other draft has. -/
  issues : (draft, d.current) ∈ (after acts).issued ∧
    (∀ s id e, d.step s = .ok (id, e) → (draft, id) ∈ (after (acts ++ [.step draft s])).issued) ∧
    ∀ other id, (draft, id) ∈ (after acts).issued → (other, id) ∈ (after acts).issued →
      other = draft

/-- Drafts keep their cursors, and their references apart, whatever is done at a desk. -/
theorem keepsCursor (acts : List Act) {draft : Nat} {d : Draft}
    (isDraft : (after acts).desk.drafts[draft]? = some d) : KeepsCursor acts draft d where
  follows more := by
    rw [after_append]
    exact Chronicle.drafts_foldl isDraft more
  ends := by
    have isOpen := (isSound_after acts).isOpen draft d isDraft
    exact ⟨rfl, congrArg Kind.tag isOpen.isQuery, Draft.getLast?_stack, Draft.length_stack⟩
  down := by
    have isOpen := (isSound_after acts).isOpen draft d isDraft
    exact ⟨fun id => isOpen.contains, isOpen.down⟩
  stays s := Draft.stack_of_stays
  enters s enters := by
    obtain ⟨id, taken, top⟩ := Draft.stack_of_enters (d := d) enters
    have length := congrArg List.length top
    rw [List.length_append, Draft.length_stack, Draft.length_stack] at length
    exact ⟨id, taken, top, Nat.succ.inj length⟩
  root := by
    refine ⟨Draft.step_leave_eq_error, fun outside => ?_⟩
    rw [after_concat]
    exact Chronicle.take_step_of_error isDraft (Draft.step_leave_eq_error.1 outside)
  leaves := Draft.stack_of_leaves
  returns more s inner enters balanced own := by
    obtain ⟨id, taken, top⟩ := Draft.stack_of_enters (d := d) enters
    have now := (balanced.stack_eq (d.take s)).trans top
    obtain ⟨left, stack⟩ := Draft.step_leave_of_stack now d.stack_ne_nil
    refine ⟨id, inner.foldl Draft.take (d.take s), taken, ?_, ?_, left, stack,
      Draft.current_of_stack stack⟩
    · rw [after_append, Chronicle.drafts_foldl isDraft, own, List.foldl_cons]
    · have last := Draft.getLast?_stack (d := inner.foldl Draft.take (d.take s))
      rw [now, List.getLast?_concat] at last
      exact (Option.some.inj last).symm
  accepts id kind :=
    Draft.exists_addTo_iff.trans ((isSound_after acts).mem_issued_iff isDraft id).symm
  refuses id kind unknown := by
    rw [(isSound_after acts).mem_issued_iff isDraft, Bool.not_eq_true] at unknown
    have refused := Draft.addTo_eq_error unknown kind
    refine ⟨refused, ?_⟩
    rw [after_concat]
    exact Chronicle.take_step_of_error isDraft refused
  issues := by
    have sound := isSound_after acts
    have isOpen := sound.isOpen draft d isDraft
    refine ⟨?_, fun s id e taken => ?_, fun other id own given => ?_⟩
    · exact (sound.mem_issued_iff isDraft _).2
        (isOpen.contains (List.mem_of_getLast? Draft.getLast?_stack))
    · have isNow := Chronicle.drafts_take_step isDraft s
      rw [← after_concat, Draft.take_of_ok taken] at isNow
      exact ((isSound_after _).mem_issued_iff isNow id).2 (isOpen.contains_of_step taken)
    · obtain ⟨e, isOther, held⟩ := (sound.held other id).1 given
      have theirs := ((sound.isOpen other e isOther).numbered.contains_iff.1 held).1
      have ours := (isOpen.numbered.contains_iff.1 ((sound.mem_issued_iff isDraft id).1 own)).1
      rw [← sound.family other e isOther, ← theirs, ours, sound.family draft d isDraft]

theorem keepsCursor_second :
    let acts := [Act.begin "first", .begin "second", .step 0 .star, .step 1 (.enter .selectClause)]
    let d : Draft := ⟨"second", ⟨1, 2, ⟨0, .query, [⟨1, .selectClause, []⟩]⟩⟩, [1]⟩
    (after acts).desk.drafts[1]? = some d ∧ KeepsCursor acts 1 d :=
  ⟨rfl, keepsCursor _ rfl⟩

end Desk

end TableQuery
