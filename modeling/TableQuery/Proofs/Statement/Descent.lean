import TableQuery.Proofs.Statement.References

/-! # Trees of one descent

A reference is the family of a tree and the number of a node, and no tree asks
where a reference comes from.  What keeps trees apart is that each planted tree
starts a family: a tree accepts what trees of its own descent have given out,
as far as it has grown itself, and nothing else.

Copies of a tree go on under one family.  A number that two of them give out
after they were parted stands for a node of its own in each, which is why the
statement about copies is about references that were good when they were parted.
-/

namespace TableQuery

namespace Forest

variable {f : Forest} {tree : Nat} {t : Tree}

theorem exists_append_iff (isTree : f.trees[tree]? = some t) {id : NodeId} {kind : Kind} :
    (∃ grown, f.append tree id kind = some (.ok grown)) ↔ t.contains id = true := by
  cases held : t.contains id <;>
    simp [append, isTree, Tree.appendBelow, Tree.append?, held, Except.map, pure, Except.pure,
      throw, throwThe, MonadExceptOf.throw]

theorem append_eq_error (isTree : f.trees[tree]? = some t) {id : NodeId}
    (missing : t.contains id = false) (kind : Kind) :
    f.append tree id kind = some (.error (.unknownNode id)) := by
  rw [append, isTree, Option.map_some, Tree.appendBelow_eq_error missing]
  rfl

/-! ## Forests with a past -/

inductive Step where
  | plant (kind : Kind)
  | copy (tree : Nat)
  | append (tree : Nat) (parent : NodeId) (kind : Kind)

/-- A forest and what is remembered of its past. -/
structure Chronicle where
  forest : Forest
  /-- For every tree the planted tree that it is, or that it is a copy of a copy of. -/
  origins : List Nat
  /-- All references that were given out, each with the tree that gave it out. -/
  issued : List (Nat × NodeId)

namespace Chronicle

/-- Takes a step.  What is refused changes nothing. -/
def take (c : Chronicle) : Step → Chronicle
  | .plant kind =>
    let (id, forest) := c.forest.plant kind
    let tree := c.forest.trees.length
    ⟨forest, c.origins ++ [tree], c.issued ++ [(tree, id)]⟩
  | .copy tree => ⟨c.forest.copy tree, c.origins ++ (c.origins[tree]?).toList, c.issued⟩
  | .append tree parent kind =>
    match c.forest.append tree parent kind with
    | some (.ok (id, forest)) => ⟨forest, c.origins, c.issued ++ [(tree, id)]⟩
    | _ => c

/-- Whether a reference was given out by a tree that was planted as the same tree. -/
def Knows (c : Chronicle) (tree : Nat) (id : NodeId) : Prop :=
  ∃ source, (source, id) ∈ c.issued ∧ c.origins[source]? = c.origins[tree]?

/-- What is true of forests with their past.  Descent, which is remembered, and families, which are
all that the trees know, part the trees in the same way. -/
structure IsSound (c : Chronicle) : Prop where
  reached : c.forest.Reached
  families : ∀ t ∈ c.forest.trees, t.family < c.forest.families
  length : c.origins.length = c.forest.trees.length
  planted : ∀ origin ∈ c.origins, origin < c.forest.trees.length
  descent : ∀ (i j : Nat) (t u : Tree), c.forest.trees[i]? = some t →
    c.forest.trees[j]? = some u → (c.origins[i]? = c.origins[j]? ↔ t.family = u.family)
  held : ∀ (tree : Nat) (id : NodeId), (tree, id) ∈ c.issued →
    ∃ t, c.forest.trees[tree]? = some t ∧ t.contains id = true
  known : ∀ (tree : Nat) (t : Tree), c.forest.trees[tree]? = some t →
    ∀ id, t.contains id = true → c.Knows tree id

namespace IsSound

variable {c : Chronicle} (sound : c.IsSound)

include sound

theorem isNumbered {tree : Nat} {t : Tree} (isTree : c.forest.trees[tree]? = some t) :
    t.IsNumbered :=
  sound.reached.isNumbered t (List.mem_of_getElem? isTree)

theorem contains_iff {tree : Nat} {t : Tree} (isTree : c.forest.trees[tree]? = some t)
    (id : NodeId) : t.contains id = true ↔ c.Knows tree id ∧ id.index < t.size := by
  have numbered := sound.isNumbered isTree
  constructor
  · intro accepted
    exact ⟨sound.known tree t isTree id accepted, (numbered.contains_iff.1 accepted).2⟩
  · rintro ⟨⟨source, given, same⟩, inside⟩
    obtain ⟨u, isSource, accepted⟩ := sound.held source id given
    have family := (sound.descent source tree u t isSource isTree).1 same
    have own := ((sound.isNumbered isSource).contains_iff.1 accepted).1
    exact numbered.contains_iff.2 ⟨own.trans family, inside⟩

theorem origin_concat {tree : Nat} {t : Tree} (isTree : c.forest.trees[tree]? = some t)
    {origin : Nat} : (c.origins ++ [origin])[tree]? = c.origins[tree]? := by
  obtain ⟨inside, _⟩ := List.getElem?_eq_some_iff.1 isTree
  rw [List.getElem?_append_left]
  rw [sound.length]
  exact inside

/-- One more tree comes in with its origin and with what it gives out.  It has to be of the same
family as the trees of its origin and of no other, and what it accepts has to be given out. -/
theorem add {t : Tree} {origin families : Nat} {given : List (Nat × NodeId)}
    (reached : Reached ⟨c.forest.trees ++ [t], families⟩) (more : c.forest.families ≤ families)
    (family : t.family < families) (planted : origin ≤ c.forest.trees.length)
    (descent : ∀ (j : Nat) (u : Tree), c.forest.trees[j]? = some u →
      (c.origins[j]? = some origin ↔ u.family = t.family))
    (held : ∀ (tree : Nat) (id : NodeId), (tree, id) ∈ given →
      tree = c.forest.trees.length ∧ t.contains id = true)
    (known : ∀ id, t.contains id = true →
      ∃ source, (source, id) ∈ c.issued ++ given ∧ (c.origins ++ [origin])[source]? = some origin) :
    IsSound ⟨⟨c.forest.trees ++ [t], families⟩, c.origins ++ [origin], c.issued ++ given⟩ where
  reached := reached
  families u member := by
    rcases List.mem_append.1 member with old | new
    · exact Nat.lt_of_lt_of_le (sound.families u old) more
    · rw [List.mem_singleton.1 new]
      exact family
  length := by simp [sound.length]
  planted o member := by
    have small : o ≤ c.forest.trees.length := by
      rcases List.mem_append.1 member with old | new
      · exact (sound.planted o old).le
      · rw [List.mem_singleton.1 new]
        exact planted
    simp
    omega
  descent i j u v isFirst isSecond := by
    rcases getElem?_concat_eq_some.1 isFirst with first | ⟨rfl, rfl⟩ <;>
      rcases getElem?_concat_eq_some.1 isSecond with second | ⟨rfl, rfl⟩
    · rw [sound.origin_concat first, sound.origin_concat second]
      exact sound.descent i j u v first second
    · rw [sound.origin_concat first, ← sound.length, List.getElem?_concat_length]
      exact descent i u first
    · rw [sound.origin_concat second, ← sound.length, List.getElem?_concat_length, eq_comm,
        eq_comm (a := u.family)]
      exact descent j v second
    · simp
  held tree id member := by
    rcases List.mem_append.1 member with old | new
    · obtain ⟨u, isTree, accepted⟩ := sound.held tree id old
      exact ⟨u, getElem?_concat_eq_some.2 (.inl isTree), accepted⟩
    · obtain ⟨rfl, accepted⟩ := held tree id new
      exact ⟨t, List.getElem?_concat_length, accepted⟩
  known tree u isTree id accepted := by
    rcases getElem?_concat_eq_some.1 isTree with old | ⟨rfl, rfl⟩
    · obtain ⟨source, member, same⟩ := sound.known tree u old id accepted
      refine ⟨source, List.mem_append_left _ member, ?_⟩
      obtain ⟨v, isSource, _⟩ := sound.held source id member
      rw [sound.origin_concat isSource, sound.origin_concat old]
      exact same
    · obtain ⟨source, member, same⟩ := known id accepted
      refine ⟨source, member, ?_⟩
      rw [← sound.length, List.getElem?_concat_length]
      exact same

theorem plant (kind : Kind) : (c.take (.plant kind)).IsSound := by
  refine sound.add (sound.reached.plant kind) (Nat.le_succ _) (Nat.lt_succ_self _) (Nat.le_refl _)
    ?_ ?_ ?_
  · -- Neither the origin nor the family was there before.
    intro j u isTree
    have older := sound.families u (List.mem_of_getElem? isTree)
    constructor
    · intro same
      have small := sound.planted _ (List.mem_of_getElem? same)
      omega
    · intro same
      have same : u.family = c.forest.families := same
      omega
  · intro tree id given
    cases List.mem_singleton.1 given
    exact ⟨rfl, (Tree.isNumbered_new c.forest.families kind).contains_iff.2 ⟨rfl, Nat.one_pos⟩⟩
  · intro id accepted
    obtain ⟨family, root⟩ := (Tree.isNumbered_new c.forest.families kind).contains_iff.1 accepted
    have root : id.index < 1 := root
    have same : id = ⟨c.forest.families, 0⟩ := by
      cases id
      simp_all [Tree.new]
    refine ⟨c.forest.trees.length, ?_, ?_⟩
    · rw [same]
      exact List.mem_append_right _ (List.mem_singleton_self _)
    · rw [← sound.length, List.getElem?_concat_length]

theorem copy (tree : Nat) : (c.take (.copy tree)).IsSound := by
  cases isTree : c.forest.trees[tree]? with
  | none =>
    have noOrigin : c.origins[tree]? = none := by
      rw [List.getElem?_eq_none_iff] at isTree ⊢
      rw [sound.length]
      exact isTree
    have same : c.take (.copy tree) = c := by
      simp [take, Forest.copy, isTree, noOrigin]
    rw [same]
    exact sound
  | some t =>
    have member := List.mem_of_getElem? isTree
    obtain ⟨origin, isOrigin⟩ : ∃ origin, c.origins[tree]? = some origin := by
      obtain ⟨inside, _⟩ := List.getElem?_eq_some_iff.1 isTree
      rw [← sound.length] at inside
      exact ⟨_, List.getElem?_eq_getElem inside⟩
    have copied : c.take (.copy tree) = ⟨⟨c.forest.trees ++ [t], c.forest.families⟩,
        c.origins ++ [origin], c.issued ++ []⟩ := by
      simp [take, Forest.copy, isTree, isOrigin]
    have reached : Reached ⟨c.forest.trees ++ [t], c.forest.families⟩ := by
      have step := sound.reached.copy tree
      rw [Forest.copy, isTree] at step
      exact step
    rw [copied]
    refine sound.add reached (Nat.le_refl _) (sound.families t member)
      (sound.planted origin (List.mem_of_getElem? isOrigin)).le ?_ ?_ ?_
    · intro j u isOther
      rw [← sound.descent j tree u t isOther isTree, isOrigin]
    · intro other id given
      cases given
    · -- What the copy accepts was given out for the tree that it is a copy of.
      intro id accepted
      obtain ⟨source, given, same⟩ := sound.known tree t isTree id accepted
      obtain ⟨u, isSource, _⟩ := sound.held source id given
      exact ⟨source, List.mem_append_left _ given,
        (sound.origin_concat isSource).trans (same.trans isOrigin)⟩

end IsSound

/-! ## Grown trees -/

theorem take_append (c : Chronicle) (tree : Nat) (parent : NodeId) (kind : Kind) :
    (∃ t u id, c.forest.trees[tree]? = some t ∧ t.appendBelow parent kind = .ok (id, u) ∧
        c.take (.append tree parent kind) =
          ⟨{ c.forest with trees := c.forest.trees.set tree u }, c.origins,
            c.issued ++ [(tree, id)]⟩) ∨
      c.take (.append tree parent kind) = c := by
  cases appended : c.forest.append tree parent kind with
  | none => exact .inr (by simp only [take, appended])
  | some outcome =>
    cases outcome with
    | error refusal => exact .inr (by simp only [take, appended])
    | ok grown =>
      obtain ⟨t, u, isTree, below, same⟩ := exists_tree_of_append appended
      exact .inl ⟨t, u, grown.1, isTree, below, by simp only [take, appended, same]⟩

namespace IsSound

variable {c : Chronicle} (sound : c.IsSound)

include sound

theorem grow {tree : Nat} {t u : Tree} {id : NodeId}
    (reached : Reached { c.forest with trees := c.forest.trees.set tree u })
    (isTree : c.forest.trees[tree]? = some t) (grows : t.Grows u)
    (accepts : ∀ other, u.contains other = true ↔ t.contains other = true ∨ other = id) :
    IsSound ⟨{ c.forest with trees := c.forest.trees.set tree u }, c.origins,
      c.issued ++ [(tree, id)]⟩ where
  reached := reached
  families v member := by
    obtain ⟨j, isNow⟩ := List.getElem?_of_mem member
    obtain ⟨w, before, grew⟩ := Tree.Grows.exists_before isTree grows isNow
    rw [grew.family_eq]
    exact sound.families w (List.mem_of_getElem? before)
  length := by
    rw [List.length_set]
    exact sound.length
  planted := by
    rw [List.length_set]
    exact sound.planted
  descent i j v w isFirst isSecond := by
    obtain ⟨v', first, grewFirst⟩ := Tree.Grows.exists_before isTree grows isFirst
    obtain ⟨w', second, grewSecond⟩ := Tree.Grows.exists_before isTree grows isSecond
    rw [grewFirst.family_eq, grewSecond.family_eq]
    exact sound.descent i j v' w' first second
  held other given member := by
    rcases List.mem_append.1 member with old | new
    · obtain ⟨v, before, accepted⟩ := sound.held other given old
      obtain ⟨w, isNow, grew⟩ := Tree.Grows.exists_after isTree grows before
      exact ⟨w, isNow, (grew.keeps (sound.isNumbered before) accepted).1⟩
    · cases List.mem_singleton.1 new
      obtain ⟨inside, _⟩ := List.getElem?_eq_some_iff.1 isTree
      exact ⟨u, List.getElem?_set_self inside, (accepts id).2 (.inr rfl)⟩
  known other v isNow given accepted := by
    have remembered : ∀ w, c.forest.trees[other]? = some w → w.contains given = true →
        ∃ source, (source, given) ∈ c.issued ++ [(tree, id)] ∧
          c.origins[source]? = c.origins[other]? := by
      intro w before knew
      obtain ⟨source, member, same⟩ := sound.known other w before given knew
      exact ⟨source, List.mem_append_left _ member, same⟩
    by_cases here : tree = other
    · subst here
      obtain ⟨inside, _⟩ := List.getElem?_eq_some_iff.1 isTree
      obtain rfl := Option.some.inj ((List.getElem?_set_self inside).symm.trans isNow)
      rcases (accepts given).1 accepted with old | new
      · exact remembered t isTree old
      · rw [new]
        exact ⟨tree, List.mem_append_right _ (List.mem_singleton_self _), rfl⟩
    · exact remembered v ((List.getElem?_set_ne here).symm.trans isNow) accepted

theorem append (tree : Nat) (parent : NodeId) (kind : Kind) :
    (c.take (.append tree parent kind)).IsSound := by
  rcases c.take_append tree parent kind with ⟨t, u, id, isTree, appended, taken⟩ | same
  · obtain ⟨accepted, grown⟩ := Tree.appendBelow_eq_ok.1 appended
    have numbered := sound.isNumbered isTree
    have inside := (numbered.contains_iff.1 accepted).2
    have held : c.forest.append tree parent kind =
        some (.ok (id, { c.forest with trees := c.forest.trees.set tree u })) := by
      simp [Forest.append, isTree, appended, Except.map]
    cases grown
    rw [taken]
    exact sound.grow (sound.reached.append held) isTree (.append .refl inside kind)
      fun other => numbered.contains_append_iff inside kind
  · rw [same]
    exact sound

theorem step (s : Step) : (c.take s).IsSound := by
  cases s with
  | plant kind => exact sound.plant kind
  | copy tree => exact sound.copy tree
  | append tree parent kind => exact sound.append tree parent kind

theorem exists_grown (s : Step) {tree : Nat} {t : Tree} (isTree : c.forest.trees[tree]? = some t) :
    ∃ u, (c.take s).forest.trees[tree]? = some u ∧ t.Grows u := by
  obtain ⟨inside, _⟩ := List.getElem?_eq_some_iff.1 isTree
  cases s with
  | plant kind | copy other =>
    refine ⟨t, ?_, .refl⟩
    rw [← isTree]
    exact List.getElem?_append_left inside
  | append other parent kind =>
    rcases c.take_append other parent kind with ⟨v, w, id, isOther, grown, taken⟩ | same
    · rw [taken]
      exact Tree.Grows.exists_after isOther
        (Tree.grows_appendBelow (sound.isNumbered isOther) grown) isTree
    · rw [same]
      exact ⟨t, isTree, .refl⟩

theorem foldl (steps : List Step) : (steps.foldl take c).IsSound := by
  induction steps generalizing c with
  | nil => exact sound
  | cons s steps ih => exact ih (sound.step s)

theorem exists_grown_foldl (steps : List Step) {tree : Nat} {t : Tree}
    (isTree : c.forest.trees[tree]? = some t) :
    ∃ u, (steps.foldl take c).forest.trees[tree]? = some u ∧ t.Grows u := by
  induction steps generalizing c t with
  | nil => exact ⟨t, isTree, .refl⟩
  | cons s steps ih =>
    obtain ⟨u, next, grows⟩ := sound.exists_grown s isTree
    obtain ⟨v, last, more⟩ := ih (sound.step s) next
    exact ⟨v, last, grows.trans more⟩

end IsSound

end Chronicle

/-! ## Any number of steps -/

/-- The forest after some steps, from the one without trees, and its past. -/
def after (steps : List Step) : Chronicle := steps.foldl Chronicle.take ⟨.empty, [], []⟩

theorem after_append (steps more : List Step) :
    after (steps ++ more) = more.foldl Chronicle.take (after steps) :=
  List.foldl_append

theorem isSound_after (steps : List Step) : (after steps).IsSound := by
  apply Chronicle.IsSound.foldl
  constructor <;> simp [Forest.empty]
  exact .empty

/-- What references are good for after some steps, and after any further ones. -/
structure KeepsReferences (steps : List Step) : Prop where
  /-- A tree accepts what a tree of its descent has given out, as far as it has grown itself. -/
  accepts : ∀ (tree : Nat) (t : Tree), (after steps).forest.trees[tree]? = some t → ∀ id,
    (t.contains id = true ↔ (after steps).Knows tree id ∧ id.index < t.size) ∧
    ((∃ n, t.node id = .ok n) ↔ (after steps).Knows tree id ∧ id.index < t.size) ∧
    ∀ kind, (∃ grown, (after steps).forest.append tree id kind = some (.ok grown)) ↔
      (after steps).Knows tree id ∧ id.index < t.size
  /-- Any other reference is refused as unknown, which changes nothing. -/
  refuses : ∀ (tree : Nat) (t : Tree), (after steps).forest.trees[tree]? = some t → ∀ id,
    ¬((after steps).Knows tree id ∧ id.index < t.size) →
      t.node id = .error (.unknownNode id) ∧
      ∀ kind, (after steps).forest.append tree id kind = some (.error (.unknownNode id)) ∧
        after (steps ++ [.append tree id kind]) = after steps
  /-- Appending to a tree leaves all others as they are. -/
  others : ∀ (tree other : Nat) (id : NodeId) (kind : Kind), other ≠ tree →
    (after (steps ++ [.append tree id kind])).forest.trees[other]? =
      (after steps).forest.trees[other]?
  /-- What a tree has given out it accepts. -/
  own : ∀ (tree : Nat) (id : NodeId), (tree, id) ∈ (after steps).issued →
    ∃ t, (after steps).forest.trees[tree]? = some t ∧ t.contains id = true
  /-- What a tree accepts it goes on accepting, for the same node. -/
  stays : ∀ (more : List Step) (tree : Nat) (t : Tree),
    (after steps).forest.trees[tree]? = some t →
      ∃ u, (after (steps ++ more)).forest.trees[tree]? = some u ∧
        ∀ id, t.contains id = true → u.contains id = true ∧
          ∃ reading, t.reading? id = some reading ∧ u.reading? id = some reading
  /-- What a tree accepts when it is copied stands for the same node in the tree and in the copy,
  whatever is done to them. -/
  copies : ∀ (more : List Step) (tree : Nat) (t : Tree),
    (after steps).forest.trees[tree]? = some t →
      ∃ u v, (after (steps ++ .copy tree :: more)).forest.trees[tree]? = some u ∧
        (after (steps ++ .copy tree :: more)).forest.trees[(after steps).forest.trees.length]? =
          some v ∧
        ∀ id, t.contains id = true → u.contains id = true ∧ v.contains id = true ∧
          ∃ reading, t.reading? id = some reading ∧ u.reading? id = some reading ∧
            v.reading? id = some reading

/-- References are good for the trees of one descent only, and they are good for ever. -/
theorem keepsReferences (steps : List Step) : KeepsReferences steps where
  accepts tree t isTree id := by
    have known := (isSound_after steps).contains_iff isTree id
    exact ⟨known, Tree.exists_node_iff.trans known, fun _ => (exists_append_iff isTree).trans known⟩
  refuses tree t isTree id unknown := by
    rw [← (isSound_after steps).contains_iff isTree id, Bool.not_eq_true] at unknown
    refine ⟨Tree.node_eq_error unknown, fun kind => ?_⟩
    have refused := append_eq_error isTree unknown kind
    refine ⟨refused, ?_⟩
    rw [after_append]
    simp only [List.foldl_cons, List.foldl_nil, Chronicle.take, refused]
  others tree other id kind apart := by
    rw [after_append]
    rcases (after steps).take_append tree id kind with ⟨t, u, new, isTree, appended, taken⟩ | same
    · simp only [List.foldl_cons, List.foldl_nil, taken]
      exact List.getElem?_set_ne apart.symm
    · simp only [List.foldl_cons, List.foldl_nil, same]
  own := (isSound_after steps).held
  stays more tree t isTree := by
    have sound := isSound_after steps
    obtain ⟨u, isNow, grows⟩ := sound.exists_grown_foldl more isTree
    rw [after_append]
    exact ⟨u, isNow, fun id held => grows.exists_reading (sound.isNumbered isTree) held⟩
  copies more tree t isTree := by
    have sound := isSound_after steps
    have numbered := sound.isNumbered isTree
    have copied : ((after steps).take (.copy tree)).forest.trees =
        (after steps).forest.trees ++ [t] := by
      simp [Chronicle.take, Forest.copy, isTree]
    have isSource : ((after steps).take (.copy tree)).forest.trees[tree]? = some t := by
      rw [copied, getElem?_concat_eq_some]
      exact .inl isTree
    have isCopy : ((after steps).take (.copy tree)).forest.trees[
        (after steps).forest.trees.length]? = some t := by
      rw [copied, List.getElem?_concat_length]
    obtain ⟨u, isNow, grows⟩ := (sound.copy tree).exists_grown_foldl more isSource
    obtain ⟨v, copyIsNow, copyGrows⟩ := (sound.copy tree).exists_grown_foldl more isCopy
    rw [after_append]
    refine ⟨u, v, isNow, copyIsNow, fun id held => ?_⟩
    obtain ⟨still, reading, meant, same⟩ := grows.exists_reading numbered held
    obtain ⟨copyStill, copyReading, copyMeant, copySame⟩ := copyGrows.exists_reading numbered held
    obtain rfl := Option.some.inj (meant.symm.trans copyMeant)
    exact ⟨still, copyStill, reading, meant, same, copySame⟩

/-- A tree and its copy give out the same reference for nodes of their own. -/
example : (after [.plant .query, .copy 0, .append 0 ⟨0, 0⟩ .selectClause,
    .append 1 ⟨0, 0⟩ .limitClause]).forest.trees.map (Tree.reading? · ⟨0, 1⟩) =
      [some (.selectClause, some ⟨0, 0⟩), some (.limitClause, some ⟨0, 0⟩)] := by
  rfl

end Forest

end TableQuery
