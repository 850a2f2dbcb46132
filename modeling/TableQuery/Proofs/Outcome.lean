import TableQuery.Sift
import Mathlib.Data.List.Forall2

/-! # Outcomes that may be refusals

What an accepted outcome says about the steps that led to it: a sequence is
accepted when each step is, a traversal when every element is, and a filter
when its test answers on every element.

What a refusal says is put in two ways.  `RefusesOnly` bounds the refusals of
one outcome, and `Agree` compares two: both accepted with related values, or
both refused for the same cause.  Either goes through sequences and traversals,
and so does putting the refusals into other words.
-/

namespace TableQuery

variable {ε α β : Type}

/-! ## Sequences and traversals -/

theorem bind_eq_ok {x : Except ε α} {f : α → Except ε β} {b : β} :
    x >>= f = .ok b ↔ ∃ a, x = .ok a ∧ f a = .ok b := by
  cases x <;> simp [bind, Except.bind]

@[simp] theorem ok_bind (a : α) (f : α → Except ε β) : (Except.ok a >>= f) = f a := rfl

@[simp] theorem error_bind (refusal : ε) (f : α → Except ε β) :
    (Except.error refusal >>= f) = Except.error refusal := rfl

@[simp] theorem map_ok (f : α → β) (a : α) : f <$> (Except.ok a : Except ε α) = .ok (f a) := rfl

theorem bind_eq_error {x : Except ε α} {f : α → Except ε β} {refusal : ε} :
    x >>= f = .error refusal ↔ x = .error refusal ∨ ∃ a, x = .ok a ∧ f a = .error refusal := by
  cases x <;> simp [bind, Except.bind]

theorem pure_eq_ok {a b : α} : (pure a : Except ε α) = .ok b ↔ a = b := by
  simp [pure, Except.pure]

theorem throw_eq_ok {refusal : ε} {a : α} : (throw refusal : Except ε α) = .ok a ↔ False :=
  iff_of_false (fun accepted => by cases accepted) id

theorem pure_eq_error {a : α} {refusal : ε} : (pure a : Except ε α) = .error refusal ↔ False :=
  iff_of_false (fun refused => by cases refused) id

theorem throw_eq_error {refusal other : ε} :
    (throw refusal : Except ε α) = .error other ↔ refusal = other := by
  simp [throw, throwThe, MonadExceptOf.throw]

theorem toOption_eq_some {x : Except ε α} {a : α} : x.toOption = some a ↔ x = .ok a := by
  cases x <;> simp [Except.toOption]

theorem mapM_eq_ok {f : α → Except ε β} {as : List α} {bs : List β} :
    as.mapM f = .ok bs ↔ List.Forall₂ (fun a b => f a = .ok b) as bs := by
  induction as generalizing bs with
  | nil => cases bs <;> simp [pure_eq_ok]
  | cons a as ih =>
    simp only [List.mapM_cons, bind_eq_ok, pure_eq_ok, ih]
    cases bs with
    | nil => simp
    | cons b bs =>
      simp only [List.forall₂_cons, List.cons.injEq]
      constructor
      · rintro ⟨_, head, _, tail, rfl, rfl⟩
        exact ⟨head, tail⟩
      · rintro ⟨head, tail⟩
        exact ⟨b, head, bs, tail, rfl, rfl⟩

theorem exists_of_mem_related {related : α → β → Prop} {as : List α} {bs : List β} {b : β}
    (lists : List.Forall₂ related as bs) (member : b ∈ bs) : ∃ a ∈ as, related a b := by
  induction lists with
  | nil => cases member
  | cons head _ ih =>
    cases member with
    | head => exact ⟨_, List.mem_cons_self, head⟩
    | tail _ member =>
      obtain ⟨a, inTail, same⟩ := ih member
      exact ⟨a, List.mem_cons_of_mem _ inTail, same⟩

theorem exists_related {related : α → β → Prop} {as : List α}
    (each : ∀ a ∈ as, ∃ b, related a b) : ∃ bs, List.Forall₂ related as bs := by
  induction as with
  | nil => exact ⟨[], .nil⟩
  | cons a as ih =>
    obtain ⟨⟨b, head⟩, others⟩ := List.forall_mem_cons.1 each
    obtain ⟨bs, tail⟩ := ih others
    exact ⟨b :: bs, .cons head tail⟩

theorem exists_of_mem_mapM {f : α → Except ε β} {as : List α} {bs : List β} {b : β}
    (accepted : as.mapM f = .ok bs) (member : b ∈ bs) : ∃ a ∈ as, f a = .ok b := by
  obtain ⟨a, source, same⟩ := exists_of_mem_related (mapM_eq_ok.1 accepted) member
  exact ⟨a, source, same⟩

theorem rel_getElem? {related : α → β → Prop} {as : List α} {bs : List β}
    (lists : List.Forall₂ related as bs) (place : Nat) :
    Option.Rel related as[place]? bs[place]? := by
  induction lists generalizing place with
  | nil => exact .none
  | cons head _ ih =>
    cases place with
    | zero => exact .some head
    | succ place => exact ih place

theorem exists_source_of_mapM {f : α → Except ε β} {as : List α} {bs : List β} {place : Nat} {b : β}
    (accepted : as.mapM f = .ok bs) (found : bs[place]? = some b) :
    ∃ a, as[place]? = some a ∧ f a = .ok b := by
  have pair := rel_getElem? (mapM_eq_ok.1 accepted) place
  rw [found] at pair
  generalize as[place]? = source at pair
  cases pair with
  | some made => exact ⟨_, rfl, made⟩

theorem exists_target_of_mapM {f : α → Except ε β} {as : List α} {bs : List β} {place : Nat} {a : α}
    (accepted : as.mapM f = .ok bs) (found : as[place]? = some a) :
    ∃ b, bs[place]? = some b ∧ f a = .ok b := by
  have pair := rel_getElem? (mapM_eq_ok.1 accepted) place
  rw [found] at pair
  generalize bs[place]? = target at pair
  cases pair with
  | some made => exact ⟨_, rfl, made⟩

theorem exists_outcome_of_mem {f : α → Except ε β} {as : List α} {bs : List β} {a : α}
    (accepted : as.mapM f = .ok bs) (member : a ∈ as) : ∃ b ∈ bs, f a = .ok b := by
  obtain ⟨place, found⟩ := List.getElem?_of_mem member
  obtain ⟨b, target, made⟩ := exists_target_of_mapM accepted found
  exact ⟨b, List.mem_of_getElem? target, made⟩

theorem mapM_congr_of_forall₂ {γ : Type} {f : α → Except ε γ} {g : β → Except ε γ} {as : List α}
    {bs : List β} (same : List.Forall₂ (fun a b => f a = g b) as bs) : as.mapM f = bs.mapM g := by
  induction same with
  | nil => rfl
  | cons head _ ih => rw [List.mapM_cons, List.mapM_cons, head, ih]

/-- A traversal of the elements of lists, where the lists were made by another traversal, goes part
by part. -/
theorem exists_parts_of_mapM_flatten {γ : Type} {f : α → Except ε (List β)} {g : β → Except ε γ}
    {as : List α} {lists : List (List β)} {results : List γ} (made : as.mapM f = .ok lists)
    (accepted : lists.flatten.mapM g = .ok results) :
    ∃ parts, results = parts.flatten ∧
      List.Forall₂ (fun a part => ∃ bs, f a = .ok bs ∧ bs.mapM g = .ok part) as parts := by
  have related := mapM_eq_ok.1 made
  clear made
  induction related generalizing results with
  | nil =>
    cases accepted
    exact ⟨[], rfl, .nil⟩
  | cons head _ ih =>
    simp only [List.flatten_cons, List.mapM_append, bind_eq_ok, pure_eq_ok] at accepted
    obtain ⟨part, here, rest, later, rfl⟩ := accepted
    obtain ⟨parts, rfl, others⟩ := ih later
    exact ⟨part :: parts, rfl, .cons ⟨_, head, here⟩ others⟩

/-! ## Filters -/

/-- Whether an outcome is the answer yes; a refusal is not. -/
def affirms : Except ε Bool → Bool
  | .ok answer => answer
  | .error _ => false

@[simp] theorem affirms_ok (answer : Bool) : affirms (.ok answer : Except ε Bool) = answer := rfl

theorem sift_eq_ok {test : α → Except ε Bool} {as kept : List α} :
    sift test as = .ok kept ↔
      (∀ a ∈ as, ∃ answer, test a = .ok answer) ∧ kept = as.filter fun a => affirms (test a) := by
  induction as generalizing kept with
  | nil =>
    rw [sift, pure_eq_ok]
    constructor
    · intro same
      exact ⟨by simp, same.symm⟩
    · rintro ⟨_, rfl⟩
      rfl
  | cons a as ih =>
    simp only [sift, bind_eq_ok, pure_eq_ok, ih, List.forall_mem_cons, List.filter_cons]
    constructor
    · rintro ⟨answer, first, _, ⟨rest, rfl⟩, rfl⟩
      exact ⟨⟨⟨answer, first⟩, rest⟩, by rw [first, affirms_ok]⟩
    · rintro ⟨⟨⟨answer, first⟩, rest⟩, rfl⟩
      exact ⟨answer, first, _, ⟨rest, rfl⟩, by rw [first, affirms_ok]⟩

/-- An outcome that is refused if there is a cause for it, and accepted with a value otherwise. -/
def unlessRefused (cause? : Option ε) (a : α) : Except ε α :=
  match cause? with
  | some refusal => .error refusal
  | none => .ok a

theorem unlessRefused_eq_ok {cause? : Option ε} {a b : α} :
    unlessRefused cause? a = .ok b ↔ cause? = none ∧ a = b := by
  cases cause? <;> simp [unlessRefused]

theorem unlessRefused_eq_error {cause? : Option ε} {a : α} {refusal : ε} :
    unlessRefused cause? a = .error refusal ↔ cause? = some refusal := by
  cases cause? <;> simp [unlessRefused]

/-- A filter is refused for the first cause that its test has against an element. -/
theorem sift_unlessRefused (cause? : α → Option ε) (passes : α → Bool) (as : List α) :
    sift (fun a => unlessRefused (cause? a) (passes a)) as =
      unlessRefused (as.findSome? cause?) (as.filter passes) := by
  induction as with
  | nil => rfl
  | cons a as ih =>
    rw [sift, ih, List.findSome?_cons, List.filter_cons]
    cases cause? a with
    | some refusal => rfl
    | none => cases as.findSome? cause? <;> rfl

/-! ## Causes of refusals -/

def refusal? : Except ε α → Option ε
  | .ok _ => none
  | .error refusal => some refusal

theorem refusal?_eq_some {x : Except ε α} {refusal : ε} :
    refusal? x = some refusal ↔ x = .error refusal := by
  cases x <;> simp [refusal?]

theorem refusal?_eq_none {x : Except ε α} : refusal? x = none ↔ ∃ a, x = .ok a := by
  cases x <;> simp [refusal?]

theorem refusal?_unlessRefused (cause? : Option ε) (a : α) :
    refusal? (unlessRefused cause? a) = cause? := by
  cases cause? <;> rfl

theorem unlessRefused_refusal? (x : Except ε Bool) :
    unlessRefused (refusal? x) (affirms x) = x := by
  cases x <;> rfl

theorem refusal?_join {γ : Type} (x : Except ε α) (y : Except ε β) (f : α → β → γ) :
    refusal? (do let a ← x; let b ← y; pure (f a b)) = (refusal? x).or (refusal? y) := by
  cases x <;> cases y <;> rfl

theorem refusal?_sift (test : α → Except ε Bool) (as : List α) :
    refusal? (sift test as) = as.findSome? fun a => refusal? (test a) := by
  have tested := sift_unlessRefused (fun a => refusal? (test a)) (fun a => affirms (test a)) as
  simp only [unlessRefused_refusal?] at tested
  rw [tested, refusal?_unlessRefused]

theorem mapError_id (x : Except ε α) : x.mapError id = x := by
  cases x <;> rfl

section Reworded

variable {δ : Type} {reword : ε → δ}

theorem mapError_eq_ok {x : Except ε α} {a : α} : x.mapError reword = .ok a ↔ x = .ok a := by
  cases x <;> simp [Except.mapError]

variable (reword)

theorem mapError_bind (x : Except ε α) (next : α → Except ε β) :
    (x >>= next).mapError reword = x.mapError reword >>= fun a => (next a).mapError reword := by
  cases x <;> rfl

theorem mapError_mapM (f : α → Except ε β) (as : List α) :
    (as.mapM f).mapError reword = as.mapM fun a => (f a).mapError reword := by
  induction as with
  | nil => rfl
  | cons a as ih =>
    simp only [List.mapM_cons, mapError_bind, ih]
    rfl

end Reworded

/-! ## Kinds of refusals -/

def RefusesOnly (allowed : ε → Prop) (x : Except ε α) : Prop :=
  ∀ refusal, x = .error refusal → allowed refusal

namespace RefusesOnly

variable {allowed : ε → Prop}

theorem of_ok {x : Except ε α} {a : α} (accepted : x = .ok a) : RefusesOnly allowed x := by
  intro refusal refused
  rw [accepted] at refused
  cases refused

theorem pure (a : α) : RefusesOnly allowed (pure a : Except ε α) := of_ok rfl

theorem throw {refusal : ε} (isAllowed : allowed refusal) :
    RefusesOnly allowed (throw refusal : Except ε α) := by
  intro other refused
  cases refused
  exact isAllowed

theorem imp {also : ε → Prop} {x : Except ε α} (weaker : ∀ refusal, allowed refusal → also refusal)
    (refuses : RefusesOnly allowed x) : RefusesOnly also x :=
  fun refusal refused => weaker refusal (refuses refusal refused)

theorem bind {x : Except ε α} {f : α → Except ε β} (first : RefusesOnly allowed x)
    (rest : ∀ a, x = .ok a → RefusesOnly allowed (f a)) : RefusesOnly allowed (x >>= f) := by
  cases x with
  | error refusal => exact throw (first refusal rfl)
  | ok a => exact rest a rfl

theorem mapM {f : α → Except ε β} {as : List α} (each : ∀ a ∈ as, RefusesOnly allowed (f a)) :
    RefusesOnly allowed (as.mapM f) := by
  induction as with
  | nil => exact pure []
  | cons a as ih =>
    obtain ⟨head, tail⟩ := List.forall_mem_cons.1 each
    rw [List.mapM_cons]
    exact bind head fun _ _ => bind (ih tail) fun _ _ => pure _

theorem foldlM {step : β → α → Except ε β} (each : ∀ state a, RefusesOnly allowed (step state a))
    (as : List α) (state : β) : RefusesOnly allowed (as.foldlM step state) := by
  induction as generalizing state with
  | nil => exact pure state
  | cons a as ih =>
    rw [List.foldlM_cons]
    exact bind (each state a) fun next _ => ih next

theorem sift {test : α → Except ε Bool} {as : List α}
    (each : ∀ a ∈ as, RefusesOnly allowed (test a)) : RefusesOnly allowed (sift test as) := by
  induction as with
  | nil => exact pure []
  | cons a as ih =>
    obtain ⟨head, tail⟩ := List.forall_mem_cons.1 each
    exact bind head fun _ _ => bind (ih tail) fun _ _ => pure _

end RefusesOnly

/-! ## Outcomes that agree -/

/-- Whether two outcomes are refused for the same cause, or accepted with related values. -/
inductive Agree (related : α → β → Prop) : Except ε α → Except ε β → Prop where
  | refused (refusal : ε) : Agree related (.error refusal) (.error refusal)
  | accepted {a : α} {b : β} (same : related a b) : Agree related (.ok a) (.ok b)

namespace Agree

theorem eq {x y : Except ε α} (agree : Agree (· = ·) x y) : x = y := by
  cases agree with
  | refused refusal => rfl
  | accepted same => rw [same]

theorem exists_of_ok {related : α → β → Prop} {x : Except ε α} {y : Except ε β} {a : α}
    (agree : Agree related x y) (accepted : x = .ok a) : ∃ b, y = .ok b ∧ related a b := by
  cases agree with
  | refused refusal => cases accepted
  | accepted same =>
    cases accepted
    exact ⟨_, rfl, same⟩

theorem refl (x : Except ε α) : Agree (· = ·) x x := by
  cases x with
  | error refusal => exact .refused refusal
  | ok a => exact .accepted rfl

theorem trans {γ : Type} {first : α → β → Prop} {second : β → γ → Prop} {both : α → γ → Prop}
    {x : Except ε α} {y : Except ε β} {z : Except ε γ} (left : Agree first x y)
    (right : Agree second y z) (chain : ∀ a b c, first a b → second b c → both a c) :
    Agree both x z := by
  cases left with
  | refused refusal =>
    cases right
    exact .refused refusal
  | accepted same =>
    cases right with
    | accepted alsoSame => exact .accepted (chain _ _ _ same alsoSame)

theorem bind {γ δ : Type} {related : α → β → Prop} {after : γ → δ → Prop} {x : Except ε α}
    {y : Except ε β} {f : α → Except ε γ} {g : β → Except ε δ} (first : Agree related x y)
    (rest : ∀ a b, related a b → Agree after (f a) (g b)) : Agree after (x >>= f) (y >>= g) := by
  cases first with
  | refused refusal => exact .refused refusal
  | accepted same => exact rest _ _ same

theorem bind_same {γ δ : Type} {after : γ → δ → Prop} {x : Except ε α} {f : α → Except ε γ}
    {g : α → Except ε δ} (rest : ∀ a, Agree after (f a) (g a)) :
    Agree after (x >>= f) (x >>= g) := by
  cases x with
  | error refusal => exact .refused refusal
  | ok a => exact rest a

theorem mapM {γ δ : Type} {related : α → β → Prop} {after : γ → δ → Prop} {as : List α}
    {bs : List β} {f : α → Except ε γ} {g : β → Except ε δ} (lists : List.Forall₂ related as bs)
    (each : ∀ a b, related a b → Agree after (f a) (g b)) :
    Agree (List.Forall₂ after) (as.mapM f) (bs.mapM g) := by
  induction lists with
  | nil => exact .accepted .nil
  | cons head _ ih =>
    rw [List.mapM_cons, List.mapM_cons]
    apply bind (each _ _ head)
    intro c d first
    apply bind ih
    intro cs ds rest
    exact .accepted (.cons first rest)

theorem mapError {δ : Type} {related : α → β → Prop} {x : Except ε α} {y : Except ε β}
    (agree : Agree related x y) (reword : ε → δ) :
    Agree related (x.mapError reword) (y.mapError reword) := by
  cases agree with
  | refused refusal => exact .refused (reword refusal)
  | accepted same => exact .accepted same

theorem of_map_eq {γ : Type} {f : α → γ} {g : β → γ} {x : Except ε α} {y : Except ε β}
    (same : f <$> x = g <$> y) : Agree (fun a b => f a = g b) x y := by
  cases x with
  | error refusal =>
    cases y with
    | error other =>
      cases same
      exact .refused refusal
    | ok b => cases same
  | ok a =>
    cases y with
    | error refusal => cases same
    | ok b => exact .accepted (Except.ok.inj same)

theorem sift {related : α → β → Prop} {as : List α} {bs : List β} {test : α → Except ε Bool}
    {other : β → Except ε Bool} (lists : List.Forall₂ related as bs)
    (each : ∀ a b, related a b → test a = other b) :
    Agree (List.Forall₂ related) (sift test as) (sift other bs) := by
  induction lists with
  | nil => exact .accepted .nil
  | cons head _ ih =>
    simp only [TableQuery.sift, each _ _ head]
    apply bind (refl _)
    rintro pass _ rfl
    apply bind ih
    intro kept others rest
    cases pass with
    | false => exact .accepted rest
    | true => exact .accepted (.cons head rest)

end Agree

end TableQuery
