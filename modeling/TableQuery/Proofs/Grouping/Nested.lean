import TableQuery.Proofs.Aggregate.Extremes
import TableQuery.Proofs.Grouping.Calls
import TableQuery.Proofs.Grouping.Having

/-! # Functions of functions

A function of a function is applied to a column of one cell.  Of one cell an
extreme is that cell, to the bit, and so is a sum, which refuses a text; a count
is one.  Extremes and sums around a function, however many and in any order,
therefore pass its value on unless it is a text, and pass its refusal on
whatever it is.
-/

namespace TableQuery

variable {α : Type}

namespace Aggregate

theorem Extreme.reduce_singleton (e : Extreme) (c : Cell) : e.aggregate.reduce [c] = .ok c := by
  cases c <;> rfl

theorem sum_reduce_singleton {c : Cell} (noText : ∀ s, c ≠ .text s) : sum.reduce [c] = .ok c := by
  cases c with
  | text s => exact absurd rfl (noText s)
  | _ => rfl

theorem sum_reduce_text (s : String) :
    sum.reduce [.text s] = .error (.notNumeric "sum" (.text s)) := rfl

theorem count_reduce_singleton (c : Cell) : count.reduce [c] = .ok (.int 1) := count_reduce [c]

/-- The aggregates that have the value of one number or of nothing for their own. -/
inductive Passing : Aggregate → Prop where
  | extreme (e : Extreme) : Passing e.aggregate
  | sum : Passing .sum

namespace Passing

variable {a : Aggregate}

theorem get?_builtin (passes : Passing a) : Catalog.builtin.get? a.name = some a := by
  cases passes with
  | extreme e => cases e <;> rfl
  | sum => rfl

theorem reduce_singleton (passes : Passing a) {c : Cell} (noText : ∀ s, c ≠ .text s) :
    a.reduce [c] = .ok c := by
  cases passes with
  | extreme e => exact e.reduce_singleton c
  | sum => exact sum_reduce_singleton noText

theorem reduce_text (passes : Passing a) (s : String) :
    a.reduce [.text s] = .ok (.text s) ∨
      a.reduce [.text s] = .error (.notNumeric "sum" (.text s)) := by
  cases passes with
  | extreme e => exact .inl (e.reduce_singleton _)
  | sum => exact .inr (sum_reduce_text s)

end Passing

end Aggregate

/-- Whether a call has the outcome of another one, on all rows where this is no text.  A text is
passed on or refused. -/
structure Call.PassesOn (inner outer : Call) : Prop where
  refusal : ∀ rows refusal, inner.evaluate rows = .error refusal →
    outer.evaluate rows = .error refusal
  value : ∀ rows v, (∀ s, v ≠ .text s) → inner.evaluate rows = .ok v → outer.evaluate rows = .ok v
  text : ∀ rows s, inner.evaluate rows = .ok (.text s) →
    outer.evaluate rows = .ok (.text s) ∨
      outer.evaluate rows = .error (.notNumeric "sum" (.text s))

namespace Call.PassesOn

theorem refl (c : Call) : c.PassesOn c :=
  ⟨fun _ _ refused => refused, fun _ _ _ read => read, fun _ _ read => .inl read⟩

theorem trans {b c d : Call} (first : b.PassesOn c) (second : c.PassesOn d) : b.PassesOn d where
  refusal rows refusal refused := second.refusal rows refusal (first.refusal rows refusal refused)
  value rows v noText read := second.value rows v noText (first.value rows v noText read)
  text rows s read := by
    rcases first.text rows s read with passed | refused
    · exact second.text rows s passed
    · exact .inr (second.refusal rows _ refused)

theorem ofCall {a : Aggregate} (passes : a.Passing) (c : Call) : c.PassesOn (.ofCall a c) where
  refusal rows refusal refused := by rw [evaluate, refused, error_bind]
  value rows v noText read := by
    rw [evaluate, read, ok_bind]
    exact passes.reduce_singleton noText
  text rows s read := by
    rw [evaluate, read, ok_bind]
    exact passes.reduce_text s

end Call.PassesOn

namespace Grouping

variable {g : Grouping} {f w : Node α}

/-- A function, with any number of extremes and sums around it, one around the other. -/
inductive Wraps (g : Grouping) (f : Node α) : Node α → Prop where
  | bare : Wraps g f f
  | around {inner outer : Node α} {name : String} {a : Aggregate} (wraps : Wraps g f inner)
      (calls : outer.Calls name inner) (passes : a.Passing)
      (named : g.settings.filedName name = a.name) : Wraps g f outer

theorem Wraps.isFunction (wraps : g.Wraps f w) (isFunction : f.kind = .function) :
    w.kind = .function := by
  cases wraps with
  | bare => exact isFunction
  | around _ calls => exact calls.isFunction

theorem agree_call_around {name : String} {a : Aggregate} (builtin : g.catalog = .builtin)
    (isFunction : f.kind = .function) (calls : w.Calls name f) (passes : a.Passing)
    (named : g.settings.filedName name = a.name) : Agree Call.PassesOn (g.call f) (g.call w) := by
  rw [call_of_function calls isFunction (resolve_of_builtin builtin passes.get?_builtin named)]
  cases g.call f with
  | error refusal => exact .refused refusal
  | ok c => exact .accepted (.ofCall passes c)

theorem Wraps.agree_call (wraps : g.Wraps f w) (builtin : g.catalog = .builtin)
    (isFunction : f.kind = .function) : Agree Call.PassesOn (g.call f) (g.call w) := by
  -- The chain is made from the inside out, and each function adds one step to what is passed on.
  induction wraps with
  | bare =>
    cases g.call f with
    | error refusal => exact .refused refusal
    | ok c => exact .accepted (.refl c)
  | around wraps calls passes named ih =>
    have step := agree_call_around builtin (wraps.isFunction isFunction) calls passes named
    exact ih.trans step fun _ _ _ => .trans

/-- With the built-in aggregates, an extreme of a function has the value of the function, to the
bit; so has a sum, but that a text is refused; and a count of it is one.  Any number of extremes and
sums around a function are refused for its cause, be it while calls are made or on a group, and have
its value otherwise, where this is a number or nothing. -/
theorem nested_calls (builtin : g.catalog = .builtin) (isFunction : f.kind = .function) :
    (∀ c, g.call f = .ok c → ∀ rows v, c.evaluate rows = .ok v →
      ∀ w name, Node.Calls w name f →
        (∀ e : Aggregate.Extreme, g.settings.filedName name = e.name → g.outcome rows w = .ok v) ∧
        (g.settings.filedName name = "sum" →
          ((∀ s, v ≠ .text s) → g.outcome rows w = .ok v) ∧
          ∀ s, v = .text s → g.outcome rows w = .error (.notNumeric "sum" v)) ∧
        (g.settings.filedName name = "count" → g.outcome rows w = .ok (.int 1))) ∧
    ∀ w, g.Wraps f w → Agree Call.PassesOn (g.call f) (g.call w) := by
  refine ⟨fun c called rows v read w name calls => ?_,
    fun w wraps => wraps.agree_call builtin isFunction⟩
  have applied {a : Aggregate} (filed : Catalog.builtin.get? a.name = some a)
      (named : g.settings.filedName name = a.name) : g.outcome rows w = a.reduce [v] := by
    have found := resolve_of_builtin builtin filed named
    rw [outcome, call_of_function calls isFunction found, called]
    show (Call.ofCall a c).evaluate rows = _
    rw [Call.evaluate, read, ok_bind]
  refine ⟨fun e named => ?_, fun named => ⟨fun noText => ?_, ?_⟩, fun named => ?_⟩
  · rw [applied (Aggregate.Passing.extreme e).get?_builtin named, e.reduce_singleton]
  · rw [applied (a := .sum) rfl named, Aggregate.sum_reduce_singleton noText]
  · rintro s rfl
    rw [applied (a := .sum) rfl named, Aggregate.sum_reduce_text]
  · rw [applied (a := .count) rfl named, Aggregate.count_reduce_singleton]

def ofAmounts (name : String) : Node Unit :=
  ⟨(), .function, [⟨(), .identifier name, []⟩, ⟨(), .column, [⟨(), .identifier "amount", []⟩]⟩]⟩

def ofFunction (name : String) (f : Node Unit) : Node Unit :=
  ⟨(), .function, [⟨(), .identifier name, []⟩, f]⟩

/-- A sum that is no number stays what it is under a sum and a least value, and a text that it is
refused for stays the cause; either sum counts as one. -/
theorem nested_calls_of_amounts :
    (∃ d, salesByRegion.call (ofFunction "min" (ofFunction "SUM" (ofAmounts "sum"))) = .ok d ∧
      d.evaluate [[.text "north", .float (0 / 0)]] = .ok (.float (0 / 0)) ∧
      d.evaluate [[.text "north", .text "few"]] = .error (.notNumeric "sum" (.text "few"))) ∧
    salesByRegion.outcome [[.text "north", .float (0 / 0)]] (ofFunction "COUNT" (ofAmounts "sum")) =
      .ok (.int 1) := by
  obtain ⟨single, chains⟩ := nested_calls (g := salesByRegion) (f := ofAmounts "sum") rfl rfl
  have called : salesByRegion.call (ofAmounts "sum") = .ok (.ofColumn .sum 1) := rfl
  have wraps : salesByRegion.Wraps (ofAmounts "sum")
      (ofFunction "min" (ofFunction "SUM" (ofAmounts "sum"))) :=
    .around (.around .bare ⟨rfl, _, rfl, rfl⟩ .sum (by decide))
      ⟨rfl, _, rfl, rfl⟩ (.extreme .least) (by decide)
  constructor
  · obtain ⟨d, made, passes⟩ := (chains _ wraps).exists_of_ok called
    exact ⟨d, made, passes.value _ _ (by simp) rfl, passes.refusal _ _ rfl⟩
  · exact (single _ called _ _ rfl _ "COUNT" ⟨rfl, _, rfl, rfl⟩).2.2 (by decide)

end Grouping

end TableQuery
