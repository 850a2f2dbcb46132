import TableQuery.Aggregate.Builtin
import TableQuery.Proofs.Outcome

/-! # Runs of accumulators

What the steps of an accumulator say about its run over a column.  What holds
at the start and is kept by every accepted step holds at the end, of all cells
that were taken in.  Where the refusal of a step does not hang on the cells
before it, the column is refused for the first cell that has a cause against
it.  And where empty cells change nothing, they can be left out.
-/

namespace TableQuery

section Runs

variable {ε σ α : Type} {step : σ → α → Except ε σ}

/-- What the start has and every accepted step keeps, an accepted run has, of all that it took
in. -/
theorem holds_of_foldlM {holds : σ → List α → Prop} {taken as : List α} {state last : σ}
    (each : ∀ {taken state a next}, holds state taken → step state a = .ok next →
      holds next (taken ++ [a]))
    (start : holds state taken) (ran : as.foldlM step state = .ok last) :
    holds last (taken ++ as) := by
  induction as generalizing taken state with
  | nil =>
    rw [List.foldlM_nil, pure_eq_ok] at ran
    rwa [List.append_nil, ← ran]
  | cons a as ih =>
    obtain ⟨next, first, rest⟩ := bind_eq_ok.1 ran
    rw [List.append_cons]
    exact ih (each start first) rest

/-- A run is refused for the first thing that there is a cause against, where the states that it can
be in do not differ in what they refuse. -/
theorem refusal?_foldlM (holds : σ → Prop) {cause? : α → Option ε} {state : σ}
    (causes : ∀ {state} a, holds state → refusal? (step state a) = cause? a)
    (kept : ∀ {state a next}, holds state → step state a = .ok next → holds next)
    (start : holds state) (as : List α) :
    refusal? (as.foldlM step state) = as.findSome? cause? := by
  induction as generalizing state with
  | nil => rfl
  | cons a as ih =>
    rw [List.foldlM_cons, List.findSome?_cons, ← causes a start]
    cases first : step state a with
    | error refusal => rfl
    | ok next => exact ih (kept start first)

end Runs

namespace Accumulator

variable {σ : Type} {acc : Accumulator σ}

theorem reduce_eq_ok {cells : List Cell} {c : Cell} :
    acc.reduce cells = .ok c ↔
      ∃ last, cells.foldlM acc.step acc.start = .ok last ∧ acc.value last = c := by
  rw [reduce, bind_eq_ok]
  simp only [pure_eq_ok]

theorem refusal?_reduce (acc : Accumulator σ) (cells : List Cell) :
    refusal? (acc.reduce cells) = refusal? (cells.foldlM acc.step acc.start) := by
  rw [reduce]
  cases cells.foldlM acc.step acc.start <;> rfl

theorem foldlM_filter (unchanged : ∀ state, acc.step state .null = .ok state)
    (cells : List Cell) (state : σ) :
    (cells.filter fun c => !c.isNull).foldlM acc.step state = cells.foldlM acc.step state := by
  induction cells generalizing state with
  | nil => rfl
  | cons cell cells ih =>
    cases cell with
    | null =>
      rw [List.foldlM_cons, unchanged, ok_bind]
      exact ih state
    | _ =>
      rw [List.filter_cons_of_pos rfl, List.foldlM_cons, List.foldlM_cons]
      exact bind_congr ih

/-- Empty cells that change nothing can be left out of a column. -/
theorem reduce_filter (unchanged : ∀ state, acc.step state .null = .ok state)
    (cells : List Cell) : acc.reduce (cells.filter fun c => !c.isNull) = acc.reduce cells := by
  rw [reduce, reduce, foldlM_filter unchanged]

end Accumulator

theorem foldlM_succ (cells : List Cell) (n : Int) :
    cells.foldlM (fun (n : Int) _ => pure (n + 1)) n =
      (.ok (n + cells.length) : Except Refusal Int) := by
  induction cells generalizing n with
  | nil => simp [pure, Except.pure]
  | cons cell cells ih =>
    rw [List.foldlM_cons, pure_bind, ih, List.length_cons]
    congr 1
    omega

theorem Aggregate.count_reduce (cells : List Cell) :
    count.reduce cells = .ok (Cell.ofInt cells.length) := by
  change (do return Cell.ofInt (← cells.foldlM (fun (n : Int) _ => pure (n + 1)) 0)) = _
  rw [foldlM_succ, ok_bind, Int.zero_add]
  rfl

end TableQuery
