/-! # Filters that may refuse

A test that may refuse to answer picks the elements of a list.  The first
refusal, in the order of the list, refuses the whole list; otherwise what is
left is a sublist.
-/

namespace TableQuery

variable {ε α : Type}

def sift (test : α → Except ε Bool) : List α → Except ε (List α)
  | [] => pure []
  | a :: as => do
    let pass ← test a
    let rest ← sift test as
    pure (if pass then a :: rest else rest)

theorem sift_cons {test : α → Except ε Bool} {a : α} {as kept : List α}
    (sifted : sift test (a :: as) = .ok kept) :
    ∃ pass rest, test a = .ok pass ∧ sift test as = .ok rest
      ∧ kept = if pass then a :: rest else rest := by
  cases first : test a with
  | error e => simp [sift, first, bind, Except.bind] at sifted
  | ok pass =>
    cases others : sift test as with
    | error e => simp [sift, first, others, bind, Except.bind] at sifted
    | ok rest =>
      simp only [sift, first, others, bind, Except.bind, pure, Except.pure, Except.ok.injEq]
        at sifted
      exact ⟨pass, rest, rfl, rfl, sifted.symm⟩

theorem sublist_of_sift {test : α → Except ε Bool} {as kept : List α}
    (sifted : sift test as = .ok kept) : kept.Sublist as := by
  induction as generalizing kept with
  | nil =>
    simp only [sift, pure, Except.pure, Except.ok.injEq] at sifted
    exact sifted ▸ List.Sublist.refl _
  | cons a as ih =>
    obtain ⟨pass, rest, _, others, rfl⟩ := sift_cons sifted
    cases pass with
    | true => exact (ih others).cons_cons a
    | false => exact (ih others).cons a

end TableQuery
