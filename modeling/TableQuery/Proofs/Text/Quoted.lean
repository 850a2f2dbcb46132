import TableQuery.Text

/-! # Texts between quotes

A literal is read by one form, a quote character on either side of a text.  The
text inside may be anything: it may be empty, have quotes in it or be wrapped
itself.  A literal that has not this form is read as it is.
-/

namespace TableQuery.Text

def wrapped (quote : Char) (inside : String) : String :=
  String.singleton quote ++ inside ++ String.singleton quote

theorem toList_wrapped (quote : Char) (inside : String) :
    (wrapped quote inside).toList = quote :: (inside.toList ++ [quote]) := by
  simp [wrapped]

variable {quotes : List Char} {quote : Char} {literal : String}

theorem unquote_wrapped (isQuote : quote ∈ quotes) (inside : String) :
    unquote quotes (wrapped quote inside) = inside := by
  simp [unquote, toList_wrapped, isQuote]

theorem unquote_of_ne_wrapped
    (bare : ∀ quote ∈ quotes, ∀ inside, literal ≠ wrapped quote inside) :
    unquote quotes literal = literal := by
  unfold unquote
  split
  · rfl
  · next first rest chars =>
    split
    · rfl
    · next last isLast =>
      obtain ⟨inside, rfl⟩ := List.getLast?_eq_some_iff.1 isLast
      rw [if_neg]
      rintro ⟨rfl, isQuote⟩
      apply bare first isQuote (String.ofList inside)
      rw [← String.toList_inj, toList_wrapped, chars, String.toList_ofList]

theorem singleton_ne_wrapped (c quote : Char) (inside : String) :
    String.singleton c ≠ wrapped quote inside := by
  intro same
  have chars := congrArg String.toList same
  simp [toList_wrapped] at chars

end TableQuery.Text
