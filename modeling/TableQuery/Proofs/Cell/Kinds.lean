import TableQuery.Cell.Basic

/-! # Kinds of cells

What cells hold, by kind.  Aggregates look at columns in this way: sums tell
integers, floats and texts apart, and extremes only numbers and texts, which
are never compared with each other.
-/

namespace TableQuery.Cell

def integer? : Cell → Option Int
  | .int i => some i.toInt
  | _ => none

def text? : Cell → Option String
  | .text s => some s
  | _ => none

theorem text?_eq_some {c : Cell} {s : String} : c.text? = some s ↔ c = .text s := by
  cases c <;> simp [text?]

theorem findSome?_text?_eq_none {cells : List Cell} :
    cells.findSome? text? = none ↔ ∀ s, .text s ∉ cells := by
  rw [List.findSome?_eq_none_iff]
  constructor
  · intro others s member
    cases others _ member
  · intro others c member
    cases c with
    | text s => exact absurd member (others s)
    | _ => rfl

theorem isInt_toInt (i : Int64) : IsInt i.toInt := ⟨i.le_toInt, i.toInt_lt⟩

/-- The kinds of cells that are compared with each other. -/
inductive Kind where
  | numeric | text
deriving DecidableEq

/-- The kind of a cell; an empty cell has none. -/
def kind? : Cell → Option Kind
  | .int _ => some .numeric
  | .float _ => some .numeric
  | .text _ => some .text
  | .null => none

theorem kind?_eq_none {c : Cell} : c.kind? = none ↔ c = .null := by
  cases c <;> simp [kind?]

def differs (kind : Kind) (c : Cell) : Bool := c.kind?.any (· != kind)

theorem differs_eq_false {kind : Kind} {c : Cell} :
    c.differs kind = false ↔ c = .null ∨ c.kind? = some kind := by
  cases kind <;> cases c <;> simp [differs, kind?]

end TableQuery.Cell
