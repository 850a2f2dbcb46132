/-! # Blanks and quotes of a literal

A literal may stand between two equal quote characters, and a number or a
comparison sign may stand between blanks.
-/

namespace TableQuery.Text

/-- The characters with the Unicode property White_Space: the five controls from tab to
carriage return, the space, next line, the no-break space, and the wide and narrow spaces
and separators of the later blocks. -/
def isBlank (c : Char) : Bool :=
  let n := c.toNat
  (0x09 ≤ n && n ≤ 0x0D) || n == 0x20 || n == 0x85 || n == 0xA0 || n == 0x1680
    || (0x2000 ≤ n && n ≤ 0x200A) || n == 0x2028 || n == 0x2029 || n == 0x202F
    || n == 0x205F || n == 0x3000

/-- The text without the blanks at its two ends; blanks inside it stay. -/
def trim (cs : List Char) : List Char :=
  ((cs.dropWhile isBlank).reverse.dropWhile isBlank).reverse

/-- The text inside one pair of equal characters from `quotes`, or the whole literal when it has
no such pair around it.  A literal of one character is never a pair, and only one pair goes. -/
def unquote (quotes : List Char) (literal : String) : String :=
  match literal.toList with
  | [] => literal
  | first :: rest =>
    match rest.getLast? with
    | none => literal
    | some last =>
      if first = last ∧ first ∈ quotes then String.ofList rest.dropLast else literal

/-- The text between double quotes, with a backslash before each quote and backslash in it. -/
def quoted (text : String) : String :=
  let inside := text.toList.flatMap fun c => if c = '"' ∨ c = '\\' then ['\\', c] else [c]
  String.ofList ('"' :: inside ++ ['"'])

end TableQuery.Text
