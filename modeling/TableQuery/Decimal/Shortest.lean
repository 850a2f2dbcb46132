import TableQuery.Binary64

/-! # Shortest decimals

A positive float stands for every real number nearer to it than to its
neighbours.  `shortest` finds the decimal with the fewest digits among those
reals, and of two such decimals the nearer one.  All steps are exact on natural
numbers: the grid of the multiples of `10 ^ p` is made finer until one of the
float's two neighbours on it stands for the float.
-/

namespace TableQuery.Decimal

/-- Which of two equally near decimals is taken. -/
inductive Tie where
  | away
  | even
deriving DecidableEq

/-- The number `digits * 10 ^ scale`. -/
structure Scaled where
  digits : Nat
  scale : Int
deriving DecidableEq

/-- The decimal on the grid of the multiples of `10 ^ p` that stands for `m * 2 ^ q`, the nearer
of two.  Distances are counted in quarters of `2 ^ q`: half a step up, and half a step down, which
is a quarter where the floats below lie twice as close.  The ends belong to the interval when `m`
is even. -/
def onGrid (tie : Tie) (m : Nat) (q p : Int) : Option Scaled :=
  let fine := q - 2
  let stretch (n : Nat) : Nat := n * Nat.pow 2 fine.toNat * Nat.pow 10 (-p).toNat
  let unit := Nat.pow 10 p.toNat * Nat.pow 2 (-fine).toNat
  let value := stretch (4 * m)
  let low := stretch (4 * m - if m = Binary64.leadingBit then 1 else 2)
  let high := stretch (4 * m + 2)
  let reads (d : Nat) : Bool :=
    if m % 2 = 0 then low ≤ d * unit && d * unit ≤ high
    else low < d * unit && d * unit < high
  let below := value / unit
  let rest := value % unit
  match reads below, reads (below + 1) with
  | true, true =>
    let up := match compare (2 * rest) unit, tie with
      | .lt, _ => false
      | .gt, _ => true
      | .eq, .away => true
      | .eq, .even => below % 2 = 1
    some ⟨if up then below + 1 else below, p⟩
  | true, false => some ⟨below, p⟩
  | false, true => some ⟨below + 1, p⟩
  | false, false => none

/-- The shortest decimal that stands for `m * 2 ^ q`, with `m` positive.  The first grid is coarser
than the number itself; seventeen digits always suffice, so that one of the grids after it is fine
enough. -/
def shortest (tie : Tie) (m : Nat) (q : Int) : Scaled :=
  let coarsest := (m.log2 + 1 + q) * 30103 / 100000 + 1
  ((List.range 24).findSome? fun k : Nat => onGrid tie m q (coarsest - k)).getD ⟨m, 0⟩

end TableQuery.Decimal
