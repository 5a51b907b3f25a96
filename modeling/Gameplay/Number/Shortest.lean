import Gameplay.Number.Binary

/-!
# The fewest digits that read back

`Binary.shortest` gives a positive number of a format the decimal with the fewest digits among
those that round to it, and of these the nearest. A decimal rounds to the number when it lies
between the midpoints to the two neighbours, the midpoints included iff the significand is even.

The search looks at one decimal grid after the other, from the place of the first digit down.
If any point of a grid lies in that interval, so does one of the two neighbours of the number on
the grid, hence two tests per grid suffice.
-/

namespace Gameplay

/-- The decimal `digits * 10 ^ exponent`. -/
structure Decimal where
  digits : Nat
  exponent : Int
deriving DecidableEq, Repr

/-- Which neighbour wins when two decimals are equally near. -/
inductive DecimalTie
  | toEven
  | up
deriving DecidableEq, Repr

namespace Binary

/-- A number seen from a decimal grid: the point `c * 10 ^ k` of the grid has the same place as
`c * point`, and `q` quarters of the unit of the number have the same place as `q * quarter`. -/
structure Grid where
  point : Nat
  quarter : Nat

/-- The grid of the multiples of `10 ^ k`, beside numbers with the unit `2 ^ exponent`. -/
def grid (exponent k : Int) : Grid where
  point := tenTo k.toNat * twoTo (2 - exponent).toNat
  quarter := tenTo (-k).toNat * twoTo (exponent - 2).toNat

/-- The half-width, in quarters, of the interval below a number: a power of two is closer to the
number below it than to the one above. -/
def quartersBelow (f : BinaryFormat) (x : Binary) : Nat :=
  if x.significand = twoTo f.fractionBits ∧ -f.scale < x.exponent then 1 else 2

/-- Whether the grid point `c` rounds to `x`. -/
def readsAs (f : BinaryFormat) (x : Binary) (g : Grid) (c : Nat) : Bool :=
  let low := (4 * x.significand - quartersBelow f x) * g.quarter
  let high := (4 * x.significand + 2) * g.quarter
  let at_ := c * g.point
  if x.significand % 2 = 0 then decide (low ≤ at_ ∧ at_ ≤ high) else decide (low < at_ ∧ at_ < high)

/-- The neighbour of `x` on the grid that rounds to it; the nearer one if both do. -/
def nearest? (f : BinaryFormat) (tie : DecimalTie) (x : Binary) (g : Grid) : Option Nat :=
  let value := 4 * x.significand * g.quarter
  let below := value / g.point
  match readsAs f x g below, readsAs f x g (below + 1) with
  | false, false => none
  | true, false => some below
  | false, true => some (below + 1)
  | true, true =>
    let twice := 2 * value
    let middle := (2 * below + 1) * g.point
    if twice < middle then some below
    else if middle < twice then some (below + 1)
    else match tie with
      | .up => some (below + 1)
      | .toEven => if below % 2 = 0 then some below else some (below + 1)

/-- Tries the grids `10 ^ k`, `10 ^ (k - 1)`, … that are no coarser than `x`. -/
def searchGrids (f : BinaryFormat) (tie : DecimalTie) (x : Binary) : Nat → Int → Decimal
  | 0, k => ⟨4 * x.significand * (grid x.exponent k).quarter / (grid x.exponent k).point, k⟩
  | tries + 1, k =>
    let g := grid x.exponent k
    -- on a grid coarser than the number the neighbour below would be zero
    if 4 * x.significand * g.quarter < g.point then searchGrids f tie x tries (k - 1)
    else match nearest? f tie x g with
      | some c => if c % 10 = 0 then ⟨c / 10, k + 1⟩ else ⟨c, k⟩
      | none => searchGrids f tie x tries (k - 1)

/-- The shortest decimal that rounds to a positive `x` of the format. The search starts at most
two places above the first digit, and seventeen digits tell any two doubles apart. -/
def shortest (f : BinaryFormat) (tie : DecimalTie) (x : Binary) : Decimal :=
  searchGrids f tie x 20 (((x.significand.log2 + x.exponent) * 1233) / 4096 + 1)

end Binary

end Gameplay
