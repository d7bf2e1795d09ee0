/-
# The shortest decimal of a double

A finite double is m · 2^q for a natural m and an integer q.  Every real number nearer to it
than to its neighbours rounds to it; these form an interval, closed when m is even and open
when it is odd.  The shortest decimal of the double is the point of that interval that lies
on the coarsest grid of multiples of a power of ten having a point there, and of two such
points the one nearer to the double, or the even one where both are as near.

All of this is exact arithmetic on natural numbers.
-/

namespace ComponentTree.Json

/-- A decimal number, `digits` · 10^`exponent`. -/
structure Decimal where
  digits : Nat
  exponent : Int
deriving DecidableEq, Repr

/-- The absolute value m · 2^q of a finite double. -/
structure Magnitude where
  /-- The factor m, below 2^53. -/
  mantissa : Nat
  /-- The exponent q, at least -1074. -/
  exponent : Int
deriving DecidableEq, Repr

namespace Magnitude

/-- The absolute value that the bits of a finite double stand for. -/
def ofBits (bits : UInt64) : Magnitude :=
  let fraction : Nat := bits.toNat % Nat.pow 2 52
  let biased : Nat := bits.toNat / Nat.pow 2 52 % Nat.pow 2 11
  if biased = 0 then ⟨fraction, -1074⟩ else ⟨Nat.pow 2 52 + fraction, Int.ofNat biased - 1075⟩

/-- Twice the distance to the next double below, in quarters of 2^q: the doubles just below
a power of two lie twice as close as those above it. -/
def lowerReach (x : Magnitude) : Nat :=
  if x.mantissa = Nat.pow 2 52 ∧ x.exponent ≠ -1074 then 1 else 2

/-- A quarter of 2^q and the step 10^`grid`, both scaled by the least power of two and of ten
that makes them natural numbers. -/
def scales (x : Magnitude) (grid : Int) : Nat × Nat :=
  let two := x.exponent - 2
  (Nat.pow 2 two.toNat * Nat.pow 10 (-grid).toNat,
    Nat.pow 10 grid.toNat * Nat.pow 2 (-two).toNat)

/-- The point of the grid of multiples of 10^`grid` that rounds to the double and is nearest
to it, as a multiple of the step; a tie goes to the even multiple. -/
def nearestOn (x : Magnitude) (grid : Int) : Option Nat :=
  let (quarter, step) := x.scales grid
  let value := 4 * x.mantissa * quarter
  let low := (4 * x.mantissa - x.lowerReach) * quarter
  let high := (4 * x.mantissa + 2) * quarter
  let reaches (n : Nat) : Bool :=
    if x.mantissa % 2 = 0 then low ≤ n * step && n * step ≤ high
    else low < n * step && n * step < high
  let below := value / step
  let above := below + 1
  let up := above * step - value
  let down := value - below * step
  if reaches below && 0 < below then
    if reaches above && (up < down || (up = down && below % 2 = 1)) then some above else some below
  else if reaches above then some above
  else none

/-- The first of the grids 10^`grid`, 10^(`grid` - 1), … that has a point rounding to the
double, at most `tries` of them. -/
def search (x : Magnitude) (grid : Int) : Nat → Decimal
  | 0 => ⟨0, 0⟩
  | tries + 1 =>
    match x.nearestOn grid with
    | some n => ⟨n, grid⟩
    | none => search x (grid - 1) tries

/-- The shortest decimal that rounds to a double.  The search starts above the size of the
double, where no grid but the coarsest can have a point, and seventeen digits always reach. -/
def shortest (x : Magnitude) : Decimal :=
  if x.mantissa = 0 then ⟨0, 0⟩
  else x.search (((x.mantissa.log2 : Int) + x.exponent + 1) * 30103 / 100000 + 2) 24

end Magnitude

end ComponentTree.Json
