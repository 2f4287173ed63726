/-
This file finds the fewest decimal digits that still name a double.

A double stands for every real number that rounds to it, an interval around its
exact value `m · 2 ^ e`. The interval reaches half a step up and half a step
down, where the step down is only half as long if `m` is the least mantissa of
its exponent; its ends belong to it exactly if `m` is even, since a tie rounds
to the even neighbour. Among the numbers with `n` significant digits, the ones
closest to the value are its two neighbours on the grid of that many digits, so
if any of them lies in the interval one of the two does. Trying `n = 1, 2, …` in
turn therefore ends at the least number of digits, and the nearer of two hits is
taken. Seventeen digits always suffice.

All of it is arithmetic on natural numbers: value and interval are kept in
quarters of the step, and compared with a decimal after clearing denominators.
-/
import SketchForm.Binary64
import SketchForm.Decimal.Basic

namespace SketchForm

namespace Decimal

/-! ### The numbers that round to a double -/

/-- The numbers that round to one double, all over one denominator. -/
structure RoundingInterval where
  /-- The double's own value. -/
  value : Nat
  /-- The lower end. -/
  low : Nat
  /-- The upper end. -/
  high : Nat
  /-- What the three numerators are divided by. -/
  denominator : Nat
  /-- Whether the ends themselves round to the double. -/
  closed : Bool

/-- The interval around `mantissa · 2 ^ exponent`, measured in quarters of the step. -/
def roundingInterval (mantissa : Nat) (exponent : Int) : RoundingInterval :=
  let unit := Binary64.quotient 1 (exponent - 2)
  let below := if mantissa = Nat.pow 2 52 ∧ -1074 < exponent then 1 else 2
  { value := 4 * mantissa * unit.1
    low := (4 * mantissa - below) * unit.1
    high := (4 * mantissa + 2) * unit.1
    denominator := unit.2
    closed := mantissa % 2 == 0 }

/-- Whether `significand · 10 ^ scale` lies in the interval. -/
def RoundingInterval.contains (interval : RoundingInterval) (decimal : Decimal) : Bool :=
  let power := Nat.pow 10 decimal.scale.natAbs
  let candidate :=
    if decimal.scale < 0 then decimal.significand * interval.denominator
    else decimal.significand * power * interval.denominator
  let unit := if decimal.scale < 0 then power else 1
  if interval.closed then
    interval.low * unit ≤ candidate && candidate ≤ interval.high * unit
  else interval.low * unit < candidate && candidate < interval.high * unit

/-! ### Neighbours on a grid of digits -/

/-- The power of ten just above a positive quotient. -/
def quotientPoint (numerator denominator : Nat) : Int :=
  if denominator ≤ numerator then digitCount (numerator / denominator)
  else 1 - (digitCount ((denominator - 1) / numerator) : Int)

/-- The two neighbours of a quotient among the multiples of `10 ^ scale`, the nearer one first;
the one with the even significand when both are as near. -/
def neighbours (numerator denominator : Nat) (scale : Int) : List Decimal :=
  let power := Nat.pow 10 scale.natAbs
  let scaled :=
    if scale < 0 then (numerator * power, denominator) else (numerator, denominator * power)
  let lower := scaled.1 / scaled.2
  let nearest := Binary64.roundQuotient scaled.1 scaled.2
  if nearest = lower then [⟨lower, scale⟩, ⟨lower + 1, scale⟩]
  else [⟨lower + 1, scale⟩, ⟨lower, scale⟩]

/-- The first grid, from `count` digits up and with `fuel` grids to try, that has a point in the
interval; the last grid's nearest point if none has. -/
def searchGrids (interval : RoundingInterval) (place : Int) : Nat → Nat → Decimal
  | 0, _ => ⟨0, 0⟩
  | fuel + 1, count =>
    let near := neighbours interval.value interval.denominator (place - count)
    match near.find? interval.contains with
    | some decimal => decimal
    | none => searchGrids interval place fuel (count + 1)

/-- The shortest decimal that rounds to the double `mantissa · 2 ^ exponent`, for a positive
mantissa. -/
def shortest (mantissa : Nat) (exponent : Int) : Decimal :=
  let interval := roundingInterval mantissa exponent
  canonical (searchGrids interval (quotientPoint interval.value interval.denominator) 17 1)

end Decimal

end SketchForm
