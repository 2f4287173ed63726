/-
This file reads a double as an exact number and writes the double nearest to an
exact number.

Printing, comparing and converting numbers all have to be exact, and none of
them can be exact through the rounding operations of `Float`. So a double is
first taken apart: a finite one is `± m · 2 ^ e` for a natural number `m` and an
integer `e`, and from there on every question about it is a question about
integers. In the other direction a quotient of two natural numbers is rounded
once, to the nearest double and on a tie to the one whose last bit is zero.

The rounding does not treat subnormal doubles or the step to the next power of
two apart. For a quotient scaled to `q · 2 ^ e` the bit pattern is
`(e + 1074) · 2 ^ 52 + q`, whether `q` stays below `2 ^ 52` (subnormal), lies in
the normal range, or was rounded up to `2 ^ 53`; the carry out of the mantissa
is exactly the step to the next exponent.
-/

namespace SketchForm

/-- What a double stands for. -/
inductive Reading where
  /-- No number. -/
  | nan
  /-- One of the two infinities. -/
  | infinite (negative : Bool)
  /-- The number `± mantissa · 2 ^ exponent`; a zero keeps its sign. -/
  | finite (negative : Bool) (mantissa : Nat) (exponent : Int)
  deriving DecidableEq, Repr

namespace Binary64

/-! ### Taking a double apart -/

/-- Reads a bit pattern: one sign bit, eleven exponent bits, fifty-two mantissa bits. -/
def readBits (bits : Nat) : Reading :=
  let negative := bits / Nat.pow 2 63 % 2 == 1
  let exponent : Nat := bits / Nat.pow 2 52 % Nat.pow 2 11
  let fraction := bits % Nat.pow 2 52
  if exponent = Nat.pow 2 11 - 1 then
    if fraction = 0 then .infinite negative else .nan
  else if exponent = 0 then .finite negative fraction (-1074)
  else .finite negative (Nat.pow 2 52 + fraction) ((exponent : Int) - 1075)

/-- What the double stands for. -/
def read (x : Float) : Reading := readBits x.toBits.toNat

/-- The two natural numbers whose quotient is `mantissa · 2 ^ exponent`. -/
def quotient (mantissa : Nat) (exponent : Int) : Nat × Nat :=
  if exponent < 0 then (mantissa, Nat.pow 2 exponent.natAbs)
  else (mantissa * Nat.pow 2 exponent.natAbs, 1)

/-! ### Rounding an exact number to a double -/

/-- The quotient rounded to the nearest integer, a tie to the even one. -/
def roundQuotient (numerator denominator : Nat) : Nat :=
  let whole := numerator / denominator
  let twice := 2 * (numerator % denominator)
  if twice < denominator then whole
  else if denominator < twice then whole + 1
  else whole + whole % 2

/-- The quotient of `numerator · 2 ^ (-exponent)` and `denominator`, as two natural numbers. -/
def scale (numerator denominator : Nat) (exponent : Int) : Nat × Nat :=
  if exponent < 0 then (numerator * Nat.pow 2 exponent.natAbs, denominator)
  else (numerator, denominator * Nat.pow 2 exponent.natAbs)

/-- The exponent at which a positive quotient has a mantissa of fifty-three bits, or the least
exponent there is. -/
def fittingExponent (numerator denominator : Nat) : Int :=
  let estimate := max ((numerator.log2 : Int) - denominator.log2 - 53) (-1074)
  let scaled := scale numerator denominator estimate
  if Nat.pow 2 53 ≤ scaled.1 / scaled.2 then estimate + 1 else estimate

/-- The bit pattern of positive infinity, which no finite double reaches. -/
def infinityBits : Nat := (Nat.pow 2 11 - 1) * Nat.pow 2 52

/-- The bit pattern nearest to a quotient of natural numbers, as if exponents had no upper end. -/
def nearestBits (numerator denominator : Nat) : Nat :=
  if numerator = 0 then 0
  else
    let exponent := fittingExponent numerator denominator
    let scaled := scale numerator denominator exponent
    (exponent + 1074).toNat * Nat.pow 2 52 + roundQuotient scaled.1 scaled.2

/-- The double with this magnitude's bit pattern and this sign. -/
def ofMagnitude (negative : Bool) (bits : Nat) : Float :=
  Float.ofBits (UInt64.ofNat (if negative then bits + Nat.pow 2 63 else bits))

/-- The double nearest to `± numerator / denominator`, or nothing when it is beyond the largest
double. -/
def nearest? (negative : Bool) (numerator denominator : Nat) : Option Float :=
  let bits := nearestBits numerator denominator
  if bits < infinityBits then some (ofMagnitude negative bits) else none

/-- The double nearest to an integer, or nothing when the integer is too large. -/
def ofInt? (n : Int) : Option Float := nearest? (n < 0) n.natAbs 1

/-- Positive or negative infinity. -/
def infinity (negative : Bool) : Float := ofMagnitude negative infinityBits

/-! ### Exact comparison -/

/-- Whether the double is exactly this integer. -/
def equalsInt (x : Float) (n : Int) : Bool :=
  match read x with
  | .finite negative mantissa exponent =>
    let parts := quotient mantissa exponent
    let signed : Int := if negative then -parts.1 else parts.1
    signed == n * parts.2
  | _ => false

end Binary64

end SketchForm
