/-
This file holds exact decimal numbers: a natural number times a power of ten.

A positive number with finitely many decimal places has exactly one form
`significand · 10 ^ scale` whose significand does not end in zero. Everything
written out in digits goes through that form, so the text depends on the number
and not on where it came from. The place of the decimal point is counted from
the front: `point` is the power of ten just above the number, so that the number
reads `0.ddd · 10 ^ point`.
-/

namespace SketchForm

/-- The number `significand · 10 ^ scale`. -/
structure Decimal where
  significand : Nat
  scale : Int
  deriving DecidableEq, Repr

namespace Decimal

/-- The decimal digits of a natural number, most significant first. -/
def digits (n : Nat) : List Char := Nat.toDigits 10 n

/-- How many decimal digits a natural number has. -/
def digitCount (n : Nat) : Nat := (digits n).length

/-- The same number without the zeros that end its significand, at most `limit` of them. -/
def dropZeros : Nat → Decimal → Decimal
  | 0, decimal => decimal
  | limit + 1, decimal =>
    if decimal.significand % 10 = 0 then
      dropZeros limit ⟨decimal.significand / 10, decimal.scale + 1⟩
    else decimal

/-- The form of a positive number whose significand does not end in zero. -/
def canonical (decimal : Decimal) : Decimal :=
  if decimal.significand = 0 then ⟨0, 0⟩ else dropZeros (digitCount decimal.significand) decimal

/-- The power of ten just above a positive number, the place of its decimal point counted from
the front of its digits. -/
def point (decimal : Decimal) : Int := digitCount decimal.significand + decimal.scale

end Decimal

end SketchForm
