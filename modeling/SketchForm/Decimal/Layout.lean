/-
This file writes numbers out.

How a number is written takes two decisions that have nothing to do with each
other. Which digits it has is settled by `Decimal.shortest`. Where the point goes,
when the text changes to a power of ten and what stands for the values that have
no digits is a matter of style, and a style is one value of `NumberStyle`. The
library writes numbers in two styles, and both are given here.
-/
import SketchForm.Decimal.Shortest

namespace SketchForm

/-- How a floating-point number is written. -/
structure NumberStyle where
  /-- Positional from here up: the point has to be beyond this place. -/
  afterPlace : Int
  /-- Positional up to here: the last place the point may have. -/
  uptoPlace : Int
  /-- What follows the digits of a number without fraction in positional writing. -/
  whole : String
  /-- The least number of digits in a power of ten. -/
  exponentWidth : Nat
  /-- The text for no number. -/
  nan : String
  /-- The text for positive infinity. -/
  infinity : String
  /-- The text for positive zero. -/
  zero : String
  /-- The text for negative zero. -/
  negativeZero : String

namespace NumberStyle

/-- Printed numbers: positional from `10 ^ (-6)` up to `10 ^ 21`, a whole number without a point,
and a zero without a sign. -/
def printed : NumberStyle where
  afterPlace := -6
  uptoPlace := 21
  whole := ""
  exponentWidth := 1
  nan := "NaN"
  infinity := "Infinity"
  zero := "0"
  negativeZero := "0"

/-- Inspected numbers: positional from `10 ^ (-4)` up to `10 ^ 16`, always with a fraction, and
powers of ten with two digits at least. -/
def inspected : NumberStyle where
  afterPlace := -4
  uptoPlace := 16
  whole := ".0"
  exponentWidth := 2
  nan := "nan"
  infinity := "inf"
  zero := "0.0"
  negativeZero := "-0.0"

/-- The power of ten, with its sign and no fewer digits than the style asks for. -/
def exponentText (style : NumberStyle) (exponent : Int) : List Char :=
  let digits := Decimal.digits exponent.natAbs
  'e' :: (if exponent < 0 then '-' else '+')
    :: (List.replicate (style.exponentWidth - digits.length) '0' ++ digits)

/-- Digits that neither begin nor end with a zero, with the point at a place counted from the
front. -/
def layOut (style : NumberStyle) (digits : List Char) (place : Int) : List Char :=
  if style.afterPlace < place ∧ place ≤ style.uptoPlace then
    if place ≤ 0 then '0' :: '.' :: (List.replicate place.natAbs '0' ++ digits)
    else if digits.length ≤ place.natAbs then
      digits ++ List.replicate (place.natAbs - digits.length) '0' ++ style.whole.toList
    else digits.take place.natAbs ++ '.' :: digits.drop place.natAbs
  else
    let power := style.exponentText (place - 1)
    match digits with
    | [] => power
    | [first] => first :: power
    | first :: rest => first :: '.' :: (rest ++ power)

/-- A positive number whose significand does not end in zero. -/
def numeral (style : NumberStyle) (decimal : Decimal) : List Char :=
  style.layOut (Decimal.digits decimal.significand) decimal.point

/-- The text of a number that has been taken apart, given how positive numbers are written. -/
def writeWith (style : NumberStyle) (magnitude : Nat → Int → List Char) : Reading → String
  | .nan => style.nan
  | .infinite negative => if negative then "-" ++ style.infinity else style.infinity
  | .finite negative mantissa exponent =>
    if mantissa = 0 then if negative then style.negativeZero else style.zero
    else
      let text := magnitude mantissa exponent
      String.ofList (if negative then '-' :: text else text)

/-- The text of a positive number `mantissa · 2 ^ exponent`, in its shortest digits. -/
def magnitude (style : NumberStyle) (mantissa : Nat) (exponent : Int) : List Char :=
  style.numeral (Decimal.shortest mantissa exponent)

/-- The text of a number that has been taken apart. -/
def writeReading (style : NumberStyle) : Reading → String := style.writeWith style.magnitude

/-- The text of a double. -/
def write (style : NumberStyle) (x : Float) : String := style.writeReading (Binary64.read x)

end NumberStyle

end SketchForm
