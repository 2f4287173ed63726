/-
This file writes a number in a style of its own, from its text in another.

All that is looked at is the text: digits with or without a point among them, and with or
without a power of ten behind them. The digits of the number are all digits of the text,
without the zeros in front and at the end, and the place of the point is that of the text,
moved by the power of ten and by the zeros that were taken off in front.
-/
import SketchForm.Decimal.Layout
import SketchForm.Decimal.Numeral

namespace SketchForm

namespace Numeral

/-- The text in front of the first of these marks and the text behind it, which is empty if there
is none. -/
def partition (mark : Char) (text : List Char) : List Char × List Char :=
  (text.takeWhile (· != mark), (text.dropWhile (· != mark)).drop 1)

/-- The integer that digits with or without a sign spell, zero if there are none. -/
def signedValue (text : List Char) : Int :=
  let signed := splitSign text
  if signed.1 then -digitsValue signed.2 else digitsValue signed.2

end Numeral

namespace NumberStyle

/-- The text of a positive number, from its text in any style. -/
def respell (style : NumberStyle) (text : List Char) : List Char :=
  let (mantissa, power) := Numeral.partition 'e' text
  let (whole, fraction) := Numeral.partition '.' mantissa
  let raw := whole ++ fraction
  let stripped := raw.dropWhile (· == '0')
  let place := whole.length + Numeral.signedValue power - (raw.length - stripped.length : Nat)
  style.layOut (stripped.reverse.dropWhile (· == '0')).reverse place

/-- The text of a number that has been taken apart, given the texts of positive numbers in any
style. -/
def writeSpelled (style : NumberStyle) (spell : Nat → Int → List Char) : Reading → String :=
  style.writeWith fun mantissa exponent => style.respell (spell mantissa exponent)

end NumberStyle

end SketchForm
