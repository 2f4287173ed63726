/-
This file reads numbers that are spelled out in text.

A numeral is an optional sign, then either decimal digits with an optional point
among, before or after them and an optional power of ten, or one of the words for
infinity and for no number. Digits may be of any script, words may be written in any
case, a single underscore may stand between two digits, and blanks around the whole
are ignored. The number is read exactly and rounded to a double once; one that is too
large becomes an infinity and one that is too small a zero, so a numeral always has a
value and only its spelling can be wrong.
-/
import SketchForm.Binary64
import SketchForm.Decimal.Basic
import SketchForm.Text.Blank
import SketchForm.Text.Digit

namespace SketchForm

namespace Numeral

/-! ### Preparing the characters -/

/-- The characters blank around a numeral; the separator controls are not among them. -/
def isMargin (c : Char) : Bool := Text.isBlank c && !(28 ≤ c.toNat && c.toNat ≤ 31)

/-- The text without its margins. -/
def trimMargins (text : List Char) : List Char :=
  ((text.dropWhile isMargin).reverse.dropWhile isMargin).reverse

/-- A digit of any script as the ASCII digit of its value, another character as it is. -/
def plainDigit (c : Char) : Char :=
  match Text.digitValue? c with
  | some value => Char.ofNat ('0'.toNat + value)
  | none => c

/-- The text without its underscores, each of which has to stand between two digits. -/
def joinDigits? : Char → List Char → Option (List Char)
  | _, [] => some []
  | previous, '_' :: rest =>
    match rest with
    | next :: _ =>
      if previous.isDigit && next.isDigit then joinDigits? '_' rest else none
    | [] => none
  | _, c :: rest => (joinDigits? c rest).map (c :: ·)

/-! ### The parts of a numeral -/

/-- The sign in front, and whether it is a minus. -/
def splitSign : List Char → Bool × List Char
  | '-' :: rest => (true, rest)
  | '+' :: rest => (false, rest)
  | text => (false, text)

/-- The natural number that ASCII digits spell. -/
def digitsValue (digits : List Char) : Nat :=
  digits.foldl (fun value c => 10 * value + (c.toNat - '0'.toNat)) 0

/-- The power of ten at the end of a numeral; none is the power zero. -/
def exponent? : List Char → Option Int
  | [] => some 0
  | mark :: rest =>
    if mark = 'e' ∨ mark = 'E' then
      let signed := splitSign rest
      if signed.2 ≠ [] ∧ signed.2.all Char.isDigit then
        let magnitude : Int := digitsValue signed.2
        some (if signed.1 then -magnitude else magnitude)
      else none
    else none

/-- The decimal number that digits, point and power of ten spell. -/
def decimal? (text : List Char) : Option Decimal :=
  let whole := text.takeWhile Char.isDigit
  let afterWhole := text.dropWhile Char.isDigit
  let pointed := match afterWhole with
    | '.' :: rest => (rest.takeWhile Char.isDigit, rest.dropWhile Char.isDigit)
    | rest => ([], rest)
  let digits := whole ++ pointed.1
  if digits = [] then none
  else (exponent? pointed.2).map fun power => ⟨digitsValue digits, power - pointed.1.length⟩

/-! ### The double nearest to a numeral -/

/-- The double nearest to a decimal, infinite beyond the largest one. Numbers whose point is far
outside the range of doubles are settled by the place of the point alone. -/
def nearest (negative : Bool) (decimal : Decimal) : Float :=
  if decimal.significand = 0 ∨ decimal.point < -400 then Binary64.ofMagnitude negative 0
  else if 400 < decimal.point then Binary64.infinity negative
  else
    let power := Nat.pow 10 decimal.scale.natAbs
    let result :=
      if decimal.scale < 0 then Binary64.nearest? negative decimal.significand power
      else Binary64.nearest? negative (decimal.significand * power) 1
    result.getD (Binary64.infinity negative)

/-- The double that a text spells, if it is a numeral. -/
def read? (text : String) : Option Float := do
  let joined ← joinDigits? ' ' (trimMargins text.toList |>.map plainDigit)
  let (negative, magnitude) := splitSign joined
  let word := String.ofList (Text.lowercase magnitude)
  if word = "inf" ∨ word = "infinity" then some (Binary64.infinity negative)
  else if word = "nan" then some (Float.ofBits 0x7ff8000000000000)
  else (decimal? magnitude).map (nearest negative)

end Numeral

end SketchForm
