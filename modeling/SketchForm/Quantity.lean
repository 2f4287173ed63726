/-
This file holds numbers as they stand in a form: whole numbers of any size beside reals.

Whole numbers and reals are compared as the exact numbers they are, and no rounding
decides whether two numbers are equal. For computing, all numbers become reals, and a
whole number may be too large for that. Which reals there are is left open, since the
geometry of a drawing asks only that they can be added and multiplied and that whole
numbers can be read as reals.
-/
import SketchForm.Binary64
import SketchForm.Failure

namespace SketchForm

/-- Reals to compute coordinates with. -/
class Measure (R : Type) extends Add R, Mul R, Zero R, One R where
  /-- The real that a whole number is read as, or nothing if it is too large. -/
  ofInt? : Int → Option R

instance : Measure Float where
  zero := 0
  one := 1
  ofInt? := Binary64.ofInt?

/-- A number as written: whole or real. -/
inductive Quantity (R : Type) where
  | whole (value : Int)
  | real (value : R)
  deriving Repr

namespace Quantity

/-- The real that a number is computed with. -/
def toReal {R : Type} [Measure R] : Quantity R → Except Failure R
  | .whole n =>
    match Measure.ofInt? n with
    | some x => .ok x
    | none => .error .numberTooLarge
  | .real x => .ok x

/-- Whether two numbers are equal, exactly. -/
def equals : Quantity Float → Quantity Float → Bool
  | .whole m, .whole n => m == n
  | .whole n, .real x | .real x, .whole n => Binary64.equalsInt x n
  | .real x, .real y => x == y

end Quantity

end SketchForm
