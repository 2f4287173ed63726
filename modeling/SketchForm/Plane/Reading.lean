/-
This file reads points and matrices out of values.

In a drawing a point is a sequence of two numerals and a matrix a sequence of six, and
what is not of that form is not rejected with an error but is simply no point or no
matrix. Only an integer that is too large to compute with is an error. A caller who
hands over six values for a matrix is treated differently: there every value counts
that can be read as a number, and anything else is an error.
-/
import SketchForm.Plane.Transform
import SketchForm.Tree.Parts

namespace SketchForm

namespace Tree

variable {R : Type}

/-! ### Points -/

/-- The two numbers of a point. -/
def point? (tree : Tree R) : Option (Quantity R × Quantity R) :=
  match tree.numerals? with
  | some [x, y] => some (x, y)
  | _ => none

/-- Whether the value is a point. -/
def isPoint (tree : Tree R) : Bool := tree.point?.isSome

/-- The coordinates of a point both of whose numbers are reals. -/
def realPoint? (tree : Tree R) : Option (R × R) :=
  match tree.point? with
  | some (.real x, .real y) => some (x, y)
  | _ => none

/-- A point with these coordinates. -/
def ofPoint (point : R × R) : Tree R := .sequence .vector [.real point.1, .real point.2]

@[simp] theorem realPoint?_ofPoint (point : R × R) : (ofPoint point).realPoint? = some point := rfl

/-! ### Matrices -/

variable [Measure R]

/-- The matrix that a value stands for, if it has the form of one. -/
def matrix? (tree : Tree R) : Except Failure (Option (Transform R)) :=
  match tree.numerals? with
  | some [a, b, c, d, tx, ty] => do
    let a ← a.toReal
    let b ← b.toReal
    let c ← c.toReal
    let d ← d.toReal
    let tx ← tx.toReal
    let ty ← ty.toReal
    pure (some (.ofSix a b c d tx ty))
  | _ => .ok none

/-- The image of a point under a map, and any other value as it is. -/
def place (matrix : Transform R) (tree : Tree R) : Except Failure (Tree R) :=
  match tree.point? with
  | some (x, y) => do
    let x ← x.toReal
    let y ← y.toReal
    pure (ofPoint (matrix.apply (x, y)))
  | none => .ok tree

/-! ### Values handed over as numbers -/

/-- The matrix given by six values. Values are read in order, one beyond the sixth too before it
is found to be too many. -/
def matrixOf (values : List (Tree Float)) : Except Failure (Transform Float) := do
  match ← (values.take 7).mapM toFloat with
  | [a, b, c, d, tx, ty] => .ok (.ofSix a b c d tx ty)
  | _ => .error .wrongMatrixLength

/-- The image of the point given by the first two parts of a value. -/
def image (matrix : Transform Float) (tree : Tree Float) : Except Failure (Float × Float) := do
  let x ← (← tree.part 0).toFloat
  let y ← (← tree.part 1).toFloat
  pure (matrix.apply (x, y))

end Tree

end SketchForm
