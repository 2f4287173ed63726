/-
This file places paths: it maps their points and leaves the rest as it is.

A token of a path that is a point becomes the point's image, and every other token, a
number among them, stays. Placing fails only at a point too large to compute with, and
then there is no path at all, not one that ends before that point.
-/
import SketchForm.Plane.Reading

namespace SketchForm

variable {R : Type} [Measure R]

/-- The tokens of a path with every point placed. -/
def placeTokens (matrix : Transform R) (tokens : List (Tree R)) : Except Failure (List (Tree R)) :=
  tokens.mapM (Tree.place matrix)

/-- A value taken as a path, with every point among what it goes through placed. -/
def Tree.placed (matrix : Transform R) (tree : Tree R) : Except Failure (Tree R) := do
  let tokens ← placeTokens matrix (← tree.iterated)
  pure (.sequence .vector tokens)

end SketchForm
