/-
This file holds what a path is drawn on.

A canvas records strokes, so that they can be drawn again later. There are four kinds
of stroke, and each is given by as many points as its kind asks for: one to move to or
to draw a line to, two control points and an end for a curve, none to close a path.
-/
import SketchForm.Tree.Inspect

namespace SketchForm

/-- The kinds of stroke. -/
inductive Stroke where
  | move
  | line
  | curve
  | close
  deriving DecidableEq, Repr

namespace Stroke

/-- The letter of a stroke. -/
def letter : Stroke → String
  | .move => "M"
  | .line => "L"
  | .curve => "C"
  | .close => "Z"

/-- The stroke with this letter. -/
def ofLetter? (letter : String) : Option Stroke :=
  [move, line, curve, close].find? fun stroke => stroke.letter == letter

/-- How many points a stroke is given by. -/
def arity : Stroke → Nat
  | .move | .line => 1
  | .curve => 3
  | .close => 0

theorem ofLetter?_letter (stroke : Stroke) : ofLetter? stroke.letter = some stroke := by
  cases stroke <;> rfl

end Stroke

/-- A stroke with its points. -/
structure Command (R : Type) where
  stroke : Stroke
  points : List (R × R)
  deriving DecidableEq, Repr

/-- The coordinates of the points of a command, one after another. -/
def Command.coordinates {R : Type} (command : Command R) : List R :=
  command.points.flatMap fun point => [point.1, point.2]

/-- The strokes drawn so far. -/
abbrev Canvas (R : Type) := List (Command R)

namespace Canvas

/-- All coordinates on the canvas, in order. -/
def coordinates {R : Type} (canvas : Canvas R) : List R := canvas.flatMap Command.coordinates

/-- A canvas in inspected form. -/
def inspect (canvas : Canvas Float) : String :=
  let commands : List String := canvas.map fun command =>
    SequenceKind.tuple.inspect
      [Text.quoted command.stroke.letter,
        SequenceKind.tuple.inspect (command.coordinates.map NumberStyle.inspected.write)]
  "Path2D(" ++ SequenceKind.plain.inspect commands ++ ")"

end Canvas

end SketchForm
