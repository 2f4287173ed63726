/-
This file lists what the path compiler passes over, and how it says so.

A drawing that is not well formed is no error. What cannot be used is left out, and a
notice tells what it was: a matrix that is none, a command that is not known, or a
segment without the points its command asks for.
-/
import SketchForm.Tree.Inspect

namespace SketchForm

/-- Something that was passed over. -/
inductive Notice (R : Type) where
  /-- A transform node whose matrix is none, with the value at the matrix's place if any. -/
  | malformedMatrix (found : List (Tree R))
  /-- A segment that begins with something else than a known command. -/
  | unsupportedCommand (head : Tree R)
  /-- A segment of a known command without enough points. -/
  | incompleteSegment (head : Tree R) (rest : List (Tree R))

/-- The notice in words. -/
def Notice.message : Notice Float → String
  | .malformedMatrix found =>
    "Skipping :transform with malformed matrix: " ++ (Tree.sequence .plain found).inspect
  | .unsupportedCommand head => "Ignoring unsupported path command " ++ head.inspect
  | .incompleteSegment head rest =>
    "Ignoring " ++ head.inspect ++ " segment with points " ++ (Tree.sequence .plain rest).inspect

end SketchForm
