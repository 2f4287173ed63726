/-
This file splits a path into segments.

A path is a flat run of tokens, and a keyword begins a new segment wherever it stands.
So a segment is a token, usually a keyword, with all that follows up to the next
keyword. The tag in front of a path belongs to no segment.
-/
import SketchForm.Path.Tag
import SketchForm.Tree.Inspect
import SketchForm.Failure

namespace SketchForm

variable {R : Type}

/-- The tokens without the tag in front, if there is one. -/
def dropPathTag (tokens : List (Tree R)) : List (Tree R) :=
  match tokens with
  | [] => []
  | head :: rest => if head.isPathTag then rest else head :: rest

/-- The segments of a path: a new one begins at every keyword. -/
def segments (tokens : List (Tree R)) : List (List (Tree R)) :=
  (dropPathTag tokens).splitBy fun _ next => !next.isKeyword

/-- The segments of a value taken as a path, which any sequence can be. -/
def Tree.segments (tree : Tree Float) : Except Failure (List (List (Tree Float))) :=
  match tree with
  | .sequence _ items => .ok (SketchForm.segments items)
  | _ => .error (.invalidPath tree.inspect)

end SketchForm
