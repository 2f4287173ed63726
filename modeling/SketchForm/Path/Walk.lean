/-
This file finds the paths of a drawing.

A walk goes down from the root through style and transform nodes, in the order of the
text, and carries along the map that all the transforms above make together. Where it
meets a path it places every point of it. Style data is never looked into, a transform
without a proper matrix hides what is below it, and everything else is passed by.
-/
import SketchForm.Path.Tag
import SketchForm.Path.Notice
import SketchForm.Path.Placement
import SketchForm.Trail

namespace SketchForm

variable {R : Type}

/-- What a walk comes upon. -/
inductive Sighting (R : Type) where
  /-- A path, by its tokens, tag included, with all points placed. -/
  | path (tokens : List (Tree R))
  /-- A transform node whose matrix is none. -/
  | malformedMatrix (found : List (Tree R))

/-- The paths among what a walk came upon. -/
def Sighting.path? : Sighting R → Option (Tree R)
  | .path tokens => some (.sequence .vector tokens)
  | .malformedMatrix _ => none

/-- The notices among what a walk came upon. -/
def Sighting.notice? : Sighting R → Option (Notice R)
  | .path _ => none
  | .malformedMatrix found => some (.malformedMatrix found)

variable [Measure R]

namespace Tree

mutual

/-- Comes upon the paths of a drawing, under the map of the transforms above it. -/
def walk (inherited : Transform R) : Tree R → Trail (Sighting R) Unit
  | .sequence .vector (head :: rest) =>
    match head.asTag? with
    | some .path => do
      let tokens ← Trail.settle (placeTokens inherited (head :: rest))
      Trail.mark (.path tokens)
    | some .style =>
      match rest with
      | [] => pure ()
      | _ :: children => walkEach inherited children
    | some .transform =>
      match rest with
      | [] => Trail.mark (.malformedMatrix [])
      | matrix :: children => do
        match ← Trail.settle matrix.matrix? with
        | some own => walkEach (inherited.compose own) children
        | none => Trail.mark (.malformedMatrix [matrix])
    | _ => pure ()
  | _ => pure ()

/-- Walks through the children of a node in order. -/
def walkEach (inherited : Transform R) : List (Tree R) → Trail (Sighting R) Unit
  | [] => pure ()
  | child :: rest => do
    walk inherited child
    walkEach inherited rest

end

/-! ### The walk, node by node -/

section Nodes

variable (inherited : Transform R) {head : Tree R}

theorem walk_path (rest : List (Tree R)) (tagged : head.asTag? = some .path) :
    walk inherited (.sequence .vector (head :: rest)) =
      Trail.settle (placeTokens inherited (head :: rest)) >>= fun tokens =>
        Trail.mark (.path tokens) := by
  rw [walk.eq_def]
  simp only [tagged]

theorem walk_style (rest : List (Tree R)) (tagged : head.asTag? = some .style) :
    walk inherited (.sequence .vector (head :: rest)) = walkEach inherited rest.tail := by
  rw [walk.eq_def]
  simp only [tagged]
  cases rest with
  | nil => rw [List.tail_nil, walkEach]
  | cons data children => rfl

theorem walk_transform_nil (tagged : head.asTag? = some .transform) :
    walk inherited (.sequence .vector [head]) = Trail.mark (.malformedMatrix []) := by
  rw [walk.eq_def]
  simp only [tagged]

theorem walk_transform (matrix : Tree R) (children : List (Tree R))
    (tagged : head.asTag? = some .transform) :
    walk inherited (.sequence .vector (head :: matrix :: children)) =
      Trail.settle matrix.matrix? >>= fun own? =>
        match own? with
        | some own => walkEach (inherited.compose own) children
        | none => Trail.mark (.malformedMatrix [matrix]) := by
  rw [walk.eq_def]
  simp only [tagged]

theorem walk_styleNode (data : Tree R) (children : List (Tree R)) :
    walk inherited (styleNode data children) = walkEach inherited children :=
  walk_style inherited (data :: children) rfl

theorem walk_transformNode {matrix : Tree R} {own : Transform R}
    (read : matrix.matrix? = .ok (some own)) (children : List (Tree R)) :
    walk inherited (transformNode matrix children) =
      walkEach (inherited.compose own) children := by
  rw [transformNode, walk_transform inherited matrix children rfl, read]
  rfl

theorem walk_passive {tree : Tree R} (notPath : tree.tag? ≠ some .path)
    (notStyle : tree.tag? ≠ some .style) (notTransform : tree.tag? ≠ some .transform) :
    walk inherited tree = pure () := by
  rw [walk.eq_def]
  split
  · split
    · exact absurd ‹_› notPath
    · exact absurd ‹_› notStyle
    · exact absurd ‹_› notTransform
    · rfl
  · rfl

end Nodes

theorem walkEach_append (inherited : Transform R) (front back : List (Tree R)) :
    walkEach inherited (front ++ back) =
      walkEach inherited front >>= fun _ => walkEach inherited back := by
  induction front with
  | nil => rw [List.nil_append, walkEach, pure_bind]
  | cons child rest hypothesis =>
    rw [List.cons_append, walkEach, walkEach, hypothesis, bind_assoc]

/-- The paths of a drawing in order, placed under a map. -/
def paths (inherited : Transform R) (tree : Tree R) : List (Tree R) :=
  (tree.walk inherited).events.filterMap Sighting.path?

end Tree

end SketchForm
