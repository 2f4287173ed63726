/-
This file proves that the third row of a matrix is never seen.

A map is given by six numbers, and its matrix has three rows. On its way down a walk
multiplies from the right, and an entry of a product is computed from a row of the left
factor and a column of the right one. So the first two rows of what a walk carries along
depend on the first two rows it set out with, and the image of a point depends on nothing
else. The third row may come to anything on the way, like what is no number where an
infinity is multiplied by zero, and the paths that are found, the notices and a failure
are the same.

How an entry is computed from its row and its column plays no part in that, and least of
all in which order sums are taken. So walks are considered here that multiply in any such
way, of which the walk of a drawing is one.
-/
import SketchForm.Session.Drawings

namespace SketchForm

variable {R : Type}

/-! ### Ways to multiply -/

/-- A way to multiply matrices, with each other and with points. An entry of a product is computed
from its row in the left factor and its column in the right one, and how may differ from one place
to another. -/
structure Multiplication (R : Type) where
  entry : Fin 3 → Fin 3 → Triple R → Triple R → R
  coordinate : Fin 3 → Triple R → Triple R → R

namespace Multiplication

section Products

variable (rule : Multiplication R)

/-- One row of a product of matrices. -/
def rowOfProduct (place : Fin 3) (row : Triple R) (inner : Transform R) : Triple R :=
  ⟨rule.entry place 0 row inner.columns.x, rule.entry place 1 row inner.columns.y,
    rule.entry place 2 row inner.columns.w⟩

/-- The product of two matrices. -/
def compose (outer inner : Transform R) : Transform R :=
  ⟨rule.rowOfProduct 0 outer.x inner, rule.rowOfProduct 1 outer.y inner,
    rule.rowOfProduct 2 outer.w inner⟩

variable [Measure R]

/-- The image of a point. -/
def apply (matrix : Transform R) (point : R × R) : R × R :=
  let column : Triple R := ⟨point.1, point.2, 1⟩
  (rule.coordinate 0 matrix.x column, rule.coordinate 1 matrix.y column)

/-- The image of a point under a map, and any other value as it is. -/
def place (matrix : Transform R) (tree : Tree R) : Except Failure (Tree R) :=
  match tree.point? with
  | some (x, y) => do
    let x ← x.toReal
    let y ← y.toReal
    pure (.ofPoint (rule.apply matrix (x, y)))
  | none => .ok tree

mutual

/-- Comes upon the paths of a drawing, multiplying matrices and mapping points by a rule. -/
def walk (inherited : Transform R) : Tree R → Trail (Sighting R) Unit
  | .sequence .vector (head :: rest) =>
    match head.asTag? with
    | some .path => do
      let tokens ← Trail.settle ((head :: rest).mapM (rule.place inherited))
      Trail.mark (.path tokens)
    | some .style =>
      match rest with
      | [] => pure ()
      | _ :: children => walkEach inherited children
    | some .transform =>
      match rest with
      | [] => Trail.mark (.malformedMatrix [])
      | matrix :: children => do
        match ← Trail.settle matrix.matrix? with
        | some own => walkEach (rule.compose inherited own) children
        | none => Trail.mark (.malformedMatrix [matrix])
    | _ => pure ()
  | _ => pure ()

/-- Walks through the children of a node in order. -/
def walkEach (inherited : Transform R) : List (Tree R) → Trail (Sighting R) Unit
  | [] => pure ()
  | child :: rest => do
    walk inherited child
    walkEach inherited rest

end

/-! ### The walk, node by node -/

section Nodes

variable (inherited : Transform R) {head : Tree R}

theorem walk_path (rest : List (Tree R)) (tagged : head.asTag? = some .path) :
    rule.walk inherited (.sequence .vector (head :: rest)) =
      Trail.settle ((head :: rest).mapM (rule.place inherited)) >>= fun tokens =>
        Trail.mark (.path tokens) := by
  rw [walk.eq_def]
  simp only [tagged]

theorem walk_style (rest : List (Tree R)) (tagged : head.asTag? = some .style) :
    rule.walk inherited (.sequence .vector (head :: rest)) =
      rule.walkEach inherited rest.tail := by
  rw [walk.eq_def]
  simp only [tagged]
  cases rest with
  | nil => rw [List.tail_nil, walkEach]
  | cons data children => rfl

theorem walk_transform_nil (tagged : head.asTag? = some .transform) :
    rule.walk inherited (.sequence .vector [head]) = Trail.mark (.malformedMatrix []) := by
  rw [walk.eq_def]
  simp only [tagged]

theorem walk_transform (matrix : Tree R) (children : List (Tree R))
    (tagged : head.asTag? = some .transform) :
    rule.walk inherited (.sequence .vector (head :: matrix :: children)) =
      Trail.settle matrix.matrix? >>= fun own? =>
        match own? with
        | some own => rule.walkEach (rule.compose inherited own) children
        | none => Trail.mark (.malformedMatrix [matrix]) := by
  rw [walk.eq_def]
  simp only [tagged]

theorem walk_passive {tree : Tree R} (notPath : tree.tag? ≠ some .path)
    (notStyle : tree.tag? ≠ some .style) (notTransform : tree.tag? ≠ some .transform) :
    rule.walk inherited tree = pure () := by
  rw [walk.eq_def]
  split
  · split
    · exact absurd ‹_› notPath
    · exact absurd ‹_› notStyle
    · exact absurd ‹_› notTransform
    · rfl
  · rfl

end Nodes

end Products

/-! ### The multiplication of a drawing -/

section Standard

variable [Measure R]

/-- The products of the members are added from the first to the last. -/
def standard : Multiplication R where
  entry _ _ row column := row.dot column
  coordinate _ row column := row.dot column

theorem walkEach_standard (children : List (Tree R))
    (each : ∀ child ∈ children, ∀ inherited,
      standard.walk inherited child = child.walk inherited) (inherited : Transform R) :
    standard.walkEach inherited children = Tree.walkEach inherited children := by
  induction children with
  | nil => rw [walkEach, Tree.walkEach]
  | cons child rest inductionHypothesis =>
    rw [List.forall_mem_cons] at each
    rw [walkEach, Tree.walkEach, each.1, inductionHypothesis each.2]

/-- The walk of a drawing multiplies in one of these ways. -/
theorem walk_standard (tree : Tree R) :
    ∀ inherited, standard.walk inherited tree = tree.walk inherited := by
  induction tree using Tree.inductNodes with
  | path head rest tagged =>
    intro inherited
    rw [walk_path _ inherited rest tagged, Tree.walk_path inherited rest tagged]
    rfl
  | style head rest tagged each =>
    intro inherited
    rw [walk_style _ inherited rest tagged, Tree.walk_style inherited rest tagged,
      walkEach_standard rest.tail each]
  | transform head rest tagged each =>
    intro inherited
    cases rest with
    | nil =>
      rw [walk_transform_nil _ inherited tagged, Tree.walk_transform_nil inherited tagged]
    | cons matrix children =>
      rw [walk_transform _ inherited matrix children tagged,
        Tree.walk_transform inherited matrix children tagged]
      simp only [walkEach_standard children each]
      rfl
  | passive tree notPath notStyle notTransform =>
    intro inherited
    rw [walk_passive _ inherited notPath notStyle notTransform,
      Tree.walk_passive inherited notPath notStyle notTransform]

end Standard

end Multiplication

/-! ### Maps that differ in the third row only -/

/-- Whether two matrices have the same first row and the same second row. -/
structure Transform.SameRows (matrix other : Transform R) : Prop where
  x : matrix.x = other.x
  y : matrix.y = other.y

namespace Transform.SameRows

variable {matrix other : Transform R} (same : matrix.SameRows other)

include same

/-- Multiplied from the right with the same matrix, such matrices are still such. -/
theorem compose (rule : Multiplication R) (own : Transform R) :
    (rule.compose matrix own).SameRows (rule.compose other own) where
  x := congrArg (rule.rowOfProduct 0 · own) same.x
  y := congrArg (rule.rowOfProduct 1 · own) same.y

variable [Measure R] (rule : Multiplication R)

theorem apply (point : R × R) : rule.apply matrix point = rule.apply other point := by
  rw [Multiplication.apply, Multiplication.apply, same.x, same.y]

theorem place : rule.place matrix = rule.place other := by
  funext tree
  simp only [Multiplication.place, same.apply rule]

omit same in
theorem walkEach (children : List (Tree R))
    (each : ∀ child ∈ children, ∀ matrix other : Transform R, matrix.SameRows other →
      rule.walk matrix child = rule.walk other child)
    {matrix other : Transform R} (same : matrix.SameRows other) :
    rule.walkEach matrix children = rule.walkEach other children := by
  induction children with
  | nil => rw [Multiplication.walkEach, Multiplication.walkEach]
  | cons child rest inductionHypothesis =>
    rw [List.forall_mem_cons] at each
    rw [Multiplication.walkEach, Multiplication.walkEach, each.1 matrix other same,
      inductionHypothesis each.2]

omit same in
/-- A walk under such matrices comes upon the same. -/
theorem walk (tree : Tree R) : ∀ matrix other : Transform R, matrix.SameRows other →
    rule.walk matrix tree = rule.walk other tree := by
  induction tree using Tree.inductNodes with
  | path head rest tagged =>
    intro matrix other same
    rw [rule.walk_path matrix rest tagged, rule.walk_path other rest tagged, same.place rule]
  | style head rest tagged each =>
    intro matrix other same
    rw [rule.walk_style matrix rest tagged, rule.walk_style other rest tagged,
      walkEach rule rest.tail each same]
  | transform head rest tagged each =>
    intro matrix other same
    cases rest with
    | nil =>
      rw [rule.walk_transform_nil matrix tagged, rule.walk_transform_nil other tagged]
    | cons second children =>
      rw [rule.walk_transform matrix second children tagged,
        rule.walk_transform other second children tagged]
      simp only [fun own => walkEach rule children each (same.compose rule own)]
  | passive tree notPath notStyle notTransform =>
    intro matrix other same
    rw [rule.walk_passive matrix notPath notStyle notTransform,
      rule.walk_passive other notPath notStyle notTransform]

end Transform.SameRows

/-! ### The six numbers of a matrix -/

/-- The matrix that is read from the six numbers of another has its first two rows. -/
theorem Tree.matrixOf_values (matrix : Transform Float) :
    ∃ again, Tree.matrixOf (matrix.values.map .real) = .ok again ∧ matrix.SameRows again :=
  ⟨_, rfl, ⟨rfl, rfl⟩⟩

/-- A matrix of any three rows does the same on every walk as the one that its six numbers are read
as: the same paths and notices are come upon up to the same failure. That holds of walks that
multiply in any way, and of those through a drawing in a session. -/
theorem Session.paths_sixNumbers (matrix : Transform Float) :
    ∃ again, Tree.matrixOf (matrix.values.map .real) = .ok again ∧
      (∀ drawing, Session.paths matrix drawing = Session.paths again drawing) ∧
      (∀ tree : Tree Float, tree.walk matrix = tree.walk again) ∧
      ∀ (rule : Multiplication Float) (tree : Tree Float),
        rule.walk matrix tree = rule.walk again tree := by
  obtain ⟨again, read, same⟩ := Tree.matrixOf_values matrix
  have every := fun (rule : Multiplication Float) (tree : Tree Float) =>
    Transform.SameRows.walk rule tree matrix again same
  have own : ∀ tree : Tree Float, tree.walk matrix = tree.walk again := by
    intro tree
    rw [← Multiplication.walk_standard, ← Multiplication.walk_standard, every]
  refine ⟨again, read, fun drawing => ?_, own, every⟩
  simp only [paths, Tree.paths, own]

end SketchForm
