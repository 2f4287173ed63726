/-
This file proves that nested transforms act as one function after another.

A walk multiplies the matrices on its way down from the left, and at a path it applies the
product to every point. That this maps a point by the innermost transform first, then by the
next, and by the one at the root last, is a law of exact numbers: it rests on products of
matrices being associative and on a product acting as its factors one after the other. So
numbers are rationals here, which doubles are read as, and nothing is rounded.

What a walk finds from a map on is then what it finds from the identity on, placed once
more: the positions of the paths do not depend on the map, and at each of them the product
of the matrices above is the same but for one more factor in front.
-/
import Mathlib.Data.List.Sort
import Mathlib.Tactic.Ring
import SketchForm.Proofs.Completion
import SketchForm.Proofs.Placed
import SketchForm.Proofs.Replacement

namespace SketchForm

variable {R : Type}

/-- The rationals, in which every whole number is found and nothing is rounded. -/
local instance : Measure ℚ where
  ofInt? n := some n

/-! ### Products of matrices -/

namespace Transform

/-- Whether the third row of the matrix is that of an affine map. -/
def IsAffine [Measure R] (matrix : Transform R) : Prop := matrix.w = ⟨0, 0, 1⟩

theorem compose_assoc (first second third : Transform ℚ) :
    (first.compose second).compose third = first.compose (second.compose third) := by
  have row : ∀ row : Triple ℚ, rowOfProduct (rowOfProduct row second) third =
      rowOfProduct row (second.compose third) := by
    intro row
    simp only [rowOfProduct, compose, columns, Triple.dot, Triple.mk.injEq]
    refine ⟨?_, ?_, ?_⟩ <;> ring
  simp only [compose, row]

instance : Std.Associative (compose (R := ℚ)) := ⟨compose_assoc⟩

theorem compose_identity (matrix : Transform ℚ) : matrix.compose identity = matrix := by
  have row : ∀ row : Triple ℚ, rowOfProduct row identity = row := by
    intro row
    simp [rowOfProduct, identity, columns, Triple.dot]
  simp only [compose, row]

theorem IsAffine.compose {outer inner : Transform ℚ} (affine : outer.IsAffine)
    (innerAffine : inner.IsAffine) : (outer.compose inner).IsAffine := by
  rw [IsAffine] at affine innerAffine ⊢
  simp [Transform.compose, rowOfProduct, columns, Triple.dot, affine, innerAffine]

/-- A product acts as its factors do, the inner one first. -/
theorem apply_compose (outer : Transform ℚ) {inner : Transform ℚ} (affine : inner.IsAffine)
    (point : ℚ × ℚ) : (outer.compose inner).apply point = outer.apply (inner.apply point) := by
  rw [IsAffine] at affine
  simp only [apply, compose, rowOfProduct, columns, Triple.dot, affine, Prod.mk.injEq]
  constructor <;> ring

section Products

variable {matrices : List (Transform ℚ)} (affine : ∀ matrix ∈ matrices, matrix.IsAffine)

include affine

theorem isAffine_foldl {start : Transform ℚ} (startAffine : start.IsAffine) :
    (matrices.foldl compose start).IsAffine := by
  induction matrices generalizing start with
  | nil => exact startAffine
  | cons matrix rest inductionHypothesis =>
    rw [List.forall_mem_cons] at affine
    exact inductionHypothesis affine.2 (startAffine.compose affine.1)

/-- A product of any number of maps acts as one after another, the last of them first. -/
theorem apply_foldl (start : Transform ℚ) (point : ℚ × ℚ) :
    (matrices.foldl compose start).apply point =
      start.apply (matrices.foldr Transform.apply point) := by
  induction matrices generalizing start with
  | nil => rfl
  | cons matrix rest inductionHypothesis =>
    rw [List.forall_mem_cons] at affine
    rw [List.foldl_cons, List.foldr_cons, inductionHypothesis affine.2,
      apply_compose start affine.1]

end Products

/-- A product that begins with a map is the map and then the product. -/
theorem foldl_compose (start : Transform ℚ) (matrices : List (Transform ℚ)) :
    matrices.foldl compose start = start.compose (matrices.foldl compose identity) := by
  have associated := @List.foldl_assoc _ compose _ matrices start identity
  rwa [compose_identity] at associated

end Transform

namespace Tree

/-! ### Matrices in a drawing -/

section Matrices

variable [Measure R]

/-- Reading a matrix gives an affine map. -/
theorem isAffine_of_matrix? {tree : Tree R} {own : Transform R}
    (read : tree.matrix? = .ok (some own)) : own.IsAffine := by
  obtain ⟨a, b, c, d, tx, ty, row⟩ := hasMatrixForm_iff.mp (hasMatrixForm_of_matrix? read)
  rw [matrix?, row] at read
  by_contra other
  refine absurd read (bind_ne_ok fun _ => bind_ne_ok fun _ => bind_ne_ok fun _ =>
    bind_ne_ok fun _ => bind_ne_ok fun _ => bind_ne_ok fun _ => ?_)
  intro same
  cases same
  exact other rfl

theorem isAffine_of_mem_matricesAbove {tree : Tree R} {position : List Nat} {matrix : Transform R}
    (member : matrix ∈ tree.matricesAbove position) : matrix.IsAffine := by
  obtain ⟨node, _, own⟩ := List.mem_filterMap.mp member
  rw [ownMatrix?] at own
  split at own
  · obtain ⟨second, _, read⟩ := Option.bind_eq_some_iff.mp own
    cases outcome : second.matrix? with
    | error failure => rw [outcome] at read; cases read
    | ok own? =>
      rw [outcome] at read
      exact isAffine_of_matrix? (outcome.trans (congrArg Except.ok read))
  · cases own

/-- The six numbers of a map as they stand in a drawing. -/
def ofTransform (matrix : Transform R) : Tree R :=
  .sequence .plain (matrix.values.map .real)

theorem matrix?_ofTransform {matrix : Transform R} (affine : matrix.IsAffine) :
    (ofTransform matrix).matrix? = .ok (some matrix) := by
  rcases matrix with ⟨x, y, w⟩
  cases affine
  rfl

end Matrices

/-! ### Placing what was placed -/

/-- A placed point is placed again at the image of its image. -/
theorem place_ofPoint [Measure R] (matrix : Transform R) (point : R × R) :
    (ofPoint point).place matrix = .ok (ofPoint (matrix.apply point)) := rfl

/-- Exact numbers can all be computed with. -/
theorem fits_exact (number : Quantity ℚ) : number.Fits := by
  cases number with
  | whole n => exact ⟨_, rfl⟩
  | real x => exact ⟨x, rfl⟩

section Placing

variable (outer : Transform ℚ) {inner : Transform ℚ} (affine : inner.IsAffine)

include affine

theorem exists_place_place (tree : Tree ℚ) :
    ∃ placed, tree.place inner = .ok placed ∧
      placed.place outer = tree.place (outer.compose inner) := by
  cases isPoint : tree.point? with
  | none =>
    exact ⟨tree, place_of_point?_none inner isPoint, by
      rw [place_of_point?_none outer isPoint, place_of_point?_none _ isPoint]⟩
  | some point =>
    obtain ⟨x, isX⟩ := fits_exact point.1
    obtain ⟨y, isY⟩ := fits_exact point.2
    have placed : ∀ matrix : Transform ℚ,
        tree.place matrix = .ok (ofPoint (matrix.apply (x, y))) := by
      intro matrix
      rw [place, isPoint]
      simp only [isX, isY]
      rfl
    refine ⟨_, placed inner, ?_⟩
    rw [placed, place_ofPoint, Transform.apply_compose outer affine]

theorem exists_placeTokens_placeTokens (tokens : List (Tree ℚ)) :
    ∃ placed, placeTokens inner tokens = .ok placed ∧
      placeTokens outer placed = placeTokens (outer.compose inner) tokens := by
  induction tokens with
  | nil => exact ⟨[], rfl, rfl⟩
  | cons token rest inductionHypothesis =>
    obtain ⟨first, firstPlaced, firstAgain⟩ := exists_place_place outer affine token
    obtain ⟨others, othersPlaced, othersAgain⟩ := inductionHypothesis
    rw [placeTokens] at othersPlaced othersAgain
    refine ⟨first :: others, ?_, ?_⟩
    · rw [placeTokens, List.mapM_cons, firstPlaced, othersPlaced]
      rfl
    · rw [placeTokens, placeTokens, List.mapM_cons, List.mapM_cons, firstAgain, othersAgain]
      rfl

/-- A path that is placed twice is placed by the product, and what is no path is none before and
after. -/
theorem placed_placed (tree : Tree ℚ) :
    (tree.placed inner >>= placed outer) = tree.placed (outer.compose inner) := by
  rw [placed, placed]
  cases tree.iterated with
  | error failure => rfl
  | ok tokens =>
    obtain ⟨others, othersPlaced, again⟩ := exists_placeTokens_placeTokens outer affine tokens
    show (placeTokens inner tokens >>= fun tokens => _) >>= _ =
      placeTokens (outer.compose inner) tokens >>= _
    rw [othersPlaced, ← again]
    rfl

end Placing

/-! ### Walks from other maps -/

/-- The positions of the paths of a drawing are the same whatever map a walk starts from. -/
theorem Enumerates.positions_eq [Measure R] {start other : Transform R} {tree : Tree R}
    {positions others : List (List Nat)} {paths otherPaths : List (Tree R)}
    (found : Enumerates start tree positions paths)
    (otherFound : Enumerates other tree others otherPaths) : others = positions :=
  otherFound.ordered.eq_of_mem_iff found.ordered fun position =>
    (otherFound.complete position).trans (found.complete position).symm

/-- A walk over exact numbers does not fail. -/
theorem walk_exact (tree : Tree ℚ) (start : Transform ℚ) : (tree.walk start).outcome = .ok () := by
  obtain ⟨_, ends⟩ := (tree.endsIff_walk start).ends fun number _ => fits_exact number
  exact ends

/-- What is shown from a map on is what is shown from the identity on, placed once more. -/
theorem Shows.placed {tree path other : Tree ℚ} {start : Transform ℚ} {position : List Nat}
    (shown : tree.Shows .identity position path) (otherShown : tree.Shows start position other) :
    path.placed start = .ok other := by
  obtain ⟨node, isNode, placed⟩ := shown
  obtain ⟨sameNode, isSame, otherPlaced⟩ := otherShown
  cases isNode.symm.trans isSame
  have affine : ((tree.matricesAbove position).foldl Transform.compose .identity).IsAffine :=
    Transform.isAffine_foldl (fun _ => isAffine_of_mem_matricesAbove) rfl
  rw [Transform.foldl_compose, ← placed_placed start affine, placed] at otherPlaced
  exact otherPlaced

theorem mapM_placed_paths (tree : Tree ℚ) (start : Transform ℚ) :
    (tree.paths .identity).mapM (placed start) = .ok (tree.paths start) := by
  obtain ⟨positions, found⟩ := tree.exists_enumerates_of_walk .identity (tree.walk_exact _)
  obtain ⟨others, otherFound⟩ := tree.exists_enumerates_of_walk start (tree.walk_exact _)
  cases found.positions_eq otherFound
  rw [mapM_eq_ok_iff]
  refine forall₂_of_forall₂ ?_ found.shown otherFound.shown
  exact fun _ _ _ shown otherShown => shown.placed otherShown

/-! ### A transform within a transform -/

/-- A transform whose only child is a transform is walked through like one with the product. -/
theorem walk_transformNode_transformNode {matrix innerMatrix : Tree ℚ} {outer inner : Transform ℚ}
    (read : matrix.matrix? = .ok (some outer)) (innerRead : innerMatrix.matrix? = .ok (some inner))
    (children : List (Tree ℚ)) (inherited : Transform ℚ) :
    walk inherited (transformNode (ofTransform (outer.compose inner)) children) =
      walk inherited (transformNode matrix [transformNode innerMatrix children]) := by
  have affine := (isAffine_of_matrix? read).compose (isAffine_of_matrix? innerRead)
  rw [walk_transformNode inherited (matrix?_ofTransform affine), walk_transformNode inherited read,
    walkEach, walkEach, walk_transformNode _ innerRead, Transform.compose_assoc, bind_pure_unit]

/-- Over exact numbers, what a walk finds from a map on is what it finds from the identity on, with
every path placed by that map, and to place a path by one map and then by another is to place it by
their product. A transform that is reached and whose only child is a transform may be replaced by
one with the product of the two matrices. And the map of each path found sends a point through the
matrices above the path from the innermost to the outermost, and then through the map that the walk
started from. -/
theorem transforms_compose (tree : Tree ℚ) :
    (∀ start : Transform ℚ, (tree.walk start).outcome = .ok () ∧
        (tree.paths .identity).mapM (placed start) = .ok (tree.paths start)) ∧
      (∀ outer inner : Transform ℚ, inner.IsAffine →
        (tree.placed inner >>= placed outer) = tree.placed (outer.compose inner)) ∧
      (∀ position matrix innerMatrix children,
        tree.Reaches position (transformNode matrix [transformNode innerMatrix children]) →
        matrix.HasMatrixForm → innerMatrix.HasMatrixForm →
          ∃ outer inner, matrix.matrix? = .ok (some outer) ∧
            innerMatrix.matrix? = .ok (some inner) ∧ ∀ start,
              (tree.replaceAt position
                (transformNode (ofTransform (outer.compose inner)) children)).paths start =
                tree.paths start) ∧
      ∀ start : Transform ℚ, ∃ positions, Enumerates start tree positions (tree.paths start) ∧
        ∀ position ∈ positions, ∀ point,
          ((tree.matricesAbove position).foldl Transform.compose start).apply point =
            start.apply ((tree.matricesAbove position).foldr Transform.apply point) := by
  refine ⟨fun start => ⟨tree.walk_exact start, tree.mapM_placed_paths start⟩, ?_, ?_, ?_⟩
  · exact fun outer inner affine => placed_placed outer affine tree
  · intro position matrix innerMatrix children reaches hasForm innerHasForm
    obtain ⟨outer, read⟩ := exists_matrix?_eq hasForm fun number _ => fits_exact number
    obtain ⟨inner, innerRead⟩ := exists_matrix?_eq innerHasForm fun number _ => fits_exact number
    refine ⟨outer, inner, read, innerRead, fun start => ?_⟩
    rw [paths, paths, reaches.walk_replaceAt
      (walk_transformNode_transformNode read innerRead children)]
  · intro start
    obtain ⟨positions, found⟩ := tree.exists_enumerates_of_walk start (tree.walk_exact start)
    exact ⟨positions, found, fun position _ point =>
      Transform.apply_foldl (fun _ => isAffine_of_mem_matricesAbove) start point⟩

/-- A quarter turn with half a step to the right, within a scaling that is not the same on both
axes: turned first, the point ends at seven and three. -/
theorem transforms_compose_turned :
    let matrix : Tree ℚ := .array [2, 0, 0, 3, 10, 0]
    let innerMatrix : Tree ℚ := .sequence .vector [.scalar (.integer 0), .scalar (.integer 1),
      .real (-1), .scalar (.integer 0), .real (1 / 2), .real 0]
    let outer : Transform ℚ := .ofSix 2 0 0 3 10 0
    let inner : Transform ℚ := .ofSix 0 1 (-1) 0 (1 / 2) 0
    let path : Tree ℚ := pathNode [.scalar (.keyword "M"), .array [1, 2]]
    let tree := styleNode path [transformNode matrix [transformNode innerMatrix [path]]]
    inner.IsAffine ∧ (path.placed inner >>= placed outer) = path.placed (outer.compose inner) ∧
      tree.Reaches [2] (transformNode matrix [transformNode innerMatrix [path]]) ∧
      matrix.HasMatrixForm ∧ innerMatrix.HasMatrixForm ∧
      matrix.matrix? = .ok (some outer) ∧ innerMatrix.matrix? = .ok (some inner) ∧
      (tree.replaceAt [2] (transformNode (ofTransform (outer.compose inner)) [path])).paths
          .identity = tree.paths .identity ∧
      (outer.compose inner).apply (1, 2) = (7, 3) := by
  intro matrix innerMatrix outer inner path tree
  have hasForm : matrix.HasMatrixForm := ⟨_, rfl, rfl⟩
  have innerHasForm : innerMatrix.HasMatrixForm := ⟨_, rfl, rfl⟩
  have reaches : tree.Reaches [2] (transformNode matrix [transformNode innerMatrix [path]]) :=
    reaches_cons.mpr ⟨Or.inl rfl, Nat.le_refl 2, _, rfl, reaches_nil.mpr rfl⟩
  have read : matrix.matrix? = .ok (some outer) := rfl
  have innerRead : innerMatrix.matrix? = .ok (some inner) := rfl
  have twice := (transforms_compose path).2.1 outer inner rfl
  obtain ⟨found, innerFound, isFound, isInnerFound, same⟩ :=
    (transforms_compose tree).2.2.1 [2] matrix innerMatrix [path] reaches hasForm innerHasForm
  cases read.symm.trans isFound
  cases innerRead.symm.trans isInnerFound
  exact ⟨rfl, twice, reaches, hasForm, innerHasForm, read, innerRead, same .identity,
    by decide +kernel⟩

end Tree

end SketchForm
