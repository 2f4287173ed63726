/-
This file proves when compiling a drawing comes to an end, and that only one thing can
prevent it.

Nothing that is malformed is an error: what is no path, no point or no matrix is passed
by. But a number that takes part in a drawing is computed with, as a double, and a whole
number may be too large for one. Which numbers take part is said here without compiling
anything: the coordinates of the points in a path, and the six numbers of a matrix,
wherever a path or a matrix is reached through groups and proper matrices. A drawing is
compiled exactly if all of these fit a double, and a drawing that is not says that a
number is too large.
-/
import SketchForm.Path.Drawing
import SketchForm.Proofs.Ending
import SketchForm.Proofs.Magnitude
import SketchForm.Proofs.Occurrence
import SketchForm.Proofs.Retelling

namespace SketchForm

variable {R α : Type}

/-- An outcome that is a result exactly under a condition, and otherwise says that a number is too
large. -/
structure EndsWellIff (condition : Prop) (outcome : Except Failure α) : Prop where
  ends : condition → ∃ value, outcome = .ok value
  fails : ¬ condition → outcome = .error .numberTooLarge

theorem EndsIff.endsWellIff {condition : Prop} {outcome : Except Failure α}
    (exactly : EndsIff .numberTooLarge condition outcome) : EndsWellIff condition outcome :=
  ⟨exactly.ends, exactly.fails⟩

/-! ### The numbers of a drawing -/

namespace Tree

/-- The numbers of a point; what is no point has none. -/
def coordinates (tree : Tree R) : List (Quantity R) :=
  match tree.point? with
  | some (x, y) => [x, y]
  | none => []

/-- The numbers of a matrix; what does not have the form of one has none. -/
def entries (tree : Tree R) : List (Quantity R) :=
  match tree.numerals? with
  | some [a, b, c, d, tx, ty] => [a, b, c, d, tx, ty]
  | _ => []

theorem entries_eq_nil {tree : Tree R} (otherForm : ¬ tree.HasMatrixForm) : tree.entries = [] := by
  rw [entries]
  split
  · exact absurd (hasMatrixForm_iff.mpr ⟨_, _, _, _, _, _, ‹_›⟩) otherForm
  · rfl

/-- A number takes part in a drawing: it is the coordinate of a point of a path or an entry of a
matrix, and nothing that a drawing passes by is on the way to it. -/
inductive Uses : Tree R → Quantity R → Prop where
  | coordinate {head token : Tree R} {rest : List (Tree R)} {number : Quantity R}
      (tagged : head.asTag? = some .path) (member : token ∈ head :: rest)
      (own : number ∈ token.coordinates) : Uses (.sequence .vector (head :: rest)) number
  | entry {head matrix : Tree R} {children : List (Tree R)} {number : Quantity R}
      (tagged : head.asTag? = some .transform) (own : number ∈ matrix.entries) :
      Uses (.sequence .vector (head :: matrix :: children)) number
  | inGroup {head child : Tree R} {rest : List (Tree R)} {number : Quantity R}
      (tagged : head.asTag? = some .style) (member : child ∈ rest.tail)
      (below : child.Uses number) : Uses (.sequence .vector (head :: rest)) number
  | inTransform {head matrix child : Tree R} {children : List (Tree R)} {number : Quantity R}
      (tagged : head.asTag? = some .transform) (hasForm : matrix.HasMatrixForm)
      (member : child ∈ children) (below : child.Uses number) :
      Uses (.sequence .vector (head :: matrix :: children)) number

/-- How a number takes part in a node depends on the tag of the node. -/
theorem uses_node_iff {head : Tree R} {rest : List (Tree R)} {number : Quantity R} :
    (sequence .vector (head :: rest)).Uses number ↔
      (head.asTag? = some .path ∧ ∃ token ∈ head :: rest, number ∈ token.coordinates) ∨
      (head.asTag? = some .style ∧ ∃ child ∈ rest.tail, child.Uses number) ∨
      (head.asTag? = some .transform ∧ ∃ matrix children, rest = matrix :: children ∧
        (number ∈ matrix.entries ∨
          matrix.HasMatrixForm ∧ ∃ child ∈ children, child.Uses number)) := by
  constructor
  · intro uses
    cases uses with
    | coordinate tagged member own => exact .inl ⟨tagged, _, member, own⟩
    | inGroup tagged member below => exact .inr (.inl ⟨tagged, _, member, below⟩)
    | entry tagged own => exact .inr (.inr ⟨tagged, _, _, rfl, .inl own⟩)
    | inTransform tagged hasForm member below =>
      exact .inr (.inr ⟨tagged, _, _, rfl, .inr ⟨hasForm, _, member, below⟩⟩)
  · rintro (⟨tagged, _, member, own⟩ | ⟨tagged, _, member, below⟩ |
      ⟨tagged, _, _, rfl, own | ⟨hasForm, _, member, below⟩⟩)
    · exact .coordinate tagged member own
    · exact .inGroup tagged member below
    · exact .entry tagged own
    · exact .inTransform tagged hasForm member below

/-- The drawing that a value is drawn as: a path whose tag was left out has it again. -/
def meant (tree : Tree R) : Tree R :=
  match tree.untagged? with
  | some tokens => .sequence .vector (.scalar (.keyword "path") :: tokens)
  | none => tree

end Tree

variable [Measure R]

/-- Whether there is a real to compute with for a number. -/
def Quantity.Fits (number : Quantity R) : Prop := ∃ x, number.toReal = .ok x

/-- Every number that takes part in a drawing can be computed with. -/
def Tree.Fits (tree : Tree R) : Prop := ∀ number, tree.Uses number → number.Fits

theorem Quantity.endsIff_toReal (number : Quantity R) :
    EndsIff .numberTooLarge number.Fits number.toReal := by
  refine ⟨id, fun large => ?_⟩
  cases number with
  | real x => exact absurd ⟨x, rfl⟩ large
  | whole n =>
    cases read : (Measure.ofInt? n : Option R) with
    | none => rw [toReal, read]
    | some x => exact absurd ⟨x, by rw [toReal, read]⟩ large

namespace Tree

/-! ### Points and matrices -/

theorem endsIff_place (matrix : Transform R) (tree : Tree R) :
    EndsIff .numberTooLarge (∀ number ∈ tree.coordinates, number.Fits) (tree.place matrix) := by
  rw [coordinates, place]
  cases tree.point? with
  | none => exact .ok nofun tree
  | some point =>
    refine (point.1.endsIff_toReal.bind fun x _ => point.2.endsIff_toReal.bind fun y _ =>
      .ok trivial _).congr ?_
    simp

theorem endsIff_placeTokens (matrix : Transform R) (tokens : List (Tree R)) :
    EndsIff .numberTooLarge (∀ token ∈ tokens, ∀ number ∈ token.coordinates, number.Fits)
      (placeTokens matrix tokens) :=
  .mapM fun token _ => token.endsIff_place matrix

theorem endsIff_matrix? (tree : Tree R) :
    EndsIff .numberTooLarge (∀ number ∈ tree.entries, number.Fits) tree.matrix? := by
  by_cases hasForm : tree.HasMatrixForm
  · obtain ⟨a, b, c, d, tx, ty, row⟩ := hasMatrixForm_iff.mp hasForm
    rw [entries, matrix?, row]
    refine (a.endsIff_toReal.bind fun _ _ => b.endsIff_toReal.bind fun _ _ =>
      c.endsIff_toReal.bind fun _ _ => d.endsIff_toReal.bind fun _ _ =>
      tx.endsIff_toReal.bind fun _ _ => ty.endsIff_toReal.bind fun _ _ =>
      .ok trivial _).congr ?_
    simp
  · rw [entries_eq_nil hasForm, matrix?_eq_ok_none_iff.mpr hasForm]
    exact .ok (List.forall_mem_nil _) none

theorem exists_matrix?_eq {matrix : Tree R} (hasForm : matrix.HasMatrixForm)
    (fits : ∀ number ∈ matrix.entries, number.Fits) :
    ∃ own, matrix.matrix? = .ok (some own) := by
  obtain ⟨own?, read⟩ := matrix.endsIff_matrix?.ends fits
  cases own? with
  | none => exact absurd hasForm (matrix?_eq_ok_none_iff.mp read)
  | some own => exact ⟨own, read⟩

/-! ### The numbers of a node -/

section Nodes

variable {head : Tree R}

theorem fits_path (rest : List (Tree R)) (tagged : head.asTag? = some .path) :
    (sequence .vector (head :: rest)).Fits ↔
      ∀ token ∈ head :: rest, ∀ number ∈ token.coordinates, number.Fits := by
  simp only [Fits, uses_node_iff, tagged, Option.some.injEq, reduceCtorEq, true_and, false_and,
    or_false]
  constructor
  · exact fun fits token member number own => fits number ⟨token, member, own⟩
  · exact fun each number ⟨token, member, own⟩ => each token member number own

theorem fits_pathNode (tokens : List (Tree R)) :
    (pathNode tokens).Fits ↔ ∀ token ∈ tokens, ∀ number ∈ token.coordinates, number.Fits := by
  rw [pathNode, fits_path tokens rfl, List.forall_mem_cons]
  exact ⟨fun both => both.2, fun each => ⟨nofun, each⟩⟩

theorem fits_style (rest : List (Tree R)) (tagged : head.asTag? = some .style) :
    (sequence .vector (head :: rest)).Fits ↔ ∀ child ∈ rest.tail, child.Fits := by
  simp only [Fits, uses_node_iff, tagged, Option.some.injEq, reduceCtorEq, true_and, false_and,
    or_false, false_or]
  constructor
  · exact fun fits child member number below => fits number ⟨child, member, below⟩
  · exact fun each number ⟨child, member, below⟩ => each child member number below

theorem fits_transform_nil (tagged : head.asTag? = some .transform) :
    (sequence .vector [head]).Fits := by
  intro number uses
  simp [uses_node_iff, tagged] at uses

theorem fits_transform (matrix : Tree R) (children : List (Tree R))
    (tagged : head.asTag? = some .transform) :
    (sequence .vector (head :: matrix :: children)).Fits ↔
      (∀ number ∈ matrix.entries, number.Fits) ∧
        (matrix.HasMatrixForm → ∀ child ∈ children, child.Fits) := by
  simp only [Fits, uses_node_iff, tagged, Option.some.injEq, reduceCtorEq, true_and, false_and,
    false_or]
  constructor
  · intro fits
    refine ⟨fun number own => fits number ⟨_, _, rfl, .inl own⟩, fun hasForm child member => ?_⟩
    exact fun number below => fits number ⟨_, _, rfl, .inr ⟨hasForm, child, member, below⟩⟩
  · rintro ⟨own, each⟩ number ⟨_, _, same, uses⟩
    obtain ⟨rfl, rfl⟩ := List.cons.inj same
    rcases uses with isEntry | ⟨hasForm, child, member, below⟩
    · exact own number isEntry
    · exact each hasForm child member number below

theorem fits_passive {tree : Tree R} (notPath : tree.tag? ≠ some .path)
    (notStyle : tree.tag? ≠ some .style) (notTransform : tree.tag? ≠ some .transform) :
    tree.Fits := by
  intro number uses
  cases uses with
  | coordinate tagged => exact absurd tagged notPath
  | entry tagged => exact absurd tagged notTransform
  | inGroup tagged => exact absurd tagged notStyle
  | inTransform tagged => exact absurd tagged notTransform

end Nodes

/-! ### A whole drawing -/

theorem endsIff_walkEach (inherited : Transform R) {children : List (Tree R)}
    (each : ∀ child ∈ children, EndsIff .numberTooLarge child.Fits (child.walk inherited).outcome) :
    EndsIff .numberTooLarge (∀ child ∈ children, child.Fits)
      (walkEach inherited children).outcome := by
  induction children with
  | nil => exact .ok nofun ()
  | cons child rest inductionHypothesis =>
    have others := inductionHypothesis fun other member =>
      each other (List.mem_cons_of_mem _ member)
    rw [walkEach, Trail.outcome_bind]
    refine ((each child List.mem_cons_self).bind fun _ _ => others).congr ?_
    rw [List.forall_mem_cons]

/-- A walk through a drawing ends well exactly if the numbers of the drawing fit. -/
theorem endsIff_walk (tree : Tree R) :
    ∀ inherited : Transform R, EndsIff .numberTooLarge tree.Fits (tree.walk inherited).outcome := by
  induction tree using Tree.inductNodes with
  | path head rest tagged =>
    intro inherited
    rw [walk_path inherited rest tagged, Trail.outcome_bind]
    refine ((endsIff_placeTokens inherited (head :: rest)).bind fun tokens _ =>
      .ok trivial ()).congr ?_
    rw [fits_path rest tagged, and_true]
  | style head rest tagged each =>
    intro inherited
    rw [walk_style inherited rest tagged]
    refine (endsIff_walkEach inherited fun child member => each child member inherited).congr ?_
    rw [fits_style rest tagged]
  | transform head rest tagged each =>
    intro inherited
    cases rest with
    | nil =>
      rw [walk_transform_nil inherited tagged]
      exact .ok (fits_transform_nil tagged) ()
    | cons matrix children =>
      rw [walk_transform inherited matrix children tagged, Trail.outcome_bind]
      refine (matrix.endsIff_matrix?.bind fun own? read => ?_).congr
        (fits_transform matrix children tagged).symm
      cases own? with
      | none =>
        exact .ok (fun hasForm => absurd hasForm (matrix?_eq_ok_none_iff.mp read)) ()
      | some own =>
        have hasForm := hasMatrixForm_of_matrix? read
        refine (endsIff_walkEach (inherited.compose own) fun child member =>
          each child member (inherited.compose own)).congr ?_
        exact ⟨fun fits _ => fits, fun fits => fits hasForm⟩
  | passive tree notPath notStyle notTransform =>
    intro inherited
    rw [walk_passive inherited notPath notStyle notTransform]
    exact .ok (fits_passive notPath notStyle notTransform) ()

/-- A drawing can be drawn exactly if the numbers of what it is drawn as fit. -/
theorem endsIff_draw (tree : Tree R) :
    EndsIff .numberTooLarge tree.meant.Fits tree.draw.outcome := by
  rw [draw, meant]
  cases tree.untagged? with
  | none => exact tree.endsIff_walk .identity
  | some tokens =>
    rw [Trail.outcome_bind]
    refine ((endsIff_placeTokens .identity tokens).bind fun placed _ =>
      .ok trivial ()).congr ?_
    rw [and_true]
    exact (fits_pathNode tokens).symm

/-- A drawing can be written exactly if its numbers fit. -/
theorem endsIff_text (tree : Tree Float) : EndsIff .numberTooLarge tree.Fits tree.text.outcome := by
  have retold := tree.retells_drawingText .identity
  exact EndsIff.of_map_eq retold.words (tree.endsIff_walk .identity)

end Tree

/-! ### In doubles -/

theorem Quantity.fits_whole_iff (n : Int) :
    (whole n : Quantity Float).Fits ↔ n.natAbs < Binary64.limit := by
  rw [← Binary64.isSome_ofInt?_iff]
  constructor
  · rintro ⟨x, read⟩
    rw [toReal] at read
    cases nearest : Binary64.ofInt? n with
    | none => rw [show Measure.ofInt? n = none from nearest] at read; cases read
    | some y => rfl
  · intro isSome
    obtain ⟨x, nearest⟩ := Option.isSome_iff_exists.mp isSome
    exact ⟨x, by rw [toReal, show Measure.ofInt? n = some x from nearest]⟩

namespace Tree

theorem fits_iff_natAbs_lt (tree : Tree Float) :
    tree.Fits ↔ ∀ n, tree.Uses (.whole n) → n.natAbs < Binary64.limit := by
  constructor
  · exact fun fits n uses => (Quantity.fits_whole_iff n).mp (fits _ uses)
  · intro small number uses
    cases number with
    | whole n => exact (Quantity.fits_whole_iff n).mpr (small n uses)
    | real x => exact ⟨x, rfl⟩

/-- A drawing is written if all whole numbers that take part in it are below the limit of doubles,
and what it is drawn as is drawn if all of that are. Whatever else the value may be, no other
failure is possible. -/
theorem endsWellIff_compiled (tree : Tree Float) :
    EndsWellIff (∀ n, tree.Uses (.whole n) → n.natAbs < Binary64.limit) tree.text.outcome ∧
      EndsWellIff (∀ n, tree.meant.Uses (.whole n) → n.natAbs < Binary64.limit)
        tree.draw.outcome :=
  ⟨(tree.endsIff_text.congr tree.fits_iff_natAbs_lt).endsWellIff,
    (tree.endsIff_draw.congr tree.meant.fits_iff_natAbs_lt).endsWellIff⟩

/-- A matrix with a whole number beyond all doubles is no malformed matrix, and nothing is
compiled. -/
theorem compiled_ne_ok_tooLarge :
    let tree : Tree Float := .sequence .vector [.scalar (.keyword "transform"),
      .sequence .vector [.scalar (.integer (10 ^ 400)), .scalar (.integer 0), .scalar (.integer 0),
        .scalar (.integer 1), .scalar (.integer 0), .scalar (.integer 0)]]
    tree.text.outcome = .error .numberTooLarge ∧ tree.draw.outcome = .error .numberTooLarge := by
  decide +kernel

end Tree

end SketchForm
