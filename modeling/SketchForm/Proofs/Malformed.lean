/-
This file proves that a walk tells of every transform that it leaves out.

A transform with a missing or malformed matrix hides what is below it, and all that is
seen of it is a notice. Which transforms are told of is said by positions, as it is for
paths: the way to one goes through groups and through proper transforms only. So one
below another malformed transform, in style data or within a path is not told of, and
every other is, once and in the order of the text, with what stands in the place of its
matrix. A node that is told of lets nothing through and one that lets through is not
told of, and on this the proof turns.
-/
import SketchForm.Proofs.Occurrence

namespace SketchForm

variable {R : Type}

namespace Tree

/-- Whether a node is a transform without a matrix: there is nothing in the place of one, or
something of another form. -/
def IsMalformed (node : Tree R) : Prop :=
  node.tag? = some .transform ∧ ∀ matrix, node.member? 1 = some matrix → ¬ matrix.HasMatrixForm

theorem LetsThrough.not_isMalformed {node : Tree R} (letsThrough : node.LetsThrough) :
    ¬ node.IsMalformed := by
  rintro ⟨transform, noMatrix⟩
  rcases letsThrough with style | ⟨_, matrix, isMember, hasForm⟩
  · rw [transform] at style
    cases style
  · exact noMatrix matrix isMember hasForm

/-- The notice of a transform without a matrix, with what is in the place of one. -/
def malformedNotice (node : Tree R) : Notice R := .malformedMatrix (node.member? 1).toList

/-- Whether a notice is that of the node at a position. -/
def Tells (tree : Tree R) (position : List Nat) (notice : Notice R) : Prop :=
  (tree.at? position).map malformedNotice = some notice

theorem tells_cons {kind : SequenceKind} {items : List (Tree R)} {place : Nat} {child : Tree R}
    (isMember : items[place]? = some child) {below : List Nat} {notice : Notice R} :
    (sequence kind items).Tells (place :: below) notice ↔ child.Tells below notice := by
  have there : (sequence kind items).at? (place :: below) = child.at? below := by
    show items[place]?.bind _ = _
    rw [isMember]
    rfl
  rw [Tells, Tells, there]

/-- Whether these are all positions of transforms without a matrix, in order and each once, and
these are the notices of them. -/
structure Reports (tree : Tree R) (positions : List (List Nat)) (notices : List (Notice R)) : Prop
    extends Locates (LeadsTo IsMalformed tree) positions where
  told : List.Forall₂ tree.Tells positions notices

theorem reports_nil {tree : Tree R} (closed : ¬ tree.LetsThrough) (proper : ¬ tree.IsMalformed) :
    tree.Reports [] [] :=
  ⟨Locates.of_closed closed proper, List.Forall₂.nil⟩

theorem reports_malformed {tree : Tree R} (malformed : tree.IsMalformed) :
    tree.Reports [[]] [tree.malformedNotice] := by
  have closed : ¬ tree.LetsThrough := fun letsThrough => letsThrough.not_isMalformed malformed
  exact ⟨Locates.of_target closed malformed, List.Forall₂.cons rfl List.Forall₂.nil⟩

variable [Measure R]

/-- What a walk gives notice of, in order. -/
def notices (start : Transform R) (tree : Tree R) : List (Notice R) :=
  (tree.walk start).events.filterMap Sighting.notice?

/-- A node that lets through reports what is reported below it. -/
theorem exists_reports_of_below {start own : Transform R} {kind : SequenceKind}
    {items : List (Tree R)} (letsThrough : (sequence kind items).LetsThrough)
    (walked : (sequence kind items).walk start = walkEach own (items.drop 2))
    (each : ∀ child ∈ items.drop 2, (child.walk own).outcome = .ok () →
      ∃ positions, child.Reports positions (child.notices own))
    (fits : ((sequence kind items).walk start).outcome = .ok ()) :
    ∃ positions, (sequence kind items).Reports positions ((sequence kind items).notices start) := by
  rw [walked] at fits
  have located : ∀ child ∈ items.drop 2, (child.walk own).outcome = .ok () →
      ∃ positions, Locates (LeadsTo IsMalformed child) positions ∧
        List.Forall₂ child.Tells positions (child.notices own) := by
    intro child member childFits
    obtain ⟨positions, reports⟩ := each child member childFits
    exact ⟨positions, reports.toLocates, reports.told⟩
  obtain ⟨positions, below, told⟩ :=
    exists_locates_walkEach own items (items.drop 2) 2 rfl located fits
  rw [notices, walked]
  refine ⟨positions, below.of_below letsThrough letsThrough.not_isMalformed, told.imp ?_⟩
  rintro position notice ⟨place, below, child, rfl, isMember, tells⟩
  exact (tells_cons isMember).mpr tells

/-- A walk that does not fail gives notice of the transforms without a matrix that groups and proper
transforms lead to: of every one, of each once and of nothing else, in the order of their
positions. -/
theorem exists_reports_of_walk (tree : Tree R) : ∀ start : Transform R,
    (tree.walk start).outcome = .ok () →
      ∃ positions, tree.Reports positions (tree.notices start) := by
  induction tree using Tree.inductNodes with
  | path head rest tagged =>
    intro start _
    have path : (sequence .vector (head :: rest)).tag? = some .path := tagged
    have silent : (sequence .vector (head :: rest)).notices start = [] := by
      rw [notices, walk_path start rest tagged]
      cases placeTokens start (head :: rest) <;> rfl
    rw [silent]
    refine ⟨[], reports_nil (fun letsThrough => ?_) fun malformed => ?_⟩
    · exact letsThrough.not_isPath (beq_iff_eq.mpr path)
    · rw [malformed.1] at path
      cases path
  | style head rest tagged each =>
    intro start fits
    have style : (sequence .vector (head :: rest)).tag? = some .style := tagged
    rw [← List.drop_one] at each
    refine exists_reports_of_below (Or.inl style) ?_ (fun child member => each child member start)
      fits
    rw [walk_style start rest tagged, ← List.drop_one]
    rfl
  | transform head rest tagged each =>
    intro start fits
    have transform : (sequence .vector (head :: rest)).tag? = some .transform := tagged
    cases rest with
    | nil =>
      rw [notices, walk_transform_nil start tagged]
      exact ⟨[[]], reports_malformed ⟨transform, nofun⟩⟩
    | cons matrix children =>
      have walked := walk_transform start matrix children tagged
      cases read : matrix.matrix? with
      | error failure =>
        rw [walked, read] at fits
        cases fits
      | ok own? =>
        rw [read, Trail.settle_ok_bind] at walked
        cases own? with
        | none =>
          rw [notices, walked]
          refine ⟨[[]], reports_malformed ⟨transform, fun other isMember => ?_⟩⟩
          rw [← Option.some.inj isMember]
          exact matrix?_eq_ok_none_iff.mp read
        | some own =>
          have hasForm := hasMatrixForm_of_matrix? read
          exact exists_reports_of_below (Or.inr ⟨transform, matrix, rfl, hasForm⟩) walked
            (fun child member => each child member (start.compose own)) fits
  | passive tree notPath notStyle notTransform =>
    intro start _
    rw [notices, walk_passive start notPath notStyle notTransform]
    refine ⟨[], reports_nil ?_ fun malformed => notTransform malformed.1⟩
    exact fun letsThrough => letsThrough.tag?.elim notStyle notTransform

end Tree

end SketchForm
