/-
This file says what the paths that a walk comes upon look like.

A walk shows a path only as placed: the tokens of a path node, each point moved to its
image under some map and everything else as it stood. In particular the tag is still in
front, and every point is a pair of reals, whatever numbers and whatever kind of
sequence it was written with.
-/
import SketchForm.Path.Walk
import SketchForm.Proofs.Traversal

namespace SketchForm

variable {R : Type} [Measure R]

/-! ### Placed tokens -/

theorem Tree.place_of_point?_none (matrix : Transform R) {tree : Tree R}
    (other : tree.point? = none) : tree.place matrix = .ok tree := by
  rw [Tree.place, other]

/-- A placed point is a pair of reals. -/
theorem Tree.exists_ofPoint_of_place {matrix : Transform R} {tree placed : Tree R}
    (isPoint : tree.isPoint) (ends : tree.place matrix = .ok placed) :
    ∃ point, Tree.ofPoint point = placed := by
  obtain ⟨⟨x, y⟩, read⟩ := Option.isSome_iff_exists.mp isPoint
  rw [Tree.place, read] at ends
  cases first : x.toReal with
  | error failure => simp only [first] at ends; cases ends
  | ok xReal =>
    cases second : y.toReal with
    | error failure => simp only [first, second] at ends; cases ends
    | ok yReal =>
      simp only [first, second] at ends
      exact ⟨_, Except.ok.inj ends⟩

/-- What is no point stays as it is. -/
theorem Tree.eq_of_place {matrix : Transform R} {tree placed : Tree R}
    (other : tree.isPoint = false) (ends : tree.place matrix = .ok placed) : tree = placed := by
  have noPoint : tree.point? = none := by simpa [Tree.isPoint] using other
  rw [Tree.place_of_point?_none matrix noPoint] at ends
  exact Except.ok.inj ends

/-- In placed tokens every point is a pair of reals. -/
theorem exists_ofPoint_of_mem_placeTokens {matrix : Transform R} {tokens placed : List (Tree R)}
    (ends : placeTokens matrix tokens = .ok placed) {token : Tree R} (member : token ∈ placed)
    (isPoint : token.isPoint) : ∃ point, Tree.ofPoint point = token := by
  obtain ⟨source, _, viewed⟩ := exists_mem_of_forall₂ (mapM_eq_ok_iff.mp ends) member
  cases wasPoint : source.isPoint with
  | true => exact Tree.exists_ofPoint_of_place wasPoint viewed
  | false =>
    rw [← Tree.eq_of_place wasPoint viewed, wasPoint] at isPoint
    cases isPoint

/-- Placing leaves the tag of a path where it is. -/
theorem placeTokens_cons_tag {matrix : Transform R} {head : Tree R} {rest placed : List (Tree R)}
    {tag : Tag} (tagged : head.asTag? = some tag)
    (ends : placeTokens matrix (head :: rest) = .ok placed) :
    ∃ others, placed = head :: others ∧ placeTokens matrix rest = .ok others := by
  obtain ⟨first, others, firstPlaced, othersPlaced, rfl⟩ :=
    List.forall₂_cons_left_iff.mp (mapM_eq_ok_iff.mp ends)
  have noPoint : head.point? = none := by
    match head, tagged with
    | .scalar (.keyword id), _ => rfl
  rw [Tree.place_of_point?_none matrix noPoint] at firstPlaced
  refine ⟨others, ?_, mapM_eq_ok_iff.mpr othersPlaced⟩
  rw [Except.ok.inj firstPlaced]

/-! ### The paths of a walk -/

namespace Tree

/-- A path as a walk shows it: the tokens of a path node, placed under some map. -/
def IsPlacedPath (tokens : List (Tree R)) : Prop :=
  ∃ matrix head rest, head.asTag? = some .path ∧ placeTokens matrix (head :: rest) = .ok tokens

theorem isPlacedPath_of_mem_walkEach (children : List (Tree R))
    (each : ∀ child ∈ children, ∀ inherited tokens,
      .path tokens ∈ (child.walk inherited).events → IsPlacedPath tokens)
    (inherited : Transform R) (tokens : List (Tree R))
    (found : .path tokens ∈ (walkEach inherited children).events) : IsPlacedPath tokens := by
  induction children with
  | nil => exact absurd found List.not_mem_nil
  | cons child rest inductionHypothesis =>
    rw [walkEach] at found
    rcases Trail.mem_events_bind.mp found with first | ⟨_, _, later⟩
    · exact each child List.mem_cons_self inherited tokens first
    · exact inductionHypothesis (fun other member => each other (List.mem_cons_of_mem _ member))
        later

/-- Every path come upon is a placed path. -/
theorem isPlacedPath_of_mem_walk (tree : Tree R) : ∀ inherited tokens,
    .path tokens ∈ (tree.walk inherited).events → IsPlacedPath tokens := by
  induction tree using Tree.inductNodes with
  | path head rest tagged =>
    intro inherited tokens found
    rw [walk_path inherited rest tagged] at found
    cases ends : placeTokens inherited (head :: rest) with
    | error failure => rw [ends] at found; exact absurd found List.not_mem_nil
    | ok placed =>
      rw [ends, Trail.settle_ok_bind, Trail.events_mark, List.mem_singleton] at found
      rw [Sighting.path.inj found]
      exact ⟨inherited, head, rest, tagged, ends⟩
  | style head rest tagged each =>
    intro inherited tokens found
    rw [walk_style inherited rest tagged] at found
    exact isPlacedPath_of_mem_walkEach rest.tail each inherited tokens found
  | transform head rest tagged each =>
    intro inherited tokens found
    cases rest with
    | nil =>
      rw [walk_transform_nil inherited tagged, Trail.events_mark, List.mem_singleton] at found
      cases found
    | cons matrix children =>
      rw [walk_transform inherited matrix children tagged] at found
      cases read : matrix.matrix? with
      | error failure => rw [read] at found; exact absurd found List.not_mem_nil
      | ok own? =>
        rw [read, Trail.settle_ok_bind] at found
        cases own? with
        | none => cases List.mem_singleton.mp found
        | some own =>
          exact isPlacedPath_of_mem_walkEach children each (inherited.compose own) tokens found
  | passive tree notPath notStyle notTransform =>
    intro inherited tokens found
    rw [walk_passive inherited notPath notStyle notTransform] at found
    exact absurd found List.not_mem_nil

end Tree

end SketchForm
