/-
This file says what drawing a path brings about, segment by segment.

A keyword begins a segment wherever it stands, so the tokens up to a keyword and those
from it on are split, and drawn, apart from each other. That is all there is to know
about how segments lie side by side. A segment by itself is drawn if it is complete: a
keyword with as many points as its stroke asks for.
-/
import Mathlib.Data.List.SplitBy
import SketchForm.Path.Drawing

namespace SketchForm

variable {R : Type}

/-! ### Segments side by side -/

/-- A chain in which only the later of two neighbours matters asks something of all but the
first. -/
theorem isChain_iff_forall_mem_tail {α : Type} {holds : α → Prop} {values : List α} :
    (values.IsChain fun _ next => holds next) ↔ ∀ value ∈ values.tail, holds value := by
  cases values with
  | nil => exact ⟨fun _ => nofun, fun _ => List.isChain_nil⟩
  | cons first rest =>
    induction rest generalizing first with
    | nil => exact ⟨fun _ => nofun, fun _ => List.isChain_singleton first⟩
    | cons second others inductionHypothesis =>
      rw [List.isChain_cons_cons, inductionHypothesis]
      exact List.forall_mem_cons.symm

/-- Tokens before which a segment ends, whatever it was. -/
def BeginsSegment (tokens : List (Tree R)) : Prop := ∀ head ∈ tokens.head?, head.isKeyword

theorem beginsSegment_nil : BeginsSegment ([] : List (Tree R)) := nofun

theorem beginsSegment_keyword (id : String) (rest : List (Tree R)) :
    BeginsSegment (.scalar (.keyword id) :: rest) := by
  intro head isHead
  rw [← Option.some.inj isHead]
  rfl

theorem dropPathTag_cons {tag : Tree R} (isTag : tag.isPathTag) (tokens : List (Tree R)) :
    dropPathTag (tag :: tokens) = tokens := if_pos isTag

variable {tag : Tree R}

theorem segments_append (isTag : tag.isPathTag) (front : List (Tree R)) {back : List (Tree R)}
    (begins : BeginsSegment back) :
    segments (tag :: (front ++ back)) = segments (tag :: front) ++ segments (tag :: back) := by
  simp only [segments, dropPathTag_cons isTag]
  refine List.splitBy_append fun last _ head isHead => ?_
  rw [begins head isHead]
  rfl

/-- What follows a keyword is drawn apart from what stands before it. -/
theorem marks_append (isTag : tag.isPathTag) (front : List (Tree R)) {back : List (Tree R)}
    (begins : BeginsSegment back) :
    marks (tag :: (front ++ back)) = marks (tag :: front) ++ marks (tag :: back) := by
  rw [marks, segments_append isTag front begins, List.flatMap_append]
  rfl

theorem segments_single (isTag : tag.isPathTag) (head : Tree R) {rest : List (Tree R)}
    (plain : ∀ token ∈ rest, token.isKeyword = false) :
    segments (tag :: head :: rest) = [head :: rest] := by
  have linked : (head :: rest).IsChain fun _ next => (!next.isKeyword) = true := by
    refine isChain_iff_forall_mem_tail.mpr fun token member => ?_
    rw [plain token member]
    rfl
  rw [segments, dropPathTag_cons isTag]
  exact List.splitBy_of_isChain (List.cons_ne_nil _ _) linked

/-! ### A complete segment -/

theorem frontPoints?_ofPoint (points : List (R × R)) :
    frontPoints? points.length (points.map Tree.ofPoint) = some points := by
  induction points with
  | nil => rfl
  | cons point rest inductionHypothesis =>
    simp only [List.map_cons, List.length_cons, frontPoints?, Tree.realPoint?_ofPoint,
      inductionHypothesis]
    rfl

theorem stroke?_letter (stroke : Stroke) :
    (Tree.scalar (.keyword stroke.letter) : Tree R).stroke? = some stroke := by
  rw [Tree.stroke?, Tree.keyword?_keyword]
  exact Stroke.ofLetter?_letter stroke

theorem markOf_stroke (stroke : Stroke) {points : List (R × R)}
    (count : points.length = stroke.arity) :
    markOf (.scalar (.keyword stroke.letter)) (points.map Tree.ofPoint) =
      .drawn ⟨stroke, points⟩ := by
  simp only [markOf, stroke?_letter, ← count, frontPoints?_ofPoint]

/-- The keyword of a stroke with just the points that it asks for is drawn. -/
theorem marks_stroke (isTag : tag.isPathTag) (stroke : Stroke) {points : List (R × R)}
    (count : points.length = stroke.arity) :
    marks (tag :: .scalar (.keyword stroke.letter) :: points.map Tree.ofPoint) =
      [.drawn ⟨stroke, points⟩] := by
  have plain : ∀ token ∈ points.map Tree.ofPoint, token.isKeyword = false := by
    intro token member
    obtain ⟨point, _, rfl⟩ := List.mem_map.mp member
    rfl
  rw [marks, segments_single isTag _ plain, List.flatMap_singleton]
  exact congrArg (fun mark => [mark]) (markOf_stroke stroke count)

/-- A run of complete segments: each the keyword of a stroke with just the points that this stroke
asks for. -/
inductive CompleteSegments : List (Tree R) → Prop where
  | nil : CompleteSegments []
  | cons {stroke : Stroke} {points rest : List (Tree R)} (count : points.length = stroke.arity)
      (each : ∀ point ∈ points, point.isPoint) (complete : CompleteSegments rest) :
      CompleteSegments (.scalar (.keyword stroke.letter) :: (points ++ rest))

theorem CompleteSegments.begins {tokens : List (Tree R)} (complete : CompleteSegments tokens) :
    BeginsSegment tokens := by
  cases complete with
  | nil => exact beginsSegment_nil
  | cons => exact beginsSegment_keyword _ _

end SketchForm
