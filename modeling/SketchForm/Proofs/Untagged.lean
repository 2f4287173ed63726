/-
This file proves that the tag in front of a path can be left out.

Three operations look for the tag on their own: splitting a path into segments, writing
it as text, and drawing it, where a path without its tag is told from other drawings and
does not go through the walk. All three set the tag aside, and only once. So a path whose
first token is a keyword that is no tag of a node has the same tokens to them as with the
tag in front. What stands further on, a second tag among it, plays no part in that, and
placing does not get in the way, since it leaves the tag and the first token as they are.
-/
import SketchForm.Proofs.Skipping

namespace SketchForm

variable {R : Type}

section Untagged

variable {head : Tree R} {id : String} (untagged : head.asTag? = some (.other id))

include untagged

/-! ### The tag set aside -/

theorem dropPathTag_pathTag_cons (rest : List (Tree R)) :
    dropPathTag (Tree.pathTag :: head :: rest) = dropPathTag (head :: rest) := by
  have noTag : ¬ head.isPathTag = true := by simp [Tree.isPathTag, untagged]
  rw [dropPathTag_cons (Tree.isPathTag_iff.mpr rfl), dropPathTag, if_neg noTag]

theorem segments_pathTag_cons (rest : List (Tree R)) :
    segments (Tree.pathTag :: head :: rest) = segments (head :: rest) := by
  rw [segments, segments, dropPathTag_pathTag_cons untagged]

theorem marks_pathTag_cons (rest : List (Tree R)) :
    marks (Tree.pathTag :: head :: rest) = marks (head :: rest) := by
  rw [marks, marks, segments_pathTag_cons untagged]

/-! ### Drawing -/

variable [Measure R]

/-- A path without its tag is drawn as it is with the tag. -/
theorem Tree.draw_pathNode_untagged (rest : List (Tree R)) :
    (pathNode (head :: rest)).draw = (sequence .vector (head :: rest)).draw := by
  have isUntagged : (sequence .vector (head :: rest)).untagged? = some (head :: rest) := by
    simp only [untagged?, untagged]
  rw [draw_pathNode, draw_untagged isUntagged]
  cases ends : placeTokens .identity (head :: rest) with
  | error failure => rfl
  | ok placed =>
    obtain ⟨others, rfl, _⟩ := placeTokens_cons_tag untagged ends
    rw [Trail.settle_ok_bind, Trail.settle_ok_bind, marks_pathTag_cons untagged]

end Untagged

/-! ### In a session -/

namespace Session

/-- A path that begins with a keyword, other than those that are tags of nodes, has the same segments
and the same text as the path with its tag in front. In a session the two are drawn alike: the same
comes to the canvas and to the log, and where one fails, so does the other. -/
theorem pathTag_optional {id : String} (notPath : id ≠ "path") (notStyle : id ≠ "style")
    (notTransform : id ≠ "transform") (rest : List (Tree Float)) :
    let tokens : List (Tree Float) := .scalar (.keyword id) :: rest
    (Tree.sequence .vector tokens).segments = (Tree.pathNode tokens).segments ∧
      (Tree.sequence .vector tokens).pathText = (Tree.pathNode tokens).pathText ∧
      (Tree.sequence .vector tokens).draw = (Tree.pathNode tokens).draw ∧
      ∀ (session : Session) (path tagged : Ref),
        session.store.tree path = .ok (.sequence .vector tokens) →
          session.store.tree tagged = .ok (.pathNode tokens) →
            (∀ canvas, drawOn canvas path session = drawOn canvas tagged session) ∧
              ∀ name, drawOnNamed name path session = drawOnNamed name tagged session := by
  intro tokens
  have untagged : (Tree.scalar (.keyword id) : Tree Float).asTag? = some (.other id) := by
    simp [Tree.asTag?, Tag.ofId, notPath, notStyle, notTransform]
  have dropped := dropPathTag_pathTag_cons untagged rest
  have drawn := Tree.draw_pathNode_untagged untagged rest
  refine ⟨congrArg Except.ok (segments_pathTag_cons untagged rest).symm, ?_, drawn.symm, ?_⟩
  · rw [Tree.pathText, Tree.pathText, Tree.pathNode, Tree.pathTokens_sequence,
      Tree.pathTokens_sequence, ← dropped]
    rfl
  · intro session path tagged isPath isTagged
    refine ⟨fun canvas => ?_, fun name => ?_⟩
    · rw [drawOn_eq isPath, drawOn_eq isTagged, Tree.commands, Tree.commands, drawn]
    · rw [drawOnNamed_eq isPath, drawOnNamed_eq isTagged, Tree.commands, Tree.commands, drawn]

/-- A path that has the tag only further on, and the same path with the tag in front as well. -/
def tagWithin : Session where
  store := {
    objects := #[.sequence .plain [.scalar (.integer 1), .scalar (.integer 2)],
      .sequence .vector [.scalar (.keyword "M"), .object 0, .scalar (.keyword "path"),
        .scalar (.integer 7), .scalar (.keyword "Z")],
      .sequence .vector [.scalar (.keyword "path"), .scalar (.keyword "M"), .object 0,
        .scalar (.keyword "path"), .scalar (.integer 7), .scalar (.keyword "Z")]] }

theorem pathTag_optional_tagWithin :
    drawOn [] (.object 1) tagWithin = drawOn [] (.object 2) tagWithin ∧
      (drawOn [] (.object 2) tagWithin).1.map (List.map Command.stroke) = .ok [.move, .close] := by
  obtain ⟨_, _, _, alike⟩ := @pathTag_optional "M" (by decide) (by decide) (by decide)
    [.sequence .plain [.scalar (.integer 1), .scalar (.integer 2)], .scalar (.keyword "path"),
      .scalar (.integer 7), .scalar (.keyword "Z")]
  have same := (alike tagWithin (.object 1) (.object 2) rfl rfl).1 []
  have drawn : (drawOn [] (.object 1) tagWithin).1.map (List.map Command.stroke) =
      .ok [.move, .close] := by decide +kernel
  exact ⟨same, same ▸ drawn⟩

end Session

end SketchForm
