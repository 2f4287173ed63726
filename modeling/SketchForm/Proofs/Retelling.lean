/-
This file proves that the text of a drawing tells what a walk through it comes upon.

Writing a drawing as text and finding its paths are two ways down the same tree. They
take the same turns: both pass by the same nodes, carry the same map, fail at the same
number and notice the same malformed matrices. What differs is what they bring back, a
text that keeps a separator for every part without one, and a list of paths. Seen as
words the two are the same. So every statement about a drawing's words can be made
about its paths, one by one.
-/
import SketchForm.Path.Text
import SketchForm.Proofs.Words

namespace SketchForm

/-- The words of the text of a path by itself, if one was come upon. -/
def Sighting.words : Sighting Float → List String
  | .path tokens => Text.words (Tree.textOfTokens (dropPathTag tokens))
  | .malformedMatrix _ => []

/-- Writing retells a walk: it gives the notices that the walk asks for, it fails where the walk
fails, and what it writes otherwise reads as the words of the paths found. -/
structure Retells {α : Type} (reading : α → List String) (written : Trail (Notice Float) α)
    (found : Trail (Sighting Float) Unit) : Prop where
  notices : written.events = found.events.filterMap Sighting.notice?
  words : written.outcome.map reading =
    found.outcome.map fun _ => found.events.flatMap Sighting.words

namespace Retells

variable {α β : Type} {reading : α → List String} {written : Trail (Notice Float) α}
  {found : Trail (Sighting Float) Unit}

theorem pure_nil {value : α} (silent : reading value = []) :
    Retells reading (pure value) (pure ()) :=
  ⟨rfl, congrArg Except.ok silent⟩

/-- Writing that ends well retells a walk that ends well. -/
theorem of_ok (retold : Retells reading written found) {value : α}
    (ends : written.outcome = .ok value) :
    found.outcome = .ok () ∧ reading value = found.events.flatMap Sighting.words := by
  have words := retold.words
  rw [ends] at words
  cases walked : found.outcome with
  | ok => exact ⟨rfl, Except.ok.inj (by rw [walked] at words; exact words)⟩
  | error failure => rw [walked] at words; cases words

/-- Writing that fails retells a walk that fails. -/
theorem of_error (retold : Retells reading written found) {failure : Failure}
    (ends : written.outcome = .error failure) : found.outcome = .error failure := by
  have words := retold.words
  rw [ends] at words
  cases walked : found.outcome with
  | ok => rw [walked] at words; cases words
  | error other => rw [walked] at words; exact congrArg Except.error (Except.error.inj words).symm

/-- What is written may be put another way, as long as it reads the same. -/
theorem map (retold : Retells reading written found) {other : β → List String} {view : α → β}
    (same : ∀ value, other (view value) = reading value) :
    Retells other (written >>= fun value => pure (view value)) found := by
  cases ends : written.outcome with
  | ok value =>
    rw [Trail.bind_of_ok _ ends]
    refine ⟨?_, ?_⟩
    · rw [Trail.events_pure, List.append_nil, retold.notices]
    · rw [← retold.words, ends]
      exact congrArg Except.ok (same value)
  | error failure =>
    rw [Trail.bind_of_error _ ends]
    refine ⟨retold.notices, ?_⟩
    rw [← retold.words, ends]
    rfl

/-- Writing one thing after another retells walking one way after another. -/
theorem cons {text : Trail (Notice Float) String} {texts : Trail (Notice Float) (List String)}
    {first rest : Trail (Sighting Float) Unit} (head : Retells Text.words text first)
    (tail : Retells (·.flatMap Text.words) texts rest) :
    Retells (·.flatMap Text.words)
      (text >>= fun text => texts >>= fun texts => pure (text :: texts))
      (first >>= fun _ => rest) := by
  cases textEnds : text.outcome with
  | error failure =>
    rw [Trail.bind_of_error _ textEnds, Trail.bind_of_error _ (head.of_error textEnds)]
    exact ⟨head.notices, rfl⟩
  | ok word =>
    obtain ⟨firstEnds, firstWords⟩ := head.of_ok textEnds
    rw [Trail.bind_of_ok _ textEnds, Trail.bind_of_ok _ firstEnds]
    have notices : text.events ++ texts.events =
        (first.events ++ rest.events).filterMap Sighting.notice? := by
      rw [List.filterMap_append, head.notices, tail.notices]
    cases textsEnd : texts.outcome with
    | error failure =>
      rw [Trail.bind_of_error _ textsEnd]
      refine ⟨notices, ?_⟩
      show _ = rest.outcome.map _
      rw [tail.of_error textsEnd]
      rfl
    | ok words =>
      obtain ⟨restEnds, restWords⟩ := tail.of_ok textsEnd
      rw [Trail.bind_of_ok _ textsEnd]
      refine ⟨?_, ?_⟩
      · rw [Trail.events_pure, List.append_nil, notices]
      · show _ = rest.outcome.map _
        rw [restEnds]
        refine congrArg Except.ok ?_
        rw [List.flatMap_append, ← firstWords, ← restWords]
        rfl

end Retells

namespace Tree

/-- The texts of the children of a node retell the walk through them, if that of each child does. -/
theorem retells_drawingTexts (children : List (Tree Float))
    (each : ∀ child ∈ children, ∀ inherited,
      Retells Text.words (child.drawingText inherited) (child.walk inherited))
    (inherited : Transform Float) :
    Retells (·.flatMap Text.words) (drawingTexts inherited children)
      (walkEach inherited children) := by
  induction children with
  | nil => exact Retells.pure_nil rfl
  | cons child rest inductionHypothesis =>
    rw [drawingTexts, walkEach]
    exact (each child List.mem_cons_self inherited).cons
      (inductionHypothesis fun other member => each other (List.mem_cons_of_mem _ member))

/-- The text of a drawing retells the walk through it. -/
theorem retells_drawingText (tree : Tree Float) :
    ∀ inherited, Retells Text.words (tree.drawingText inherited) (tree.walk inherited) := by
  induction tree using Tree.inductNodes with
  | path head rest tagged =>
    intro inherited
    rw [drawingText_path inherited rest tagged, walk_path inherited rest tagged]
    cases placeTokens inherited (head :: rest) with
    | error failure => exact ⟨rfl, rfl⟩
    | ok tokens => exact ⟨rfl, congrArg Except.ok (List.append_nil _).symm⟩
  | style head rest tagged each =>
    intro inherited
    rw [drawingText_style inherited rest tagged, walk_style inherited rest tagged]
    exact (retells_drawingTexts rest.tail each inherited).map Text.words_intercalate
  | transform head rest tagged each =>
    intro inherited
    cases rest with
    | nil =>
      rw [drawingText_transform_nil inherited tagged, walk_transform_nil inherited tagged]
      exact ⟨rfl, rfl⟩
    | cons matrix children =>
      rw [drawingText_transform inherited matrix children tagged,
        walk_transform inherited matrix children tagged]
      cases matrix.matrix? with
      | error failure => exact ⟨rfl, rfl⟩
      | ok own? =>
        cases own? with
        | none => exact ⟨rfl, rfl⟩
        | some own =>
          exact (retells_drawingTexts children each (inherited.compose own)).map
            Text.words_intercalate
  | passive tree notPath notStyle notTransform =>
    intro inherited
    rw [drawingText_passive inherited notPath notStyle notTransform,
      walk_passive inherited notPath notStyle notTransform]
    exact Retells.pure_nil rfl

end Tree

end SketchForm
