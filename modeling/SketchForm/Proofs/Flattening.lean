/-
This file proves that the text of a drawing is that of its paths, one after another.

There are two ways to the text of a drawing: to write it as a whole, or to look for its
paths and write each by itself. The first goes down the drawing and puts separators
between the texts of parts, also of parts that have none; the second knows nothing of
parts. Word for word they come to the same, on every drawing whose numbers fit and
whatever the tokens of its paths are.
-/
import SketchForm.Proofs.Completion

namespace SketchForm

/-- Each path that was come upon can be written by itself, and the words are those that writing the
whole drawing puts down at its place. -/
theorem exists_mapM_pathText (sightings : List (Sighting Float)) :
    ∃ texts, (sightings.filterMap Sighting.path?).mapM Tree.pathText = .ok texts ∧
      texts.flatMap Text.words = sightings.flatMap Sighting.words := by
  induction sightings with
  | nil => exact ⟨[], rfl, rfl⟩
  | cons sighting rest inductionHypothesis =>
    obtain ⟨texts, written, words⟩ := inductionHypothesis
    cases sighting with
    | malformedMatrix found => exact ⟨texts, written, words⟩
    | path tokens =>
      have isPath : (Sighting.path tokens).path? = some (.sequence .vector tokens) := rfl
      have alone : (Tree.sequence .vector tokens).pathText =
          .ok (Tree.textOfTokens (dropPathTag tokens)) := by
        rw [Tree.pathText, Tree.pathTokens_sequence]
        rfl
      refine ⟨Tree.textOfTokens (dropPathTag tokens) :: texts, ?_, ?_⟩
      · rw [List.filterMap_cons_some isPath, List.mapM_cons, alone, written]
        rfl
      · rw [List.flatMap_cons, List.flatMap_cons, words]
        rfl

/-- A drawing whose numbers fit is written, its paths are all found and each of them is written by
itself; and the words of the text are those of the paths, in order. -/
theorem words_text_eq_words_paths (tree : Tree Float)
    (fits : ∀ number, tree.Uses number → number.Fits) :
    ∃ text texts, tree.text.outcome = .ok text ∧ (tree.walk .identity).outcome = .ok () ∧
      (tree.paths .identity).mapM Tree.pathText = .ok texts ∧
      Text.words text = texts.flatMap Text.words := by
  obtain ⟨text, ends⟩ := tree.endsIff_text.ends fits
  obtain ⟨walked, words⟩ := (tree.retells_drawingText .identity).of_ok ends
  obtain ⟨texts, written, wordsOfPaths⟩ := exists_mapM_pathText (tree.walk .identity).events
  exact ⟨text, texts, ends, walked, written, words.trans wordsOfPaths.symm⟩

/-- With a matrix of two numbers, a bare scalar and an empty path between two paths, one of which
holds an unknown command, a text with spaces and rows within a row. -/
theorem words_text_eq_words_paths_uneven :
    let tree : Tree Float := .sequence .vector [.scalar (.keyword "style"), .scalar .nil,
      .sequence .vector [.scalar (.keyword "transform"), .array [1, 2],
        .sequence .vector [.scalar (.keyword "path"), .scalar (.keyword "Z")]],
      .scalar (.integer 7),
      .sequence .vector [.scalar (.keyword "path"), .scalar (.keyword "Q"),
        .scalar (.text "two  words"),
        .sequence .list [.sequence .tuple [.scalar (.integer 1), .real 0.5], .scalar .nil]],
      .sequence .vector [.scalar (.keyword "path")],
      .sequence .vector [.scalar (.keyword "transform"), .array [1, 0, 0, 1, 10, 0],
        .sequence .vector [.scalar (.keyword "path"), .scalar (.keyword "M"),
          .sequence .plain [.scalar (.integer 1), .real 0.5]]]]
    (∀ number, tree.Uses number → number.Fits) ∧
      ∃ text texts, tree.text.outcome = .ok text ∧ (tree.walk .identity).outcome = .ok () ∧
        (tree.paths .identity).mapM Tree.pathText = .ok texts ∧
        Text.words text = texts.flatMap Text.words := by
  intro tree
  have walked : (tree.walk .identity).outcome = .ok () := by decide +kernel
  have fits : tree.Fits := (tree.endsIff_walk .identity).holds walked
  exact ⟨fits, words_text_eq_words_paths tree fits⟩

end SketchForm
