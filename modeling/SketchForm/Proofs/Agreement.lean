/-
This file proves that the text of a drawing and its strokes say the same.

A drawing whose paths consist of complete segments can be taken two ways: as text, or
as the commands that drawing it leaves on a canvas. Word for word the text lists the
commands, each by its letter and its points. Since writing retells a walk, it is enough
to see this of one path, and there the tokens of a complete segment are written as the
words of the one command they draw. A path is drawn and written as placed, and in a
placed path every point is a pair of reals, which is why no point is drawn otherwise
than it is written.
-/
import Mathlib.Data.Set.List
import SketchForm.Proofs.Placed
import SketchForm.Proofs.Retelling
import SketchForm.Proofs.Strokes

namespace SketchForm

/-! ### Commands as words -/

/-- A point as a word: its coordinates with a comma between them. -/
def pointWord (point : Float × Float) : String :=
  NumberStyle.printed.write point.1 ++ "," ++ NumberStyle.printed.write point.2

/-- A command as words: its letter and then its points. -/
def Command.words (command : Command Float) : List String :=
  command.stroke.letter :: command.points.map pointWord

theorem words_pointWord (point : Float × Float) :
    Text.words (pointWord point) = [pointWord point] := by
  refine Text.words_of_solid ?_ ?_
  · intro empty
    have first := (String.append_eq_empty_iff.mp (String.append_eq_empty_iff.mp empty).1).1
    exact NumberStyle.write_ne_empty point.1 first
  · rw [pointWord, String.toList_append, String.toList_append]
    simp only [List.mem_append, not_or]
    exact ⟨⟨NumberStyle.notMem_write_of_not_isNumeralChar point.1 rfl, by decide⟩,
      NumberStyle.notMem_write_of_not_isNumeralChar point.2 rfl⟩

theorem words_letter (stroke : Stroke) : Text.words stroke.letter = [stroke.letter] := by
  cases stroke <;> decide

theorem tokenText_ofPoint (point : Float × Float) :
    (Tree.ofPoint point).tokenText = pointWord point := by
  simp only [Tree.ofPoint, Tree.tokenText, Tree.tokenTexts, Tree.keyword?, Tree.numberText?,
    Option.getD_some, String.intercalate_cons_cons, String.intercalate_singleton]
  rfl

/-- The words of the text of a path are those of its tokens, one after another. -/
theorem words_textOfTokens (tokens : List (Tree Float)) :
    Text.words (Tree.textOfTokens tokens) =
      tokens.flatMap fun token => Text.words token.tokenText := by
  rw [Tree.textOfTokens, Text.words_intercalate, List.flatMap_map]

/-! ### One path -/

/-- A path all of whose segments are complete. -/
def IsCompletePath {R : Type} (path : Tree R) : Prop :=
  ∃ tag tokens, path = .sequence .vector (tag :: tokens) ∧ CompleteSegments tokens

/-- Placed tokens that are complete segments are written as the words of the commands they draw. -/
theorem words_tokens_eq_words_commands {tag : Tree Float} (isTag : tag.isPathTag)
    {tokens : List (Tree Float)} (complete : CompleteSegments tokens)
    (placed : ∀ token ∈ tokens, token.isPoint → ∃ point, Tree.ofPoint point = token) :
    Text.words (Tree.textOfTokens tokens) =
      ((marks (tag :: tokens)).filterMap Mark.command?).flatMap Command.words := by
  induction complete with
  | nil =>
    rw [marks, segments, dropPathTag_cons isTag]
    rfl
  | @cons stroke points rest count each complete inductionHypothesis =>
    have range : ∀ point ∈ points, point ∈ Set.range Tree.ofPoint := fun point member =>
      placed point (List.mem_cons_of_mem _ (List.mem_append_left _ member)) (each point member)
    obtain ⟨pairs, rfl⟩ : points ∈ Set.range (List.map Tree.ofPoint) := by
      rw [Set.range_list_map]
      exact range
    have others := inductionHypothesis fun token member =>
      placed token (List.mem_cons_of_mem _ (List.mem_append_right _ member))
    rw [List.length_map] at count
    have drawn := marks_append isTag (.scalar (.keyword stroke.letter) :: pairs.map Tree.ofPoint)
      complete.begins
    rw [List.cons_append, marks_stroke isTag stroke count] at drawn
    have written : (pairs.map Tree.ofPoint).flatMap (fun token => Text.words token.tokenText) =
        pairs.map pointWord := by
      rw [List.flatMap_map]
      simp only [tokenText_ofPoint, words_pointWord]
      exact List.map_eq_flatMap.symm
    rw [drawn, List.filterMap_append, List.flatMap_append, ← others, words_textOfTokens,
      words_textOfTokens, List.flatMap_cons, List.flatMap_append, written]
    show Text.words stroke.letter ++ _ = Command.words ⟨stroke, pairs⟩ ++ [] ++ _
    rw [words_letter, List.append_nil]
    rfl

/-! ### A whole drawing -/

/-- What is come upon, if its path is complete, is written as the words of the commands it draws. -/
theorem sighting_words_eq {tree : Tree Float} {inherited : Transform Float}
    {sighting : Sighting Float} (found : sighting ∈ (tree.walk inherited).events)
    (complete : ∀ path ∈ sighting.path?, IsCompletePath path) :
    sighting.words = (sighting.marks.filterMap Mark.command?).flatMap Command.words := by
  cases sighting with
  | malformedMatrix found => rfl
  | path tokens =>
    obtain ⟨matrix, head, rest, tagged, ends⟩ := Tree.isPlacedPath_of_mem_walk tree _ _ found
    obtain ⟨others, rfl, othersPlaced⟩ := placeTokens_cons_tag tagged ends
    obtain ⟨tag, run, same, complete⟩ := complete _ rfl
    obtain ⟨rfl, rfl⟩ := List.cons.inj (Tree.sequence.inj same).2
    have isTag : head.isPathTag := by rw [Tree.isPathTag, tagged]; rfl
    rw [Sighting.words, dropPathTag_cons isTag]
    exact words_tokens_eq_words_commands isTag complete fun token member =>
      exists_ofPoint_of_mem_placeTokens othersPlaced member

/-- A drawing of complete segments is drawn whenever it can be written, and the words of its text
are its commands, in order, each by its letter and its points. -/
theorem words_text_eq_words_commands (tree : Tree Float) (text : String)
    (tagged : tree.untagged? = none)
    (complete : ∀ path ∈ tree.paths .identity, IsCompletePath path)
    (fits : tree.text.outcome = .ok text) :
    tree.draw.outcome = .ok () ∧
      Text.words text = tree.commands.flatMap Command.words := by
  obtain ⟨walked, words⟩ := (Tree.retells_drawingText tree .identity).of_ok fits
  have drawn : tree.draw = (tree.walk .identity).expand Sighting.marks := by
    rw [Tree.draw, tagged]
  refine ⟨?_, ?_⟩
  · rw [drawn, Trail.outcome_expand, walked]
  · have each : ∀ sighting ∈ (tree.walk .identity).events,
        sighting.words = (sighting.marks.filterMap Mark.command?).flatMap Command.words := by
      intro sighting found
      refine sighting_words_eq found fun path isPath => complete path ?_
      exact List.mem_filterMap.mpr ⟨sighting, found, isPath⟩
    rw [words, Tree.commands, drawn, Trail.expand, List.filterMap_flatMap, List.flatMap_assoc]
    exact List.flatMap_congr each

/-- A group with style data, a number that draws nothing, and a path below a translation. -/
theorem words_text_eq_words_commands_translated :
    let tree : Tree Float := .sequence .vector [.scalar (.keyword "style"), .scalar .nil,
      .scalar (.integer 42),
      .sequence .vector [.scalar (.keyword "transform"), .array [1, 0, 0, 1, 10, 0],
        .sequence .vector [.scalar (.keyword "path"), .scalar (.keyword "M"), .array [2, 0.5],
          .scalar (.keyword "Z")]]]
    tree.untagged? = none ∧ (∀ path ∈ tree.paths .identity, IsCompletePath path) ∧
      tree.text.outcome = .ok " M 12,0.5 Z" ∧ tree.draw.outcome = .ok () ∧
      Text.words " M 12,0.5 Z" = tree.commands.flatMap Command.words := by
  intro tree
  have complete : ∀ path ∈ tree.paths .identity, IsCompletePath path := by
    intro path member
    rw [List.mem_singleton.mp member]
    have close : CompleteSegments [(Tree.scalar (.keyword "Z") : Tree Float)] :=
      @CompleteSegments.cons _ .close [] [] rfl nofun .nil
    exact ⟨_, _, rfl, @CompleteSegments.cons _ .move [_] _ rfl (by decide) close⟩
  have fits : tree.text.outcome = .ok " M 12,0.5 Z" := by decide +kernel
  exact ⟨rfl, complete, fits, words_text_eq_words_commands tree _ rfl complete fits⟩

end SketchForm
