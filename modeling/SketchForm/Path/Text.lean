/-
This file writes paths as text.

The tokens of a path are separated by spaces, keywords without their marker, and the
members of a point are separated by a comma. A drawing is written as the texts of its
parts, again separated by spaces. A part that has no text, like an empty group or a
transform without a proper matrix, still takes part in that, and leaves its separator.
Integers among the tokens are taken to be short enough for the printer to write them out.
-/
import SketchForm.Path.Walk
import SketchForm.Path.Segment

namespace SketchForm

namespace Tree

/-! ### One path -/

mutual

/-- The text of a token. -/
def tokenText : Tree Float → String
  | .sequence _ items => ",".intercalate (tokenTexts items)
  | .array values => ",".intercalate (values.map NumberStyle.printed.write)
  | tree =>
    match tree.keyword? with
    | some id => id
    | none => tree.numberText?.getD tree.display

/-- The texts of the members of a token. -/
def tokenTexts : List (Tree Float) → List String
  | [] => []
  | item :: rest => tokenText item :: tokenTexts rest

end

/-- The text of a path given by its tokens. -/
def textOfTokens (tokens : List (Tree Float)) : String := " ".intercalate (tokens.map tokenText)

/-- The tokens of a value taken as a path, without the tag in front. A value that counts as false
is not asked for its first part. -/
def pathTokens (tree : Tree Float) : Except Failure (List (Tree Float)) := do
  if tree.isTruthy then
    let head ← tree.part 0
    if head.isPathTag then tree.iteratedAfterFirst else tree.iterated
  else tree.iterated

/-- A sequence taken as a path is its members without the tag in front. -/
theorem pathTokens_sequence (kind : SequenceKind) (items : List (Tree Float)) :
    (Tree.sequence kind items).pathTokens = .ok (dropPathTag items) := by
  cases items with
  | nil => rfl
  | cons head rest =>
    simp only [pathTokens, isTruthy, part, part.found, iteratedAfterFirst, iterated, dropPathTag,
      List.isEmpty_cons, Bool.not_false, List.getElem?_cons_zero, List.tail_cons]
    cases isTag : head.isPathTag <;> simp [isTag, bind, Except.bind]

/-- The text of a value taken as a path, its points where they are. -/
def pathText (tree : Tree Float) : Except Failure String := tree.pathTokens.map textOfTokens

/-! ### A drawing -/

mutual

/-- The text of a drawing, under the map of the transforms above it. -/
def drawingText (inherited : Transform Float) : Tree Float → Trail (Notice Float) String
  | .sequence .vector (head :: rest) =>
    match head.asTag? with
    | some .path => do
      let tokens ← Trail.settle (placeTokens inherited (head :: rest))
      Trail.settle (pathText (.sequence .vector tokens))
    | some .style =>
      match rest with
      | [] => pure ""
      | _ :: children => do
        let texts ← drawingTexts inherited children
        pure (" ".intercalate texts)
    | some .transform =>
      match rest with
      | [] => do
        Trail.mark (.malformedMatrix [])
        pure ""
      | matrix :: children => do
        match ← Trail.settle matrix.matrix? with
        | some own => do
          let texts ← drawingTexts (inherited.compose own) children
          pure (" ".intercalate texts)
        | none => do
          Trail.mark (.malformedMatrix [matrix])
          pure ""
    | _ => pure ""
  | _ => pure ""

/-- The texts of the children of a node. -/
def drawingTexts (inherited : Transform Float) :
    List (Tree Float) → Trail (Notice Float) (List String)
  | [] => pure []
  | child :: rest => do
    let text ← drawingText inherited child
    let texts ← drawingTexts inherited rest
    pure (text :: texts)

end

/-! ### The text of a drawing, node by node -/

section Nodes

variable (inherited : Transform Float) {head : Tree Float}

theorem drawingText_path (rest : List (Tree Float)) (tagged : head.asTag? = some .path) :
    drawingText inherited (.sequence .vector (head :: rest)) =
      Trail.settle (placeTokens inherited (head :: rest)) >>= fun tokens =>
        pure (textOfTokens (dropPathTag tokens)) := by
  rw [drawingText.eq_def]
  simp only [tagged, pathText, pathTokens_sequence]
  rfl

theorem drawingText_style (rest : List (Tree Float)) (tagged : head.asTag? = some .style) :
    drawingText inherited (.sequence .vector (head :: rest)) =
      drawingTexts inherited rest.tail >>= fun texts => pure (" ".intercalate texts) := by
  rw [drawingText.eq_def]
  simp only [tagged]
  cases rest with
  | nil => rw [List.tail_nil, drawingTexts]; rfl
  | cons data children => rfl

theorem drawingText_transform_nil (tagged : head.asTag? = some .transform) :
    drawingText inherited (.sequence .vector [head]) =
      Trail.mark (.malformedMatrix []) >>= fun _ => pure "" := by
  rw [drawingText.eq_def]
  simp only [tagged]

theorem drawingText_transform (matrix : Tree Float) (children : List (Tree Float))
    (tagged : head.asTag? = some .transform) :
    drawingText inherited (.sequence .vector (head :: matrix :: children)) =
      Trail.settle matrix.matrix? >>= fun own? =>
        match own? with
        | some own =>
          drawingTexts (inherited.compose own) children >>= fun texts =>
            pure (" ".intercalate texts)
        | none => Trail.mark (.malformedMatrix [matrix]) >>= fun _ => pure "" := by
  rw [drawingText.eq_def]
  simp only [tagged]

theorem drawingText_styleNode (data : Tree Float) (children : List (Tree Float)) :
    drawingText inherited (styleNode data children) =
      drawingTexts inherited children >>= fun texts => pure (" ".intercalate texts) :=
  drawingText_style inherited (data :: children) rfl

theorem drawingText_passive {tree : Tree Float} (notPath : tree.tag? ≠ some .path)
    (notStyle : tree.tag? ≠ some .style) (notTransform : tree.tag? ≠ some .transform) :
    drawingText inherited tree = pure "" := by
  rw [drawingText.eq_def]
  split
  · split
    · exact absurd ‹_› notPath
    · exact absurd ‹_› notStyle
    · exact absurd ‹_› notTransform
    · rfl
  · rfl

end Nodes

theorem drawingTexts_append (inherited : Transform Float) (front back : List (Tree Float)) :
    drawingTexts inherited (front ++ back) =
      drawingTexts inherited front >>= fun texts =>
        drawingTexts inherited back >>= fun others => pure (texts ++ others) := by
  induction front with
  | nil => simp only [List.nil_append, drawingTexts, pure_bind, bind_pure]
  | cons child rest hypothesis =>
    simp only [List.cons_append, drawingTexts, hypothesis, bind_assoc, pure_bind]

/-- The text of a drawing. -/
def text (tree : Tree Float) : Trail (Notice Float) String := tree.drawingText .identity

end Tree

end SketchForm
