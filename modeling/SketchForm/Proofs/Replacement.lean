/-
This file proves that a group is as good as its children.

A node that is reached takes part in a drawing by what a walk comes upon below it and by
its text, both under the map of the transforms above it. So another node that agrees with
it in these, whatever that map is, can stand in its place, at any depth, and the drawing is
compiled as before. It is enough to go up one node at a time: what surrounds the place
stays as it is.

A group with style data adds nothing of its own. The walk through it is that through its
children, and its text is theirs, joined as they would be without it. Joining by spaces is
associative, but only where there is something to join: a group without children leaves an
empty text, and with it a separator that taking the group away would remove. The style
data itself is never looked at.
-/
import SketchForm.Path.Drawing
import SketchForm.Path.Text
import SketchForm.Proofs.Occurrence

namespace SketchForm

namespace Tree

variable {R : Type}

/-! ### Nodes in the place of others -/

/-- The tree with another one in the place of what stands at a position. -/
def replaceAt : Tree R → List Nat → Tree R → Tree R
  | _, [], new => new
  | .sequence kind items, place :: below, new =>
    .sequence kind (items.modify place fun child => child.replaceAt below new)
  | tree, _ :: _, _ => tree

theorem LetsThrough.untagged? {tree : Tree R} (letsThrough : tree.LetsThrough) :
    tree.untagged? = none := by
  have tagged : tree.tag? = some .style ∨ tree.tag? = some .transform :=
    letsThrough.imp_right And.left
  unfold Tree.untagged?
  split
  · rename_i head rest
    have isTag : (sequence .vector (head :: rest)).tag? = head.asTag? := rfl
    rcases tagged with isTag' | isTag' <;> rw [← isTag, isTag']
  · rfl

/-- A node that lets through is a vector with at least two members before any child, and what is put
in the place of a part of a child leaves all of the node but that child as it is. -/
theorem LetsThrough.exists_replaceAt {tree child : Tree R} (letsThrough : tree.LetsThrough)
    {place : Nat} (late : 2 ≤ place) (isMember : tree.member? place = some child)
    (below : List Nat) (new : Tree R) :
    ∃ head second front back,
      tree = .sequence .vector (head :: second :: (front ++ child :: back)) ∧
        tree.replaceAt (place :: below) new =
          .sequence .vector (head :: second :: (front ++ child.replaceAt below new :: back)) := by
  obtain ⟨items, rfl⟩ : ∃ items, tree = .sequence .vector items := by
    match tree, letsThrough with
    | .sequence .vector items, _ => exact ⟨items, rfl⟩
  have isItem : items[place]? = some child := isMember
  obtain ⟨inside, _⟩ := List.getElem?_eq_some_iff.mp isItem
  obtain ⟨before, other, back, split, count, modified⟩ :=
    List.exists_of_modify (fun child => child.replaceAt below new) inside
  subst split count
  rw [List.getElem?_append_right (Nat.le_refl _), Nat.sub_self] at isItem
  cases isItem
  match before, late, modified with
  | head :: second :: front, _, modified =>
    exact ⟨head, second, front, back, rfl, congrArg (sequence .vector) modified⟩

section Walks

variable [Measure R]

/-- The walk through a node that lets through sees the children only by the walk through them. -/
theorem walk_congr_children {head second : Tree R} {children others : List (Tree R)}
    (letsThrough : (sequence .vector (head :: second :: children)).LetsThrough)
    (same : ∀ inner, walkEach inner others = walkEach inner children) (inherited : Transform R) :
    walk inherited (.sequence .vector (head :: second :: others)) =
      walk inherited (.sequence .vector (head :: second :: children)) := by
  rcases letsThrough with style | ⟨transform, _⟩
  · rw [walk_style inherited _ style, walk_style inherited _ style]
    exact same inherited
  · rw [walk_transform inherited second _ transform, walk_transform inherited second _ transform]
    simp only [same]

/-- A node that is walked through like the one that is reached may stand in its place. -/
theorem Reaches.walk_replaceAt {tree node new : Tree R} {position : List Nat}
    (reaches : tree.Reaches position node)
    (same : ∀ inherited, new.walk inherited = node.walk inherited) (inherited : Transform R) :
    (tree.replaceAt position new).walk inherited = tree.walk inherited := by
  induction position generalizing tree inherited with
  | nil =>
    cases reaches_nil.mp reaches
    exact same inherited
  | cons place below inductionHypothesis =>
    obtain ⟨letsThrough, late, child, isMember, reachesChild⟩ :=
      reaches_cons.mp reaches
    obtain ⟨head, second, front, back, rfl, replaced⟩ :=
      letsThrough.exists_replaceAt late isMember below new
    rw [replaced]
    refine walk_congr_children letsThrough (fun inner => ?_) inherited
    rw [walkEach_append, walkEach_append, walkEach, walkEach, inductionHypothesis reachesChild]

/-- Where no path without its tag is concerned, drawing follows the walk. -/
theorem draw_eq_of_walk {tree other : Tree R} (tagged : tree.untagged? = none)
    (otherTagged : other.untagged? = none)
    (same : other.walk .identity = tree.walk .identity) : other.draw = tree.draw := by
  rw [draw_of_untagged? tagged, draw_of_untagged? otherTagged, same]

/-- The same for drawing, where neither node is a path without its tag. -/
theorem Reaches.draw_replaceAt {tree node new : Tree R} {position : List Nat}
    (reaches : tree.Reaches position node) (tagged : node.untagged? = none)
    (newTagged : new.untagged? = none)
    (same : ∀ inherited, new.walk inherited = node.walk inherited) :
    (tree.replaceAt position new).draw = tree.draw := by
  have walked := reaches.walk_replaceAt same .identity
  cases position with
  | nil =>
    cases reaches_nil.mp reaches
    exact draw_eq_of_walk tagged newTagged walked
  | cons place below =>
    obtain ⟨letsThrough, late, child, isMember, _⟩ := reaches_cons.mp reaches
    obtain ⟨head, second, front, back, rfl, replaced⟩ :=
      letsThrough.exists_replaceAt late isMember below new
    refine draw_eq_of_walk letsThrough.untagged? ?_ walked
    rw [replaced]
    have alsoLetsThrough : (sequence .vector
        (head :: second :: (front ++ child.replaceAt below new :: back))).LetsThrough := letsThrough
    exact alsoLetsThrough.untagged?

end Walks

/-- The text of a node that lets through sees the children only by their texts joined. -/
theorem drawingText_congr_children {head second : Tree Float} {children others : List (Tree Float)}
    (letsThrough : (sequence .vector (head :: second :: children)).LetsThrough)
    (same : ∀ inner, (drawingTexts inner others >>= fun texts => pure (" ".intercalate texts)) =
      drawingTexts inner children >>= fun texts => pure (" ".intercalate texts))
    (inherited : Transform Float) :
    drawingText inherited (.sequence .vector (head :: second :: others)) =
      drawingText inherited (.sequence .vector (head :: second :: children)) := by
  rcases letsThrough with style | ⟨transform, _⟩
  · rw [drawingText_style inherited _ style, drawingText_style inherited _ style]
    exact same inherited
  · rw [drawingText_transform inherited second _ transform,
      drawingText_transform inherited second _ transform]
    simp only [same]

/-- A node that is written like the one that is reached may stand in its place. -/
theorem Reaches.drawingText_replaceAt {tree node new : Tree Float} {position : List Nat}
    (reaches : tree.Reaches position node)
    (same : ∀ inherited, new.drawingText inherited = node.drawingText inherited)
    (inherited : Transform Float) :
    (tree.replaceAt position new).drawingText inherited = tree.drawingText inherited := by
  induction position generalizing tree inherited with
  | nil =>
    cases reaches_nil.mp reaches
    exact same inherited
  | cons place below inductionHypothesis =>
    obtain ⟨letsThrough, late, child, isMember, reachesChild⟩ :=
      reaches_cons.mp reaches
    obtain ⟨head, second, front, back, rfl, replaced⟩ :=
      letsThrough.exists_replaceAt late isMember below new
    rw [replaced]
    refine drawingText_congr_children letsThrough (fun inner => ?_) inherited
    rw [drawingTexts_append, drawingTexts_append, drawingTexts, drawingTexts,
      inductionHypothesis reachesChild]

/-! ### Groups and their children -/

/-- A group among the children of a node is walked through like its own children in its place. -/
theorem walkEach_styleNode [Measure R] (inherited : Transform R) (front : List (Tree R))
    (data : Tree R) (children back : List (Tree R)) :
    walkEach inherited (front ++ styleNode data children :: back) =
      walkEach inherited (front ++ children ++ back) := by
  rw [walkEach_append, walkEach, walk_styleNode, List.append_assoc, walkEach_append,
    walkEach_append]

/-- Joining the texts of children as one of their siblings is joining all of them at once, if there
are any. -/
theorem intercalate_append_intercalate (front back : List String) {texts : List String}
    (nonempty : texts ≠ []) :
    " ".intercalate (front ++ " ".intercalate texts :: back) =
      " ".intercalate (front ++ texts ++ back) := by
  have later : " ".intercalate (" ".intercalate texts :: back) =
      " ".intercalate (texts ++ back) := by
    cases back with
    | nil => rw [String.intercalate_singleton, List.append_nil]
    | cons text others =>
      rw [String.intercalate_cons_cons,
        String.intercalate_append_of_ne_nil nonempty (List.cons_ne_nil _ _)]
  cases front with
  | nil => exact later
  | cons text others =>
    have some : texts ++ back ≠ [] := List.append_ne_nil_of_left_ne_nil nonempty back
    rw [String.intercalate_append_of_ne_nil (List.cons_ne_nil _ _) (List.cons_ne_nil _ _), later,
      List.append_assoc, String.intercalate_append_of_ne_nil (List.cons_ne_nil _ _) some]

/-- A group with children leaves the same text among its siblings as its children in its place. -/
theorem drawingTexts_styleNode (inherited : Transform Float) (front : List (Tree Float))
    (data : Tree Float) {children : List (Tree Float)} (nonempty : children ≠ [])
    (back : List (Tree Float)) :
    (drawingTexts inherited (front ++ children ++ back) >>= fun texts =>
        pure (" ".intercalate texts)) =
      drawingTexts inherited (front ++ styleNode data children :: back) >>= fun texts =>
        pure (" ".intercalate texts) := by
  obtain ⟨child, rest, rfl⟩ := List.exists_cons_of_ne_nil nonempty
  -- Written out, the texts of the children are a list that is not empty, whatever they are.
  simp only [List.append_assoc, drawingTexts_append, drawingTexts, drawingText_styleNode,
    bind_assoc, pure_bind, intercalate_append_intercalate _ _ (List.cons_ne_nil _ _)]

/-- Whether one drawing is compiled like another: written as the same text and drawn with the same
commands, with the same notices in both, or failing alike. -/
structure CompiledLike (tree other : Tree Float) : Prop where
  text : tree.text = other.text
  draw : tree.draw = other.draw
  commands : tree.commands = other.commands

theorem Reaches.compiledLike_replaceAt {tree node new : Tree Float} {position : List Nat}
    (reaches : tree.Reaches position node) (tagged : node.untagged? = none)
    (newTagged : new.untagged? = none)
    (walked : ∀ inherited, new.walk inherited = node.walk inherited)
    (written : ∀ inherited, new.drawingText inherited = node.drawingText inherited) :
    (tree.replaceAt position new).CompiledLike tree := by
  have drawn := reaches.draw_replaceAt tagged newTagged walked
  refine ⟨reaches.drawingText_replaceAt written .identity, drawn, ?_⟩
  rw [commands, commands, drawn]

/-- A drawing is compiled as before when a group that has children, and that is reached as a child
of another node, is replaced there by its children. And whatever the style data of a group that is
reached is replaced by, the drawing is compiled as before. -/
theorem compiledLike_without_group (tree : Tree Float) :
    (∀ position front data children back,
      tree.Reaches position (.sequence .vector (front ++ styleNode data children :: back)) →
      (sequence .vector (front ++ styleNode data children :: back)).LetsThrough →
      2 ≤ front.length → children ≠ [] →
        (tree.replaceAt position (.sequence .vector (front ++ children ++ back))).CompiledLike
          tree) ∧
      ∀ position data other children, tree.Reaches position (styleNode data children) →
        (tree.replaceAt position (styleNode other children)).CompiledLike tree := by
  constructor
  · intro position front data children back reaches letsThrough late nonempty
    match front, late with
    | head :: second :: front, _ =>
      have newLetsThrough :
          (sequence .vector (head :: second :: (front ++ children ++ back))).LetsThrough :=
        letsThrough
      refine reaches.compiledLike_replaceAt letsThrough.untagged? newLetsThrough.untagged? ?_ ?_
      · exact walk_congr_children letsThrough fun inner =>
          (walkEach_styleNode inner front data children back).symm
      · exact drawingText_congr_children letsThrough fun inner =>
          drawingTexts_styleNode inner front data nonempty back
  · intro position data other children reaches
    refine reaches.compiledLike_replaceAt rfl rfl (fun inherited => ?_) fun inherited => ?_
    · rw [walk_styleNode, walk_styleNode]
    · rw [drawingText_styleNode, drawingText_styleNode]

/-- A group with a path for its style data, between a number and a path, in a group below a scaling:
its children take its place, and then its style data is another. -/
theorem compiledLike_without_group_scaled :
    let path : Tree Float := pathNode [.scalar (.keyword "M"), .array [1, 2]]
    let front : List (Tree Float) :=
      [.scalar (.keyword "style"), .scalar .nil, .scalar (.integer 7)]
    let group := styleNode path [path, .scalar (.integer 8)]
    let tree :=
      transformNode (.array [2, 0, 0, 2, 0, 0]) [.sequence .vector (front ++ [group, path])]
    tree.Reaches [2] (.sequence .vector (front ++ [group, path])) ∧
      tree.Reaches [2, 3] group ∧ tree.text.outcome = .ok " M 2,4  M 2,4" ∧
      (tree.replaceAt [2]
        (.sequence .vector (front ++ [path, .scalar (.integer 8), path]))).CompiledLike tree ∧
      (tree.replaceAt [2, 3] (styleNode (.scalar .nil) [path, .scalar (.integer 8)])).CompiledLike
        tree := by
  intro path front group tree
  have letsThrough : tree.LetsThrough := Or.inr ⟨rfl, _, rfl, _, rfl, rfl⟩
  have inner : (sequence .vector (front ++ [group, path])).LetsThrough := Or.inl rfl
  have reaches : tree.Reaches [2] (.sequence .vector (front ++ [group, path])) :=
    reaches_cons.mpr ⟨letsThrough, Nat.le_refl 2, _, rfl, reaches_nil.mpr rfl⟩
  have reachesGroup : tree.Reaches [2, 3] group :=
    reaches_cons.mpr ⟨letsThrough, Nat.le_refl 2, _, rfl,
      reaches_cons.mpr ⟨inner, by decide, _, rfl, reaches_nil.mpr rfl⟩⟩
  obtain ⟨ungrouped, restyled⟩ := compiledLike_without_group tree
  exact ⟨reaches, reachesGroup, by decide +kernel,
    ungrouped [2] front path _ [path] reaches inner (by decide) (List.cons_ne_nil _ _),
    restyled [2, 3] path _ _ reachesGroup⟩

/-- An empty group leaves a separator. -/
example :
    let path : Tree Float := pathNode [.scalar (.keyword "Z")]
    (styleNode (.scalar .nil) [styleNode (.scalar .nil) [], path]).text.outcome = .ok " Z" ∧
      (styleNode (.scalar .nil) [path]).text.outcome = .ok "Z" := by
  decide +kernel

end Tree

end SketchForm
