/-
This file says what text a value has when every node in it has a mode of its own, and
proves that a print gives this text as long as the notes agree with the modes.

The mode, whether texts are written readably or as their characters alone, is handed on
from a value to its parts, but the elements of a node with notes are in the mode of the
node. If all modes are the same, the text is the source of the value's tree. It is
missing only where an integer is too long to be written.

Notes agree with the modes if what is noted on each node is what its mode asks for. A
print keeps that up: where texts are noted it uses them, and where none are it comes to
them by itself and notes them.
-/
import SketchForm.Proofs.Writing
import Mathlib.Data.Set.Basic

namespace SketchForm

namespace Objects

/-! ### Writing a value in several modes -/

/-- The mode for the parts of a value: a node with notes has a mode of its own, and any other value
hands on the mode it is written in. -/
def modeInside (objects : Objects) (modes : ObjectId → Bool) (isReadable : Bool) : Ref → Bool
  | .scalar _ => isReadable
  | .object id => if (objects.look (.object id)).keepsMemo then modes id else isReadable

/-- The source text of a value that is at most so deep, with the elements of each node in the mode
of that node and everything outside such nodes in the mode given. -/
def sourceIn (objects : Objects) (modes : ObjectId → Bool) :
    Nat → Bool → Ref → Except Failure String
  | 0, _, _ => .error .endless
  | depth + 1, isReadable, ref => do
    let inside := objects.modeInside modes isReadable ref
    let texts ← (objects.writtenParts ref).mapM (sourceIn objects modes depth inside)
    objects.sourceOf isReadable ref texts

variable {objects : Objects} {modes : ObjectId → Bool}

theorem modeInside_unnoted {ref : Ref} (unnoted : (objects.look ref).keepsMemo = false)
    (isReadable : Bool) : objects.modeInside modes isReadable ref = isReadable := by
  cases ref with
  | scalar value => rfl
  | object id =>
    rw [modeInside, unnoted]
    rfl

theorem modeInside_node {id : ObjectId} {group : Group} (node : objects.NodeAt id group)
    (isReadable : Bool) : objects.modeInside modes isReadable (.object id) = modes id :=
  if_pos node.keepsMemo

/-- The text of a value is the same from any depth at which its references run out. -/
theorem sourceIn_eq_of_fits {depth deeper : Nat} (further : depth ≤ deeper) {isReadable : Bool}
    {ref : Ref} (fits : objects.Fits depth ref) :
    objects.sourceIn modes deeper isReadable ref = objects.sourceIn modes depth isReadable ref := by
  induction depth generalizing deeper isReadable ref with
  | zero =>
    obtain ⟨_, ends⟩ := fits
    cases ends
  | succ depth inductionHypothesis =>
    cases deeper with
    | zero => exact absurd further (Nat.not_succ_le_zero depth)
    | succ deeper =>
      have part : ∀ inside, ∀ part ∈ objects.writtenParts ref,
          objects.sourceIn modes deeper inside part = objects.sourceIn modes depth inside part :=
        fun _ _ written => inductionHypothesis (Nat.le_of_succ_le_succ further)
          (fits_of_mem_writtenParts fits written)
      rw [sourceIn, sourceIn, mapM_congr (part _)]

/-- The text of a value is put together from those of its written parts, depth being no limit. -/
theorem sourceIn_eq_bind {isReadable : Bool} {ref : Ref} (fits : objects.Fits objects.depth ref) :
    objects.sourceIn modes objects.depth isReadable ref =
      (objects.writtenParts ref).mapM (objects.sourceIn modes objects.depth
        (objects.modeInside modes isReadable ref)) >>= objects.sourceOf isReadable ref := by
  have part : ∀ inside, ∀ part ∈ objects.writtenParts ref,
      objects.sourceIn modes objects.depth inside part =
        objects.sourceIn modes objects.size inside part :=
    fun _ _ written => sourceIn_eq_of_fits (Nat.le_succ _) (fits_of_mem_writtenParts fits written)
  rw [mapM_congr (part _)]
  rfl

/-- There is such a text for every value whose references run out, unless an integer is too long to
be written. -/
theorem endsIff_sourceIn {depth : Nat} {isReadable : Bool} {ref : Ref}
    (fits : objects.Fits depth ref) :
    EndsIff .numeralTooLong (objects.Writable ref)
      (objects.sourceIn modes depth isReadable ref) := by
  induction depth generalizing isReadable ref with
  | zero =>
    obtain ⟨_, ends⟩ := fits
    cases ends
  | succ depth inductionHypothesis =>
    have parts := fun part (written : part ∈ objects.writtenParts ref) =>
      @inductionHypothesis (objects.modeInside modes isReadable ref) part
        (fits_of_mem_writtenParts fits written)
    exact ((EndsIff.mapM parts).bind fun texts _ =>
      endsIff_sourceOf isReadable ref texts).congr writable_iff.symm

/-! ### One mode throughout -/

/-- The source of a tree is that of the value it belongs to, by the sources of the written parts. -/
theorem exists_trees_of_layer (isReadable : Bool) {depth : Nat} {ref : Ref} {tree : Tree Float}
    (short : ∀ value, objects.look ref = .scalar value → value.isWritable = true)
    (layer : Layer (fun part below => objects.unfold depth part = some below)
      (objects.look ref) tree) :
    ∃ trees, List.Forall₂ (fun part below => objects.unfold depth part = some below)
        (objects.writtenParts ref) trees ∧
      objects.sourceOf isReadable ref (trees.map (Tree.source isReadable)) =
        .ok (tree.source isReadable) := by
  unfold writtenParts sourceOf
  generalize objects.look ref = object at layer short
  cases layer with
  | scalar value => exact ⟨[], .nil, if_pos (short value rfl)⟩
  | real value => exact ⟨[], .nil, rfl⟩
  | array values => exact ⟨[], .nil, rfl⟩
  | sequence each =>
    rename_i kind items trees
    cases kind with
    | tuple => exact ⟨[], .nil, rfl⟩
    | vector => exact ⟨trees, each, by rw [← Tree.sources_eq_map]; rfl⟩
    | _ =>
      refine ⟨trees, each, congrArg Except.ok ?_⟩
      show Tree.roundSource (objects.shortForm? items) _ = _
      rw [shortForm?_of_unfold each, ← Tree.sources_eq_map]
      rfl
  | table each =>
    rename_i kind entries trees
    refine ⟨trees.flatMap fun entry => [entry.1, entry.2],
      List.rel_flatMap (P := fun part below => objects.unfold depth part = some below) each
        fun _ _ both => .cons both.1 (.cons both.2 .nil), ?_⟩
    rw [List.map_flatMap, Tree.source, Tree.entrySources_eq_flatMap]
    rfl
  | cell holds =>
    refine ⟨[_], .cons holds .nil, ?_⟩
    simp [Tree.source]
  | function holdsParams holdsBody =>
    rename_i kind params body paramsTree bodyTree
    have same := scalar?_of_unfold holdsBody
    by_cases absent : bodyTree.scalar? = some .null
    · simp only [same, Tree.source, absent, if_true]
      exact ⟨[], .nil, trivial⟩
    · simp only [same, Tree.source, absent, if_false]
      refine ⟨[paramsTree, bodyTree], .cons holdsParams (.cons holdsBody .nil), ?_⟩
      simp [String.append_assoc]

/-- In one mode throughout, the text of a value is the source of its tree. -/
theorem sourceIn_eq_source {isReadable : Bool} (depth : Nat) {ref : Ref} {tree : Tree Float}
    (unfolds : objects.unfold depth ref = some tree) (writable : objects.Writable ref) :
    objects.sourceIn (fun _ => isReadable) depth isReadable ref = .ok (tree.source isReadable) := by
  induction depth generalizing ref tree with
  | zero => cases unfolds
  | succ depth inductionHypothesis =>
    obtain ⟨each, short⟩ := writable_iff.mp writable
    obtain ⟨trees, below, same⟩ :=
      exists_trees_of_layer isReadable short (unfold_succ_iff.mp unfolds)
    have inside : objects.modeInside (fun _ => isReadable) isReadable ref = isReadable := by
      rcases objects.unnoted_or_node ref with unnoted | ⟨id, group, rfl, node⟩
      · exact modeInside_unnoted unnoted isReadable
      · exact modeInside_node node isReadable
    have texts : (objects.writtenParts ref).mapM
        (objects.sourceIn (fun _ => isReadable) depth isReadable) =
          .ok (trees.map (Tree.source isReadable)) :=
      mapM_eq_ok_iff.mpr (List.forall₂_map_right_iff.mpr (forall₂_imp_of_mem
        (fun part written _ ends => inductionHypothesis ends (each part written)) below))
    rw [sourceIn, inside, texts]
    exact same

end Objects

/-! ### Notes that agree with the modes -/

section Modes

variable (objects : Objects) (modes : ObjectId → Bool)

/-- The texts of a node's elements in the mode of the node. -/
def Objects.textsIn (id : ObjectId) (group : Group) : Except Failure (List String) :=
  (group.parts.mapM (objects.sourceIn modes objects.depth (modes id))).map group.elementTexts

/-- Whether all that is noted on a node is what its mode asks for. -/
structure Memo.Follows (id : ObjectId) (group : Group) (memo : Memo) : Prop where
  elementTexts : ∀ texts, memo.elementTexts? = some texts →
    objects.textsIn modes id group = .ok texts
  delimiters : ∀ delimiters, memo.delimiters? = some delimiters → delimiters = group.delimiters

theorem Memo.Follows.none (id : ObjectId) (group : Group) :
    Memo.Follows objects modes id group {} :=
  ⟨nofun, nofun⟩

/-- Whether this holds of the notes on all nodes, and texts are noted on all nodes that were
printed before. -/
def Memos.Follow (printed : Set ObjectId) (memos : Memos) : Prop :=
  ∀ id group, objects.NodeAt id group → (memos id).Follows objects modes id group ∧
    (id ∈ printed → (memos id).elementTexts? ≠ none)

end Modes

variable {objects : Objects} {modes : ObjectId → Bool} {printed : Set ObjectId}

theorem Memos.Follow.update {memos : Memos} (follow : memos.Follow objects modes printed)
    {id : ObjectId} {group : Group} (node : objects.NodeAt id group) {change : Memo → Memo}
    (changed : (memos id).Follows objects modes id group →
      (change (memos id)).Follows objects modes id group)
    (noted : (memos id).elementTexts? ≠ none → (change (memos id)).elementTexts? ≠ none) :
    (memos.update id change).Follow objects modes printed := by
  refine Memos.forall_update (P := fun id memo => ∀ group, objects.NodeAt id group →
    memo.Follows objects modes id group ∧ (id ∈ printed → memo.elementTexts? ≠ none)) follow
      fun other isOther => ?_
  cases node.unique isOther
  obtain ⟨before, isPrinted⟩ := follow id group node
  exact ⟨changed before, fun member => noted (isPrinted member)⟩

/-! ### One print -/

namespace Printing

section Nodes

variable {printPart : Ref → Printing String} {id : ObjectId} {group : Group}
variable (node : objects.NodeAt id group)

include node

/-- With the usual delimiters, the texts of a node's elements make up its source. -/
theorem assemble_textsIn (isReadable : Bool) :
    (objects.textsIn modes id group >>= fun texts => group.assemble group.delimiters texts) =
      (objects.writtenParts (.object id)).mapM (objects.sourceIn modes objects.depth (modes id)) >>=
        objects.sourceOf isReadable (.object id) := by
  rw [Objects.textsIn, Objects.writtenParts_of_ofObject? node.isGroup]
  cases ends : group.parts.mapM (objects.sourceIn modes objects.depth (modes id)) with
  | error failure => rfl
  | ok texts =>
    have count := (mapM_eq_ok_iff.mp ends).length_eq.symm
    exact Group.assemble_eq_sourceOf node.isGroup count isReadable

/-- The texts of a node's elements are those in the mode of the node, if they are printed in this
mode whenever none are noted. -/
theorem keeps_elementTexts_follow
    (parts : id ∉ printed → Keeps (Memos.Follow objects modes printed)
      (group.parts.mapM printPart) (group.parts.mapM
        (objects.sourceIn modes objects.depth (modes id)))) :
    Keeps (Memos.Follow objects modes printed) (elementTexts printPart id group)
      (objects.textsIn modes id group) := by
  refine keeps_elementTexts ?_ ?_ ?_
  · exact fun memos follow texts noted => (follow id group node).1.elementTexts texts noted
  · intro memos follow absent
    exact ⟨_, parts fun member => (follow id group node).2 member absent, rfl⟩
  · intro texts expected memos follow
    refine follow.update node (fun before => ⟨fun noted isNoted => ?_, before.delimiters⟩) nofun
    rw [expected, Option.some.inj isNoted]

theorem keeps_delimiters_follow :
    Keeps (Memos.Follow objects modes printed) (delimiters id group) (.ok group.delimiters) := by
  refine keeps_delimiters ?_ (fun _ _ _ => rfl) ?_
  · exact fun memos follow noted isNoted =>
      ((follow id group node).1.delimiters noted isNoted).symm
  · intro memos follow
    refine follow.update node (fun before => ⟨before.elementTexts, fun noted isNoted => ?_⟩)
      fun noted => noted
    exact (Option.some.inj isNoted).symm

theorem keeps_noteSugar_follow :
    Keeps (Memos.Follow objects modes printed) (noteSugar id group) (.ok ()) :=
  keeps_noteSugar fun _ follow => follow.update node
    (fun before => ⟨before.elementTexts, before.delimiters⟩) fun noted => noted

end Nodes

/-- A value is given its text in the modes of its nodes, if each node in it that was not printed
before has the mode of this print. -/
theorem keeps_print_follow (depth : Nat) (inside : depth ≤ objects.depth) {isReadable : Bool}
    {ref : Ref} (fits : objects.Fits depth ref)
    (first : ∀ id, objects.Involves ref (.object id) → id ∉ printed → modes id = isReadable) :
    Keeps (Memos.Follow objects modes printed) (print objects isReadable depth ref)
      (objects.sourceIn modes objects.depth isReadable ref) := by
  induction depth generalizing ref with
  | zero =>
    obtain ⟨_, ends⟩ := fits
    cases ends
  | succ depth inductionHypothesis =>
    have parts : Keeps (Memos.Follow objects modes printed)
        ((objects.writtenParts ref).mapM (print objects isReadable depth))
        ((objects.writtenParts ref).mapM (objects.sourceIn modes objects.depth isReadable)) :=
      Keeps.mapM fun part written => inductionHypothesis (Nat.le_of_succ_le inside)
        (Objects.fits_of_mem_writtenParts fits written)
        fun id involves => first id (.head written involves)
    rw [Objects.sourceIn_eq_bind (fits.mono inside)]
    rcases objects.unnoted_or_node ref with unnoted | ⟨id, group, rfl, node⟩
    · rw [print_unnoted unnoted, Objects.modeInside_unnoted unnoted]
      exact parts.bind fun _ _ => Keeps.settle _
    · rw [print_node node, Objects.modeInside_node node, ← assemble_textsIn node]
      refine keeps_printNoted (keeps_elementTexts_follow node fun fresh => ?_)
        (keeps_delimiters_follow node) (keeps_noteSugar_follow node)
      rw [Objects.writtenParts_of_ofObject? node.isGroup] at parts
      rw [first id .refl fresh]
      exact parts

end Printing

end SketchForm
