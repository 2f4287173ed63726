/-
This file proves that a path has one partition into segments, and which.

A path falls into segments in such a way that no keyword stands in a segment but at its
head, and that every segment has one at its head, except perhaps the first, which may
hold tokens that no keyword announces. Cutting at each keyword is the only way to do
that, so these properties say what the segments of a path are, and any lists that
begin with a keyword and hold no other are the segments of the path that they make up.
The tag in front of a path is set aside first, and only once: a second one is a keyword
like any other.
-/
import SketchForm.Proofs.Strokes

namespace SketchForm

variable {R : Type}

/-- The keyword that stands in front of a path. -/
def Tree.pathTag : Tree R := .scalar (.keyword "path")

theorem Tree.isPathTag_iff {head : Tree R} : head.isPathTag ↔ head = pathTag := by
  constructor
  · intro isTag
    obtain ⟨id, isKeyword, isPath⟩ := Option.map_eq_some_iff.mp (beq_iff_eq.mp isTag)
    rw [Tag.ofId] at isPath
    split_ifs at isPath with named
    subst named
    cases head with
    | scalar value =>
      cases value with
      | keyword id => exact congrArg (fun id => scalar (.keyword id)) (Option.some.inj isKeyword)
      | _ => cases isKeyword
    | _ => cases isKeyword
  · rintro rfl
    rfl

theorem Tree.isKeyword_iff {token : Tree R} :
    token.isKeyword ↔ ∃ id, token = .scalar (.keyword id) := by
  constructor
  · intro isKeyword
    cases token with
    | scalar value =>
      cases value with
      | keyword id => exact ⟨id, rfl⟩
      | _ => cases isKeyword
    | _ => cases isKeyword
  · rintro ⟨id, rfl⟩
    rfl

/-- What is left of the tokens of a path without the tag in front of them, if there is one. -/
inductive WithoutTag : List (Tree R) → List (Tree R) → Prop
  | tagged (tokens : List (Tree R)) : WithoutTag (Tree.pathTag :: tokens) tokens
  | untagged {tokens : List (Tree R)} (noTag : tokens.head? ≠ some Tree.pathTag) :
      WithoutTag tokens tokens

theorem withoutTag_dropPathTag (items : List (Tree R)) : WithoutTag items (dropPathTag items) := by
  cases items with
  | nil => exact .untagged nofun
  | cons head rest =>
    rw [dropPathTag]
    split
    · rename_i isTag
      rw [Tree.isPathTag_iff.mp isTag]
      exact .tagged rest
    · rename_i noTag
      exact .untagged fun isTag => noTag (Tree.isPathTag_iff.mpr (Option.some.inj isTag))

/-- Whether lists of tokens are the pieces into which tokens are cut by their keywords. -/
structure CutByKeywords (tokens : List (Tree R)) (parts : List (List (Tree R))) : Prop where
  joined : parts.flatten = tokens
  nonempty : [] ∉ parts
  /-- No keyword stands in a part but at its head. -/
  plain : ∀ part ∈ parts, ∀ token ∈ part.tail, token.isKeyword = false
  /-- Every part but the first has a keyword at its head. -/
  announced : ∀ part ∈ parts.tail, ∃ id rest, part = .scalar (.keyword id) :: rest

/-- Cutting at every keyword is the only way to cut tokens so. -/
theorem splitBy_eq_iff_cutByKeywords {tokens : List (Tree R)} {parts : List (List (Tree R))} :
    tokens.splitBy (fun _ next => !next.isKeyword) = parts ↔ CutByKeywords tokens parts := by
  have linked : ∀ part : List (Tree R),
      (part.IsChain fun _ next => (!next.isKeyword) = true) ↔
        ∀ token ∈ part.tail, token.isKeyword = false := by
    intro part
    simp only [Bool.not_eq_true']
    exact isChain_iff_forall_mem_tail
  have heads : [] ∉ parts →
      ((parts.IsChain fun before after => ∃ _ : before ≠ [], ∃ nonempty : after ≠ [],
          (!(after.head nonempty).isKeyword) = false) ↔
        ∀ part ∈ parts.tail, ∃ id rest, part = .scalar (.keyword id) :: rest) := by
    intro nonempty
    have present : ∀ part ∈ parts, part ≠ [] := fun part member empty => nonempty (empty ▸ member)
    rw [← isChain_iff_forall_mem_tail]
    refine List.IsChain.iff_of_mem_imp fun before after isBefore isAfter => ?_
    obtain ⟨head, rest, rfl⟩ := List.exists_cons_of_ne_nil (present after isAfter)
    simp [present before isBefore, Tree.isKeyword_iff]
  rw [List.splitBy_eq_iff]
  constructor
  · rintro ⟨joined, nonempty, chains, between⟩
    exact ⟨joined.symm, nonempty, fun part member => (linked part).mp (chains part member),
      (heads nonempty).mp between⟩
  · intro cut
    exact ⟨cut.joined.symm, cut.nonempty, fun part member => (linked part).mpr
      (cut.plain part member), (heads cut.nonempty).mpr cut.announced⟩

/-- Every sequence taken as a path has segments. They are the pieces into which its tokens, without
the tag in front if there is one, are cut by their keywords, and there are no others. And lists
that begin with a keyword and hold no other are the segments of the path that they make up behind
a tag. -/
theorem Tree.segments_sequence (kind : SequenceKind) :
    (∀ items : List (Tree Float), ∃ parts tokens,
      (Tree.sequence kind items).segments = .ok parts ∧ WithoutTag items tokens ∧
        CutByKeywords tokens parts ∧ ∀ others, CutByKeywords tokens others → others = parts) ∧
      ∀ parts : List (List (Tree Float)),
        (∀ part ∈ parts, ∃ id rest, part = .scalar (.keyword id) :: rest ∧
          ∀ token ∈ rest, token.isKeyword = false) →
        (Tree.sequence kind (pathTag :: parts.flatten)).segments = .ok parts := by
  constructor
  · intro items
    refine ⟨_, _, rfl, withoutTag_dropPathTag items, splitBy_eq_iff_cutByKeywords.mp rfl, ?_⟩
    exact fun others cut => (splitBy_eq_iff_cutByKeywords.mpr cut).symm
  · intro parts each
    -- The first part has a keyword at its head as well, which is more than is asked for.
    have cut : CutByKeywords parts.flatten parts := by
      refine ⟨rfl, fun empty => ?_, fun part member => ?_, fun part member => ?_⟩
      · obtain ⟨id, rest, isEmpty, _⟩ := each [] empty
        cases isEmpty
      · obtain ⟨id, rest, rfl, plain⟩ := each part member
        exact plain
      · obtain ⟨id, rest, isPart, _⟩ := each part (List.mem_of_mem_tail member)
        exact ⟨id, rest, isPart⟩
    refine congrArg Except.ok ?_
    rw [SketchForm.segments, dropPathTag_cons (isPathTag_iff.mpr rfl)]
    exact splitBy_eq_iff_cutByKeywords.mpr cut

/-- Behind the tag of a path a second one is the keyword of a segment. -/
theorem Tree.segments_sequence_twoTags :
    (Tree.sequence .tuple [pathTag, .scalar (.keyword "M"), .sequence .vector [], pathTag,
        .scalar (.integer 2)]).segments =
      .ok [[.scalar (.keyword "M"), .sequence .vector []], [pathTag, .scalar (.integer 2)]] := by
  refine (segments_sequence .tuple).2 [[.scalar (.keyword "M"), .sequence .vector []],
    [pathTag, .scalar (.integer 2)]] ?_
  rw [List.forall_mem_cons, List.forall_mem_singleton]
  exact ⟨⟨"M", _, rfl, List.forall_mem_singleton.mpr rfl⟩,
    ⟨"path", _, rfl, List.forall_mem_singleton.mpr rfl⟩⟩

end SketchForm
