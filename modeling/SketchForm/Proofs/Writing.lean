/-
This file says how a value is written, by the texts of the parts that are written with it.

Whatever is noted and whichever mode is in force, a value is written in layers: the texts
of its parts are put between brackets, behind a mark or behind a name, and a scalar or a
number is a text by itself. Not all parts take part in that. A tuple has no written form,
so its members are not written, and of a function without a body neither are the
parameters. What the printer does at one value is to print these parts and to put their
texts together, and where nothing is noted on a value that is all it does. The one thing
that can go wrong in this is an integer that is too long to be written.
-/
import Mathlib.Algebra.Group.Nat.Defs
import SketchForm.Proofs.Acyclic
import SketchForm.Proofs.Ending
import SketchForm.Proofs.Keeping
import SketchForm.Proofs.Source

namespace SketchForm

/-! ### Integers that are too long -/

theorem Scalar.endsIff_print (value : Scalar) (isReadable : Bool) :
    EndsIff .numeralTooLong (value.isWritable = true) (value.print isReadable) :=
  ⟨fun short => ⟨_, if_pos short⟩, fun long => if_neg long⟩

/-! ### Short forms -/

/-- The three short forms there are. -/
theorem Sugar.ofSequence?_eq_some {head : Scalar} {length : Nat} {sugar : Sugar}
    (short : Sugar.ofSequence? head length = some sugar) :
    (head = .symbol "quote" ∧ length = 2 ∧ sugar = ⟨2, "'"⟩) ∨
      (head = .symbol "ui-annotate" ∧ length = 3 ∧ sugar = ⟨3, "#"⟩) ∨
      (head = .symbol "with-meta-sugar" ∧ length = 3 ∧ sugar = ⟨3, "^"⟩) := by
  cases head with
  | symbol name =>
    obtain ⟨known, same⟩ := Option.filter_eq_some_iff.mp short
    have length_eq : length = sugar.length := (beq_iff_eq.mp same).symm
    rw [ofHead?] at known
    split_ifs at known with isQuote isAnnotation isMeta
    · cases known
      exact .inl ⟨congrArg Scalar.symbol isQuote, length_eq, rfl⟩
    · cases known
      exact .inr (.inl ⟨congrArg Scalar.symbol isAnnotation, length_eq, rfl⟩)
    · cases known
      exact .inr (.inr ⟨congrArg Scalar.symbol isMeta, length_eq, rfl⟩)
  | _ => cases short

theorem Sugar.length_eq_of_ofSequence? {head : Scalar} {length : Nat} {sugar : Sugar}
    (short : Sugar.ofSequence? head length = some sugar) : length = sugar.length ∧ length ≠ 0 := by
  rcases ofSequence?_eq_some short with ⟨_, rfl, rfl⟩ | ⟨_, rfl, rfl⟩ | ⟨_, rfl, rfl⟩
  · exact ⟨rfl, by decide⟩
  · exact ⟨rfl, by decide⟩
  · exact ⟨rfl, by decide⟩

namespace Objects

variable {objects : Objects}

/-- The short form of a sequence with these members, if it has one. -/
def shortForm? (objects : Objects) (items : List Ref) : Option Sugar :=
  (items.head?.bind objects.scalar?).bind fun head => Sugar.ofSequence? head items.length

/-- A reference leads to the scalar that its tree is. -/
theorem scalar?_of_unfold {depth : Nat} {ref : Ref} {tree : Tree Float}
    (ends : objects.unfold depth ref = some tree) : objects.scalar? ref = tree.scalar? := by
  cases depth with
  | zero => cases ends
  | succ depth =>
    have layer := unfold_succ_iff.mp ends
    rw [scalar?]
    cases found : objects.look ref <;> rw [found] at layer <;> cases layer <;> rfl

/-- The short form of a node is that of its tree. -/
theorem shortForm?_of_unfold {depth : Nat} {items : List Ref} {trees : List (Tree Float)}
    (each : List.Forall₂ (fun part tree => objects.unfold depth part = some tree) items trees) :
    objects.shortForm? items = Tree.shortForm? trees := by
  rw [shortForm?, Tree.shortForm?, ← each.length_eq]
  cases each with
  | nil => rfl
  | cons ends _ =>
    rw [List.head?_cons, List.head?_cons, Option.bind_some, Option.bind_some,
      scalar?_of_unfold ends]

/-! ### One layer of a value -/

/-- The parts that are written when a value is written. -/
def writtenParts (objects : Objects) (ref : Ref) : List Ref :=
  match objects.look ref with
  | .sequence .tuple _ => []
  | .function _ params body => if objects.scalar? body = some .null then [] else [params, body]
  | object => object.parts

/-- Whether writing a value involves writing another: the value itself, or one below it that is not
passed by. -/
def Involves (objects : Objects) : Ref → Ref → Prop :=
  Relation.ReflTransGen fun container part => part ∈ objects.writtenParts container

/-- Whether a value is written out whole: nothing that writing it involves is an integer with too
many digits. -/
def Writable (objects : Objects) (ref : Ref) : Prop :=
  ∀ part value, objects.Involves ref part → objects.look part = .scalar value →
    value.isWritable = true

/-- The source text of a value by those of its written parts. Only a scalar depends on the mode
itself, and only a scalar can be too long. -/
def sourceOf (objects : Objects) (isReadable : Bool) (ref : Ref) (texts : List String) :
    Except Failure String :=
  match objects.look ref with
  | .scalar value => value.print isReadable
  | .real value => .ok (NumberStyle.printed.write value)
  | .sequence kind items =>
    match kind with
    | .list | .plain => .ok (Tree.roundSource (objects.shortForm? items) texts)
    | .vector => .ok ("[" ++ " ".intercalate texts ++ "]")
    | .tuple => .ok undefinedText
  | .table _ _ => .ok ("\x7b" ++ " ".intercalate texts ++ "\x7d")
  | .array _ => .ok undefinedText
  | .cell _ => .ok ("(atom " ++ " ".intercalate texts ++ ")")
  | .function kind _ body =>
    if objects.scalar? body = some .null then .ok nativeFunctionText
    else .ok ("(" ++ kind.typeName ++ " " ++ " ".intercalate texts ++ ")")

/-- A value is written out whole if it is no integer with too many digits and its written parts are
written out whole. -/
theorem writable_iff {ref : Ref} :
    objects.Writable ref ↔ (∀ part ∈ objects.writtenParts ref, objects.Writable part) ∧
      ∀ value, objects.look ref = .scalar value → value.isWritable = true := by
  constructor
  · intro writable
    exact ⟨fun part written below value involves => writable below value (.head written involves),
      fun value => writable ref value .refl⟩
  · rintro ⟨parts, own⟩ below value involves isScalar
    rcases Relation.ReflTransGen.cases_head involves with rfl | ⟨part, written, further⟩
    · exact own value isScalar
    · exact parts part written below value further isScalar

/-- Putting the texts of the written parts together can fail at an integer only. -/
theorem endsIff_sourceOf (isReadable : Bool) (ref : Ref) (texts : List String) :
    EndsIff .numeralTooLong (∀ value, objects.look ref = .scalar value → value.isWritable = true)
      (objects.sourceOf isReadable ref texts) := by
  rw [sourceOf]
  generalize objects.look ref = object
  cases object with
  | scalar value =>
    refine (value.endsIff_print isReadable).congr ⟨fun short other same => ?_, fun each => ?_⟩
    · cases same
      exact short
    · exact each value rfl
  | sequence kind items => cases kind <;> exact .ok nofun _
  | function kind params body =>
    dsimp only
    split
    · exact .ok nofun _
    · exact .ok nofun _
  | _ => exact .ok nofun _

theorem mem_parts_of_mem_writtenParts {ref part : Ref} (written : part ∈ objects.writtenParts ref) :
    part ∈ (objects.look ref).parts := by
  rw [writtenParts] at written
  split at written
  · exact absurd written List.not_mem_nil
  · rename_i isFunction
    rw [isFunction]
    split at written
    · exact absurd written List.not_mem_nil
    · exact written
  · exact written

theorem fits_of_mem_writtenParts {depth : Nat} {ref part : Ref}
    (fits : objects.Fits (depth + 1) ref) (written : part ∈ objects.writtenParts ref) :
    objects.Fits depth part :=
  fits_succ_iff.mp fits part (mem_parts_of_mem_writtenParts written)

/-- The elements of a node are what it holds. -/
theorem parts_of_ofObject? {object : Object} {group : Group}
    (isGroup : Group.ofObject? objects object = some group) : group.parts = object.parts := by
  have inRound : ∀ (head? : Option Scalar) (items : List Ref),
      (Group.round head? items).parts = items := by
    intro head? items
    rw [Group.round]
    split <;> rfl
  cases object with
  | sequence kind items =>
    cases kind with
    | list => cases isGroup; exact inRound _ items
    | plain => cases isGroup; exact inRound _ items
    | vector => cases isGroup; rfl
    | tuple => cases isGroup
  | table kind entries => cases isGroup; rfl
  | _ => cases isGroup

/-- All elements of a node are written. -/
theorem writtenParts_of_ofObject? {ref : Ref} {group : Group}
    (isGroup : Group.ofObject? objects (objects.look ref) = some group) :
    objects.writtenParts ref = group.parts := by
  rw [parts_of_ofObject? isGroup, writtenParts]
  split
  · rename_i isTuple
    rw [isTuple] at isGroup
    cases isGroup
  · rename_i isFunction
    rw [isFunction] at isGroup
    cases isGroup
  · rfl

end Objects

namespace Group

/-- A sequence in round brackets, with nothing noted on it, is written as the source of its
members. -/
theorem assemble_round {head? : Option Scalar} {items : List Ref} {texts : List String}
    (count : texts.length = items.length) :
    (round head? items).assemble (round head? items).delimiters
        ((round head? items).elementTexts texts) =
      .ok (Tree.roundSource (head?.bind fun head => Sugar.ofSequence? head items.length)
        texts) := by
  cases short : head?.bind fun head => Sugar.ofSequence? head items.length with
  | none =>
    have same : round head? items = ⟨items, none, "(", ")"⟩ := by rw [round, short]
    rw [same, assemble_plain _ rfl count, Tree.roundSource]
  | some sugar =>
    have same : round head? items = ⟨items, some sugar, sugar.mark, ""⟩ := by rw [round, short]
    obtain ⟨head, _, short⟩ := Option.bind_eq_some_iff.mp short
    obtain ⟨length, nonzero⟩ := Sugar.length_eq_of_ofSequence? short
    cases texts with
    | nil => exact absurd count.symm nonzero
    | cons first rest =>
      rw [same, assemble_short _ rfl (count.trans length), Tree.roundSource, String.append_empty]
      rfl

/-- A node with nothing noted on it is written as its source. -/
theorem assemble_eq_sourceOf {objects : Objects} {ref : Ref} {group : Group}
    (isGroup : ofObject? objects (objects.look ref) = some group) {texts : List String}
    (count : texts.length = group.parts.length) (isReadable : Bool) :
    group.assemble group.delimiters (group.elementTexts texts) =
      objects.sourceOf isReadable ref texts := by
  have held : group.parts = (objects.look ref).parts := Objects.parts_of_ofObject? isGroup
  rw [held] at count
  rw [Objects.sourceOf]
  generalize objects.look ref = object at isGroup count
  cases object with
  | sequence kind items =>
    cases kind with
    | list => cases isGroup; exact assemble_round count
    | plain => cases isGroup; exact assemble_round count
    | vector => cases isGroup; exact assemble_plain _ rfl count
    | tuple => cases isGroup
  | table kind entries => cases isGroup; exact assemble_plain _ rfl count
  | _ => cases isGroup

end Group

/-- Whether an object is a node on which the printer keeps notes, laid out in this way. -/
structure Objects.NodeAt (objects : Objects) (id : ObjectId) (group : Group) : Prop where
  keepsMemo : (objects.look (.object id)).keepsMemo = true
  isGroup : Group.ofObject? objects (objects.look (.object id)) = some group

theorem Objects.NodeAt.unique {objects : Objects} {id : ObjectId} {group other : Group}
    (node : objects.NodeAt id group) (isOther : objects.NodeAt id other) : group = other :=
  Option.some.inj (node.isGroup.symm.trans isOther.isGroup)

theorem Objects.exists_nodeAt {objects : Objects} {id : ObjectId}
    (keepsMemo : (objects.look (.object id)).keepsMemo = true) :
    ∃ group, objects.NodeAt id group := by
  have isGroup : ∃ group, Group.ofObject? objects (objects.look (.object id)) = some group := by
    generalize objects.look (.object id) = object at keepsMemo
    cases object with
    | sequence kind items =>
      cases kind with
      | tuple => cases keepsMemo
      | _ => exact ⟨_, rfl⟩
    | table kind entries => exact ⟨_, rfl⟩
    | _ => cases keepsMemo
  obtain ⟨group, isGroup⟩ := isGroup
  exact ⟨group, keepsMemo, isGroup⟩

/-- A value is a node on which notes are kept, or nothing is ever noted on it. -/
theorem Objects.unnoted_or_node (objects : Objects) (ref : Ref) :
    (objects.look ref).keepsMemo = false ∨
      ∃ id group, ref = .object id ∧ objects.NodeAt id group := by
  cases keepsMemo : (objects.look ref).keepsMemo with
  | false => exact .inl rfl
  | true =>
    cases ref with
    | scalar value => cases keepsMemo
    | object id =>
      obtain ⟨group, node⟩ := Objects.exists_nodeAt keepsMemo
      exact .inr ⟨id, group, rfl, node⟩

/-! ### What the printer does at one value -/

namespace Printing

variable {objects : Objects}

/-- A node on which nothing is noted is given its source, by the texts that its elements are
given. -/
theorem printGroup_eq {ref : Ref} {group : Group} {printPart : Ref → Printing String}
    (isGroup : Group.ofObject? objects (objects.look ref) = some group) (isReadable : Bool) :
    printGroup printPart group = (objects.writtenParts ref).mapM printPart >>= fun texts =>
      settle (objects.sourceOf isReadable ref texts) := by
  funext memos
  rw [Objects.writtenParts_of_ofObject? isGroup, printGroup]
  cases ends : (group.parts.mapM printPart memos).1 with
  | error failure => rw [Stateful.bind_of_error _ ends, Stateful.bind_of_error _ ends]
  | ok printed =>
    rw [Stateful.bind_of_ok _ ends, Stateful.bind_of_ok _ ends,
      Group.assemble_eq_sourceOf isGroup (Stateful.length_eq_of_mapM ends) isReadable]

/-- Where nothing is ever noted, printing a value is printing its written parts and putting their
texts together. -/
theorem print_unnoted {ref : Ref} (unnoted : (objects.look ref).keepsMemo = false)
    (isReadable : Bool) (depth : Nat) :
    print objects isReadable (depth + 1) ref =
      (objects.writtenParts ref).mapM (print objects isReadable depth) >>= fun texts =>
        settle (objects.sourceOf isReadable ref texts) := by
  cases ref with
  | scalar value => rfl
  | object id =>
    rw [print]
    cases isGroup : Group.ofObject? objects (objects.look (.object id)) with
    | some group =>
      rw [← printGroup_eq isGroup]
      simp only [unnoted, Bool.false_eq_true, if_false]
    | none =>
      unfold Objects.writtenParts Objects.sourceOf
      generalize objects.look (.object id) = object at isGroup
      cases object with
      | sequence kind items =>
        cases kind with
        | tuple => rfl
        | _ => cases isGroup
      | table kind entries => cases isGroup
      | cell content => simp [Object.parts]
      | function kind params body =>
        by_cases absent : objects.scalar? body = some .null
        · simp only [absent, if_true]
          rfl
        · simp [absent, String.append_assoc]
      | _ => rfl

/-- Printing a node on which notes are kept is printing its written parts, unless texts are noted
for them. -/
theorem print_node {id : ObjectId} {group : Group} (node : objects.NodeAt id group)
    (isReadable : Bool) (depth : Nat) :
    print objects isReadable (depth + 1) (.object id) =
      printNoted (print objects isReadable depth) id group := by
  rw [print, node.isGroup]
  exact if_pos node.keepsMemo

end Printing

end SketchForm
