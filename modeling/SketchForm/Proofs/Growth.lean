/-
This file proves that the printer adds notes and replaces none.

Whether a print gives a text or fails, and whatever it was given, each note that was
there before it is there afterwards. The printer looks before it writes: it notes the
texts of a node's elements only where none were noted, and the same with delimiters and
with the short form. Between looking and writing it prints the elements, and they may
note anything, but by the same rule.
-/
import SketchForm.Proofs.Writing

namespace SketchForm

namespace Printing

variable {α β : Type}

/-! ### Properties that every step keeps -/

/-- Whether an action keeps a property of the notes, whatever it results in. -/
def Preserves (property : Memos → Prop) (action : Printing α) : Prop :=
  ∀ memos, property memos → property (action memos).2

variable {property : Memos → Prop}

namespace Preserves

theorem settle (result : Except Failure α) : Preserves property (Printing.settle result) :=
  fun _ holds => holds

theorem pure (value : α) : Preserves property (Pure.pure value : Printing α) :=
  fun _ holds => holds

theorem bind {action : Printing α} {next : α → Printing β} (first : Preserves property action)
    (later : ∀ value, Preserves property (next value)) : Preserves property (action >>= next) := by
  intro memos holds
  have kept := first memos holds
  cases ends : (action memos).1 with
  | ok value =>
    rw [Stateful.bind_of_ok next ends]
    exact later value _ kept
  | error failure =>
    rw [Stateful.bind_of_error next ends]
    exact kept

theorem mapM {action : α → Printing β} {values : List α}
    (each : ∀ value ∈ values, Preserves property (action value)) :
    Preserves property (values.mapM action) := by
  induction values with
  | nil => exact pure []
  | cons value rest inductionHypothesis =>
    rw [List.mapM_cons]
    have others := inductionHypothesis fun other member =>
      each other (List.mem_cons_of_mem _ member)
    exact (each value List.mem_cons_self).bind fun result => others.bind fun results =>
      pure (result :: results)

theorem note {id : ObjectId} {change : Memo → Memo}
    (keeps : ∀ memos, property memos → property (memos.update id change)) :
    Preserves property (Printing.note id change) :=
  fun memos holds => keeps memos holds

/-- Settling the delimiters of a node may note them where none were noted. -/
theorem delimiters {id : ObjectId} {group : Group}
    (keeps : ∀ memos, property memos → (memos id).delimiters? = none →
      property (memos.update id fun memo => { memo with delimiters? := some group.delimiters })) :
    Preserves property (Printing.delimiters id group) := by
  intro memos holds
  rw [Printing.delimiters, memoOf_bind]
  cases found : (memos id).delimiters? with
  | some delimiters => exact holds
  | none => exact keeps memos holds found

/-- Writing a node in short form may note it where nothing was noted about that. -/
theorem noteSugar {id : ObjectId} {group : Group}
    (keeps : ∀ memos, property memos → group.sugar?.isSome → (memos id).isSugar? = none →
      property (memos.update id fun memo => { memo with isSugar? := some true })) :
    Preserves property (Printing.noteSugar id group) := by
  intro memos holds
  rw [Printing.noteSugar, memoOf_bind]
  split
  · rename_i unnoted
    obtain ⟨short, absent⟩ := Bool.and_eq_true_iff.mp unnoted
    exact keeps memos holds short (Option.isNone_iff_eq_none.mp absent)
  · exact holds

end Preserves

end Printing

/-! ### Growing notes -/

/-- Whether everything noted in a memo is noted in another just so. -/
structure Memo.GrowsTo (memo later : Memo) : Prop where
  elementTexts : ∀ texts, memo.elementTexts? = some texts → later.elementTexts? = some texts
  delimiters : ∀ delimiters, memo.delimiters? = some delimiters →
    later.delimiters? = some delimiters
  isSugar : ∀ flag, memo.isSugar? = some flag → later.isSugar? = some flag

theorem Memo.GrowsTo.refl (memo : Memo) : memo.GrowsTo memo :=
  ⟨fun _ noted => noted, fun _ noted => noted, fun _ noted => noted⟩

theorem Memo.GrowsTo.trans {memo later last : Memo} (first : memo.GrowsTo later)
    (second : later.GrowsTo last) : memo.GrowsTo last :=
  ⟨fun texts noted => second.elementTexts texts (first.elementTexts texts noted),
    fun delimiters noted => second.delimiters delimiters (first.delimiters delimiters noted),
    fun flag noted => second.isSugar flag (first.isSugar flag noted)⟩

/-- What grows to nothing was nothing before. -/
theorem ne_some_of_grows_none {α : Type} {before? later? : Option α}
    (grows : ∀ value, before? = some value → later? = some value) (absent : later? = none)
    (value : α) : before? ≠ some value := by
  intro noted
  cases absent.symm.trans (grows value noted)

/-- Whether everything noted on any object is noted there just so later. -/
def Memos.Grow (memos later : Memos) : Prop := ∀ id, (memos id).GrowsTo (later id)

theorem Memos.Grow.refl (memos : Memos) : memos.Grow memos := fun id => Memo.GrowsTo.refl (memos id)

theorem Memos.Grow.update {start memos : Memos} (grown : start.Grow memos) {id : ObjectId}
    {change : Memo → Memo} (grows : (start id).GrowsTo (change (memos id))) :
    start.Grow (memos.update id change) :=
  Memos.forall_update (P := fun id memo => (start id).GrowsTo memo) grown grows

namespace Printing

variable {start : Memos} {printPart : Ref → Printing String} {id : ObjectId} {group : Group}

theorem preserves_elementTexts
    (parts : Preserves start.Grow (group.parts.mapM printPart)) :
    Preserves start.Grow (elementTexts printPart id group) := by
  intro memos grown
  rw [elementTexts, memoOf_bind]
  cases found : (memos id).elementTexts? with
  | some texts => exact grown
  | none =>
    -- The elements may note something before their texts are, but nothing was noted at the start.
    have absent := ne_some_of_grows_none (grown id).elementTexts found
    refine (parts.bind fun printed => (Preserves.note fun later grownLater => ?_).bind
      fun _ => Preserves.pure _) memos grown
    exact grownLater.update ⟨fun texts noted => absurd noted (absent texts),
      (grownLater id).delimiters, (grownLater id).isSugar⟩

theorem preserves_delimiters : Preserves start.Grow (delimiters id group) := by
  refine Preserves.delimiters fun memos grown absent => ?_
  have untouched := ne_some_of_grows_none (grown id).delimiters absent
  exact grown.update ⟨(grown id).elementTexts,
    fun delimiters noted => absurd noted (untouched delimiters), (grown id).isSugar⟩

theorem preserves_noteSugar : Preserves start.Grow (noteSugar id group) := by
  refine Preserves.noteSugar fun memos grown _ absent => ?_
  have untouched := ne_some_of_grows_none (grown id).isSugar absent
  exact grown.update ⟨(grown id).elementTexts, (grown id).delimiters,
    fun flag noted => absurd noted (untouched flag)⟩

theorem preserves_printNoted (part : ∀ ref, Preserves start.Grow (printPart ref)) :
    Preserves start.Grow (printNoted printPart id group) := by
  have parts := Preserves.mapM fun ref (_ : ref ∈ group.parts) => part ref
  exact (preserves_elementTexts parts).bind fun texts => preserves_delimiters.bind
    fun delimiters => preserves_noteSugar.bind fun _ => Preserves.settle _

variable (objects : Objects) (isReadable : Bool)

/-- Printing a value goes on from notes that have grown to notes that have grown. -/
theorem preserves_print (depth : Nat) (ref : Ref) :
    Preserves start.Grow (print objects isReadable depth ref) := by
  induction depth generalizing ref with
  | zero => exact Preserves.settle (.error .endless)
  | succ depth inductionHypothesis =>
    rcases objects.unnoted_or_node ref with unnoted | ⟨id, group, rfl, node⟩
    · rw [print_unnoted unnoted]
      exact (Preserves.mapM fun part _ => inductionHypothesis part).bind fun _ => Preserves.settle _
    · rw [print_node node]
      exact preserves_printNoted inductionHypothesis

/-- What is noted stays noted when a value is printed. -/
theorem grow_print (depth : Nat) (ref : Ref) (memos : Memos) :
    memos.Grow (print objects isReadable depth ref memos).2 :=
  preserves_print objects isReadable depth ref memos (Memos.Grow.refl memos)

end Printing

end SketchForm
