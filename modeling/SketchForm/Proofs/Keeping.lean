/-
This file says how a result and a property of the notes go through a run of the printer.

Printing reads notes and leaves notes, so what it gives depends on what was noted
before. Statements about it therefore come in one form: from all notes with some
property it gives this result, and the notes it leaves have the property again. Such
statements hold of a run if they hold of its steps. Which property it is stays open
here; for a node it is enough that texts already noted are the right ones, and that
noting the right ones does no harm.
-/
import SketchForm.Printer
import SketchForm.Proofs.Steps

namespace SketchForm

/-- What holds of all notes holds after a change, if it holds of the note that was changed. -/
theorem Memos.forall_update {P : ObjectId → Memo → Prop} {memos : Memos}
    (each : ∀ id, P id (memos id)) {id : ObjectId} {change : Memo → Memo}
    (changed : P id (change (memos id))) (other : ObjectId) :
    P other (memos.update id change other) := by
  by_cases same : other = id
  · subst same
    rw [Memos.update_self]
    exact changed
  · rw [Memos.update_other _ _ _ _ same]
    exact each other

@[simp] theorem Store.objects_print (store : Store) (isReadable : Bool) (ref : Ref) :
    (store.print isReadable ref).2.objects = store.objects := rfl

/-- Steps that leave the contents of a store alone leave them alone one after another. -/
theorem Store.objects_foldl {α : Type} {step : Store → α → Store}
    (same : ∀ store value, (step store value).objects = store.objects) (values : List α)
    (store : Store) : (values.foldl step store).objects = store.objects := by
  induction values generalizing store with
  | nil => rfl
  | cons value rest inductionHypothesis =>
    rw [List.foldl_cons, inductionHypothesis, same]

namespace Printing

variable {α β : Type}

/-- Whether an action gives this result and keeps the property, from whatever notes that have the
property it starts. -/
def Keeps (property : Memos → Prop) (action : Printing α) (result : Except Failure α) : Prop :=
  ∀ memos, property memos → (action memos).1 = result ∧ property (action memos).2

variable {property : Memos → Prop}

namespace Keeps

theorem settle (result : Except Failure α) : Keeps property (Printing.settle result) result :=
  fun _ holds => ⟨rfl, holds⟩

theorem pure (value : α) : Keeps property (Pure.pure value) (.ok value) :=
  fun _ holds => ⟨rfl, holds⟩

theorem bind {action : Printing α} {result : Except Failure α} {next : α → Printing β}
    {results : α → Except Failure β} (first : Keeps property action result)
    (later : ∀ value, result = .ok value → Keeps property (next value) (results value)) :
    Keeps property (action >>= next) (result >>= results) := by
  intro memos holds
  obtain ⟨given, kept⟩ := first memos holds
  cases result with
  | ok value =>
    rw [Stateful.bind_of_ok next given]
    exact later value rfl _ kept
  | error failure =>
    rw [Stateful.bind_of_error next given]
    exact ⟨rfl, kept⟩

/-- Going through a list gives what the steps give one after another, up to the first failure. -/
theorem mapM {action : α → Printing β} {expected : α → Except Failure β} {values : List α}
    (each : ∀ value ∈ values, Keeps property (action value) (expected value)) :
    Keeps property (values.mapM action) (values.mapM expected) := by
  induction values with
  | nil => exact Keeps.pure []
  | cons value rest inductionHypothesis =>
    rw [List.mapM_cons, List.mapM_cons]
    have others := inductionHypothesis fun other member =>
      each other (List.mem_cons_of_mem _ member)
    exact (each value List.mem_cons_self).bind fun result _ => others.bind fun results _ =>
      Keeps.pure (result :: results)

end Keeps

/-- Looking up a note and going on with it is going on with the note as it stands. -/
theorem memoOf_bind (id : ObjectId) (next : Memo → Printing β) (memos : Memos) :
    (memoOf id >>= next) memos = next (memos id) memos :=
  Stateful.bind_of_ok next rfl

theorem Keeps.note {id : ObjectId} {change : Memo → Memo}
    (keeps : ∀ memos, property memos → property (memos.update id change)) :
    Keeps property (Printing.note id change) (.ok ()) :=
  fun memos holds => ⟨rfl, keeps memos holds⟩

/-! ### A node with notes -/

section Nodes

variable {printPart : Ref → Printing String} {id : ObjectId} {group : Group}

/-- The texts of a node's elements are the expected ones, if texts already noted are and those
written now are. -/
theorem keeps_elementTexts {expected : Except Failure (List String)}
    (noted : ∀ memos, property memos → ∀ texts, (memos id).elementTexts? = some texts →
      expected = .ok texts)
    (written : ∀ memos, property memos → (memos id).elementTexts? = none →
      ∃ printed, Keeps property (group.parts.mapM printPart) printed ∧
        expected = printed.map group.elementTexts)
    (keeps : ∀ texts, expected = .ok texts → ∀ memos, property memos →
      property (memos.update id fun memo => { memo with elementTexts? := some texts })) :
    Keeps property (elementTexts printPart id group) expected := by
  intro memos holds
  rw [elementTexts, memoOf_bind]
  cases found : (memos id).elementTexts? with
  | some texts => exact ⟨(noted memos holds texts found).symm, holds⟩
  | none =>
    obtain ⟨printed, parts, same⟩ := written memos holds found
    have whole : Keeps property (group.parts.mapM printPart >>= fun printed =>
        Printing.note id (fun memo =>
            { memo with elementTexts? := some (group.elementTexts printed) })
          >>= fun _ => Pure.pure (group.elementTexts printed))
        (printed >>= fun printed => .ok (group.elementTexts printed)) := by
      refine parts.bind fun texts given => ?_
      refine (Keeps.note (keeps (group.elementTexts texts) ?_)).bind fun _ _ => Keeps.pure _
      rw [same, given]
      rfl
    have result : (printed >>= fun printed => .ok (group.elementTexts printed)) = expected := by
      rw [same]
      cases printed <;> rfl
    rw [result] at whole
    exact whole memos holds

/-- So are the delimiters of a node. -/
theorem keeps_delimiters {expected : List String}
    (noted : ∀ memos, property memos → ∀ delimiters, (memos id).delimiters? = some delimiters →
      expected = delimiters)
    (written : ∀ memos, property memos → (memos id).delimiters? = none →
      expected = group.delimiters)
    (keeps : ∀ memos, property memos →
      property (memos.update id fun memo => { memo with delimiters? := some expected })) :
    Keeps property (delimiters id group) (.ok expected) := by
  intro memos holds
  rw [delimiters, memoOf_bind]
  cases found : (memos id).delimiters? with
  | some delimiters => exact ⟨congrArg Except.ok (noted memos holds delimiters found).symm, holds⟩
  | none =>
    have same := written memos holds found
    rw [same] at keeps ⊢
    exact ((Keeps.note keeps).bind fun _ _ => Keeps.pure group.delimiters) memos holds

theorem keeps_noteSugar
    (keeps : ∀ memos, property memos →
      property (memos.update id fun memo => { memo with isSugar? := some true })) :
    Keeps property (noteSugar id group) (.ok ()) := by
  intro memos holds
  rw [noteSugar, memoOf_bind]
  split
  · exact Keeps.note keeps memos holds
  · exact ⟨rfl, holds⟩

/-- A node is written by its elements and delimiters as expected. -/
theorem keeps_printNoted {texts : Except Failure (List String)} {expected : List String}
    (elements : Keeps property (elementTexts printPart id group) texts)
    (between : Keeps property (delimiters id group) (.ok expected))
    (sugar : Keeps property (noteSugar id group) (.ok ())) :
    Keeps property (printNoted printPart id group)
      (texts >>= fun texts => group.assemble expected texts) := by
  refine elements.bind fun texts _ => ?_
  have ending : ∀ delimiters, Keeps property
      (noteSugar id group >>= fun _ => Printing.settle (group.assemble delimiters texts))
      (group.assemble delimiters texts) :=
    fun delimiters => sugar.bind fun _ _ => Keeps.settle _
  exact between.bind fun delimiters _ => ending delimiters

end Nodes

end Printing

end SketchForm
