/-
This file proves what a print leaves behind: notes on the nodes that it visits, each
written at most once, and nothing else.

A print stops at nodes on which texts are noted, those from before and those that it has
noted itself in the meantime. So it can come to a node many times, and on most of these
occasions it does nothing there. Two invariants settle what it has done in the end. One
looks at what has changed: only notes on visited nodes have, and only where nothing was
noted. The other looks at what is complete: a node on which this print has noted texts
has nothing but completely noted nodes below it, since its elements were printed first.
It has to be about the nodes below and not about the node itself, because texts are noted
on a node before its delimiters are.
-/
import SketchForm.Proofs.Coverage
import SketchForm.Proofs.Obstruction
import SketchForm.Proofs.Reuse

namespace SketchForm

/-- Whether everything is noted on a node that a print can note there. -/
structure Memo.IsComplete (memo : Memo) (group : Group) : Prop where
  elementTexts : memo.elementTexts? ≠ none
  delimiters : memo.delimiters? ≠ none
  isSugar : group.sugar?.isSome → memo.isSugar? ≠ none

/-! ### What has changed -/

/-- Whether notes differ from those of a store only on nodes that printing a value visits, only
where nothing was noted there, and in the note on short forms only on nodes that have one. -/
structure Store.TouchedFrom (store : Store) (root : Ref) (memos : Memos) : Prop where
  grown : store.memos.Grow memos
  visited : ∀ id, memos id ≠ store.memos id →
    (store.objects.look (.object id)).keepsMemo = true ∧ store.Visits root (.object id)
  isSugar : ∀ id, (memos id).isSugar? ≠ (store.memos id).isSugar? →
    (memos id).isSugar? = some true ∧ (store.shortForm? (.object id)).isSome

/-- A note on short forms that differs was not there. -/
theorem Store.TouchedFrom.isSugar?_eq_none {store : Store} {root : Ref} {memos : Memos}
    (touched : store.TouchedFrom root memos) {id : ObjectId}
    (differs : (memos id).isSugar? ≠ (store.memos id).isSugar?) :
    (store.memos id).isSugar? = none := by
  cases noted : (store.memos id).isSugar? with
  | none => rfl
  | some flag =>
    rw [noted, (touched.grown id).isSugar flag noted] at differs
    exact absurd rfl differs

namespace Printing

variable {store : Store} {root : Ref} {refs : Set Ref} {printPart : Ref → Printing String}
variable {id : ObjectId} {group : Group}

section Nodes

variable (node : store.objects.NodeAt id group)

include node

/-- Something may be noted on a visited node where nothing was noted. -/
theorem touchedFrom_update {memos : Memos} {change : Memo → Memo}
    (visits : store.Visits root (.object id)) (touched : store.TouchedFrom root memos)
    (grows : (store.memos id).GrowsTo (change (memos id)))
    (isSugar : (change (memos id)).isSugar? = (memos id).isSugar? ∨
      (change (memos id)).isSugar? = some true ∧ group.sugar?.isSome) :
    store.TouchedFrom root (memos.update id change) := by
  refine ⟨touched.grown.update grows, ?_, ?_⟩
  · exact Memos.forall_update (P := fun other memo => memo ≠ store.memos other →
      (store.objects.look (.object other)).keepsMemo = true ∧ store.Visits root (.object other))
      touched.visited fun _ => ⟨node.keepsMemo, visits⟩
  · refine Memos.forall_update (P := fun other memo =>
      memo.isSugar? ≠ (store.memos other).isSugar? →
        memo.isSugar? = some true ∧ (store.shortForm? (.object other)).isSome) touched.isSugar
      fun differs => ?_
    rcases isSugar with same | ⟨isTrue, short⟩
    · rw [same] at differs ⊢
      exact touched.isSugar id differs
    · exact ⟨isTrue, node.shortForm?.symm ▸ short⟩

/-- The parts of a node are printed only if no texts were noted on it at the start either, and then
they are visited too. -/
theorem preserves_elementTexts_touchedFrom (visits : store.Visits root (.object id))
    (parts : (store.memos id).elementTexts? = none →
      Preserves (store.TouchedFrom root) (group.parts.mapM printPart)) :
    Preserves (store.TouchedFrom root) (elementTexts printPart id group) := by
  intro memos touched
  rw [elementTexts, memoOf_bind]
  cases found : (memos id).elementTexts? with
  | some texts => exact touched
  | none =>
    have untouched := ne_some_of_grows_none (touched.grown id).elementTexts found
    have absent := Option.eq_none_iff_forall_ne_some.mpr untouched
    refine ((parts absent).bind fun printed => (Preserves.note fun later touchedLater => ?_).bind
      fun _ => Preserves.pure _) memos touched
    refine touchedFrom_update node visits touchedLater ?_ (.inl rfl)
    exact ⟨fun texts noted => absurd noted (untouched texts),
      (touchedLater.grown id).delimiters, (touchedLater.grown id).isSugar⟩

theorem preserves_printNoted_touchedFrom (visits : store.Visits root (.object id))
    (parts : (store.memos id).elementTexts? = none →
      Preserves (store.TouchedFrom root) (group.parts.mapM printPart)) :
    Preserves (store.TouchedFrom root) (printNoted printPart id group) := by
  have between : Preserves (store.TouchedFrom root) (delimiters id group) := by
    refine Preserves.delimiters fun memos touched absent => ?_
    have untouched := ne_some_of_grows_none (touched.grown id).delimiters absent
    refine touchedFrom_update node visits touched ?_ (.inl rfl)
    exact ⟨(touched.grown id).elementTexts,
      fun delimiters noted => absurd noted (untouched delimiters), (touched.grown id).isSugar⟩
  have sugar : Preserves (store.TouchedFrom root) (noteSugar id group) := by
    refine Preserves.noteSugar fun memos touched short absent => ?_
    have untouched := ne_some_of_grows_none (touched.grown id).isSugar absent
    refine touchedFrom_update node visits touched ?_ (.inr ⟨rfl, short⟩)
    exact ⟨(touched.grown id).elementTexts, (touched.grown id).delimiters,
      fun flag noted => absurd noted (untouched flag)⟩
  exact (preserves_elementTexts_touchedFrom node visits parts).bind fun texts =>
    between.bind fun delimiters => sugar.bind fun _ => Preserves.settle _

end Nodes

/-- Printing a visited value touches notes on visited nodes only. -/
theorem preserves_print_touchedFrom (isReadable : Bool) (depth : Nat) {ref : Ref}
    (visits : store.Visits root ref) :
    Preserves (store.TouchedFrom root) (print store.objects isReadable depth ref) := by
  induction depth generalizing ref with
  | zero => exact Preserves.settle (.error .endless)
  | succ depth inductionHypothesis =>
    have parts : (store.memo? ref).bind Memo.elementTexts? = none →
        Preserves (store.TouchedFrom root)
          ((store.objects.writtenParts ref).mapM (print store.objects isReadable depth)) :=
      fun absent => Preserves.mapM fun part written =>
        inductionHypothesis (visits.tail ⟨written, absent⟩)
    rcases store.objects.unnoted_or_node ref with unnoted | ⟨id, group, rfl, node⟩
    · rw [print_unnoted unnoted]
      rw [Store.memo?_unnoted unnoted] at parts
      exact (parts rfl).bind fun _ => Preserves.settle _
    · rw [print_node node]
      rw [Store.memo?_node node, Objects.writtenParts_of_ofObject? node.isGroup] at parts
      exact preserves_printNoted_touchedFrom node visits parts

end Printing

/-! ### What is complete -/

namespace Store

section Completed

variable (store : Store)

/-- Whether everything is noted on all nodes that printing a value visits. -/
def CompleteIn (memos : Memos) (ref : Ref) : Prop :=
  ∀ id group, store.objects.NodeAt id group → store.Visits ref (.object id) →
    (memos id).IsComplete group

/-- Whether everything is noted on the nodes of some values, and on those below every node on which
texts have been noted since. -/
structure Completed (refs : Set Ref) (memos : Memos) : Prop where
  below : ∀ id group, store.objects.NodeAt id group → (store.memos id).elementTexts? = none →
    (memos id).elementTexts? ≠ none → ∀ part ∈ group.parts, store.CompleteIn memos part
  values : ∀ ref ∈ refs, store.CompleteIn memos ref

end Completed

variable {store : Store} {refs : Set Ref} {memos : Memos} {id : ObjectId} {group : Group}

/-- More may be noted on a node, and texts if all is complete below it. -/
theorem Completed.update (completed : store.Completed refs memos)
    (node : store.objects.NodeAt id group) {change : Memo → Memo}
    (keeps : (memos id).IsComplete group → (change (memos id)).IsComplete group)
    (below : (memos id).elementTexts? = none → (change (memos id)).elementTexts? ≠ none →
      ∀ part ∈ group.parts, store.CompleteIn memos part) :
    store.Completed refs (memos.update id change) := by
  have kept : ∀ other otherGroup, store.objects.NodeAt other otherGroup →
      (memos other).IsComplete otherGroup →
        ((memos.update id change) other).IsComplete otherGroup := by
    intro other
    refine Memos.forall_update (P := fun other memo => ∀ otherGroup,
      store.objects.NodeAt other otherGroup → (memos other).IsComplete otherGroup →
        memo.IsComplete otherGroup) (fun _ _ _ complete => complete) ?_ other
    intro otherGroup isOther complete
    cases node.unique isOther
    exact keeps complete
  have mono : ∀ ref, store.CompleteIn memos ref → store.CompleteIn (memos.update id change) ref :=
    fun ref complete other otherGroup isOther visits =>
      kept other otherGroup isOther (complete other otherGroup isOther visits)
  refine ⟨fun other otherGroup isOther absent noted part isPart => mono part ?_,
    fun ref member => mono ref (completed.values ref member)⟩
  by_cases before : (memos other).elementTexts? = none
  · by_cases same : other = id
    · subst same
      cases node.unique isOther
      rw [Memos.update_self] at noted
      exact below before noted part isPart
    · rw [Memos.update_other _ _ _ _ same] at noted
      exact absurd before noted
  · exact completed.below other otherGroup isOther absent before part isPart

/-- A node is complete with all below it once everything is noted on it. -/
theorem Completed.insert_node (completed : store.Completed refs memos)
    (node : store.objects.NodeAt id group) (complete : (memos id).IsComplete group) :
    store.Completed (insert (.object id) refs) memos := by
  refine ⟨completed.below, ?_⟩
  rintro ref (rfl | member)
  · intro other otherGroup isOther visits
    rcases Relation.ReflTransGen.cases_head visits with same | ⟨part, ⟨written, absent⟩, below⟩
    · cases same
      cases node.unique isOther
      exact complete
    · rw [Objects.writtenParts_of_ofObject? node.isGroup] at written
      rw [memo?_node node] at absent
      exact completed.below id group node absent complete.elementTexts part written other
        otherGroup isOther below
  · exact completed.values ref member

/-- A value without notes is complete if its parts are. -/
theorem Completed.insert_unnoted {ref : Ref}
    (completed : store.Completed (refs ∪ {part | part ∈ store.objects.writtenParts ref}) memos)
    (unnoted : (store.objects.look ref).keepsMemo = false) :
    store.Completed (insert ref refs) memos := by
  refine ⟨completed.below, ?_⟩
  rintro other (rfl | member)
  · intro id group node visits
    rcases Relation.ReflTransGen.cases_head visits with rfl | ⟨part, goes, below⟩
    · rw [node.keepsMemo] at unnoted
      cases unnoted
    · exact completed.values part (.inr goes.1) id group node below
  · exact completed.values other (.inl member)

end Store

namespace Printing

variable {store : Store} {refs : Set Ref} {printPart : Ref → Printing String}
variable {id : ObjectId} {group : Group} (node : store.objects.NodeAt id group)

include node

theorem leads_elementTexts_completed
    (parts : Leads (store.Completed refs) (group.parts.mapM printPart)
      (store.Completed (refs ∪ {part | part ∈ group.parts}))) :
    Leads (store.Completed refs) (elementTexts printPart id group) fun memos =>
      store.Completed refs memos ∧ (memos id).elementTexts? ≠ none := by
  intro memos texts completed ends
  refine ⟨?_, noted_elementTexts ends ▸ Option.some_ne_none texts⟩
  rw [elementTexts, memoOf_bind] at ends ⊢
  cases found : (memos id).elementTexts? with
  | some texts => exact completed
  | none =>
    rw [found] at ends
    obtain ⟨printed, partsEnd, _, runs⟩ := Stateful.exists_of_bind_ok ends
    simp only [runs]
    obtain ⟨below, values⟩ := parts memos printed completed partsEnd
    have before : store.Completed refs (group.parts.mapM printPart memos).2 :=
      ⟨below, fun ref member => values ref (.inl member)⟩
    have noted : store.Completed refs ((group.parts.mapM printPart memos).2.update id fun memo =>
        { memo with elementTexts? := some (group.elementTexts printed) }) :=
      before.update node
        (fun complete => ⟨Option.some_ne_none _, complete.delimiters, complete.isSugar⟩)
        fun _ _ part isPart => values part (.inr isPart)
    exact noted

theorem leads_delimiters_completed :
    Leads (fun memos => store.Completed refs memos ∧ (memos id).elementTexts? ≠ none)
      (delimiters id group) fun memos => store.Completed refs memos ∧
        (memos id).elementTexts? ≠ none ∧ (memos id).delimiters? ≠ none := by
  rintro memos used ⟨completed, textsNoted⟩ ends
  have usedNoted := noted_delimiters ends ▸ Option.some_ne_none used
  have kept : Preserves (fun memos => store.Completed refs memos ∧ (memos id).elementTexts? ≠ none)
      (delimiters id group) := by
    refine Preserves.delimiters fun memos ⟨completed, noted⟩ _ => ⟨?_, ?_⟩
    · exact completed.update node
        (fun complete => ⟨complete.elementTexts, Option.some_ne_none _, complete.isSugar⟩)
        fun absent => absurd absent noted
    · rw [Memos.update_self]
      exact noted
  obtain ⟨completed, textsNoted⟩ := kept memos ⟨completed, textsNoted⟩
  exact ⟨completed, textsNoted, usedNoted⟩

theorem leads_noteSugar_completed :
    Leads (fun memos => store.Completed refs memos ∧ (memos id).elementTexts? ≠ none ∧
        (memos id).delimiters? ≠ none)
      (noteSugar id group) fun memos =>
        store.Completed refs memos ∧ (memos id).IsComplete group := by
  rintro memos _ ⟨completed, textsNoted, usedNoted⟩ _
  rw [noteSugar, memoOf_bind]
  split
  · simp only [note, Memos.update_self]
    refine ⟨completed.update node (fun complete => ?_) fun absent => absurd absent textsNoted, ?_⟩
    · exact ⟨complete.elementTexts, complete.delimiters, fun _ => Option.some_ne_none _⟩
    · exact ⟨textsNoted, usedNoted, fun _ => Option.some_ne_none _⟩
  · rename_i settled
    refine ⟨completed, textsNoted, usedNoted, fun short absent => settled ?_⟩
    exact Bool.and_eq_true_iff.mpr ⟨short, Option.isNone_iff_eq_none.mpr absent⟩

theorem leads_printNoted_completed
    (parts : Leads (store.Completed refs) (group.parts.mapM printPart)
      (store.Completed (refs ∪ {part | part ∈ group.parts}))) :
    Leads (store.Completed refs) (printNoted printPart id group)
      (store.Completed (insert (.object id) refs)) := by
  have rest : ∀ delimiters texts, Leads
      (fun memos => store.Completed refs memos ∧ (memos id).elementTexts? ≠ none ∧
        (memos id).delimiters? ≠ none)
      (noteSugar id group >>= fun _ => settle (group.assemble delimiters texts))
      (store.Completed (insert (.object id) refs)) :=
    fun delimiters texts => (leads_noteSugar_completed node).bind fun _ memos _ both _ =>
      both.1.insert_node node both.2
  exact (leads_elementTexts_completed node parts).bind fun texts =>
    (leads_delimiters_completed node).bind fun delimiters => rest delimiters texts

omit node in
/-- Everything is noted on the nodes of a value that was printed. -/
theorem leads_print_completed (isReadable : Bool) (depth : Nat) (ref : Ref) (refs : Set Ref) :
    Leads (store.Completed refs) (print store.objects isReadable depth ref)
      (store.Completed (insert ref refs)) :=
  leads_print_of _ isReadable (fun _ _ _ unnoted completed => completed.insert_unnoted unnoted)
    (fun _ _ _ _ node => leads_printNoted_completed node) depth ref refs

end Printing

/-! ### How much is noted -/

/-- How many elements an object has, keys and values counted apart. -/
def Object.elementCount : Object → Nat
  | .sequence _ items => items.length
  | .table _ entries => 2 * entries.length
  | _ => 0

namespace Group

variable {group : Group}

theorem length_parts {objects : Objects} {object : Object}
    (isGroup : ofObject? objects object = some group) :
    group.parts.length = object.elementCount := by
  rw [Objects.parts_of_ofObject? isGroup]
  cases object with
  | sequence kind items => rfl
  | table kind entries =>
    simp [Object.parts, Object.elementCount, List.length_flatMap, Nat.mul_comm]
  | _ => cases isGroup

/-- There is one delimiter more than there are elements, or in a short form as many as the form asks
for. -/
theorem length_delimiters : group.delimiters.length =
    match group.sugar? with
    | some sugar => sugar.length
    | none => group.parts.length + 1 := by
  rw [delimiters]
  cases short : group.sugar? with
  | some sugar => exact List.length_replicate
  | none =>
    show (defaultDelimiters group.parts.length).length = group.parts.length + 1
    rw [defaultDelimiters]
    split
    · rename_i empty
      rw [List.length_singleton, Int.natCast_eq_zero.mp empty]
    · rw [List.length_cons, List.length_append, List.length_replicate, List.length_singleton]
      omega

end Group

/-- Texts that were not noted at the start are one for each element. -/
theorem Printing.length_of_textsOf {objects : Objects} {isReadable : Bool} {start : Memos}
    {id : ObjectId} {group : Group} {texts : List String}
    (absent : (start id).elementTexts? = none)
    (used : textsOf objects isReadable start id group = .ok texts) :
    texts.length = group.parts.length := by
  rw [textsOf, absent] at used
  cases printed : group.parts.mapM (outcome objects isReadable start) with
  | error failure => rw [printed] at used; cases used
  | ok each =>
    rw [printed] at used
    rw [← Except.ok.inj used, (mapM_eq_ok_iff.mp printed).length_eq, Group.elementTexts]
    split
    · exact List.length_set
    · rfl

/-! ### What a print leaves behind -/

namespace Store

/-- What a store is like after a value of it was printed. -/
structure IsLeftByPrint (store : Store) (ref : Ref) (later : Store) : Prop where
  /-- The contents are the same. -/
  objects : later.objects = store.objects
  /-- What was noted is noted just so. -/
  grown : store.memos.Grow later.memos
  /-- Something new is noted only on nodes that were visited, and these the value is or holds. -/
  visited : ∀ id, later.memos id ≠ store.memos id →
    (store.objects.look (.object id)).keepsMemo = true ∧ store.Visits ref (.object id) ∧
      store.objects.Reaches ref (.object id)
  /-- On every visited node texts are noted, and if none were before, one for each element. -/
  elementTexts : ∀ id, (store.objects.look (.object id)).keepsMemo = true →
    store.Visits ref (.object id) → ∃ texts, (later.memos id).elementTexts? = some texts ∧
      ((store.memos id).elementTexts? = none →
        texts.length = (store.objects.look (.object id)).elementCount)
  /-- So are delimiters, and if none were before, one more than there are elements, or as many as a
  short form asks for. -/
  delimiters : ∀ id, (store.objects.look (.object id)).keepsMemo = true →
    store.Visits ref (.object id) → ∃ used, (later.memos id).delimiters? = some used ∧
      ((store.memos id).delimiters? = none → used.length =
        match store.shortForm? (.object id) with
        | some sugar => sugar.length
        | none => (store.objects.look (.object id)).elementCount + 1)
  /-- Whether a node was written in short form is newly noted on the visited lists that have one and
  on which nothing was noted about that. -/
  isSugar : ∀ id, (later.memos id).isSugar? ≠ (store.memos id).isSugar? ↔
    (∃ items, store.objects.look (.object id) = .sequence .list items) ∧
      store.Visits ref (.object id) ∧ (store.shortForm? (.object id)).isSome ∧
        (store.memos id).isSugar? = none
  /-- What is newly noted there is that it was. -/
  isTrue : ∀ id, (later.memos id).isSugar? ≠ (store.memos id).isSugar? →
    (later.memos id).isSugar? = some true

variable {store : Store}

theorem Visits.reaches {ref visited : Ref} (visits : store.Visits ref visited) :
    store.objects.Reaches ref visited := by
  have goesDown : store.GoesInto ≤ store.objects.Holds :=
    fun _ _ goes => Objects.mem_parts_of_mem_writtenParts goes.1
  exact Relation.ReflTransGen.mono goesDown ref visited visits

theorem exists_eq_list_of_shortForm? {id : ObjectId}
    (keepsMemo : (store.objects.look (.object id)).keepsMemo = true)
    (short : (store.shortForm? (.object id)).isSome) :
    ∃ items, store.objects.look (.object id) = .sequence .list items := by
  obtain ⟨group, node⟩ := Objects.exists_nodeAt keepsMemo
  rw [node.shortForm?] at short
  by_cases isList : (store.objects.look (.object id)).containerKind? = some (.inl .list)
  · cases found : store.objects.look (.object id) with
    | sequence kind items =>
      rw [found] at isList
      cases isList
      exact ⟨items, rfl⟩
    | _ =>
      rw [found] at isList
      cases isList
  · rw [Group.sugar?_eq_none_of_not_list node.isGroup keepsMemo isList] at short
    cases short

/-- In a store without loops, whatever is noted in it, a print that gives a text leaves the contents
as they are and notes each thing that it notes once: nothing that was noted is replaced, and
nothing is noted but on visited nodes. On these all texts and delimiters are noted afterwards, as
many as there should be, and on those in short form that they are. -/
theorem isLeftByPrint_print (acyclic : store.objects.Acyclic) {isReadable : Bool} {ref : Ref}
    {text : String} (ends : (store.print isReadable ref).1 = .ok text) :
    store.IsLeftByPrint ref (store.print isReadable ref).2 := by
  have touched : store.TouchedFrom ref (store.print isReadable ref).2.memos :=
    Printing.preserves_print_touchedFrom isReadable store.objects.depth .refl store.memos
      ⟨Memos.Grow.refl store.memos, fun _ differs => absurd rfl differs,
        fun _ differs => absurd rfl differs⟩
  have completed : store.Completed (insert ref ∅) (store.print isReadable ref).2.memos :=
    Printing.leads_print_completed isReadable store.objects.depth ref ∅ store.memos text
      ⟨fun _ _ _ absent noted => absurd absent noted, nofun⟩ ends
  have continued : store.memos.ContinuesAs store.objects isReadable
      (store.print isReadable ref).2.memos :=
    (Printing.keeps_print_continuesAs store.objects.depth le_rfl (acyclic.fits ref) store.memos
      (Memos.ContinuesAs.refl store.objects isReadable store.memos)).2
  have complete := completed.values ref (.inl rfl)
  constructor
  case objects => rfl
  case grown => exact touched.grown
  case visited =>
    intro id differs
    obtain ⟨keepsMemo, visits⟩ := touched.visited id differs
    exact ⟨keepsMemo, visits, visits.reaches⟩
  case elementTexts =>
    intro id keepsMemo visits
    obtain ⟨group, node⟩ := Objects.exists_nodeAt keepsMemo
    obtain ⟨texts, noted⟩ :=
      Option.ne_none_iff_exists'.mp (complete id group node visits).elementTexts
    refine ⟨texts, noted, fun absent => ?_⟩
    rw [← Group.length_parts node.isGroup]
    exact Printing.length_of_textsOf absent ((continued id group node).elementTexts texts noted)
  case delimiters =>
    intro id keepsMemo visits
    obtain ⟨group, node⟩ := Objects.exists_nodeAt keepsMemo
    obtain ⟨used, noted⟩ :=
      Option.ne_none_iff_exists'.mp (complete id group node visits).delimiters
    refine ⟨used, noted, fun absent => ?_⟩
    have usual := (continued id group node).delimiters used noted
    rw [Printing.delimitersOf, absent, Option.getD_none] at usual
    rw [← usual, node.shortForm?, ← Group.length_parts node.isGroup]
    exact Group.length_delimiters
  case isSugar =>
    intro id
    constructor
    · intro differs
      have memoDiffers : (store.print isReadable ref).2.memos id ≠ store.memos id :=
        fun same => differs (congrArg Memo.isSugar? same)
      obtain ⟨keepsMemo, visits⟩ := touched.visited id memoDiffers
      have short := (touched.isSugar id differs).2
      exact ⟨exists_eq_list_of_shortForm? keepsMemo short, visits, short,
        touched.isSugar?_eq_none differs⟩
    · rintro ⟨⟨items, isList⟩, visits, short, absent⟩
      have keepsMemo : (store.objects.look (.object id)).keepsMemo = true := by rw [isList]; rfl
      obtain ⟨group, node⟩ := Objects.exists_nodeAt keepsMemo
      rw [absent]
      exact (complete id group node visits).isSugar (node.shortForm? ▸ short)
  case isTrue => exact fun id differs => (touched.isSugar id differs).1

/-- A map that holds a vector under two keys. The vector holds a quotation, for which it has a text
noted, but no delimiters. -/
def halfNoted : Store where
  objects := #[.sequence .list [.scalar (.symbol "quote"), .scalar (.symbol "x")],
    .sequence .vector [.object 0],
    .table .map [(.scalar (.integer 1), .object 1), (.scalar (.integer 2), .object 1)]]
  memos
    | 1 => { elementTexts? := some ["y"] }
    | _ => {}

/-- The map and the vector are completed, and the quotation is not visited. -/
theorem isLeftByPrint_print_halfNoted :
    halfNoted.objects.Acyclic ∧
      (halfNoted.print true (.object 2)).1 = .ok "\x7b1 [y] 2 [y]\x7d" ∧
      halfNoted.IsLeftByPrint (.object 2) (halfNoted.print true (.object 2)).2 := by
  have acyclic : halfNoted.objects.Acyclic := Objects.acyclic_of_isOrdered rfl
  have ends : (halfNoted.print true (.object 2)).1 = .ok "\x7b1 [y] 2 [y]\x7d" := by
    decide +kernel
  exact ⟨acyclic, ends, isLeftByPrint_print acyclic ends⟩

end Store

end SketchForm
