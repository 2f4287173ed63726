/-
This file proves that printing a value leaves no node in it without a note.

Once a print has given a text, texts are noted on every node that the value involves, the
value itself if it is a node and all nodes below it. A node may have been passed by,
because something above it was printed before and its text was at hand. But that earlier
print had noted texts on everything below too. So the invariant that goes through a run
of the printer is a closure: where texts are noted, they are noted on all nodes below.
-/
import SketchForm.Proofs.Growth

namespace SketchForm

/-! ### Notes on all nodes of a value -/

section Cover

variable (objects : Objects) (memos : Memos)

/-- Whether texts are noted on all nodes that writing a value involves. -/
def Memos.Cover (ref : Ref) : Prop :=
  ∀ id, objects.Involves ref (.object id) → (objects.look (.object id)).keepsMemo = true →
    (memos id).elementTexts? ≠ none

/-- Whether texts are noted on all nodes of some values, and below every node on which they are
noted. -/
structure Memos.Closed (refs : Set Ref) : Prop where
  below : ∀ id, (objects.look (.object id)).keepsMemo = true → (memos id).elementTexts? ≠ none →
    memos.Cover objects (.object id)
  cover : ∀ ref ∈ refs, memos.Cover objects ref

end Cover

variable {objects : Objects} {memos later : Memos} {refs : Set Ref}

theorem Memos.Cover.mono {ref : Ref} (cover : memos.Cover objects ref)
    (grown : ∀ id, (memos id).elementTexts? ≠ none → (later id).elementTexts? ≠ none) :
    later.Cover objects ref :=
  fun id involves keepsMemo => grown id (cover id involves keepsMemo)

/-- All nodes of a value have texts noted if the nodes of its written parts have, and the value
itself if it is a node. -/
theorem Memos.cover_of_parts {ref : Ref}
    (parts : ∀ part ∈ objects.writtenParts ref, memos.Cover objects part)
    (self : ∀ id, ref = .object id → (objects.look ref).keepsMemo = true →
      (memos id).elementTexts? ≠ none) : memos.Cover objects ref := by
  intro id involves keepsMemo
  rcases Relation.ReflTransGen.cases_head involves with rfl | ⟨part, written, below⟩
  · exact self id rfl keepsMemo
  · exact parts part written id below keepsMemo

/-- Only the texts that are noted count. -/
theorem Memos.Closed.of_same (closed : memos.Closed objects refs)
    (same : ∀ id, (later id).elementTexts? = (memos id).elementTexts?) :
    later.Closed objects refs := by
  have grown : ∀ id, (memos id).elementTexts? ≠ none → (later id).elementTexts? ≠ none :=
    fun id noted => same id ▸ noted
  refine ⟨fun id keepsMemo noted => ?_, fun ref member => (closed.cover ref member).mono grown⟩
  rw [same id] at noted
  exact (closed.below id keepsMemo noted).mono grown

/-- Noting texts on a node keeps the closure if they are noted below it already. -/
theorem Memos.Closed.note {id : ObjectId} {group : Group} (node : objects.NodeAt id group)
    (closed : memos.Closed objects (refs ∪ {part | part ∈ group.parts})) (texts : List String) :
    (memos.update id fun memo => { memo with elementTexts? := some texts }).Closed objects
      (insert (.object id) refs) := by
  have grown : ∀ other, (memos other).elementTexts? ≠ none →
      ((memos.update id fun memo => { memo with elementTexts? := some texts }) other).elementTexts?
        ≠ none :=
    Memos.forall_update (P := fun other memo => (memos other).elementTexts? ≠ none →
      memo.elementTexts? ≠ none) (fun _ noted => noted) fun _ => Option.some_ne_none texts
  have here : (memos.update id fun memo => { memo with elementTexts? := some texts }).Cover objects
      (.object id) := by
    refine cover_of_parts (fun part written => ?_) fun other same _ => ?_
    · rw [Objects.writtenParts_of_ofObject? node.isGroup] at written
      exact (closed.cover part (.inr written)).mono grown
    · cases same
      rw [Memos.update_self]
      exact nofun
  refine ⟨fun other keepsMemo noted => ?_, ?_⟩
  · by_cases same : other = id
    · rw [same]
      exact here
    · rw [Memos.update_other _ _ _ _ same] at noted
      exact (closed.below other keepsMemo noted).mono grown
  · rintro ref (rfl | member)
    · exact here
    · exact (closed.cover ref (.inl member)).mono grown

namespace Printing

variable {α β : Type} {before middle after : Memos → Prop}

/-! ### From one property of the notes to another -/

/-- Whether an action that has a result takes notes with one property to notes with another. -/
def Leads (before : Memos → Prop) (action : Printing α) (after : Memos → Prop) : Prop :=
  ∀ memos value, before memos → (action memos).1 = .ok value → after (action memos).2

theorem Preserves.leads {action : Printing α} (preserves : Preserves before action) :
    Leads before action before :=
  fun memos _ holds _ => preserves memos holds

theorem Leads.bind {action : Printing α} {next : α → Printing β}
    (first : Leads before action middle) (second : ∀ value, Leads middle (next value) after) :
    Leads before (action >>= next) after := by
  intro memos result holds ends
  obtain ⟨value, first_ends, rest, runs⟩ := Stateful.exists_of_bind_ok ends
  rw [runs]
  exact second value _ result (first memos value holds first_ends) rest

/-- Going through a list, values are added to a set one after another. -/
theorem Leads.mapM {action : Ref → Printing β} {property : Set Ref → Memos → Prop}
    (each : ∀ ref refs, Leads (property refs) (action ref) (property (insert ref refs)))
    (values : List Ref) (refs : Set Ref) :
    Leads (property refs) (values.mapM action) (property (refs ∪ {ref | ref ∈ values})) := by
  induction values generalizing refs with
  | nil =>
    have same : refs ∪ {ref | ref ∈ ([] : List Ref)} = refs := by simp
    rw [same]
    exact (Preserves.pure []).leads
  | cons value rest inductionHypothesis =>
    have same : refs ∪ {ref | ref ∈ value :: rest} =
        insert value refs ∪ {ref | ref ∈ rest} := by
      ext ref
      simp only [Set.mem_union, Set.mem_insert_iff, Set.mem_ofPred_eq, List.mem_cons]
      tauto
    rw [same, List.mapM_cons]
    exact (each value refs).bind fun result => (inductionHypothesis (insert value refs)).bind
      fun results => (Preserves.pure (result :: results)).leads

/-! ### Printing -/

section Nodes

variable {printPart : Ref → Printing String} {id : ObjectId} {group : Group}
variable (node : objects.NodeAt id group)

include node

theorem leads_elementTexts
    (parts : Leads (Memos.Closed objects · refs) (group.parts.mapM printPart)
      (Memos.Closed objects · (refs ∪ {part | part ∈ group.parts}))) :
    Leads (Memos.Closed objects · refs) (elementTexts printPart id group)
      (Memos.Closed objects · (insert (.object id) refs)) := by
  intro memos texts closed ends
  rw [elementTexts, memoOf_bind] at ends ⊢
  cases found : (memos id).elementTexts? with
  | some noted =>
    have isNoted : (memos id).elementTexts? ≠ none := found ▸ Option.some_ne_none noted
    refine ⟨closed.below, ?_⟩
    rintro ref (rfl | member)
    · exact closed.below id node.keepsMemo isNoted
    · exact closed.cover ref member
  | none =>
    rw [found] at ends
    obtain ⟨printed, partsEnd, _, runs⟩ := Stateful.exists_of_bind_ok ends
    simp only [runs]
    exact (parts memos printed closed partsEnd).note node (group.elementTexts printed)

omit node in
theorem same_elementTexts_update {memos : Memos} {change : Memo → Memo}
    (same : ∀ memo, (change memo).elementTexts? = memo.elementTexts?) (other : ObjectId) :
    ((memos.update id change) other).elementTexts? = (memos other).elementTexts? :=
  Memos.forall_update (P := fun id memo => memo.elementTexts? = (memos id).elementTexts?)
    (fun _ => rfl) (same (memos id)) other

theorem leads_printNoted
    (parts : Leads (Memos.Closed objects · refs) (group.parts.mapM printPart)
      (Memos.Closed objects · (refs ∪ {part | part ∈ group.parts}))) :
    Leads (Memos.Closed objects · refs) (printNoted printPart id group)
      (Memos.Closed objects · (insert (.object id) refs)) := by
  have between : Preserves (Memos.Closed objects · (insert (.object id) refs))
      (delimiters id group) :=
    Preserves.delimiters fun memos closed _ =>
      closed.of_same (same_elementTexts_update fun _ => rfl)
  have sugar : Preserves (Memos.Closed objects · (insert (.object id) refs))
      (noteSugar id group) :=
    Preserves.noteSugar fun memos closed _ _ =>
      closed.of_same (same_elementTexts_update fun _ => rfl)
  exact (leads_elementTexts node parts).bind fun texts => between.leads.bind fun _ =>
    sugar.leads.bind fun _ => (Preserves.settle _).leads

end Nodes

/-- If printing a value adds it to a set wherever its parts have been added, then printing adds
values to the set. -/
theorem leads_print_of (property : Set Ref → Memos → Prop) (isReadable : Bool)
    (unnoted : ∀ ref refs memos, (objects.look ref).keepsMemo = false →
      property (refs ∪ {part | part ∈ objects.writtenParts ref}) memos →
        property (insert ref refs) memos)
    (nodes : ∀ id group refs (printPart : Ref → Printing String), objects.NodeAt id group →
      Leads (property refs) (group.parts.mapM printPart)
        (property (refs ∪ {part | part ∈ group.parts})) →
      Leads (property refs) (printNoted printPart id group) (property (insert (.object id) refs)))
    (depth : Nat) (ref : Ref) (refs : Set Ref) :
    Leads (property refs) (print objects isReadable depth ref) (property (insert ref refs)) := by
  induction depth generalizing ref refs with
  | zero => exact nofun
  | succ depth inductionHypothesis =>
    have parts := fun values => Leads.mapM inductionHypothesis values refs
    rcases objects.unnoted_or_node ref with hasNone | ⟨id, group, rfl, node⟩
    · rw [print_unnoted hasNone]
      refine (parts (objects.writtenParts ref)).bind fun texts memos text holds _ => ?_
      exact unnoted ref refs memos hasNone holds
    · rw [print_node node]
      exact nodes id group refs _ node (parts group.parts)

/-- A value that was printed has texts noted on all its nodes. -/
theorem leads_print (isReadable : Bool) (depth : Nat) (ref : Ref) (refs : Set Ref) :
    Leads (Memos.Closed objects · refs) (print objects isReadable depth ref)
      (Memos.Closed objects · (insert ref refs)) := by
  refine leads_print_of (fun refs => (Memos.Closed objects · refs)) isReadable ?_
    (fun _ _ _ _ node => leads_printNoted node) depth ref refs
  intro ref refs memos unnoted closed
  refine ⟨closed.below, ?_⟩
  rintro other (rfl | member)
  · refine Memos.cover_of_parts (fun part written => closed.cover part (.inr written)) ?_
    intro id _ keepsMemo
    rw [unnoted] at keepsMemo
    cases keepsMemo
  · exact closed.cover other (.inl member)

end Printing

end SketchForm
