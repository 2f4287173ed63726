/-
This file says what becomes of a node's text when the node is changed and nobody drops
the notes on it.

A first print of a node leaves on it the texts of its elements and its delimiters, and
neither is written anew as long as the notes are spared: printing adds notes only, and
changing objects touches none. So every later print has the same text between the
brackets, in either mode and whatever the elements are by then.

What stands around that text is not noted. It is settled by the kind of the node, which
never changes, and by the short form that its elements ask for now. A vector or a map
therefore keeps its text. A list keeps it exactly as long as it has the short form, or
the lack of one, that it had when it was first printed: if it loses a short form, the
arguments stand in round brackets without their head.
-/
import SketchForm.Proofs.Change
import SketchForm.Proofs.Growth

namespace SketchForm

namespace Printing

/-! ### A node before and after it is printed -/

section Nodes

variable {printPart : Ref → Printing String} {id : ObjectId} {group : Group} {memos : Memos}

/-- The texts that a print uses for the elements of a node are noted on it. -/
theorem noted_elementTexts {texts : List String}
    (ends : (elementTexts printPart id group memos).1 = .ok texts) :
    ((elementTexts printPart id group memos).2 id).elementTexts? = some texts := by
  rw [elementTexts, memoOf_bind] at ends ⊢
  cases found : (memos id).elementTexts? with
  | some noted =>
    rw [found] at ends
    rw [← Except.ok.inj ends]
    exact found
  | none =>
    rw [found] at ends
    obtain ⟨printed, _, noting, runs⟩ := Stateful.exists_of_bind_ok ends
    have written := Except.ok.inj noting
    simp only [runs]
    rw [← written]
    exact congrArg Memo.elementTexts? (Memos.update_self _ id _)

/-- So are the delimiters. -/
theorem noted_delimiters {used : List String} (ends : (delimiters id group memos).1 = .ok used) :
    ((delimiters id group memos).2 id).delimiters? = some used := by
  rw [delimiters, memoOf_bind] at ends ⊢
  cases found : (memos id).delimiters? with
  | some noted =>
    rw [found] at ends
    rw [← Except.ok.inj ends]
    exact found
  | none =>
    rw [found] at ends
    rw [← Except.ok.inj ends]
    exact congrArg Memo.delimiters? (Memos.update_self _ id _)

/-- A print that gives a text leaves both notes on the node, and the text is made from them. -/
theorem exists_noted_of_printNoted {text : String}
    (ends : (printNoted printPart id group memos).1 = .ok text) :
    ∃ texts used, ((printNoted printPart id group memos).2 id).elementTexts? = some texts ∧
      ((printNoted printPart id group memos).2 id).delimiters? = some used ∧
      group.assemble used texts = .ok text := by
  obtain ⟨texts, textsEnd, rest, runs⟩ := Stateful.exists_of_bind_ok ends
  obtain ⟨used, usedEnd, rest, runsOn⟩ := Stateful.exists_of_bind_ok rest
  obtain ⟨_, _, assembled, runsOut⟩ := Stateful.exists_of_bind_ok rest
  have textsNoted := noted_elementTexts textsEnd
  have usedNoted := noted_delimiters usedEnd
  generalize (elementTexts printPart id group memos).2 = first at *
  have second : first.Grow (delimiters id group first).2 :=
    preserves_delimiters first (Memos.Grow.refl first)
  generalize (delimiters id group first).2 = middle at *
  have third : middle.Grow (noteSugar id group middle).2 :=
    preserves_noteSugar middle (Memos.Grow.refl middle)
  refine ⟨texts, used, ?_, ?_, assembled⟩
  · rw [printNoted, runs, runsOn, runsOut]
    exact (third id).elementTexts texts ((second id).elementTexts texts textsNoted)
  · rw [printNoted, runs, runsOn, runsOut]
    exact (third id).delimiters used usedNoted

/-- With both notes on it, a node is written from them. -/
theorem printNoted_of_noted {texts used : List String}
    (textsNoted : (memos id).elementTexts? = some texts)
    (usedNoted : (memos id).delimiters? = some used) :
    (printNoted printPart id group memos).1 = group.assemble used texts := by
  have elements : elementTexts printPart id group memos = (.ok texts, memos) := by
    rw [elementTexts, memoOf_bind, textsNoted]
    rfl
  have between : delimiters id group memos = (.ok used, memos) := by
    rw [delimiters, memoOf_bind, usedNoted]
    rfl
  have sugar : (noteSugar id group memos).1 = .ok () := by
    rw [noteSugar, memoOf_bind]
    split <;> rfl
  rw [printNoted, Stateful.bind_of_ok _ (congrArg Prod.fst elements), elements,
    Stateful.bind_of_ok _ (congrArg Prod.fst between), between, Stateful.bind_of_ok _ sugar]
  rfl

end Nodes

end Printing

/-! ### Around the elements of a node -/

/-- The short forms that a node can have, or none. -/
def shortForms : List (Option Sugar) := [none, some ⟨2, "'"⟩, some ⟨3, "#"⟩, some ⟨3, "^"⟩]

/-- What stands before and after the elements of a node of this kind. -/
def bracketsOf (kind : SequenceKind ⊕ TableKind) (sugar? : Option Sugar) : String × String :=
  match sugar?, kind with
  | some sugar, _ => (sugar.mark, "")
  | none, .inl .vector => ("[", "]")
  | none, .inl _ => ("(", ")")
  | none, .inr _ => ("\x7b", "\x7d")

namespace Group

/-- The text of a node with this text inside. -/
def wrap (group : Group) (body : String) : String := group.opening ++ body ++ group.closing

/-- A text made from delimiters and elements has something inside that the brackets do not
influence. -/
theorem exists_body_of_assemble {group : Group} {used texts : List String} {text : String}
    (assembled : group.assemble used texts = .ok text) :
    ∃ body, text = group.wrap body ∧
      ∀ other : Group, other.assemble used texts = .ok (other.wrap body) := by
  cases last : used.getLast? with
  | none => rw [assemble, last] at assembled; cases assembled
  | some ending =>
    have each : ∀ other : Group, other.assemble used texts =
        .ok (other.wrap (String.join (List.zipWith (· ++ ·) used texts) ++ ending)) := by
      intro other
      rw [assemble, last, wrap]
      simp only [String.append_assoc]
    exact ⟨_, Except.ok.inj (assembled.symm.trans (each group)), each⟩

/-- Whether a node is written the way that nodes of its kind are. -/
structure IsWrittenAs (group : Group) (kind : SequenceKind ⊕ TableKind) : Prop where
  brackets : (group.opening, group.closing) = bracketsOf kind group.sugar?
  sugar : group.sugar? ∈ shortForms

theorem isWrittenAs_round (head? : Option Scalar) (items : List Ref) :
    (round head? items).IsWrittenAs (.inl .list) ∧
      (round head? items).IsWrittenAs (.inl .plain) := by
  rw [round]
  cases short : head?.bind fun head => Sugar.ofSequence? head items.length with
  | none => exact ⟨⟨rfl, List.mem_cons_self⟩, ⟨rfl, List.mem_cons_self⟩⟩
  | some sugar =>
    obtain ⟨head, _, short⟩ := Option.bind_eq_some_iff.mp short
    have known : some sugar ∈ shortForms := by
      rcases Sugar.ofSequence?_eq_some short with ⟨_, _, rfl⟩ | ⟨_, _, rfl⟩ | ⟨_, _, rfl⟩ <;> decide
    exact ⟨⟨rfl, known⟩, ⟨rfl, known⟩⟩

/-- Every node is written the way that nodes of its kind are. -/
theorem isWrittenAs_of_ofObject? {objects : Objects} {object : Object} {group : Group}
    (isGroup : ofObject? objects object = some group) {kind : SequenceKind ⊕ TableKind}
    (isKind : object.containerKind? = some kind) : group.IsWrittenAs kind := by
  cases object with
  | sequence kind items =>
    cases isKind
    cases kind with
    | list => cases isGroup; exact (isWrittenAs_round _ items).1
    | plain => cases isGroup; exact (isWrittenAs_round _ items).2
    | vector => cases isGroup; exact ⟨rfl, List.mem_cons_self⟩
    | tuple => cases isGroup
  | table kind entries =>
    cases isKind
    cases isGroup
    exact ⟨rfl, List.mem_cons_self⟩
  | _ => cases isKind

/-- Every text around the elements begins with a character that tells the short form. -/
theorem eq_of_head?_bracketsOf (kind : SequenceKind ⊕ TableKind) :
    ∀ sugar? ∈ shortForms, ∀ other? ∈ shortForms,
      (bracketsOf kind sugar?).1.toList.head? = (bracketsOf kind other?).1.toList.head? →
        sugar? = other? := by
  rcases kind with (_ | _ | _ | _) | (_ | _) <;> decide

theorem IsWrittenAs.head?_wrap {group : Group} {kind : SequenceKind ⊕ TableKind}
    (written : group.IsWrittenAs kind) (body : String) :
    (group.wrap body).toList.head? = (bracketsOf kind group.sugar?).1.toList.head? := by
  have nonempty : ∀ sugar? ∈ shortForms, (bracketsOf kind sugar?).1.toList ≠ [] := by
    rcases kind with (_ | _ | _ | _) | (_ | _) <;> decide
  have opening : group.opening = (bracketsOf kind group.sugar?).1 :=
    congrArg Prod.fst written.brackets
  rw [wrap, String.toList_append, String.toList_append, List.append_assoc, opening]
  exact List.head?_append_of_ne_nil _ (nonempty _ written.sugar)

/-- Two nodes of one kind with the same inside have the same text exactly if they have the same
short form or both none. -/
theorem IsWrittenAs.wrap_eq_iff {group other : Group} {kind : SequenceKind ⊕ TableKind}
    (written : group.IsWrittenAs kind) (isOther : other.IsWrittenAs kind) (body : String) :
    group.wrap body = other.wrap body ↔ group.sugar? = other.sugar? := by
  constructor
  · intro same
    have heads := congrArg (·.toList.head?) same
    simp only [written.head?_wrap, isOther.head?_wrap] at heads
    exact eq_of_head?_bracketsOf kind _ written.sugar _ isOther.sugar heads
  · intro same
    have brackets := written.brackets
    rw [same, ← isOther.brackets] at brackets
    obtain ⟨opening, closing⟩ := Prod.mk.inj brackets
    rw [wrap, wrap, opening, closing]

/-- Only lists have short forms. -/
theorem sugar?_eq_none_of_not_list {objects : Objects} {object : Object} {group : Group}
    (isGroup : ofObject? objects object = some group) (keepsMemo : object.keepsMemo = true)
    (notList : object.containerKind? ≠ some (.inl .list)) : group.sugar? = none := by
  cases object with
  | sequence kind items =>
    cases kind with
    | list => exact absurd rfl notList
    | vector => cases isGroup; rfl
    | _ => cases keepsMemo
  | table kind entries => cases isGroup; rfl
  | _ => cases keepsMemo

end Group

/-! ### The kind of a node -/

theorem Object.exists_containerKind? {object : Object} (keepsMemo : object.keepsMemo = true) :
    ∃ kind, object.containerKind? = some kind := by
  cases object with
  | sequence kind items => exact ⟨_, rfl⟩
  | table kind entries => exact ⟨_, rfl⟩
  | _ => cases keepsMemo

/-- Whether the printer notes anything on an object is settled by its kind. -/
theorem Object.keepsMemo_congr {object other : Object}
    (same : other.containerKind? = object.containerKind?) : other.keepsMemo = object.keepsMemo := by
  cases object with
  | sequence kind items => cases other <;> cases same; cases kind <;> rfl
  | table kind entries => cases other <;> cases same; cases kind <;> rfl
  | _ => cases other <;> cases same <;> rfl

namespace Store

/-- Replacing an object by one of its kind changes the kind of none. -/
theorem containerKind?_look_replace {store : Store} {node : Ref} {object : Object}
    (same : object.containerKind? = (store.objects.look node).containerKind?) (ref : Ref) :
    ((store.replace node object).objects.look ref).containerKind? =
      (store.objects.look ref).containerKind? := by
  by_cases isNode : ref = node
  · subst isNode
    cases ref with
    | scalar value => rfl
    | object id =>
      by_cases present : id < store.objects.size
      · rw [← same, replace, Objects.look, Array.getElem?_setIfInBounds_self_of_lt present]
        rfl
      · rw [replace, Array.setIfInBounds_eq_of_size_le (Nat.le_of_not_lt present)]
  · rw [store.look_replace_other object isNode]

/-- Putting a part into an object leaves the store as it is or replaces the object by one of its
kind. -/
theorem setPart_eq_or_exists_replace (store : Store) (node key value : Ref) :
    (store.setPart node key value).2 = store ∨
      ∃ object, object.containerKind? = (store.objects.look node).containerKind? ∧
        (store.setPart node key value).2 = store.replace node object := by
  rw [setPart]
  split
  · rename_i row isRow
    exact .inr ⟨_, by rw [isRow]; rfl, rfl⟩
  · cases applied : store.setMember node key value with
    | ok changed =>
      have change : (Change.set node key value).apply store = .ok changed := applied
      exact .inr (Change.exists_replace_of_apply change)
    | error failure => exact .inl rfl

end Store

/-! ### While the notes on a node are spared -/

/-- The stores that come about from a store while nobody but the printer writes to the notes on one
node: values are printed in either mode, objects are made and changed in place, and notes on other
nodes are written or dropped. -/
inductive Spared (id : ObjectId) (start : Store) : Store → Prop
  | refl : Spared id start start
  | print {store : Store} (spared : Spared id start store) (isReadable : Bool) (ref : Ref) :
      Spared id start (store.print isReadable ref).2
  | put {store : Store} (spared : Spared id start store) (node key value : Ref) :
      Spared id start (store.setPart node key value).2
  | change {store changed : Store} (spared : Spared id start store) (change : Change)
      (applied : change.apply store = .ok changed) : Spared id start changed
  | annotate {store : Store} (spared : Spared id start store) {ref : Ref} (other : ref ≠ .object id)
      (change : Memo → Memo) : Spared id start (store.updateMemo ref change)
  | allocate {store : Store} (spared : Spared id start store) (object : Object) :
      Spared id start (store.allocate object).2

namespace Spared

variable {id : ObjectId} {start later : Store}

/-- What is noted on the node stays noted. -/
theorem growsTo (spared : Spared id start later) :
    (start.memos id).GrowsTo (later.memos id) := by
  induction spared with
  | refl => exact Memo.GrowsTo.refl _
  | @print store _ isReadable ref inductionHypothesis =>
    have grown := Printing.grow_print store.objects isReadable store.objects.depth ref store.memos
    exact inductionHypothesis.trans (grown id)
  | @put store _ node key value inductionHypothesis =>
    rcases store.setPart_eq_or_exists_replace node key value with same | ⟨object, _, same⟩
    · rw [same]
      exact inductionHypothesis
    · rw [same, store.memos_replace node object]
      exact inductionHypothesis
  | change _ change applied inductionHypothesis =>
    rw [Change.memos_of_apply applied]
    exact inductionHypothesis
  | @annotate store _ ref other change inductionHypothesis =>
    have untouched : (store.updateMemo ref change).memos id = store.memos id := by
      cases ref with
      | scalar value => rfl
      | object key =>
        have apart : id ≠ key := fun same => other (same ▸ rfl)
        rw [Store.updateMemo]
        split
        · exact Memos.update_other store.memos key id change apart
        · rfl
    rw [untouched]
    exact inductionHypothesis
  | allocate _ object inductionHypothesis => exact inductionHypothesis

/-- The node stays of its kind. -/
theorem containerKind?_eq (spared : Spared id start later) {kind : SequenceKind ⊕ TableKind}
    (isKind : (start.objects.look (.object id)).containerKind? = some kind) :
    (later.objects.look (.object id)).containerKind? = some kind := by
  induction spared with
  | refl => exact isKind
  | print _ isReadable ref inductionHypothesis => exact inductionHypothesis
  | @put store _ node key value inductionHypothesis =>
    rcases store.setPart_eq_or_exists_replace node key value with same | ⟨object, isSame, same⟩
    · rw [same]
      exact inductionHypothesis
    · rw [same, Store.containerKind?_look_replace isSame]
      exact inductionHypothesis
  | change _ change applied inductionHypothesis =>
    obtain ⟨object, isSame, rfl⟩ := Change.exists_replace_of_apply applied
    rw [Store.containerKind?_look_replace isSame]
    exact inductionHypothesis
  | @annotate store _ ref other change inductionHypothesis =>
    have untouched : (store.updateMemo ref change).objects = store.objects := by
      cases ref with
      | scalar value => rfl
      | object key =>
        rw [Store.updateMemo]
        split <;> rfl
    rw [untouched]
    exact inductionHypothesis
  | @allocate store _ object inductionHypothesis =>
    have present : id < store.objects.size := by
      by_contra beyond
      rw [Objects.look, Array.getElem?_eq_none (Nat.le_of_not_lt beyond)] at inductionHypothesis
      cases inductionHypothesis
    rw [store.look_allocate_other object present]
    exact inductionHypothesis

end Spared

/-! ### The text of a node from one print to the next -/

/-- The short form that a value has now. -/
def Store.shortForm? (store : Store) (ref : Ref) : Option Sugar :=
  (Group.ofObject? store.objects (store.objects.look ref)).bind Group.sugar?

theorem Objects.NodeAt.shortForm? {store : Store} {id : ObjectId} {group : Group}
    (node : store.objects.NodeAt id group) : store.shortForm? (.object id) = group.sugar? := by
  rw [Store.shortForm?, node.isGroup]
  rfl

/-- A node that was printed once, and the notes on which were spared since, is printed again with
the same text inside. -/
theorem Spared.exists_body {store later : Store} {id : ObjectId} {isReadable : Bool} {text : String}
    {group now : Group} (node : store.objects.NodeAt id group) (isNow : later.objects.NodeAt id now)
    (first : (store.print isReadable (.object id)).1 = .ok text)
    (spared : Spared id (store.print isReadable (.object id)).2 later) (again : Bool) :
    ∃ body, text = group.wrap body ∧
      (later.print again (.object id)).1 = .ok (now.wrap body) := by
  have printed := Printing.print_node node isReadable store.objects.size
  have ends : (Printing.printNoted (Printing.print store.objects isReadable store.objects.size) id
      group store.memos).1 = .ok text := by
    rw [← printed]
    exact first
  obtain ⟨texts, used, textsNoted, usedNoted, assembled⟩ := Printing.exists_noted_of_printNoted ends
  rw [← printed] at textsNoted usedNoted
  obtain ⟨body, isText, each⟩ := Group.exists_body_of_assemble assembled
  refine ⟨body, isText, ?_⟩
  show (Printing.print later.objects again (later.objects.size + 1) (.object id) later.memos).1 = _
  rw [Printing.print_node isNow, Printing.printNoted_of_noted
    (spared.growsTo.elementTexts texts textsNoted) (spared.growsTo.delimiters used usedNoted)]
  exact each now

/-- A node that was printed once, and the notes on which were spared since, is printed again with
the same text inside the brackets or behind the mark that its kind and its elements ask for now. So
it is given the same text exactly if it has the short form that it had, or none as before; and
always, if it is a vector or a map. -/
theorem Spared.print_eq_ok_iff {store later : Store} {id : ObjectId} {isReadable : Bool}
    {text : String} (keepsMemo : (store.objects.look (.object id)).keepsMemo = true)
    (first : (store.print isReadable (.object id)).1 = .ok text)
    (spared : Spared id (store.print isReadable (.object id)).2 later) (again : Bool) :
    (∃ group now body, store.objects.NodeAt id group ∧ later.objects.NodeAt id now ∧
        text = group.wrap body ∧ (later.print again (.object id)).1 = .ok (now.wrap body)) ∧
      ((later.print again (.object id)).1 = .ok text ↔
        later.shortForm? (.object id) = store.shortForm? (.object id)) ∧
      ((store.objects.look (.object id)).containerKind? ≠ some (.inl .list) →
        (later.print again (.object id)).1 = .ok text) := by
  obtain ⟨kind, isKind⟩ := Object.exists_containerKind? keepsMemo
  have stillKind := spared.containerKind?_eq isKind
  have stillKeeps : (later.objects.look (.object id)).keepsMemo = true := by
    rw [Object.keepsMemo_congr (stillKind.trans isKind.symm), keepsMemo]
  obtain ⟨group, node⟩ := Objects.exists_nodeAt keepsMemo
  obtain ⟨now, isNow⟩ := Objects.exists_nodeAt stillKeeps
  obtain ⟨body, rfl, printed⟩ := spared.exists_body node isNow first again
  have same : now.wrap body = group.wrap body ↔ now.sugar? = group.sugar? :=
    (Group.isWrittenAs_of_ofObject? isNow.isGroup stillKind).wrap_eq_iff
      (Group.isWrittenAs_of_ofObject? node.isGroup isKind) body
  rw [node.shortForm?, isNow.shortForm?, printed, Except.ok.injEq]
  refine ⟨⟨group, now, body, node, isNow, rfl, rfl⟩, same, fun notList => same.mpr ?_⟩
  have notListNow : (later.objects.look (.object id)).containerKind? ≠ some (.inl .list) := by
    rw [stillKind, ← isKind]
    exact notList
  rw [Group.sugar?_eq_none_of_not_list isNow.isGroup stillKeeps notListNow,
    Group.sugar?_eq_none_of_not_list node.isGroup keepsMemo notList]

/-- A quotation of one symbol. -/
def quotation : Store where
  objects := #[.sequence .list [.scalar (.symbol "quote"), .scalar (.symbol "x")]]

/-- The quotation after it was printed and given another symbol to quote. -/
def requoted : Store :=
  (quotation.print true (.object 0)).2.replace (.object 0)
    (.sequence .list [.scalar (.symbol "quote"), .scalar (.symbol "y")])

theorem spared_requoted : Spared 0 (quotation.print true (.object 0)).2 requoted :=
  .change .refl (.set (.object 0) (.scalar (.integer 1)) (.scalar (.symbol "y"))) rfl

/-- A quotation that quotes something else now is still given its first text, in either mode. -/
theorem Spared.print_eq_ok_iff_requoted :
    (quotation.objects.look (.object 0)).keepsMemo = true ∧
      (quotation.print true (.object 0)).1 = .ok "'x" ∧
      (requoted.print false (.object 0)).1 = .ok "'x" := by
  have first : (quotation.print true (.object 0)).1 = .ok "'x" := by decide +kernel
  have same : requoted.shortForm? (.object 0) = quotation.shortForm? (.object 0) := by
    decide +kernel
  exact ⟨rfl, first, (Spared.print_eq_ok_iff rfl first spared_requoted false).2.1.mpr same⟩

/-- A quotation that one more element is added to loses its short form, and its head is not written
any more. -/
theorem exists_spared_print_ne :
    ∃ later, Spared 0 (quotation.print true (.object 0)).2 later ∧
      (quotation.print true (.object 0)).1 = .ok "'x" ∧
      (later.print true (.object 0)).1 = .ok "(x)" := by
  refine ⟨(quotation.print true (.object 0)).2.replace (.object 0) (.sequence .list
    [.scalar (.symbol "quote"), .scalar (.symbol "x"), .scalar (.integer 1)]), ?_, ?_, ?_⟩
  · exact .change .refl (.append (.object 0) (.scalar (.integer 1))) rfl
  · decide +kernel
  · decide +kernel

end SketchForm
