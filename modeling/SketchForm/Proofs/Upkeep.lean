/-
This file proves that whoever drops the right notes after every change is always given
the source of a value as it is now.

The printer does not know when an object is changed. So after a change the notes on the
changed object have to be dropped, and those on every node from which it can be reached,
before anything is printed again. The invariant of a store kept up in this way is that
the notes that are not due to be dropped are right. A change makes due what it can make
wrong, since all values that do not reach the changed object are written as before, and
what is printed while nothing is due is right by itself.
-/
import SketchForm.Proofs.Change

namespace SketchForm

/-- The nodes with notes on them from which a value can be reached, the value itself included. -/
def Objects.above (objects : Objects) (node : Ref) : Set ObjectId :=
  {id | (objects.look (.object id)).keepsMemo = true ∧ objects.Reaches (.object id) node}

/-- The stores that come about from a store by printing, changing objects in place and dropping
notes, with the nodes whose notes are due to be dropped. Nothing is printed while any are. -/
inductive Run (isReadable : Bool) (start : Store) : Store → Set ObjectId → Prop
  | initial : Run isReadable start start ∅
  | print {store : Store} (run : Run isReadable start store ∅) (acyclic : store.objects.Acyclic)
      (ref : Ref) : Run isReadable start (store.print isReadable ref).2 ∅
  | change {store changed : Store} {due : Set ObjectId} (run : Run isReadable start store due)
      (change : Change) (applied : change.apply store = .ok changed) :
      Run isReadable start changed (due ∪ changed.objects.above change.node)
  | clear {store : Store} {due : Set ObjectId} (run : Run isReadable start store due) (ref : Ref) :
      Run isReadable start (store.clearMemo ref) (due \ {id | ref = .object id})

variable {isReadable : Bool} {due : Set ObjectId} {store changed : Store}

/-! ### What every step preserves -/

/-- Notes not due after a change stay right: their nodes do not reach what was changed. -/
theorem Coherent.change (coherent : Coherent store.objects isReadable due store.memos)
    {change : Change} (applied : change.apply store = .ok changed) :
    Coherent changed.objects isReadable (due ∪ changed.objects.above change.node)
      changed.memos := by
  intro id notDue group node
  have apart : ¬ changed.objects.Reaches (.object id) change.node :=
    fun way => notDue (.inr ⟨node.keepsMemo, way⟩)
  have agree : ∀ ref, ref ≠ change.node → changed.objects.look ref = store.objects.look ref :=
    fun ref => Change.look_of_apply applied
  have before : store.objects.NodeAt id group := node.of_apart agree apart
  have right := coherent id (fun isDue => notDue (.inl isDue)) group before
  rw [Change.memos_of_apply applied]
  exact Objects.follows_of_apart agree apart (Change.depth_of_apply applied) before right

/-- Dropping notes makes none of the others wrong. -/
theorem Coherent.clear (coherent : Coherent store.objects isReadable due store.memos) (ref : Ref) :
    Coherent (store.clearMemo ref).objects isReadable (due \ {id | ref = .object id})
      (store.clearMemo ref).memos := by
  rw [Store.objects_clearMemo]
  intro id notDue group node
  by_cases same : ref = .object id
  · rw [same, store.memos_clearMemo_self node.keepsMemo]
    exact Memo.Follows.none store.objects _ id group
  · rw [store.memos_clearMemo_other same]
    exact coherent id (fun before => notDue ⟨before, same⟩) group node

/-- In a store kept up in this way, the notes not due to be dropped are right. -/
theorem Run.coherent {start : Store} (fresh : ∀ id, start.memos id = {})
    (run : Run isReadable start store due) :
    Coherent store.objects isReadable due store.memos := by
  induction run with
  | initial => exact coherent_of_fresh fresh
  | print run acyclic ref inductionHypothesis =>
    exact (Store.print_of_coherent inductionHypothesis (acyclic.fits ref)).2
  | change run change applied inductionHypothesis => exact inductionHypothesis.change applied
  | clear run ref inductionHypothesis => exact inductionHypothesis.clear ref

/-- In a store without loops that is kept up in this way, every value is printed as the source of
what it contains now, whether or not all prints before gave a text. Only an integer that is too
long to be written can keep it from being printed, and then that is the failure. -/
theorem Run.print_eq_source {start : Store} (fresh : ∀ id, start.memos id = {})
    (run : Run isReadable start store ∅) (acyclic : store.objects.Acyclic) (ref : Ref) :
    ∃ tree, store.tree ref = .ok tree ∧
      (store.objects.Writable ref →
        (store.print isReadable ref).1 = .ok (tree.source isReadable)) ∧
      (¬ store.objects.Writable ref →
        (store.print isReadable ref).1 = .error .numeralTooLong) := by
  obtain ⟨tree, unfolds⟩ := acyclic.fits ref
  have isTree : store.tree ref = .ok tree := Store.tree_eq_ok_iff.mpr unfolds
  exact ⟨tree, isTree, Store.print_eq_source_of_coherent (run.coherent fresh) isTree⟩

/-- A pair that holds one list twice, with this value in the list. -/
def pairOf (value : Scalar) : Objects :=
  #[.sequence .list [.scalar value], .sequence .vector [.object 0, .object 0]]

theorem acyclic_pairOf (value : Scalar) : (pairOf value).Acyclic :=
  Objects.acyclic_of_isOrdered rfl

/-- A pair of ones without notes. -/
def pair : Store := { objects := pairOf (.integer 1) }

/-- The pair after it was printed, its list changed, and the notes on both dropped. -/
def renewedPair : Store :=
  let printed := (pair.print true (.object 1)).2
  let changed := printed.replace (.object 0) (.sequence .list [.scalar (.integer 2)])
  (changed.clearMemo (.object 0)).clearMemo (.object 1)

theorem run_renewedPair : Run true pair renewedPair ∅ := by
  have printed : Run true pair (pair.print true (.object 1)).2 ∅ :=
    .print .initial (acyclic_pairOf (.integer 1)) (.object 1)
  have changed := printed.change
    (.set (.object 0) (.scalar (.integer 0)) (.scalar (.integer 2))) rfl
  have cleared : Run true pair renewedPair _ := (changed.clear (.object 0)).clear (.object 1)
  convert cleared using 1
  refine (Set.eq_empty_iff_forall_notMem.mpr ?_).symm
  rintro id ⟨⟨due | ⟨keepsMemo, _⟩, notList⟩, notPair⟩
  · exact due
  · match id with
    | 0 => exact notList rfl
    | 1 => exact notPair rfl
    | _ + 2 => cases keepsMemo

theorem Run.print_eq_source_renewed :
    (renewedPair.print true (.object 1)).1 = .ok "[(2) (2)]" := by
  have acyclic : renewedPair.objects.Acyclic := acyclic_pairOf (.integer 2)
  have text : renewedPair.objects.sourceIn (fun _ => true) renewedPair.objects.depth true
      (.object 1) = .ok "[(2) (2)]" := by decide +kernel
  have writable : renewedPair.objects.Writable (.object 1) :=
    (Objects.endsIff_sourceIn (acyclic.fits _)).holds text
  obtain ⟨tree, isTree, printed, _⟩ :=
    Run.print_eq_source (fun _ => rfl) run_renewedPair acyclic (.object 1)
  cases isTree
  rw [printed writable]
  decide +kernel

end SketchForm
