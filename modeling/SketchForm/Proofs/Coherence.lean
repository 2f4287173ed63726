/-
This file says when the notes of the printer are right, and proves that printing then
gives the source of a value.

The notes on a node are right if they are what the printer would note on it now: the
texts of its elements are made from the sources of its parts, and its delimiters are the
usual ones. Nothing is asked of nodes that were changed and whose notes are still due to
be dropped. Printing while no notes are due gives the source of a value, whatever is
noted so far and however the nodes share their parts, and what it notes is right again.
The source is not given where an integer in it is too long to be written, and then what
was noted up to there is right too.
-/
import SketchForm.Proofs.Rendering

namespace SketchForm

/-- Whether the notes on all nodes are right, but for those still due to be dropped: they are what
the printer would note in this mode. -/
def Coherent (objects : Objects) (isReadable : Bool) (due : Set ObjectId) (memos : Memos) : Prop :=
  ∀ id, id ∉ due → ∀ group, objects.NodeAt id group →
    (memos id).Follows objects (fun _ => isReadable) id group

variable {objects : Objects} {isReadable : Bool} {due : Set ObjectId}

/-- Where nothing is noted, nothing wrong is. -/
theorem coherent_of_fresh {memos : Memos} (fresh : ∀ id, memos id = {}) :
    Coherent objects isReadable due memos := by
  intro id _ group _
  rw [fresh id]
  exact Memo.Follows.none objects _ id group

/-- If no notes are due to be dropped, all agree with the one mode. -/
theorem coherent_iff_follow {memos : Memos} :
    Coherent objects isReadable ∅ memos ↔ memos.Follow objects (fun _ => isReadable) ∅ := by
  constructor
  · exact fun coherent id group node => ⟨coherent id (Set.notMem_empty id) group node, nofun⟩
  · exact fun follow id _ group node => (follow id group node).1

namespace Store

variable {store : Store} {ref : Ref} {tree : Tree Float}

theorem tree_eq_ok_iff :
    store.tree ref = .ok tree ↔ store.objects.unfold store.objects.depth ref = some tree := by
  rw [Store.tree]
  cases store.objects.unfold store.objects.depth ref with
  | none => exact ⟨nofun, nofun⟩
  | some found =>
    exact ⟨fun same => Except.ok.inj same ▸ rfl, fun same => Option.some.inj same ▸ rfl⟩

/-- While all notes are right, printing a value comes to its text in one mode, and the notes stay
right whether there is such a text or not. -/
theorem print_of_coherent (coherent : Coherent store.objects isReadable ∅ store.memos)
    (fits : store.objects.Fits store.objects.depth ref) :
    (store.print isReadable ref).1 =
        store.objects.sourceIn (fun _ => isReadable) store.objects.depth isReadable ref ∧
      Coherent store.objects isReadable ∅ (store.print isReadable ref).2.memos := by
  obtain ⟨given, follow⟩ := Printing.keeps_print_follow store.objects.depth le_rfl fits
    (fun _ _ _ => rfl) store.memos (coherent_iff_follow.mp coherent)
  exact ⟨given, coherent_iff_follow.mpr follow⟩

/-- So it gives the source of the value, or fails at an integer that is too long to be written. -/
theorem print_eq_source_of_coherent
    (coherent : Coherent store.objects isReadable ∅ store.memos)
    (isTree : store.tree ref = .ok tree) :
    (store.objects.Writable ref →
        (store.print isReadable ref).1 = .ok (tree.source isReadable)) ∧
      (¬ store.objects.Writable ref →
        (store.print isReadable ref).1 = .error .numeralTooLong) := by
  have unfolds := tree_eq_ok_iff.mp isTree
  have fits : store.objects.Fits store.objects.depth ref := ⟨tree, unfolds⟩
  rw [(print_of_coherent coherent fits).1]
  exact ⟨Objects.sourceIn_eq_source store.objects.depth unfolds,
    (Objects.endsIff_sourceIn fits).fails⟩

/-- A text that is given to a value on which nothing is noted is its source. -/
theorem eq_source_of_print (fresh : ∀ id, store.memos id = {}) (isTree : store.tree ref = .ok tree)
    {text : String} (printed : (store.print isReadable ref).1 = .ok text) :
    text = tree.source isReadable := by
  obtain ⟨gives, fails⟩ := print_eq_source_of_coherent (coherent_of_fresh fresh) isTree
  by_cases writable : store.objects.Writable ref
  · exact Except.ok.inj (printed.symm.trans (gives writable))
  · cases printed.symm.trans (fails writable)

end Store

end SketchForm
