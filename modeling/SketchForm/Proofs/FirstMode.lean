/-
This file proves that a node keeps the mode in which it was first printed.

The mode, whether texts are written readably or as their characters alone, is chosen anew
for every print, but what is noted on a node is written once. So after prints in
different modes a value is a patchwork: the elements of each node are in the mode of the
first print that came upon the node, as the value asked for or anywhere below it, and
only what stands outside all nodes is in the mode asked for now.

That rests on two invariants of the notes. Whatever is noted on a node is what its own
mode asks for; and once a value was printed, texts are noted on every node in it. The
second is needed because a node that was passed by would be printed later in another
mode. It is kept up by prints that give a text. One that ends at an integer too long to
be written leaves nodes behind it without notes, and so the earlier prints are taken to
be of values without such integers.
-/
import SketchForm.Proofs.Coverage
import SketchForm.Proofs.Rendering

namespace SketchForm

variable {objects : Objects} {modes : ObjectId → Bool}

/-! ### The first request that involves a node -/

/-- A request to print a value in one of the two modes. -/
structure Request where
  isReadable : Bool
  ref : Ref
  deriving DecidableEq, Repr

/-- The objects that printing some values involves. -/
def Objects.involvedIn (objects : Objects) (requests : List Request) : Set ObjectId :=
  {id | ∃ request ∈ requests, objects.Involves request.ref (.object id)}

open Classical in
/-- The mode of the first request that involves an object. -/
noncomputable def Objects.firstMode (objects : Objects) (requests : List Request)
    (id : ObjectId) : Bool :=
  ((requests.find? fun request => objects.Involves request.ref (.object id)).map
    Request.isReadable).getD true

theorem Objects.firstMode_eq {earlier later : List Request} {request : Request} {id : ObjectId}
    (fresh : id ∉ objects.involvedIn earlier)
    (involves : objects.Involves request.ref (.object id)) :
    objects.firstMode (earlier ++ request :: later) id = request.isReadable := by
  have passed : ∀ other ∈ earlier, ¬ objects.Involves other.ref (.object id) :=
    fun other member below => fresh ⟨other, member, below⟩
  rw [firstMode, List.find?_append, List.find?_eq_none.mpr (by simpa using passed),
    Option.none_or, List.find?_cons_of_pos (by simpa using involves)]
  rfl

/-- What holds of the notes after some requests: they follow the modes, and texts are noted on all
nodes of the values that were printed. -/
structure Memos.After (objects : Objects) (modes : ObjectId → Bool) (requests : List Request)
    (memos : Memos) : Prop where
  follow : memos.Follow objects modes (objects.involvedIn requests)
  closed : memos.Closed objects {ref | ∃ request ∈ requests, request.ref = ref}

theorem Memos.After.of_fresh {memos : Memos} (fresh : ∀ id, memos id = {}) :
    memos.After objects modes [] := by
  refine ⟨fun id group _ => ⟨?_, ?_⟩, fun id _ noted => ?_, ?_⟩
  · rw [fresh id]
    exact Memo.Follows.none objects modes id group
  · rintro ⟨_, member, _⟩
    cases member
  · rw [fresh id] at noted
    exact absurd rfl noted
  · rintro _ ⟨_, member, _⟩
    cases member

/-! ### Prints in any modes, one after another -/

section Step

variable (acyclic : objects.Acyclic) {memos : Memos} {earlier later : List Request}
variable {request : Request}
variable (after : memos.After objects (objects.firstMode (earlier ++ request :: later)) earlier)

include acyclic after

/-- One more request comes to its text in the first modes, and the notes still follow them. -/
theorem Memos.After.keeps_print :
    (Printing.print objects request.isReadable objects.depth request.ref memos).1 =
        objects.sourceIn (objects.firstMode (earlier ++ request :: later)) objects.depth
          request.isReadable request.ref ∧
      (Printing.print objects request.isReadable objects.depth request.ref memos).2.Follow objects
        (objects.firstMode (earlier ++ request :: later)) (objects.involvedIn earlier) :=
  Printing.keeps_print_follow objects.depth le_rfl (acyclic.fits request.ref)
    (fun _ involves unprinted => objects.firstMode_eq unprinted involves) memos after.follow

/-- If there is such a text, the same holds after the request. -/
theorem Memos.After.print (writable : objects.Writable request.ref) :
    (Printing.print objects request.isReadable objects.depth request.ref memos).2.After objects
      (objects.firstMode (earlier ++ request :: later)) (earlier ++ [request]) := by
  obtain ⟨given, follow⟩ := after.keeps_print acyclic
  obtain ⟨text, isText⟩ := (Objects.endsIff_sourceIn (acyclic.fits request.ref)).ends writable
  rw [isText] at given
  have closed := Printing.leads_print request.isReadable objects.depth request.ref _ memos text
    after.closed given
  have same : insert request.ref {ref | ∃ other ∈ earlier, other.ref = ref} =
      {ref | ∃ other ∈ earlier ++ [request], other.ref = ref} := by
    ext ref
    simp only [Set.mem_insert_iff, Set.mem_ofPred_eq, List.mem_append, List.mem_singleton,
      or_and_right, exists_or, exists_eq_left]
    rw [or_comm, eq_comm (a := ref)]
  rw [same] at closed
  refine ⟨fun id group node => ⟨(follow id group node).1, ?_⟩, closed⟩
  rintro ⟨other, member, involves⟩
  exact closed.cover other.ref ⟨other, member, rfl⟩ id involves node.keepsMemo

end Step

namespace Store

variable {store : Store}

/-- The store after some requests, one after another. -/
def printAll (store : Store) (requests : List Request) : Store :=
  requests.foldl (fun printed request => (printed.print request.isReadable request.ref).2) store

theorem printAll_concat (requests : List Request) (last : Request) :
    store.printAll (requests ++ [last]) =
      ((store.printAll requests).print last.isReadable last.ref).2 := by
  rw [printAll, List.foldl_append]
  rfl

@[simp] theorem objects_printAll (requests : List Request) :
    (store.printAll requests).objects = store.objects :=
  objects_foldl (fun printed (request : Request) =>
    objects_print printed request.isReadable request.ref) requests store

/-- The first modes are those of all requests, of the later ones too. So a node that no request has
involved yet has the mode that it will be printed in. -/
theorem after_printAll (acyclic : store.objects.Acyclic) (fresh : ∀ id, store.memos id = {})
    {requests : List Request} (writable : ∀ request ∈ requests, store.objects.Writable request.ref)
    (later : List Request) :
    (store.printAll requests).memos.After store.objects
      (store.objects.firstMode (requests ++ later)) requests := by
  induction requests using List.reverseRecOn generalizing later with
  | nil => exact .of_fresh fresh
  | append_singleton requests last inductionHypothesis =>
    obtain ⟨others, here⟩ := List.forall_mem_append.mp writable
    have after := (inductionHypothesis others (last :: later)).print acyclic
      (here last List.mem_cons_self)
    rw [printAll_concat, print, objects_printAll, List.append_assoc]
    exact after

/-- In a store without loops and without notes, after any requests in any modes for values without
integers that are too long to be written, a value is given the source text in which the elements of
each node are in the mode of the first request that involves the node, this request included, and
everything outside such nodes in the mode asked for. There is such a text unless an integer in this
value is too long to be written. -/
theorem print_printAll (acyclic : store.objects.Acyclic) (fresh : ∀ id, store.memos id = {})
    {earlier : List Request} (writable : ∀ request ∈ earlier, store.objects.Writable request.ref)
    (request : Request) :
    ((store.printAll earlier).print request.isReadable request.ref).1 =
        store.objects.sourceIn (store.objects.firstMode (earlier ++ [request])) store.objects.depth
          request.isReadable request.ref ∧
      EndsIff .numeralTooLong (store.objects.Writable request.ref)
        (store.objects.sourceIn (store.objects.firstMode (earlier ++ [request]))
          store.objects.depth request.isReadable request.ref) := by
  have after := after_printAll acyclic fresh writable [request]
  refine ⟨?_, Objects.endsIff_sourceIn (acyclic.fits request.ref)⟩
  rw [print, objects_printAll]
  exact (after.keeps_print acyclic).1

/-- A list in a vector in a row that takes no notes, each with a text beside it. -/
def patchwork : Store where
  objects := #[.sequence .list [.scalar (.text "a")],
    .sequence .vector [.object 0, .scalar (.text "a")],
    .sequence .plain [.object 1, .scalar (.text "a")]]

theorem acyclic_patchwork : patchwork.objects.Acyclic :=
  Objects.acyclic_of_isOrdered rfl

/-- The list is printed as characters, then the vector readably, then the row as characters. -/
theorem print_printAll_patchwork :
    patchwork.objects.sourceIn
        (patchwork.objects.firstMode
          [⟨false, .object 0⟩, ⟨true, .object 1⟩, ⟨false, .object 2⟩])
        patchwork.objects.depth false (.object 2) = .ok "([(a) \"a\"] a)" ∧
      ((patchwork.printAll [⟨false, .object 0⟩, ⟨true, .object 1⟩]).print false (.object 2)).1 =
        .ok "([(a) \"a\"] a)" := by
  have whole : patchwork.objects.sourceIn (fun _ => true) patchwork.objects.depth true
      (.object 2) = .ok "([(\"a\") \"a\"] \"a\")" := by decide +kernel
  have writable : patchwork.objects.Writable (.object 2) :=
    (Objects.endsIff_sourceIn (acyclic_patchwork.fits _)).holds whole
  have parts := (Objects.writable_iff.mp writable).1 (.object 1) List.mem_cons_self
  have each : ∀ request ∈ ([⟨false, .object 0⟩, ⟨true, .object 1⟩] : List Request),
      patchwork.objects.Writable request.ref :=
    List.forall_mem_cons.mpr ⟨(Objects.writable_iff.mp parts).1 (.object 0) List.mem_cons_self,
      List.forall_mem_singleton.mpr parts⟩
  have written : ((patchwork.printAll [⟨false, .object 0⟩, ⟨true, .object 1⟩]).print false
      (.object 2)).1 = .ok "([(a) \"a\"] a)" := by
    decide +kernel
  obtain ⟨given, _⟩ :=
    print_printAll acyclic_patchwork (fun _ => rfl) each ⟨false, .object 2⟩
  exact ⟨given.symm.trans written, written⟩

end Store

end SketchForm
