/-
This file holds values as objects, which have an identity.

Editing and printing a form ask more of a value than what it is made of. Two places of
a form can hold the same object, so that a change made through one place shows at the
other, and the printer notes on an object how it was written. A store is therefore a
table of objects that refer to each other by number, and beside it a table of the
printer's notes. Contents and notes are kept apart: what the printer can touch are the
notes, never the contents.

Scalars have no identity, so a reference to a scalar is the scalar. Reals do have one,
because the value that is no number is equal to itself only as the same object.
-/
import SketchForm.Failure
import SketchForm.Tree

namespace SketchForm

/-- The number of an object in a store. -/
abbrev ObjectId := Nat

/-- A value as a place of a form holds it. -/
inductive Ref where
  | scalar (value : Scalar)
  | object (id : ObjectId)
  deriving DecidableEq, Repr, Inhabited

/-- What is seen of a value by following one reference: its kind and the references in it. -/
inductive Object where
  | scalar (value : Scalar)
  | real (value : Float)
  | sequence (kind : SequenceKind) (items : List Ref)
  | table (kind : TableKind) (entries : List (Ref × Ref))
  | array (values : List Float)
  | cell (content : Ref)
  | function (kind : FunctionKind) (params body : Ref)
  deriving Inhabited

/-- The contents of a store. -/
abbrev Objects := Array Object

/-- What is seen by following a reference; a number that no object has leads to a value of which
nothing is known. -/
def Objects.look (objects : Objects) : Ref → Object
  | .scalar value => .scalar value
  | .object id => (objects[id]?).getD (.scalar .foreign)

/-- The scalar that a reference leads to, if it leads to one. -/
def Objects.scalar? (objects : Objects) (ref : Ref) : Option Scalar :=
  match objects.look ref with
  | .scalar value => some value
  | _ => none

/-! ### Notes of the printer -/

/-- What the printer notes on an object: the texts of its elements, what is written around and
between them, and whether it was written in short form. -/
structure Memo where
  elementTexts? : Option (List String) := none
  delimiters? : Option (List String) := none
  isSugar? : Option Bool := none
  deriving DecidableEq, Repr, Inhabited

/-- The notes on all objects. -/
abbrev Memos := ObjectId → Memo

/-- The notes with those on one object changed. -/
def Memos.update (memos : Memos) (id : ObjectId) (change : Memo → Memo) : Memos :=
  fun other => if other = id then change (memos id) else memos other

@[simp] theorem Memos.update_self (memos : Memos) (id : ObjectId) (change : Memo → Memo) :
    memos.update id change id = change (memos id) := if_pos rfl

theorem Memos.update_other (memos : Memos) (id other : ObjectId) (change : Memo → Memo)
    (different : other ≠ id) : memos.update id change other = memos other := if_neg different

/-- Whether the printer notes anything on an object: on lists, vectors and maps, and on nothing
that comes from outside. -/
def Object.keepsMemo : Object → Bool
  | .sequence .list _ | .sequence .vector _ | .table .map _ => true
  | _ => false

/-- Whether a note can be put on an object. On `nil` and on what comes from outside it can, but
nobody keeps it there. -/
def Object.takesMemo (object : Object) : Bool :=
  match object with
  | .scalar .nil | .scalar .builtin | .scalar .foreign => true
  | _ => object.keepsMemo

/-! ### The store -/

/-- Objects and the printer's notes on them. -/
structure Store where
  objects : Objects := #[]
  memos : Memos := fun _ => {}

namespace Store

/-- The store with one more object, and the reference to it. -/
def allocate (store : Store) (object : Object) : Ref × Store :=
  (.object store.objects.size, { store with objects := store.objects.push object })

theorem look_allocate_self (store : Store) (object : Object) :
    (store.allocate object).2.objects.look (store.allocate object).1 = object := by
  simp [allocate, Objects.look]

/-- Making an object changes none of those that were there. -/
theorem look_allocate_other (store : Store) (object : Object) {id : ObjectId}
    (present : id < store.objects.size) :
    (store.allocate object).2.objects.look (.object id) = store.objects.look (.object id) := by
  simp [allocate, Objects.look, Array.getElem?_push, Nat.ne_of_lt present]

/-- The notes on the object referred to, if the printer notes anything on it. -/
def memo? (store : Store) (ref : Ref) : Option Memo :=
  match ref with
  | .scalar _ => none
  | .object id => if (store.objects.look ref).keepsMemo then some (store.memos id) else none

/-- The store with the notes on an object changed, where the printer notes anything on it. -/
def updateMemo (store : Store) (ref : Ref) (change : Memo → Memo) : Store :=
  match ref with
  | .scalar _ => store
  | .object id =>
    if (store.objects.look ref).keepsMemo then { store with memos := store.memos.update id change }
    else store

/-- The store with the notes on an object changed, if notes can be put on it. -/
def annotate (store : Store) (ref : Ref) (change : Memo → Memo) : Except Failure Store :=
  if (store.objects.look ref).takesMemo then .ok (store.updateMemo ref change)
  else .error .unsupported

/-- The store without notes on an object, so that it is next written anew. -/
def clearMemo (store : Store) (ref : Ref) : Store := store.updateMemo ref fun _ => {}

/-- Dropping notes changes no contents. -/
@[simp] theorem objects_clearMemo (store : Store) (ref : Ref) :
    (store.clearMemo ref).objects = store.objects := by
  cases ref with
  | scalar value => rfl
  | object id =>
    rw [clearMemo, updateMemo]
    split <;> rfl

theorem memos_clearMemo_self (store : Store) {id : ObjectId}
    (keeps : (store.objects.look (.object id)).keepsMemo = true) :
    (store.clearMemo (.object id)).memos id = {} := by
  rw [clearMemo, updateMemo, if_pos keeps]
  exact Memos.update_self store.memos id fun _ => {}

theorem memos_clearMemo_other (store : Store) {ref : Ref} {id : ObjectId}
    (different : ref ≠ .object id) : (store.clearMemo ref).memos id = store.memos id := by
  cases ref with
  | scalar value => rfl
  | object other =>
    have apart : id ≠ other := fun same => different (same ▸ rfl)
    rw [clearMemo, updateMemo]
    split
    · exact Memos.update_other store.memos other id (fun _ => {}) apart
    · rfl

end Store

end SketchForm
