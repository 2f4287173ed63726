/-
This file changes objects in place.

A change replaces what one object holds and touches nothing else, least of all the
printer's notes: whoever edits a form decides which notes still hold. Places of a
sequence are counted from the front, from zero, or with negative numbers from the end;
a truth value may stand for zero or one. A row of numbers is filled by rules of its own
and keeps its length. A tuple, and whatever has no parts, cannot be changed.
-/
import SketchForm.Store.Equality
import SketchForm.Store.Row

namespace SketchForm

namespace Store

/-- The store with one object replaced; a scalar cannot be. -/
def replace (store : Store) (ref : Ref) (object : Object) : Store :=
  match ref with
  | .scalar _ => store
  | .object id => { store with objects := store.objects.setIfInBounds id object }

@[simp] theorem memos_replace (store : Store) (ref : Ref) (object : Object) :
    (store.replace ref object).memos = store.memos := by
  cases ref <;> rfl

@[simp] theorem size_replace (store : Store) (ref : Ref) (object : Object) :
    (store.replace ref object).objects.size = store.objects.size := by
  cases ref with
  | scalar value => rfl
  | object id => simp [replace]

theorem look_replace_self (store : Store) (object : Object) {id : ObjectId}
    (present : id < store.objects.size) :
    (store.replace (.object id) object).objects.look (.object id) = object := by
  simp [replace, Objects.look, present]

/-- Replacing an object changes no other. -/
theorem look_replace_other (store : Store) (object : Object) {ref other : Ref}
    (different : other ≠ ref) :
    (store.replace ref object).objects.look other = store.objects.look other := by
  cases ref with
  | scalar value => rfl
  | object id =>
    cases other with
    | scalar value => rfl
    | object key =>
      have apart : id ≠ key := fun same => different (same ▸ rfl)
      simp [replace, Objects.look, Array.getElem?_setIfInBounds_ne apart]

/-- The place in a sequence of this length that a key names. -/
def placeAt (store : Store) (key : Ref) (length : Nat) : Except Failure Nat :=
  match store.objects.look key with
  | .scalar value =>
    match value.integer? with
    | some number =>
      match placeOf? number length with
      | some place => .ok place
      | none => .error .placeOutOfRange
    | none => .error .unsuitableKey
  | _ => .error .unsuitableKey

/-- Puts a value at a place of a sequence or under a key of a table. -/
def setMember (store : Store) (node key value : Ref) : Except Failure Store :=
  match store.objects.look node with
  | .sequence .tuple _ => .error .unchangeable
  | .sequence kind items => do
    let place ← store.placeAt key items.length
    pure (store.replace node (.sequence kind (items.set place value)))
  | .table kind entries =>
    if store.objects.isKey key then
      .ok (store.replace node (.table kind (store.objects.insertKey entries key value)))
    else .error .unsuitableKey
  | _ => .error .unchangeable

/-- Puts a value at a place of a sequence, under a key of a table or into a row of numbers, which
can fail with a part of the row filled. -/
def setPart (store : Store) (node key value : Ref) : Except Failure Unit × Store :=
  match store.objects.look node with
  | .array row =>
    let filled := Row.put store.objects row key value
    (filled.1, store.replace node (.array filled.2))
  | _ =>
    match store.setMember node key value with
    | .ok changed => (.ok (), changed)
    | .error failure => (.error failure, store)

/-- Adds a value at the end of a sequence. -/
def append (store : Store) (node value : Ref) : Except Failure Store :=
  match store.objects.look node with
  | .sequence .tuple _ => .error .unsupported
  | .sequence kind items => .ok (store.replace node (.sequence kind (items ++ [value])))
  | _ => .error .unsupported

/-- Removes a place of a sequence or a key of a table. -/
def erasePart (store : Store) (node key : Ref) : Except Failure Store :=
  match store.objects.look node with
  | .sequence .tuple _ => .error .unchangeable
  | .sequence kind items => do
    let place ← store.placeAt key items.length
    pure (store.replace node (.sequence kind (items.eraseIdx place)))
  | .table kind entries =>
    if store.objects.isKey key then
      match store.objects.eraseKey? entries key with
      | some rest => .ok (store.replace node (.table kind rest))
      | none => .error .keyMissing
    else .error .unsuitableKey
  | .array _ => .error .fixedLength
  | _ => .error .unchangeable

/-- Fills a cell anew. -/
def fill (store : Store) (node value : Ref) : Except Failure Store :=
  match store.objects.look node with
  | .cell _ => .ok (store.replace node (.cell value))
  | _ => .error .unsupported

end Store

end SketchForm
