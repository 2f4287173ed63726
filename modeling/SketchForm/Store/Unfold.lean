/-
This file takes a value out of a store as a tree.

Following references leads to the leaves in at most as many steps as there are objects,
unless the value contains itself: a longer way would meet an object twice. So a value
has a tree exactly when no way from it comes back to where it was, and the depth to
which it is followed is no limit of its own.
-/
import SketchForm.Store
import SketchForm.Failure

namespace SketchForm

/-- The tree of a value that is at most so deep. -/
def Objects.unfold (objects : Objects) : Nat → Ref → Option (Tree Float)
  | 0, _ => none
  | depth + 1, ref =>
    match objects.look ref with
    | .scalar value => some (.scalar value)
    | .real value => some (.real value)
    | .sequence kind items => (items.mapM (unfold objects depth)).map (.sequence kind)
    | .table kind entries =>
      (entries.mapM fun (entry : Ref × Ref) => do
        let key ← unfold objects depth entry.1
        let value ← unfold objects depth entry.2
        pure (key, value)).map (.table kind)
    | .array values => some (.array values)
    | .cell content => (unfold objects depth content).map .cell
    | .function kind params body => do
      let params ← unfold objects depth params
      let body ← unfold objects depth body
      pure (.function kind params body)

/-- As deep as a value can be that does not contain itself, a leaf counted too. -/
def Objects.depth (objects : Objects) : Nat := objects.size + 1

/-- The tree of a value. -/
def Store.tree (store : Store) (ref : Ref) : Except Failure (Tree Float) :=
  match store.objects.unfold store.objects.depth ref with
  | some tree => .ok tree
  | none => .error .endless

end SketchForm
