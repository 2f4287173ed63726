/-
This file decides when two values are equal, and with it what belongs to a key.

Equality looks at contents where contents are all there is, and at identity where a
value can be told from its likes: sequences are equal member by member, whatever their
kind, except that a tuple equals only tuples; tables are equal if they have the same
keys with equal values, in any order; numbers and truth values are equal if they are
the same number; cells, functions and rows of numbers equal only themselves. Inside a
container an object also counts as equal to itself, which makes a difference for the
value that is no number.

A key must never change, so what can change cannot be a key, nor a tuple that holds
something that can change.
-/
import SketchForm.Quantity
import SketchForm.Store.Unfold

namespace SketchForm

/-- The number that an object is equal to, truth values being zero and one. -/
def Object.amount? : Object → Option (Quantity Float)
  | .scalar value => value.integer?.map .whole
  | .real x => some (.real x)
  | _ => none

namespace Objects

variable (objects : Objects)

/-- Whether two values that are at most so deep are equal. -/
def equalUpTo : Nat → Ref → Ref → Bool
  | 0, _, _ => false
  | depth + 1, left, right =>
    let same := fun (x y : Ref) => x == y || equalUpTo depth x y
    match (objects.look left).amount?, (objects.look right).amount? with
    | some x, some y => x.equals y
    | _, _ =>
      match objects.look left, objects.look right with
      | .scalar x, .scalar y => x == y
      | .sequence kind items, .sequence other members =>
        (kind == .tuple) == (other == .tuple) && items.length == members.length
          && (items.zip members).all fun pair => same pair.1 pair.2
      | .table _ entries, .table _ others =>
        entries.length == others.length && entries.all fun entry =>
          match others.find? fun other => same other.1 entry.1 with
          | some other => same entry.2 other.2
          | none => false
      | .array _, .array _ | .cell _, .cell _ | .function _ _ _, .function _ _ _ => left == right
      | _, _ => false

/-- Whether two values are equal. -/
def equal (left right : Ref) : Bool := objects.equalUpTo objects.depth left right

/-- Whether two values are the same member of a container. -/
def sameMember (left right : Ref) : Bool := left == right || objects.equal left right

/-- Whether a value that is at most so deep can be a key. -/
def isKeyUpTo : Nat → Ref → Bool
  | 0, _ => false
  | depth + 1, ref =>
    match objects.look ref with
    | .sequence .tuple items => items.all (isKeyUpTo depth)
    | .sequence _ _ | .table _ _ | .array _ => false
    | _ => true

/-- Whether a value can be a key. -/
def isKey (ref : Ref) : Bool := objects.isKeyUpTo objects.depth ref

/-- The entries with one more: an equal key keeps its place and takes the new value, a new key
comes last. -/
def insertKey (entries : List (Ref × Ref)) (key value : Ref) : List (Ref × Ref) :=
  match entries with
  | [] => [(key, value)]
  | entry :: rest =>
    if objects.sameMember entry.1 key then (entry.1, value) :: rest
    else entry :: insertKey rest key value

/-- The entries without that of a key, or nothing if there is none. -/
def eraseKey? (entries : List (Ref × Ref)) (key : Ref) : Option (List (Ref × Ref)) :=
  match entries with
  | [] => none
  | entry :: rest =>
    if objects.sameMember entry.1 key then some rest
    else (eraseKey? rest key).map (entry :: ·)

/-- The entries that a list of keys and values makes, later ones after earlier ones. -/
def tableOf (pairs : List (Ref × Ref)) : Except Failure (List (Ref × Ref)) :=
  if pairs.all fun pair => objects.isKey pair.1 then
    .ok (pairs.foldl (fun entries pair => insertKey objects entries pair.1 pair.2) [])
  else .error .unsuitableKey

/-- The first of every group of equal values, in order. -/
def distinct (values : List Ref) : Except Failure (List Ref) :=
  (objects.tableOf (values.map fun value => (value, value))).map fun entries => entries.map (·.1)

end Objects

end SketchForm
