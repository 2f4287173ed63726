/-
This file takes values apart into what they are asked for by number or by turns.

Sequences, rows of numbers and texts have numbered parts, counted from zero, and going
through them gives these parts in order. A table is asked for the value under a key and
gone through by its keys. Nothing else has parts in this sense.
-/
import SketchForm.Tree.Number

namespace SketchForm

namespace Tree

/-- What a value holds at a place, which for a table is a key. -/
def part (tree : Tree Float) (place : Nat) : Except Failure (Tree Float) :=
  match tree with
  | .sequence _ items => found items
  | .array values => found (values.map .real)
  | .scalar (.text content) => found (content.toList.map fun c => .scalar (.text c.toString))
  | .table _ entries =>
    match entries.find? fun entry => entry.1.amount?.any (·.equals (.whole place)) with
    | some entry => .ok entry.2
    | none => .error .keyMissing
  | _ => .error .notIndexable
where
  found (parts : List (Tree Float)) : Except Failure (Tree Float) :=
    match parts[place]? with
    | some part => .ok part
    | none => .error .placeOutOfRange

/-- What is gone through when going through a value: the members of a sequence, the numbers of a
row, the characters of a text, the keys of a table. -/
def iterated {R : Type} : Tree R → Except Failure (List (Tree R))
  | .sequence _ items => .ok items
  | .array values => .ok (values.map .real)
  | .table _ entries => .ok (entries.map (·.1))
  | .scalar (.text content) => .ok (content.toList.map fun c => .scalar (.text c.toString))
  | _ => .error .notIterable

/-- What is gone through after the first part of a sequence; nothing else can be cut. -/
def iteratedAfterFirst {R : Type} : Tree R → Except Failure (List (Tree R))
  | .sequence _ items => .ok items.tail
  | _ => .error .unsuitableKey

end Tree

end SketchForm
