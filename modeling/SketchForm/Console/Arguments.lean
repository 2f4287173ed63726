/-
This file groups the arguments of a console command.

Arguments come in a row, and a keyword among them gives its name to the arguments that
follow, up to the next keyword. Those before the first keyword go under the name `_`.
What stands under a name depends on how many arguments there are: `nil`, the argument
itself, or a plain list of all of them. When a keyword comes again, the arguments that
follow it replace the earlier ones, but a keyword that nothing follows replaces nothing.

Arguments are read one at a time, and what is known so far is what stands under which
name, in the order in which the names came up, the name that is open, and how many
arguments have gone under it since it was opened. At the second of these a list is made,
and the ones after it are added to that list in place. An argument can be a plain list
itself, so it is the count that tells whether the list under a name is one made here.
-/
import SketchForm.Store.Edit

namespace SketchForm

/-- The id of a keyword. -/
def Objects.keyword? (objects : Objects) (ref : Ref) : Option String :=
  match objects.scalar? ref with
  | some (.keyword id) => some id
  | _ => none

/-- What is known in the middle of a row of arguments. -/
structure Grouping where
  /-- The names that came up, in order, with what stands under them. -/
  groups : List (String × Ref)
  /-- The name under which arguments go. -/
  name : String
  /-- How many arguments have gone under the name since it was opened. -/
  count : Nat

namespace Grouping

/-- Before the first argument. -/
def start : Grouping := ⟨[], "_", 0⟩

/-- The groups with a value under a name: a name that came up keeps its place, and a new one comes
last. -/
def put (groups : List (String × Ref)) (name : String) (value : Ref) : List (String × Ref) :=
  match groups with
  | [] => [(name, value)]
  | group :: rest =>
    if group.1 = name then (name, value) :: rest else group :: put rest name value

/-- Opens a name; under a new one there is `nil` for the time being. -/
def opened (grouping : Grouping) (name : String) : Grouping :=
  match grouping.groups.lookup name with
  | some _ => ⟨grouping.groups, name, 0⟩
  | none => ⟨put grouping.groups name (.scalar .nil), name, 0⟩

/-- What stands under the open name. -/
def content (grouping : Grouping) : Except Failure Ref :=
  match grouping.groups.lookup grouping.name with
  | some value => .ok value
  | none => .error .keyMissing

/-- Counts one more argument, with which the value under the open name is another. -/
def filled (grouping : Grouping) (value : Ref) : Grouping :=
  ⟨put grouping.groups grouping.name value, grouping.name, grouping.count + 1⟩

/-- Puts an argument under the open name: the first one there since it was opened replaces what
there was. -/
def add (grouping : Grouping) (argument : Ref) (store : Store) :
    Except Failure (Grouping × Store) :=
  match grouping.count with
  | 0 => .ok (grouping.filled argument, store)
  | 1 => do
    let first ← grouping.content
    let (list, store) := store.allocate (.sequence .plain [first, argument])
    pure (grouping.filled list, store)
  | _ => do
    let store ← store.append (← grouping.content) argument
    pure ({ grouping with count := grouping.count + 1 }, store)

/-- Reads one argument. -/
def read (state : Grouping × Store) (argument : Ref) : Except Failure (Grouping × Store) :=
  match state.2.objects.keyword? argument with
  | some name => .ok (state.1.opened name, state.2)
  | none => state.1.add argument state.2

end Grouping

/-- What stands under the names in a row of arguments, in the order in which the names come up, and
the store with the lists that were made. -/
def Store.groupArguments (store : Store) (arguments : List Ref) :
    Except Failure (List (String × Ref) × Store) := do
  let (grouping, store) ← arguments.foldlM Grouping.read (.start, store)
  pure (grouping.groups, store)

end SketchForm
