/-
This file puts values into rows of numbers.

A row of numbers is edited in more ways than a sequence is. A key can name one place, as
in a sequence, but also many at once: a list of places, or a list of truth values that
says of each place whether it is meant. A truth value alone means all places or none, and
null adds one more level around what the rest of the key names. A tuple combines such
parts, and the empty tuple names the whole row.

What a key names is thus a grid of places, and what is put there is a grid of values that
must spread over its shape. A single place takes a single value. As a rule all values are
read as numbers before any is stored, and a failure leaves the row as it was. But values
for places as they lie, given in just the shape of these places, are stored as they are
read, and those before a failure stay.
-/
import SketchForm.Grid
import SketchForm.Store.Unfold
import SketchForm.Tree.Number

namespace SketchForm

/-- The place in a sequence that a number names, counted from the end if it is negative. -/
def placeOf? (number : Int) (length : Nat) : Option Nat :=
  let place := if number < 0 then number + length else number
  if 0 ≤ place ∧ place < length then some place.toNat else none

/-! ### Values -/

/-- The integer that an object is equal to, truth values being zero and one. -/
def Object.integer? : Object → Option Int
  | .scalar value => value.integer?
  | _ => none

/-- The truth value that an object is. -/
def Object.flag? : Object → Option Bool
  | .scalar (.boolean flag) => some flag
  | _ => none

/-- The number that a value sets a place to; null makes it the double that is no number. -/
def Object.toEntry : Object → Except Failure Float
  | .scalar .null => .ok (Float.ofBits 0x7ff8000000000000)
  | .scalar value => (Tree.scalar value).toFloat
  | .real x => .ok x
  | _ => .error .notANumber

/-- The grid of a value that is at most so deep, if its rows are even. -/
def Objects.gridUpTo (objects : Objects) : Nat → Ref → Option (Grid Object)
  | 0, _ => none
  | depth + 1, ref =>
    match objects.look ref with
    | .sequence _ items => (items.mapM (gridUpTo objects depth)).bind Grid.stack?
    | .array values => some (Grid.row (values.map .real))
    | object => some (Grid.single object)

/-- The most levels that a grid can have. -/
def mostLevels : Nat := 64

/-- The grid of a value, if its rows are even and it has no more levels than a grid can have. -/
def Objects.grid? (objects : Objects) (ref : Ref) : Option (Grid Object) :=
  (objects.gridUpTo objects.depth ref).filter fun grid => grid.shape.length ≤ mostLevels

/-! ### Numbers of places -/

/-- Whether a number fits a word of 64 bits with a sign. -/
def fitsSigned (number : Int) : Bool := -Int.pow 2 63 ≤ number && number < Int.pow 2 63

/-- Whether a number fits a word of 64 bits, but only without a sign. -/
def fitsUnsigned (number : Int) : Bool := Int.pow 2 63 ≤ number && number < Int.pow 2 64

/-- The numbers in a list of integers and truth values, which are held in words of one kind: with
a sign, or, if no integer among them fits that, without. A word without a sign names a place by
the signed number of the same bits. -/
def wordNumbers? (members : List Object) : Option (List Int) := do
  let numbers ← members.mapM Object.integer?
  if numbers.all fitsSigned then some numbers
  else if members.all fun member => member.flag?.isSome || member.integer?.any fitsUnsigned then
    some (numbers.map fun number => Int.bmod number (Nat.pow 2 64))
  else none

/-! ### Keys -/

/-- What one part of a key names. -/
inductive Selector where
  /-- One more level around what the other parts name. -/
  | level
  /-- All that the other parts name, or none of it. -/
  | flag (kept : Bool)
  /-- One place by number. -/
  | single (number : Int)
  /-- Places by number. -/
  | listed (numbers : Grid Int)
  /-- The places at which a truth value is true. -/
  | mask (flags : Grid Bool)
  deriving DecidableEq, Repr

namespace Selector

/-- The part of a key that a grid of integers or of truth values is. -/
def ofGrid (grid : Grid Object) : Except Failure Selector :=
  if grid.leaves.isEmpty then .ok (.listed ⟨grid.shape, []⟩)
  else
    match grid.leaves.mapM Object.flag?, wordNumbers? grid.leaves with
    | some flags, _ => .ok (.mask ⟨grid.shape, flags⟩)
    | none, some numbers => .ok (.listed ⟨grid.shape, numbers⟩)
    | none, none => .error .noSuchPart

/-- A part of a key. -/
def read (objects : Objects) (key : Ref) : Except Failure Selector :=
  match objects.look key with
  | .scalar .null => .ok .level
  | .scalar (.boolean kept) => .ok (.flag kept)
  | .scalar (.integer number) =>
    if fitsSigned number then .ok (.single number)
    else if fitsUnsigned number then .error .placeTooLarge
    else .error .noSuchPart
  | .sequence _ _ =>
    match objects.grid? key with
    | some grid => ofGrid grid
    | none => .error .wrongShape
  | _ => .error .noSuchPart

/-- The places that a part of a key names by itself in a row of some length, if it names any. Of
the numbers in a list it is not yet said whether they are places of the row. -/
def places? (length : Nat) : Selector → Except Failure (Option (Grid Int))
  | .level | .flag _ => .ok none
  | .single number =>
    if (placeOf? number length).isSome then .ok (some (Grid.single number))
    else .error .placeOutOfRange
  | .listed numbers => .ok (some numbers)
  | .mask flags =>
    if flags.shape = [length] then
      let kept := (List.range length).filter fun place => flags.leaves[place]?.getD false
      .ok (some (Grid.row (kept.map Int.ofNat)))
    else .error .noSuchPart

/-- The shape that a truth value adds to a key. -/
def flagShape? : Selector → Option (List Nat)
  | .flag kept => some [if kept then 1 else 0]
  | _ => none

/-- Whether a part of a key leaves the places of a row as they lie, and picks none out. -/
def isPlain : Selector → Bool
  | .level | .single _ => true
  | _ => false

end Selector

/-- How values get to the places that a key names. -/
inductive Manner where
  /-- Where they lie: values of the right shape are stored one after another as they are read. -/
  | direct
  /-- After all of them have been read, and in a row at most. -/
  | gathered
  /-- After all of them have been read, and outer levels of one member do not count. -/
  | lenient
  deriving DecidableEq, Repr

/-- The manner in which values get to what the parts of a key name. -/
def Manner.ofSelectors (selectors : List Selector) : Manner :=
  if selectors.all Selector.isPlain then .direct
  else
    match selectors with
    | [.mask _] => .gathered
    | _ => .lenient

/-- What a key names: numbers of places in a shape, and how values get there. -/
structure Selection where
  numbers : Grid Int
  manner : Manner
  deriving DecidableEq, Repr

namespace Selection

/-- What the parts of a key name together in a row of some length. Places can be named by one
part only. The shape that parts have by themselves is common to them all, and stands where they
stand among the levels; if levels come between them it stands in front. -/
def ofSelectors (length : Nat) (selectors : List Selector) : Except Failure Selection := do
  let named := (← selectors.mapM (Selector.places? length)).filterMap id
  let shapes := selectors.filterMap Selector.flagShape? ++ named.map Grid.shape
  let isLevel := fun (selector : Selector) => selector == .level
  let levels := selectors.countP isLevel
  let before := selectors.takeWhile isLevel
  let together := (selectors.drop before.length).dropWhile fun selector => !isLevel selector
  let outer := if together.all isLevel then before.length else 0
  match named, shapes.foldlM Grid.commonShape? [] with
  | _ :: _ :: _, _ | _, none => .error .noSuchPart
  | _, some shape =>
    let around := fun (inner : List Nat) =>
      List.replicate outer 1 ++ shape ++ List.replicate (levels - outer) 1 ++ inner
    let numbers : Grid Int :=
      match named with
      | [] =>
        let whole := if shape.contains 0 then [] else (List.range length).map Int.ofNat
        ⟨around [length], whole⟩
      | grid :: _ => ⟨around [], (grid.spread? shape).getD []⟩
    if mostLevels < numbers.shape.length then .error .noSuchPart
    else .ok ⟨numbers, Manner.ofSelectors selectors⟩

/-- What a key names in a row of some length. -/
def read (objects : Objects) (length : Nat) (key : Ref) : Except Failure Selection := do
  let parts :=
    match objects.look key with
    | .sequence .tuple parts => parts
    | _ => [key]
  ofSelectors length (← parts.mapM (Selector.read objects))

/-- The places of a row of some length that are named, if all numbers are places of it. -/
def places (selection : Selection) (length : Nat) : Except Failure (List Nat) :=
  match selection.numbers.leaves.mapM fun number => placeOf? number length with
  | some places => .ok places
  | none => .error .placeOutOfRange

end Selection

/-! ### Filling -/

namespace Row

/-- The row with these numbers at these places, later ones after earlier ones. -/
def setAll (row : List Float) (entries : List (Nat × Float)) : List Float :=
  entries.foldl (fun row (entry : Nat × Float) => row.set entry.1 entry.2) row

theorem length_setAll (row : List Float) (entries : List (Nat × Float)) :
    (setAll row entries).length = row.length := by
  induction entries generalizing row with
  | nil => rfl
  | cons entry rest inductionHypothesis => exact (inductionHypothesis _).trans List.length_set

/-- The row with values at places one after another, up to the first that is no number. -/
def setInOrder (row : List Float) : List (Nat × Object) → Except Failure Unit × List Float
  | [] => (.ok (), row)
  | (place, value) :: rest =>
    match value.toEntry with
    | .ok number => setInOrder (row.set place number) rest
    | .error failure => (.error failure, row)

theorem length_setInOrder (row : List Float) (entries : List (Nat × Object)) :
    (setInOrder row entries).2.length = row.length := by
  induction entries generalizing row with
  | nil => rfl
  | cons entry rest inductionHypothesis =>
    unfold setInOrder
    split
    · exact (inductionHypothesis _).trans List.length_set
    · rfl

/-- The shape that values of some shape are taken to have when they are put at places. -/
def shapeFor (selection : Selection) (shape : List Nat) : Except Failure (List Nat) :=
  match selection.manner with
  | .direct => .ok shape
  | .gathered => if 1 < shape.length then .error .tooManyLevels else .ok shape
  | .lenient => .ok (Grid.flattened selection.numbers.shape.length shape)

/-- The named places with the numbers for them: the values spread over the shape of the places. -/
def entries (selection : Selection) (length : Nat) (values : Grid Object) :
    Except Failure (List (Nat × Float)) := do
  let numbers ← values.leaves.mapM Object.toEntry
  let shape ← shapeFor selection values.shape
  match Grid.spread? ⟨shape, numbers⟩ selection.numbers.shape with
  | none => .error .wrongShape
  | some spread => return (← selection.places length).zip spread

/-- The row with values at the named places, which is reached only in part if a value that is
stored as it is read is no number. -/
def fill (row : List Float) (selection : Selection) (values : Grid Object) :
    Except Failure Unit × List Float :=
  let target := selection.numbers.shape
  let isDirect := selection.manner == .direct
  if isDirect && target.length < values.shape.length then (.error .wrongShape, row)
  else if isDirect && values.shape == target then
    match selection.places row.length with
    | .ok places => setInOrder row (places.zip values.leaves)
    | .error failure => (.error failure, row)
  else
    match entries selection row.length values with
    | .ok entries => (.ok (), setAll row entries)
    | .error failure => (.error failure, row)

/-- A row keeps its length. -/
theorem length_fill (row : List Float) (selection : Selection) (values : Grid Object) :
    (fill row selection values).2.length = row.length := by
  unfold fill
  dsimp only
  split
  · rfl
  · split
    · split
      · exact length_setInOrder _ _
      · rfl
    · split
      · exact length_setAll _ _
      · rfl

/-- The row with a value put where a key names places. -/
def put (objects : Objects) (row : List Float) (key value : Ref) :
    Except Failure Unit × List Float :=
  match Selection.read objects row.length key with
  | .error failure => (.error failure, row)
  | .ok selection =>
    match objects.grid? value with
    | some values => fill row selection values
    | none => (.error .wrongShape, row)

theorem length_put (objects : Objects) (row : List Float) (key value : Ref) :
    (put objects row key value).2.length = row.length := by
  unfold put
  split
  · rfl
  · split
    · exact length_fill _ _ _
    · rfl

end Row

end SketchForm
