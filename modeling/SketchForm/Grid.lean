/-
This file holds grids: values in rows of rows, where rows of one level are equally long.

A grid is its shape, which says from the outermost level inward how many members a row
has, and its leaves in order. A value that is no row is a grid without levels. A grid can
be spread over a larger shape: levels are matched from the innermost, a level of one
member repeats it, and levels that are missing outside count as levels of one member.
-/

namespace SketchForm

/-- Values in rows of rows: the shape, outermost level first, and the leaves in order. -/
structure Grid (α : Type) where
  shape : List Nat
  leaves : List α
  deriving DecidableEq, Repr

namespace Grid

variable {α : Type}

/-- A value that is no row. -/
def single (leaf : α) : Grid α := ⟨[], [leaf]⟩

/-- A row of values. -/
def row (leaves : List α) : Grid α := ⟨[leaves.length], leaves⟩

/-- The row of these grids, if they have one shape. -/
def stack? : List (Grid α) → Option (Grid α)
  | [] => some (row [])
  | first :: rest =>
    if rest.all fun other => other.shape == first.shape then
      some ⟨(rest.length + 1) :: first.shape, (first :: rest).flatMap leaves⟩
    else none

theorem stack?_single (values : List α) : stack? (values.map single) = some (row values) := by
  cases values with
  | nil => rfl
  | cons first rest => simp [stack?, single, row, List.flatMap_map]

/-! ### Shapes -/

/-- The shape with as many levels as asked for, the missing ones outside and of one member. -/
def deepened (shape : List Nat) (levels : Nat) : List Nat :=
  List.replicate (levels - shape.length) 1 ++ shape

/-- The shape over which grids of either shape can be spread. -/
def commonShape? (left right : List Nat) : Option (List Nat) :=
  let levels := max left.length right.length
  ((deepened left levels).zip (deepened right levels)).mapM fun (pair : Nat × Nat) =>
    if pair.1 = pair.2 ∨ pair.2 = 1 then some pair.1
    else if pair.1 = 1 then some pair.2
    else none

/-- How many leaves a grid of some shape has. -/
def leafCount (shape : List Nat) : Nat := shape.foldl (· * ·) 1

/-- The shape without the outer levels that are more than the levels asked for, if as many leaves
fit into the rest: where there are leaves, these levels must have one member each. -/
def flattened (levels : Nat) (shape : List Nat) : List Nat :=
  let inner := shape.drop (shape.length - levels)
  if leafCount inner = leafCount shape then inner else shape

/-! ### Spreading -/

/-- The leaves in the larger of two shapes of equally many levels. -/
def spreadLeaves : List Nat → List Nat → List α → List α
  | count :: inner, target :: innerTarget, leaves =>
    let size := leaves.length / count
    let spread := (List.range count).flatMap fun place =>
      spreadLeaves inner innerTarget ((leaves.drop (place * size)).take size)
    if count = target then spread else (List.replicate target spread).flatten
  | _, _, leaves => leaves

/-- The leaves of a grid spread over a shape, if it can be. -/
def spread? (grid : Grid α) (shape : List Nat) : Option (List α) :=
  if commonShape? grid.shape shape = some shape then
    some (spreadLeaves (deepened grid.shape shape.length) shape grid.leaves)
  else none

/-- A value that is no row is the same everywhere. -/
theorem spread?_single_row (leaf : α) (count : Nat) :
    (single leaf).spread? [count] = some (List.replicate count leaf) := by
  by_cases one : count = 1
  · subst one
    simp [spread?, single, commonShape?, deepened, spreadLeaves]
  · have other : ¬1 = count := fun same => one same.symm
    simp [spread?, single, commonShape?, deepened, spreadLeaves, one, other]

end Grid

end SketchForm
