/-
This file holds affine maps of the plane as matrices.

A point of the plane is written with a third coordinate, which is always one, and then
an affine map is a product with a matrix of three rows. The first two rows are given by
six numbers; the third is zero, zero, one. Composing maps is multiplying matrices, and
every product is carried out in full, also with the entries that are zero or one: an
infinite coordinate times zero is no number, and leaving the product out would hide it.
-/
import SketchForm.Quantity

namespace SketchForm

/-- A row or column of three numbers. -/
structure Triple (R : Type) where
  x : R
  y : R
  w : R
  deriving DecidableEq, Repr

/-- The product of a row and a column. -/
def Triple.dot {R : Type} [Measure R] (row column : Triple R) : R :=
  row.x * column.x + row.y * column.y + row.w * column.w

/-- An affine map, by the rows of its matrix. -/
structure Transform (R : Type) where
  x : Triple R
  y : Triple R
  w : Triple R
  deriving DecidableEq, Repr

namespace Transform

variable {R : Type}

/-- The columns of the matrix. -/
def columns (matrix : Transform R) : Triple (Triple R) :=
  ⟨⟨matrix.x.x, matrix.y.x, matrix.w.x⟩, ⟨matrix.x.y, matrix.y.y, matrix.w.y⟩,
    ⟨matrix.x.w, matrix.y.w, matrix.w.w⟩⟩

/-- The six numbers that the map is given by, column by column. -/
def values (matrix : Transform R) : List R :=
  [matrix.x.x, matrix.y.x, matrix.x.y, matrix.y.y, matrix.x.w, matrix.y.w]

variable [Measure R]

/-- The map given by six numbers: `a b` and `c d` are the images of the two axes and `tx ty` that
of the origin. -/
def ofSix (a b c d tx ty : R) : Transform R := ⟨⟨a, c, tx⟩, ⟨b, d, ty⟩, ⟨0, 0, 1⟩⟩

/-- The map that moves nothing. -/
def identity : Transform R := ⟨⟨1, 0, 0⟩, ⟨0, 1, 0⟩, ⟨0, 0, 1⟩⟩

/-- One row of a product of matrices. -/
def rowOfProduct (row : Triple R) (inner : Transform R) : Triple R :=
  ⟨row.dot inner.columns.x, row.dot inner.columns.y, row.dot inner.columns.w⟩

/-- The map that applies `inner` first and `outer` to what comes out. -/
def compose (outer inner : Transform R) : Transform R :=
  ⟨rowOfProduct outer.x inner, rowOfProduct outer.y inner, rowOfProduct outer.w inner⟩

/-- The image of a point. -/
def apply (matrix : Transform R) (point : R × R) : R × R :=
  let column : Triple R := ⟨point.1, point.2, 1⟩
  (matrix.x.dot column, matrix.y.dot column)

@[simp] theorem values_ofSix (a b c d tx ty : R) :
    (ofSix a b c d tx ty).values = [a, b, c, d, tx, ty] := rfl

end Transform

end SketchForm
