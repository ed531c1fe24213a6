import LinearEquations.LabelledMatrix.Basic
import LinearEquations.LabelledMatrix.Error

/-! # Making matrices

Matrices are made from rows of finite numbers, all of the same length, from dense column-major
arrays, and as identities.  Rows are checked one after another: first their numbers, then their
length against that of the first row.  That there is anything at all is checked last. -/

namespace LinearEquations

/-- Matrices of complex numbers. -/
abbrev ComplexMatrix (R : Type) := LabelledMatrix (Complex R)

namespace LabelledMatrix
variable {R : Type} [Scalar R]

/-- Check the rows from number `row` on. -/
def checkRows (expected : Nat) : (row : Nat) → List (List (Complex R)) → Except (MatrixError R) Unit
  | _, [] => .ok ()
  | row, cells :: rest =>
    match cells.findIdx? (!·.isFinite) with
    | some column => .error (.invalidElement row column)
    | none =>
      if cells.length = expected then checkRows expected (row + 1) rest
      else .error (.raggedRows row expected cells.length)

/-- The matrix with the given rows. -/
def ofRows (rows : List (List (Complex R))) : Except (MatrixError R) (ComplexMatrix R) := do
  checkRows (rows.headD []).length 0 rows
  if (rows.headD []).isEmpty then throw .empty
  return { rows }

/-- The matrix with the given rows of operands. -/
def ofOperands (rows : List (List (Operand R))) : Except (MatrixError R) (ComplexMatrix R) :=
  ofRows (rows.map (List.map Operand.value))

/-- The identity matrix, whose determinant is known. -/
def identity (n : Nat) : Except (MatrixError R) (ComplexMatrix R) :=
  if n = 0 then .error .empty
  else .ok { rows := table n n fun c r => if c = r then 1 else 0, remembered := some 1 }

/-- Put labels on the columns, one for each. -/
def withLabels {K : Type} (m : LabelledMatrix K) (labels : List String) :
    Except (MatrixError R) (LabelledMatrix K) :=
  if labels.length = m.columnCount then .ok { m with labels := some labels }
  else .error (.labelCount m.columnCount labels.length)

end LabelledMatrix

/-! ### Dense arrays -/

/-- A dense array of cells, column by column. -/
@[ext]
structure ColumnMajor (K : Type) where
  rowCount : Nat
  columnCount : Nat
  cells : List K

namespace ColumnMajor
variable {K : Type}

/-- The array with the given cells, row by row. -/
def ofRowMajor (rowCount columnCount : Nat) (cells : List K) : ColumnMajor K :=
  ⟨rowCount, columnCount,
    (List.range columnCount).flatMap fun c =>
      (List.range rowCount).filterMap fun r => cells[r * columnCount + c]?⟩

/-- A cell of an array, if there is one at this place. -/
def get? (a : ColumnMajor K) (row column : Nat) : Option K :=
  if row < a.rowCount && column < a.columnCount then a.cells[column * a.rowCount + row]? else none

/-- The rows of an array. -/
def rows (a : ColumnMajor K) : List (List K) :=
  (List.range a.rowCount).map fun r => (List.range a.columnCount).filterMap (a.get? r)

end ColumnMajor

namespace LabelledMatrix

/-- The matrix with the cells of a dense array. -/
def ofColumnMajor {R : Type} [Scalar R] (a : ColumnMajor (Complex R)) :
    Except (MatrixError R) (ComplexMatrix R) := ofRows a.rows

/-- The cells of a matrix as a dense array. -/
def toColumnMajor {K : Type} (m : LabelledMatrix K) : ColumnMajor K :=
  ⟨m.rowCount, m.columnCount, m.columns.flatten⟩

end LabelledMatrix
end LinearEquations
