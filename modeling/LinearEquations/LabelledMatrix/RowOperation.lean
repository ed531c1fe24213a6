import LinearEquations.LabelledMatrix.Arithmetic

/-! # Row operations

The elementary operations on rows, and the joining and splitting of matrices.  Row operations keep
the labels of the columns; what they remember of the determinant is lost. -/

namespace LinearEquations.LabelledMatrix
variable {R : Type} [Scalar R]

/-! ### Operations on single rows -/

/-- A row times a number. -/
def scaledRow (k : Complex R) (row : List (Complex R)) : List (Complex R) := row.map (· * k)

/-- The sum of two rows. -/
def addedRow (row other : List (Complex R)) : List (Complex R) := List.zipWith (· + ·) row other

/-! ### Operations on matrices -/

/-- The same labels over other rows. -/
def withRows {K : Type} (m : LabelledMatrix K) (rows : List (List K)) : LabelledMatrix K :=
  { rows, labels := m.labels }

/-- The row with a number, or why there is none. -/
def checkRow {K : Type} (m : LabelledMatrix K) (row : Nat) : Except (MatrixError R) (List K) :=
  match m.rows[row]? with
  | some cells => .ok cells
  | none => .error (.rowOutOfRange row m.rowCount)

/-- Exchange two rows. -/
def swapRows {K : Type} (m : LabelledMatrix K) (first second : Nat) :
    Except (MatrixError R) (LabelledMatrix K) := do
  let a ← m.checkRow first
  let b ← m.checkRow second
  return m.withRows ((m.rows.set first b).set second a)

/-- Multiply a row by a finite number. -/
def scaleRow (m : ComplexMatrix R) (row : Nat) (k : Operand R) :
    Except (MatrixError R) (ComplexMatrix R) := do
  let cells ← m.checkRow row
  let k ← checkOperand k
  return m.withRows (m.rows.set row (scaledRow k cells))

/-- Add the row `source` to the row `destination`. -/
def addRow (m : ComplexMatrix R) (destination source : Nat) :
    Except (MatrixError R) (ComplexMatrix R) := do
  let cells ← m.checkRow destination
  let other ← m.checkRow source
  return m.withRows (m.rows.set destination (addedRow cells other))

/-- Add a multiple of the row `source` to the row `destination`: the source is multiplied, added,
and put back as it was. -/
def addMultiple (m : ComplexMatrix R) (destination source : Nat) (k : Operand R) :
    Except (MatrixError R) (ComplexMatrix R) := do
  let kept ← m.checkRow source
  let moved ← (← m.scaleRow source k).addRow destination source
  return m.withRows (moved.rows.set source kept)

/-! ### Joining and splitting -/

/-- Put another matrix to the right. -/
def beside {K : Type} (m n : LabelledMatrix K) : Except (MatrixError R) (LabelledMatrix K) :=
  if m.rowCount = n.rowCount then .ok { rows := List.zipWith (· ++ ·) m.rows n.rows }
  else .error (.shapeMismatch .concatenate m.shape n.shape)

/-- Put another matrix underneath. -/
def above {K : Type} (m n : LabelledMatrix K) : Except (MatrixError R) (LabelledMatrix K) :=
  if m.columnCount = n.columnCount then .ok { rows := m.rows ++ n.rows }
  else .error (.shapeMismatch .stack m.shape n.shape)

/-- Leave out the first column, if it is not the only one. -/
def dropColumn {K : Type} (m : LabelledMatrix K) : Except (MatrixError R) (LabelledMatrix K) :=
  if m.columnCount < 2 then .error .empty else .ok { rows := m.rows.map List.tail }

end LinearEquations.LabelledMatrix
