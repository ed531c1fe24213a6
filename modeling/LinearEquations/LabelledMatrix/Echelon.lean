import LinearEquations.LabelledMatrix.RowOperation

/-! # Elimination

Elimination brings the rows of a matrix into echelon form.  It finds a pivot in the first column,
moves its row to the top, scales it so that the pivot becomes one and clears the column below; then
it goes on with the rows and columns that remain.  Clearing the columns upward as well gives the
reduced form.

A pivot is the first cell that is not exactly zero.  Where arithmetic rounds, cells that ought to be
zero may thus become pivots. -/

namespace LinearEquations.LabelledMatrix
variable {R : Type} [Scalar R]

/-- Rows of cells. -/
abbrev Rows (R : Type) := List (List (Complex R))

/-- The reciprocal of a number, if it is finite. -/
def finiteReciprocal (a : Complex R) : Except (ArithmeticError R) (Complex R) := do
  (Operand.complex (← a.reciprocal)).check

/-- Add a multiple of the row `pivot` to `row` so that the cell in the given column vanishes, the
pivot row having a one there. -/
def clearedRow (column : Nat) (pivot row : List (Complex R)) :
    Except (ArithmeticError R) (List (Complex R)) :=
  let entry := row.getD column 0
  if entry.isZero then .ok row
  else do
    let k ← (Operand.complex (-entry)).check
    return addedRow row (scaledRow k pivot)

/-- Whether all cells are exactly zero. -/
def allZero (rows : Rows R) : Bool := rows.all (·.all Complex.isZero)

/-- A single row, scaled so that its first cell other than zero becomes one. -/
def echelonRow (row : List (Complex R)) : Except (ArithmeticError R) (List (Complex R)) :=
  match row.find? (!·.isZero) with
  | none => .ok row
  | some leading => do return scaledRow (← finiteReciprocal leading) row

/-- A single column, with a one on top unless all cells are zero. -/
def echelonColumn (rows : Rows R) : Rows R :=
  if allZero rows then rows else table 1 rows.length fun _ r => if r = 0 then 1 else 0

/-- The rows with the row number `pivot` exchanged with the first one. -/
def pivotFirst (pivot : Nat) (rows : Rows R) : Rows R :=
  (rows.set pivot (rows.headD [])).set 0 (rows.getD pivot [])

/-- The echelon form of rows with the given number of columns. -/
def echelonRows : (columns : Nat) → Rows R → Except (ArithmeticError R) (Rows R)
  | 0, rows => .ok rows
  | n + 1, rows =>
    if rows.length = 1 then rows.mapM echelonRow
    else if n = 0 then .ok (echelonColumn rows)
    else
      match rows.findIdx? fun row => !(row.headD 0).isZero with
      | none => do
        let rest ← echelonRows n (rows.map List.tail)
        return rest.map (0 :: ·)
      | some pivot =>
        match pivotFirst pivot rows with
        | [] => .ok []
        | first :: below => do
          let top := scaledRow (← finiteReciprocal (first.headD 0)) first
          let cleared ← below.mapM (clearedRow 0 top)
          let rest ← echelonRows n (cleared.map List.tail)
          return top :: rest.map (0 :: ·)

/-- Clear the columns above the leading cells of the remaining rows.  What follows an empty row is
empty too, so there the work is done. -/
def clearUpward : (done remaining : Rows R) → Except (ArithmeticError R) (Rows R)
  | done, [] => .ok done
  | done, row :: rest =>
    match row.findIdx? (!·.isZero) with
    | none => .ok (done ++ row :: rest)
    | some column => do
      let cleared ← done.mapM (clearedRow column row)
      clearUpward (cleared ++ [row]) rest

/-- The echelon form of a matrix.  A single row or column of zeros is returned as it is, with the
determinant that it remembers. -/
def rowEchelon (m : ComplexMatrix R) : Except (MatrixError R) (ComplexMatrix R) :=
  if (m.rowCount = 1 || m.columnCount = 1) && allZero m.rows then .ok m
  else do
    let rows ← (echelonRows m.columnCount m.rows).mapError .arithmetic
    return m.withRows rows

/-- The reduced echelon form of a matrix. -/
def reducedRowEchelon (m : ComplexMatrix R) : Except (MatrixError R) (ComplexMatrix R) := do
  let echelon ← m.rowEchelon
  let rows ← (clearUpward [] echelon.rows).mapError .arithmetic
  return { echelon with rows }

end LinearEquations.LabelledMatrix
