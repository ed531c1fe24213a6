import LinearEquations.LabelledMatrix.Arithmetic

/-! # Determinants and inverses

The determinant is expanded along the first row, and the inverse is the adjugate over the
determinant.  A matrix that is asked for its determinant remembers it from then on
(`LabelledMatrix.remember`); asking again gives the number that is remembered, which matters where
arithmetic rounds. -/

namespace LinearEquations.LabelledMatrix
variable {R : Type} [Scalar R]

/-- The sign of a column in an expansion along the first row. -/
def expansionSign (column : Nat) : Complex R :=
  Complex.ofReal (if column % 2 = 0 then 1 else -1)

/-- The determinant of `n + 1` rows, expanded along the first one. -/
def expand : (n : Nat) → (rows : List (List (Complex R))) → Complex R
  | 0, rows => (rows.headD []).headD 0
  | n + 1, rows =>
    (rows.headD []).zipIdx.foldl (fun sum (x, column) =>
      sum + expansionSign column * x * expand n (without 0 column rows)) 0

/-- The determinant of a square matrix, the remembered one if there is one. -/
def squareDeterminant (m : ComplexMatrix R) : Complex R :=
  m.remembered.getD (expand (m.rowCount - 1) m.rows)

/-- The determinant, if the matrix is square. -/
def determinant (m : ComplexMatrix R) : Option (Complex R) :=
  if m.isSquare then some m.squareDeterminant else none

/-- The same matrix, remembering its determinant. -/
def remember (m : ComplexMatrix R) : ComplexMatrix R :=
  if m.isSquare then { m with remembered := some m.squareDeterminant } else m

/-! ### Minors -/

/-- The matrix without a row and a column. -/
def minor (m : ComplexMatrix R) (row column : Nat) : Except (MatrixError R) (ComplexMatrix R) :=
  if m.rowCount ≤ row || m.columnCount ≤ column then
    .error (.indexOutOfRange row column m.rowCount m.columnCount)
  else if m.rowCount = 1 || m.columnCount = 1 then .error .empty
  else .ok { rows := without row column m.rows }

/-- The determinants of the minors of a square matrix.  What is left of a single cell has the
determinant one. -/
def minors (m : ComplexMatrix R) : Except (MatrixError R) (ComplexMatrix R) :=
  if m.isSquare then
    .ok { rows := table m.columnCount m.rowCount fun c r =>
      if m.rowCount = 1 then 1 else expand (m.rowCount - 2) (without r c m.rows) }
  else .error (.notSquare m.rowCount m.columnCount)

/-- The determinants of the minors with alternating signs. -/
def cofactor (m : ComplexMatrix R) : Except (MatrixError R) (ComplexMatrix R) := do
  let minors ← m.minors
  return { rows := minors.rows.mapIdx fun r row => row.mapIdx fun c x =>
    if (c + r) % 2 = 0 then x else -x }

/-- The transpose of the matrix of cofactors. -/
def adjugate (m : ComplexMatrix R) : Except (MatrixError R) (ComplexMatrix R) := do
  return (← m.cofactor).transpose

/-! ### Inverses -/

/-- The inverse of a square matrix whose determinant is not zero. -/
def inverse (m : ComplexMatrix R) : Except (MatrixError R) (Option (ComplexMatrix R)) :=
  match m.determinant with
  | none => .ok none
  | some d =>
    if d.isZero then .ok none
    else do
      let factor ← d.reciprocal.mapError .arithmetic
      let inverse ← (← m.adjugate).scale (.complex factor)
      return some inverse

end LinearEquations.LabelledMatrix
