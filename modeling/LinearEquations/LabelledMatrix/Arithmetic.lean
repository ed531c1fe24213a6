import LinearEquations.LabelledMatrix.Construction

/-! # Arithmetic of matrices

Sums, products, multiples and conjugates.  A product remembers its determinant if both factors
remember theirs. -/

namespace LinearEquations.LabelledMatrix
variable {R : Type} [Scalar R]

/-- The sum of the products of the numbers at the same places, added up from the left. -/
def dot (row column : List (Complex R)) : Complex R :=
  (List.zipWith (· * ·) row column).foldl (· + ·) 0

/-- The product of two matrices. -/
def times (m n : ComplexMatrix R) : Except (MatrixError R) (ComplexMatrix R) :=
  if m.columnCount = n.rowCount then
    .ok {
      rows := m.rows.map fun row => n.columns.map (dot row)
      remembered := return (← m.remembered) * (← n.remembered) }
  else .error (.shapeMismatch .multiply m.shape n.shape)

/-- Combine two matrices of the same shape cell by cell. -/
def cellwise (operation : Combination) (f : Complex R → Complex R → Complex R)
    (m n : ComplexMatrix R) : Except (MatrixError R) (ComplexMatrix R) :=
  if m.shape = n.shape then .ok (m.zipWith f n)
  else .error (.shapeMismatch operation m.shape n.shape)

/-- The sum of two matrices. -/
def plus (m n : ComplexMatrix R) : Except (MatrixError R) (ComplexMatrix R) :=
  cellwise .add (· + ·) m n

/-- The difference of two matrices. -/
def minus (m n : ComplexMatrix R) : Except (MatrixError R) (ComplexMatrix R) :=
  cellwise .subtract (· - ·) m n

/-- Check an operand of an operation on matrices. -/
def checkOperand (k : Operand R) : Except (MatrixError R) (Complex R) :=
  k.check.mapError .arithmetic

/-- Multiply every cell by a finite number. -/
def scale (m : ComplexMatrix R) (k : Operand R) : Except (MatrixError R) (ComplexMatrix R) := do
  let k ← checkOperand k
  return m.map (· * k)

/-- The complex conjugate of every cell. -/
def conjugate (m : ComplexMatrix R) : ComplexMatrix R := m.map Complex.conjugate

/-- The transpose of the conjugate. -/
def adjoint (m : ComplexMatrix R) : ComplexMatrix R := m.conjugate.transpose

/-! ### Closeness -/

/-- Whether two matrices have the same shape and cells in the relation `near`. -/
def agree (near : Complex R → Complex R → Bool) (m n : ComplexMatrix R) : Bool :=
  m.shape = n.shape && (m.zipWith near n).rows.all (·.all id)

/-- Whether two matrices have the same shape and equal cells. -/
def eq (m n : ComplexMatrix R) : Bool := agree Complex.eq m n

end LinearEquations.LabelledMatrix
