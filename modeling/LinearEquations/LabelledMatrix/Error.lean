import LinearEquations.Complex.Operand
import LinearEquations.Text

/-! # Errors of matrix operations -/

namespace LinearEquations

/-- The operations that combine two matrices of fitting shapes. -/
inductive Combination where
  | multiply
  | add
  | subtract
  | concatenate
  | stack
  deriving DecidableEq

/-- The verb for a combination. -/
def Combination.verb : Combination → String
  | .multiply => "multiply"
  | .add => "add"
  | .subtract => "subtract"
  | .concatenate => "concatenate"
  | .stack => "stack"

/-- Why an operation on matrices has no result. -/
inductive MatrixError (R : Type) where
  | empty
  | raggedRows (row expected found : Nat)
  | invalidElement (row column : Nat)
  | indexOutOfRange (row column rows columns : Nat)
  | rowOutOfRange (row rows : Nat)
  | shapeMismatch (operation : Combination) (left right : Nat × Nat)
  | notSquare (rows columns : Nat)
  | labelCount (expected found : Nat)
  | arithmetic (error : ArithmeticError R)

namespace MatrixError
variable {R : Type} [Scalar R]

/-- Numbers of rows and columns in words. -/
def shapeText (shape : Nat × Nat) : String :=
  "(" ++ toString shape.1 ++ ", " ++ toString shape.2 ++ ")"

/-- The message of an error. -/
def message : MatrixError R → String
  | empty => "a matrix needs at least one row and one column"
  | raggedRows row expected found => s!"row {row} has {found} entries, expected {expected}"
  | invalidElement row column =>
    s!"the element at row {row}, column {column} is not a finite number"
  | indexOutOfRange row column rows columns =>
    s!"row {row}, column {column} is outside a {rows}x{columns} matrix"
  | rowOutOfRange row rows => s!"row {row} is outside a matrix with {rows} rows"
  | shapeMismatch operation left right =>
    "unable to " ++ operation.verb ++ " a " ++ shapeText left ++ " matrix and a " ++
      shapeText right ++ " matrix"
  | notSquare rows columns => s!"expected a square matrix, found {rows}x{columns}"
  | labelCount expected found => s!"expected {expected} column labels, found {found}"
  | arithmetic error => error.message

/-- Named fields of a description. -/
def fieldsText (name : String) (fields : List (String × String)) : String :=
  let texts := fields.map fun (field, value) => field ++ ": " ++ value
  name ++ " \x7b " ++ ", ".intercalate texts ++ " \x7d"

/-- An error as it is written in descriptions of values. -/
def describe : MatrixError R → String
  | empty => "Empty"
  | raggedRows row expected found =>
    fieldsText "RaggedRows" [("row", toString row), ("expected", toString expected),
      ("found", toString found)]
  | invalidElement row column =>
    fieldsText "InvalidElement" [("row", toString row), ("column", toString column)]
  | indexOutOfRange row column rows columns =>
    fieldsText "IndexOutOfRange" [("row", toString row), ("column", toString column),
      ("rows", toString rows), ("columns", toString columns)]
  | rowOutOfRange row rows =>
    fieldsText "RowOutOfRange" [("row", toString row), ("rows", toString rows)]
  | shapeMismatch operation left right =>
    fieldsText "ShapeMismatch" [("operation", quotedText operation.verb), ("left", shapeText left),
      ("right", shapeText right)]
  | notSquare rows columns =>
    fieldsText "NotSquare" [("rows", toString rows), ("columns", toString columns)]
  | labelCount expected found =>
    fieldsText "LabelCount" [("expected", toString expected), ("found", toString found)]
  | arithmetic error => "Arithmetic(" ++ error.describe ++ ")"

end MatrixError
end LinearEquations
