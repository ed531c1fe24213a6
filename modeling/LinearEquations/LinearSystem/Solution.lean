import LinearEquations.LabelledMatrix.Construction

/-! # Solutions

The rows of a reduced matrix are equations again, the last column holding the right hand sides.
`readSolution` writes them out one by one.  A row without coefficients says nothing if its right
hand side is zero, and otherwise that the system has no solution.

What counts as zero is decided by the text of a number: rounding leaves numbers behind that are
written as zero without being zero. -/

namespace LinearEquations
variable {R : Type} [Scalar R]

/-- What a reduced system says about its unknowns. -/
inductive Solution where
  /-- The equations that hold of a solution. -/
  | solved (lines : List String)
  | inconsistent
  deriving DecidableEq

namespace Solution

/-- The message for a system without solutions. -/
def noSolution : String := "No solution exists"

/-- A solution in lines of text. -/
def lines : Solution → List String
  | solved lines => lines
  | inconsistent => [noSolution]

/-- Whether there is a solution. -/
def isConsistent : Solution → Bool
  | solved _ => true
  | inconsistent => false

/-- The text of a solution. -/
def text (s : Solution) : String := "\n".intercalate s.lines

end Solution

/-! ### Rows as equations -/

/-- A coefficient and the label of its column, with what stands before it: the first coefficient of
one has no sign. -/
def termOfColumn (first : Bool) (a : Complex R) (label : String) : String :=
  if a.text = "1" then (if first then "" else "+ ") ++ label
  else if !Scalar.isZero a.im then "+ (" ++ a.text ++ ")" ++ label
  else if Scalar.isNegative a.re then
    if (Scalar.value a.re).isNear (-1) then "- " ++ label
    else "- " ++ (-a).text ++ label
  else "+ " ++ a.text ++ label

/-- The terms of a row, each followed by a space; coefficients written as zero are left out. -/
def termsOfRow : (terms : String) → List (Complex R × String) → String
  | terms, [] => terms
  | terms, (a, label) :: rest =>
    if a.text = "0" then termsOfRow terms rest
    else termsOfRow (terms ++ termOfColumn terms.isEmpty a label ++ " ") rest

/-- What a row says. -/
inductive RowReading where
  | equation (line : String)
  | vacuous
  | contradiction
  deriving DecidableEq

/-- What a row says, with the given labels of its columns. -/
def RowReading.ofRow (labels : List String) (row : List (Complex R)) : RowReading :=
  let terms := termsOfRow "" (row.dropLast.zip labels)
  let rhs := (row.getLastD 0).text
  if !terms.isEmpty then .equation (terms ++ "= " ++ rhs)
  else if rhs = "0" then .vacuous
  else .contradiction

/-- The line that a row contributes. -/
def RowReading.line? : RowReading → Option String
  | .equation line => some line
  | _ => none

/-- The solution that the rows of a matrix describe. -/
def Solution.ofReadings (readings : List RowReading) : Solution :=
  if readings.contains .contradiction then .inconsistent
  else .solved (readings.filterMap RowReading.line?)

/-- Read a reduced matrix as a solution, with one label for each column. -/
def readSolution (m : ComplexMatrix R) (labels : List String) :
    Except (MatrixError R) Solution :=
  if labels.length = m.columnCount then
    .ok (Solution.ofReadings (m.rows.map (RowReading.ofRow labels)))
  else .error (.labelCount m.columnCount labels.length)

end LinearEquations
