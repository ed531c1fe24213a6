import LinearEquations.Equation.Parser
import LinearEquations.LabelledMatrix.Echelon
import LinearEquations.LinearSystem.Solution

/-! # Systems of linear equations

The augmented matrix of a system has a row for each equation, a column for each unknown in the order
of first mention, and a last column for the right hand sides.  Solving a system is reducing that
matrix. -/

namespace LinearEquations

/-- A system of linear equations. -/
structure LinearSystem (R : Type) where
  equations : List (Equation R) := []

/-- The label of the last column of an augmented matrix. -/
def rhsLabel : String := "rhs"

/-- Why a list of texts has no solution. -/
inductive SolveError (R : Type) where
  /-- The text number `index` is no equation. -/
  | parse (index : Nat) (text : String) (cause : ParseError)
  | matrix (cause : MatrixError R)

/-- The message of an error. -/
def SolveError.message {R : Type} : SolveError R → String
  | .parse index text _ =>
    "unable to parse equation " ++ toString index ++ " (" ++ quotedText text ++ ")"
  | .matrix _ => "unable to reduce the system"

/-- A reduced augmented matrix and the labels of its columns. -/
structure ReducedSystem (R : Type) where
  matrix : ComplexMatrix R
  labels : List String

namespace LinearSystem
variable {R : Type} [Scalar R]

/-- The unknowns of a system in the order of first mention. -/
def unknowns (s : LinearSystem R) : List String :=
  (s.equations.flatMap Equation.unknowns).eraseDups

/-- The row of an equation: its coefficients, zero where an unknown is missing, and its right hand
side. -/
def rowOf (unknowns : List String) (e : Equation R) : List (Complex R) :=
  unknowns.map (fun x => (e.coefficient? x).getD 0) ++ [e.rhs]

/-- The labels of the columns of the augmented matrix. -/
def labels (s : LinearSystem R) : List String := s.unknowns ++ [rhsLabel]

/-- The augmented matrix. -/
def augmentedMatrix (s : LinearSystem R) : Except (MatrixError R) (ComplexMatrix R) := do
  (← LabelledMatrix.ofRows (s.equations.map (rowOf s.unknowns))).withLabels s.labels

/-- Reduce the augmented matrix. -/
def solve (s : LinearSystem R) : Except (MatrixError R) (ReducedSystem R) := do
  let matrix ← (← s.augmentedMatrix).reducedRowEchelon
  return { matrix, labels := matrix.labels.getD [] }

/-- Read equations, from the text number `index` on. -/
def parseFrom : (index : Nat) → List String → Except (SolveError R) (List (Equation R))
  | _, [] => .ok []
  | index, text :: rest =>
    match Equation.parse text with
    | .error cause => .error (.parse index text cause)
    | .ok e => (parseFrom (index + 1) rest).map (e :: ·)

/-- The system of equations with the given texts. -/
def parse (texts : List String) : Except (SolveError R) (LinearSystem R) :=
  (parseFrom 0 texts).map fun equations => { equations }

/-- Add an equation at the end. -/
def push (s : LinearSystem R) (e : Equation R) : LinearSystem R :=
  ⟨s.equations ++ [e]⟩

/-- Add equations at the end. -/
def append (s : LinearSystem R) (equations : List (Equation R)) : LinearSystem R :=
  ⟨s.equations ++ equations⟩

end LinearSystem

/-- The solution that a reduced system describes. -/
def ReducedSystem.solution {R : Type} [Scalar R] (s : ReducedSystem R) :
    Except (MatrixError R) Solution := readSolution s.matrix s.labels

/-- Read and solve equations. -/
def solveTexts {R : Type} [Scalar R] (texts : List String) :
    Except (SolveError R) (ReducedSystem R) := do
  (← LinearSystem.parse texts).solve.mapError .matrix

end LinearEquations
