import LinearEquations.Complex.Closeness
import LinearEquations.LabelledMatrix.Determinant
import LinearEquations.LabelledMatrix.Echelon
import LinearEquations.LabelledMatrix.Basic
import LinearEquations.LinearSystem.Solution

/-! # Working with several matrices

A workspace holds matrices under names.  A step makes a matrix from others, or looks at one; a run
is a list of steps.  Looking at the determinant of a matrix changes the matrix, which remembers the
determinant from then on, and so does inverting it; all other steps leave the matrices that they use
as they are. -/

namespace LinearEquations

/-- Operations that make a matrix from one matrix. -/
inductive UnaryOperation (R : Type) where
  | copy
  | transpose
  | conjugate
  | adjoint
  | minors
  | cofactor
  | adjugate
  | dropColumn
  | rowEchelon
  | reducedRowEchelon
  | withLabels (labels : List String)
  | minor (row column : Nat)
  | scale (k : Operand R)
  | swapRows (first second : Nat)
  | scaleRow (row : Nat) (k : Operand R)
  | addRow (destination source : Nat)
  | addMultiple (destination source : Nat) (k : Operand R)

/-- Operations that make a matrix from two matrices. -/
inductive BinaryOperation where
  | times
  | plus
  | minus
  | beside
  | above

/-- How a matrix is made.  Matrices that are used are given by name. -/
inductive Construction (R : Type) where
  | rows (cells : List (List (Operand R)))
  | identity (n : Nat)
  | dense (cells : ColumnMajor (Complex R))
  | unary (operation : UnaryOperation R) (m : String)
  | binary (operation : BinaryOperation) (m n : String)

/-- What can be asked about a matrix. -/
inductive Query (R : Type) where
  | shape
  | row (row : Nat)
  | get (column row : Nat)
  | index (column row : Nat)
  | cells
  | columns
  | describe
  | determinant
  | dense
  | compare (other : String) (epsilon proportion : R)
  | solution (labels : List String)

/-- One thing to do.  A matrix that is made is stored under the name `out`, if there is one. -/
inductive Step (R : Type) where
  | make (construction : Construction R) (out : Option String)
  | invert (m : String) (out : Option String)
  | ask (query : Query R) (m : String)

/-- Why a step has no result. -/
inductive StepError (R : Type) where
  /-- No matrix has this name. -/
  | unset (name : String)
  | matrix (cause : MatrixError R)
  | index (cause : LabelledMatrix.IndexError)

/-- What a step results in. -/
inductive Answer (R : Type) where
  | matrix (m : ComplexMatrix R)
  | noInverse
  | shape (rows columns : Nat) (square : Bool)
  | row (cells : Option (List (Complex R)))
  | cell (x : Option (Complex R))
  | cells (cells : List (Nat × Nat × Complex R))
  | columns (columns : List (List (Complex R)))
  | text (text : String)
  | determinant (d : Option (Complex R))
  | dense (cells : ColumnMajor (Complex R))
  | comparison (within withinProportion equal : Bool)
  | solution (s : Solution)

/-- Matrices under names. -/
abbrev Workspace (R : Type) := String → Option (ComplexMatrix R)

variable {R : Type} [Scalar R]

/-- Apply an operation to a matrix. -/
def UnaryOperation.apply (m : ComplexMatrix R) :
    UnaryOperation R → Except (MatrixError R) (ComplexMatrix R)
  | copy => .ok m
  | transpose => .ok m.transpose
  | conjugate => .ok m.conjugate
  | adjoint => .ok m.adjoint
  | minors => m.minors
  | cofactor => m.cofactor
  | adjugate => m.adjugate
  | dropColumn => m.dropColumn
  | rowEchelon => m.rowEchelon
  | reducedRowEchelon => m.reducedRowEchelon
  | withLabels labels => m.withLabels labels
  | minor row column => m.minor row column
  | scale k => m.scale k
  | swapRows first second => m.swapRows first second
  | scaleRow row k => m.scaleRow row k
  | addRow destination source => m.addRow destination source
  | addMultiple destination source k => m.addMultiple destination source k

/-- Apply an operation to two matrices. -/
def BinaryOperation.apply (m n : ComplexMatrix R) :
    BinaryOperation → Except (MatrixError R) (ComplexMatrix R)
  | times => m.times n
  | plus => m.plus n
  | minus => m.minus n
  | beside => m.beside n
  | above => m.above n

namespace Workspace

/-- The workspace without matrices. -/
def empty : Workspace R := fun _ => none

/-- The matrix with a name. -/
def lookup (w : Workspace R) (name : String) : Except (StepError R) (ComplexMatrix R) :=
  match w name with
  | some m => .ok m
  | none => .error (.unset name)

/-- Store a matrix under a name, in place of one that has it. -/
def store (w : Workspace R) (name : String) (m : ComplexMatrix R) : Workspace R :=
  fun other => if other = name then some m else w other

/-- Store a matrix if there is a name for it. -/
def storeAs (w : Workspace R) (out : Option String) (m : ComplexMatrix R) : Workspace R :=
  match out with
  | some name => w.store name m
  | none => w

/-- Make a matrix. -/
def make (w : Workspace R) : Construction R → Except (StepError R) (ComplexMatrix R)
  | .rows cells => (LabelledMatrix.ofOperands cells).mapError .matrix
  | .identity n => (LabelledMatrix.identity n).mapError .matrix
  | .dense cells => (LabelledMatrix.ofColumnMajor cells).mapError .matrix
  | .unary operation m => do (operation.apply (← w.lookup m)).mapError .matrix
  | .binary operation m n => do
    let m ← w.lookup m
    let n ← w.lookup n
    (operation.apply m n).mapError .matrix

/-- Answer a query about a matrix. -/
def answer (w : Workspace R) (m : ComplexMatrix R) : Query R → Except (StepError R) (Answer R)
  | .shape => .ok (.shape m.rowCount m.columnCount m.isSquare)
  | .row row => .ok (.row (m.row? row))
  | .get column row => .ok (.cell (m.get? column row))
  | .index column row => ((m.index column row).mapError .index).map fun x => .cell (some x)
  | .cells => .ok (.cells m.cells)
  | .columns => .ok (.columns m.columns)
  | .describe => .ok (.text m.describe)
  | .determinant => .ok (.determinant m.determinant)
  | .dense => .ok (.dense m.toColumnMajor)
  | .compare other epsilon proportion => do
    let n ← w.lookup other
    return .comparison (m.agree (Complex.isWithin epsilon) n)
      (m.agree (Complex.isWithinProportion epsilon proportion) n) (m.eq n)
  | .solution labels => ((readSolution m labels).mapError .matrix).map .solution

/-- The matrix after a query. -/
def after (m : ComplexMatrix R) : Query R → ComplexMatrix R
  | .determinant => m.remember
  | _ => m

/-- Do one step. -/
def step (w : Workspace R) : Step R → Except (StepError R) (Answer R) × Workspace R
  | .make construction out =>
    match w.make construction with
    | .ok m => (.ok (.matrix m), w.storeAs out m)
    | .error e => (.error e, w)
  | .invert name out =>
    match w.lookup name with
    | .ok m =>
      let w := w.store name m.remember
      match m.inverse with
      | .ok (some n) => (.ok (.matrix n), w.storeAs out n)
      | .ok none => (.ok .noInverse, w)
      | .error e => (.error (.matrix e), w)
    | .error e => (.error e, w)
  | .ask query name =>
    match w.lookup name with
    | .ok m => (w.answer m query, w.store name (after m query))
    | .error e => (.error e, w)

/-- Do steps one after another. -/
def run (w : Workspace R) : List (Step R) → List (Except (StepError R) (Answer R)) × Workspace R
  | [] => ([], w)
  | s :: rest =>
    let (result, w) := w.step s
    let (results, w) := run w rest
    (result :: results, w)

end Workspace
end LinearEquations
