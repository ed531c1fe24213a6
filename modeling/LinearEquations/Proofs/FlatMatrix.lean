import LinearEquations.LabelledMatrix.Workspace

/-! # Matrices in one array

A matrix can be kept in a single array of cells, row by row, beside the numbers of its columns and
rows.  Every operation then computes positions in the array, and nothing in the array says whether
they are right.  Here the operations are written that way, as programs that check each access.

A program ends with a result, or it is refused with an error of matrices, or it *faults*
(`Stop.fault`): an access outside an array, a difference below zero, a remainder or a division by
zero, an array whose length is not the product of the numbers of columns and rows.  A fault is never
an answer.  That there are none, and that the results are those of the operations on rows, is proved
of each operation by itself, and then of runs. -/

namespace LinearEquations

/-- Why a program has no result. -/
inductive Stop (R : Type) where
  | fault
  /-- No matrix has this name. -/
  | unset (name : String)
  | refused (cause : MatrixError R)

/-- What a program ends with. -/
abbrev Checked (R A : Type) := Except (Stop R) A

namespace Checked
variable {R A : Type}

/-- Refuse with an error. -/
def refuse (cause : MatrixError R) : Checked R A := .error (.refused cause)

/-- Fault unless the condition holds. -/
def ensure (condition : Bool) : Checked R Unit := if condition then .ok () else .error .fault

/-- An element of an array. -/
def fetch (cells : List A) (i : Nat) : Checked R A :=
  match cells[i]? with
  | some x => .ok x
  | none => .error .fault

/-- The difference of two numbers. -/
def difference (a b : Nat) : Checked R Nat := do
  ensure (b ≤ a)
  return a - b

/-- The elements from number `start` up to number `stop`. -/
def slice (cells : List A) (start stop : Nat) : Checked R (List A) := do
  ensure (start ≤ stop && stop ≤ cells.length)
  return (cells.take stop).drop start

/-- Put other elements in the place of a slice. -/
def overwrite (cells : List A) (start stop : Nat) (part : List A) : Checked R (List A) := do
  let old ← slice cells start stop
  ensure (old.length = part.length)
  return cells.take start ++ part ++ cells.drop stop

/-- Put another element in a place. -/
def assign (cells : List A) (i : Nat) (x : A) : Checked R (List A) := do
  ensure (i < cells.length)
  return cells.set i x

/-- Exchange two elements. -/
def exchange (cells : List A) (i j : Nat) : Checked R (List A) := do
  let x ← fetch cells i
  let y ← fetch cells j
  assign (← assign cells i y) j x

end Checked

open Checked

/-- A matrix in one array. -/
@[ext]
structure FlatMatrix (R : Type) where
  /-- The cells row by row. -/
  cells : List (Complex R)
  columnCount : Nat
  rowCount : Nat
  labels : Option (List String) := none
  remembered : Option (Complex R) := none

namespace FlatMatrix

section Plain
variable {R : Type}

/-! ### Arrays of cells -/

/-- The matrix with the given cells. -/
def ofCells (cells : List (Complex R)) (columns rows : Nat) : Checked R (FlatMatrix R) := do
  ensure (cells.length = columns * rows)
  return { cells, columnCount := columns, rowCount := rows }

/-- The matrix whose cells are computed one after another, by column and row. -/
def init (columns rows : Nat) (cell : Nat → Nat → Checked R (Complex R)) :
    Checked R (FlatMatrix R) := do
  let cells ← (List.range rows).mapM fun r => (List.range columns).mapM fun c => cell c r
  ofCells cells.flatten columns rows

/-- The numbers of rows and of columns. -/
def shape (m : FlatMatrix R) : Nat × Nat := (m.rowCount, m.columnCount)

def isSquare (m : FlatMatrix R) : Bool := m.rowCount = m.columnCount

/-! ### Looking at cells -/

/-- The cell in the given column and row. -/
def index (m : FlatMatrix R) (column row : Nat) : Checked R (Complex R) := do
  ensure (column < m.columnCount)
  ensure (row < m.rowCount)
  fetch m.cells (row * m.columnCount + column)

/-- The cell in the given column and row, if there is one. -/
def get? (m : FlatMatrix R) (column row : Nat) : Option (Complex R) :=
  if column < m.columnCount && row < m.rowCount then m.cells[row * m.columnCount + column]?
  else none

/-- A row, if there is one with this number. -/
def row? (m : FlatMatrix R) (row : Nat) : Checked R (Option (List (Complex R))) :=
  if row < m.rowCount then do
    return some (← slice m.cells (row * m.columnCount) ((row + 1) * m.columnCount))
  else .ok none

/-- The first pieces of `n` elements each. -/
def chunks (n : Nat) : (count : Nat) → List (Complex R) → List (List (Complex R))
  | 0, _ => []
  | count + 1, cells => cells.take n :: chunks n count (cells.drop n)

/-- The array in pieces as long as a row. -/
def rows (m : FlatMatrix R) : Checked R (List (List (Complex R))) := do
  ensure (m.columnCount ≠ 0)
  return chunks m.columnCount (m.cells.length / m.columnCount) m.cells

/-- All cells, each with its column and row. -/
def places (m : FlatMatrix R) : Checked R (List (Nat × Nat × Complex R)) :=
  m.cells.zipIdx.mapM fun (x, i) => do
    ensure (m.columnCount ≠ 0)
    return (i % m.columnCount, i / m.columnCount, x)

/-- The columns from left to right. -/
def columns (m : FlatMatrix R) : Checked R (List (List (Complex R))) :=
  (List.range m.columnCount).mapM fun c => (List.range m.rowCount).mapM fun r => m.index c r

/-- The cells as a dense array. -/
def toColumnMajor (m : FlatMatrix R) : Checked R (ColumnMajor (Complex R)) := do
  return ⟨m.rowCount, m.columnCount, (← m.columns).flatten⟩

/-! ### Labels -/

/-- Put labels on the columns, one for each. -/
def withLabels (m : FlatMatrix R) (labels : List String) : Checked R (FlatMatrix R) :=
  if labels.length = m.columnCount then .ok { m with labels := some labels }
  else refuse (.labelCount m.columnCount labels.length)

/-- Take over the labels of a matrix with as many columns. -/
def withLabelsOf (m other : FlatMatrix R) : FlatMatrix R :=
  if m.columnCount = other.columnCount then { m with labels := other.labels } else m

/-! ### Rearranging -/

/-- Apply a function to every cell. -/
def map (f : Complex R → Complex R) (m : FlatMatrix R) : Checked R (FlatMatrix R) :=
  ofCells (m.cells.map f) m.columnCount m.rowCount

/-- The matrix whose rows are the columns. -/
def transpose (m : FlatMatrix R) : Checked R (FlatMatrix R) := do
  let transposed ← init m.rowCount m.columnCount fun column row => m.index row column
  return { transposed with remembered := m.remembered }

/-- The matrix without a row and a column. -/
def without (m : FlatMatrix R) (row column : Nat) : Checked R (FlatMatrix R) := do
  ensure (1 < m.rowCount && 1 < m.columnCount)
  init (← difference m.columnCount 1) (← difference m.rowCount 1) fun c r =>
    m.index (if column ≤ c then c + 1 else c) (if row ≤ r then r + 1 else r)

/-- The matrix without a row and a column, if something is left. -/
def minor (m : FlatMatrix R) (row column : Nat) : Checked R (FlatMatrix R) :=
  if m.rowCount ≤ row || m.columnCount ≤ column then
    refuse (.indexOutOfRange row column m.rowCount m.columnCount)
  else if m.rowCount = 1 || m.columnCount = 1 then refuse .empty
  else m.without row column

/-- Put another matrix to the right. -/
def beside (m n : FlatMatrix R) : Checked R (FlatMatrix R) :=
  if m.rowCount = n.rowCount then
    init (m.columnCount + n.columnCount) m.rowCount fun column row =>
      if column < m.columnCount then m.index column row
      else do n.index (← difference column m.columnCount) row
  else refuse (.shapeMismatch .concatenate m.shape n.shape)

/-- Put another matrix underneath. -/
def above (m n : FlatMatrix R) : Checked R (FlatMatrix R) :=
  if m.columnCount = n.columnCount then
    ofCells (m.cells ++ n.cells) m.columnCount (m.rowCount + n.rowCount)
  else refuse (.shapeMismatch .stack m.shape n.shape)

/-- Leave out the first column, if it is not the only one. -/
def dropColumn (m : FlatMatrix R) : Checked R (FlatMatrix R) :=
  if m.columnCount < 2 then refuse .empty
  else do
    init (← difference m.columnCount 1) m.rowCount fun column row => m.index (column + 1) row

/-- A row as a matrix. -/
def rowMatrix (m : FlatMatrix R) (row : Nat) : Checked R (FlatMatrix R) :=
  init m.columnCount 1 fun column _ => m.index column row

/-! ### Rows in the array -/

/-- Refuse a row that is not there. -/
def checkRow (m : FlatMatrix R) (row : Nat) : Checked R Unit :=
  if row < m.rowCount then .ok () else refuse (.rowOutOfRange row m.rowCount)

/-- The matrix of the same shape and labels after a change of the array. -/
def withCells (m : FlatMatrix R) (change : List (Complex R) → Checked R (List (Complex R))) :
    Checked R (FlatMatrix R) := do
  return (← ofCells (← change m.cells) m.columnCount m.rowCount).withLabelsOf m

/-- Exchange two rows. -/
def swapRows (m : FlatMatrix R) (first second : Nat) : Checked R (FlatMatrix R) := do
  m.checkRow first
  m.checkRow second
  m.withCells fun cells => (List.range m.columnCount).foldlM (fun cells column =>
    exchange cells (first * m.columnCount + column) (second * m.columnCount + column)) cells

/-- The matrix with the row `pivot` on top. -/
def pivotOnTop (m : FlatMatrix R) (pivot : Nat) : Checked R (FlatMatrix R) :=
  if pivot = 0 then .ok m else m.swapRows pivot 0

end Plain

variable {R : Type} [Scalar R]

/-! ### Making matrices -/

/-- Read the entries of a row from number `column` on. -/
def readEntries (row : Nat) : (column : Nat) → List (Operand R) → Checked R (List (Complex R))
  | _, [] => .ok []
  | column, entry :: rest =>
    match entry.check with
    | .error _ => refuse (.invalidElement row column)
    | .ok x => do return x :: (← readEntries row (column + 1) rest)

/-- Read rows from number `row` on, into one array.  The number of columns is that of the first
row. -/
def readRows : (row : Nat) → (columns : Option Nat) → List (List (Operand R)) →
    Checked R (Option Nat × List (Complex R))
  | _, columns, [] => .ok (columns, [])
  | row, columns, entries :: rest => do
    let values ← readEntries row 0 entries
    let expected := columns.getD values.length
    if expected ≠ values.length then refuse (.raggedRows row expected values.length)
    let (columns, cells) ← readRows (row + 1) (some expected) rest
    return (columns, values ++ cells)

/-- The matrix with the given rows. -/
def ofOperands (rows : List (List (Operand R))) : Checked R (FlatMatrix R) := do
  match ← readRows 0 none rows with
  | (some (n + 1), cells) => ofCells cells (n + 1) rows.length
  | _ => refuse .empty

/-- The identity matrix. -/
def identity (n : Nat) : Checked R (FlatMatrix R) :=
  if n = 0 then refuse .empty
  else do
    let m ← init n n fun column row => .ok (if column = row then 1 else 0)
    return { m with remembered := some 1 }

/-- A matrix of zeros. -/
def zeros (columns rows : Nat) : Checked R (FlatMatrix R) := init columns rows fun _ _ => .ok 0

/-- A finite cell of a dense array. -/
def denseCell (a : ColumnMajor (Complex R)) (column row : Nat) : Checked R (Complex R) :=
  match a.get? row column with
  | some x => if x.isFinite then .ok x else refuse (.invalidElement row column)
  | none => .error .fault

/-- The matrix with the cells of a dense array. -/
def ofColumnMajor (a : ColumnMajor (Complex R)) : Checked R (FlatMatrix R) :=
  if a.rowCount = 0 || a.columnCount = 0 then refuse .empty
  else init a.columnCount a.rowCount (denseCell a)

/-! ### Arithmetic -/

/-- The product of two matrices. -/
def times (m n : FlatMatrix R) : Checked R (FlatMatrix R) :=
  if m.columnCount = n.rowCount then do
    let product ← init n.columnCount m.rowCount fun column row =>
      (List.range m.columnCount).foldlM (fun sum i => do
        return sum + (← m.index i row) * (← n.index column i)) 0
    return { product with remembered := do return (← m.remembered) * (← n.remembered) }
  else refuse (.shapeMismatch .multiply m.shape n.shape)

/-- Combine two matrices of the same shape cell by cell. -/
def cellwise (operation : Combination) (f : Complex R → Complex R → Complex R)
    (m n : FlatMatrix R) : Checked R (FlatMatrix R) :=
  if m.shape = n.shape then
    ofCells (List.zipWith f m.cells n.cells) m.columnCount m.rowCount
  else refuse (.shapeMismatch operation m.shape n.shape)

def plus (m n : FlatMatrix R) : Checked R (FlatMatrix R) := cellwise .add (· + ·) m n

def minus (m n : FlatMatrix R) : Checked R (FlatMatrix R) := cellwise .subtract (· - ·) m n

/-- A finite operand. -/
def checkOperand (k : Operand R) : Checked R (Complex R) :=
  (LabelledMatrix.checkOperand k).mapError .refused

/-- Multiply every cell by a finite number. -/
def scale (m : FlatMatrix R) (k : Operand R) : Checked R (FlatMatrix R) := do
  let k ← checkOperand k
  m.map (· * k)

def conjugate (m : FlatMatrix R) : Checked R (FlatMatrix R) := m.map Complex.conjugate

def adjoint (m : FlatMatrix R) : Checked R (FlatMatrix R) := do (← m.conjugate).transpose

/-- Whether two matrices have the same shape and cells in the relation `near`. -/
def agree (near : Complex R → Complex R → Bool) (m n : FlatMatrix R) : Bool :=
  m.shape = n.shape && (List.zipWith near m.cells n.cells).all id

/-! ### Determinants and inverses -/

/-- The determinant of a square matrix, the remembered one if there is one.  Expansion along the
first row goes down to a matrix smaller by one; deeper than `depth` it faults. -/
def squareDeterminant : (depth : Nat) → FlatMatrix R → Checked R (Complex R)
  | 0, _ => .error .fault
  | depth + 1, m => do
    ensure m.isSquare
    match m.remembered with
    | some d => return d
    | none =>
      if m.rowCount = 1 then fetch m.cells 0
      else (List.range m.columnCount).foldlM (fun sum column => do
        let minor ← m.without 0 column
        return sum + LabelledMatrix.expansionSign column * (← m.index column 0) *
          (← squareDeterminant depth minor)) 0

/-- The determinant, and the matrix that remembers it. -/
def determinant (m : FlatMatrix R) : Checked R (Option (Complex R) × FlatMatrix R) :=
  if m.isSquare then do
    let d ← m.squareDeterminant m.rowCount
    return (some d, { m with remembered := some d })
  else .ok (none, m)

/-- The determinants of the minors. -/
def minors (m : FlatMatrix R) : Checked R (FlatMatrix R) :=
  if m.isSquare then
    if m.rowCount = 1 then init 1 1 fun _ _ => .ok 1
    else init m.columnCount m.rowCount fun column row => do
      (← m.without row column).squareDeterminant m.rowCount
  else refuse (.notSquare m.rowCount m.columnCount)

/-- The determinants of the minors with alternating signs. -/
def cofactor (m : FlatMatrix R) : Checked R (FlatMatrix R) := do
  let minors ← m.minors
  init m.columnCount m.rowCount fun column row => do
    let x ← minors.index column row
    return if (column + row) % 2 = 0 then x else -x

def adjugate (m : FlatMatrix R) : Checked R (FlatMatrix R) := do (← m.cofactor).transpose

/-- The inverse of a square matrix whose determinant is not zero, and the matrix that remembers its
determinant. -/
def inverse (m : FlatMatrix R) : Checked R (Option (FlatMatrix R)) := do
  match ← m.determinant with
  | (none, _) => return none
  | (some d, m) =>
    if d.isZero then return none
    else
      let factor ← (d.reciprocal.mapError .arithmetic).mapError .refused
      return some (← (← m.adjugate).scale (.complex factor))

/-! ### Row operations -/

/-- Multiply a row by a finite number. -/
def scaleRow (m : FlatMatrix R) (row : Nat) (k : Operand R) : Checked R (FlatMatrix R) := do
  m.checkRow row
  let k ← checkOperand k
  m.withCells fun cells => do
    let start := row * m.columnCount
    let stop := (row + 1) * m.columnCount
    let part ← slice cells start stop
    overwrite cells start stop (part.map (· * k))

/-- Add the row `source` to the row `destination`. -/
def addRow (m : FlatMatrix R) (destination source : Nat) : Checked R (FlatMatrix R) := do
  m.checkRow destination
  m.checkRow source
  m.withCells fun cells => (List.range m.columnCount).foldlM (fun cells column => do
    let value ← fetch cells (source * m.columnCount + column)
    let old ← fetch cells (destination * m.columnCount + column)
    assign cells (destination * m.columnCount + column) (old + value)) cells

/-- Add a multiple of the row `source` to the row `destination`: the source is multiplied, added,
and put back as it was. -/
def addMultiple (m : FlatMatrix R) (destination source : Nat) (k : Operand R) :
    Checked R (FlatMatrix R) := do
  let moved ← (← m.scaleRow source k).addRow destination source
  let start := source * m.columnCount
  let kept ← slice m.cells start (start + m.columnCount)
  moved.withCells fun cells =>
    overwrite cells (source * moved.columnCount) ((source + 1) * moved.columnCount) kept

/-! ### Elimination -/

/-- Add a multiple of the row `pivot` to a row, so that its cell in a column vanishes. -/
def clearRow (column pivot : Nat) (m : FlatMatrix R) (row : Nat) : Checked R (FlatMatrix R) := do
  let entry ← m.index column row
  if entry.isZero then return m else m.addMultiple row pivot (.complex (-entry))

/-- Clear rows one after another. -/
def clear (column pivot : Nat) (rows : List Nat) (m : FlatMatrix R) : Checked R (FlatMatrix R) :=
  rows.foldlM (clearRow column pivot) m

/-- The echelon form, but for the labels.  Each round leaves a matrix with one column less; after
more than `depth` rounds it faults. -/
def echelon : (depth : Nat) → FlatMatrix R → Checked R (FlatMatrix R)
  | 0, _ => .error .fault
  | depth + 1, m =>
    if m.rowCount = 1 then
      match m.cells.find? (!·.isZero) with
      | some leading => do
        let k ← (leading.reciprocal.mapError .arithmetic).mapError .refused
        m.scaleRow 0 (.complex k)
      | none => .ok m
    else if m.columnCount = 1 then
      if m.cells.all Complex.isZero then .ok m
      else init 1 m.rowCount fun _ row => .ok (if row = 0 then 1 else 0)
    else do
      match ← (List.range m.rowCount).findM? fun row => do return !(← m.index 0 row).isZero with
      | none => (← zeros 1 m.rowCount).beside (← echelon depth (← m.dropColumn))
      | some pivot =>
        let swapped ← m.pivotOnTop pivot
        let leading ← swapped.index 0 0
        let k ← (leading.reciprocal.mapError .arithmetic).mapError .refused
        let scaled ← swapped.scaleRow 0 (.complex k)
        let cleared ← scaled.clear 0 0 (List.range' 1 (scaled.rowCount - 1))
        let rest ← echelon depth (← cleared.without 0 0)
        let underneath ← (← zeros 1 (← difference cleared.rowCount 1)).beside rest
        (← cleared.rowMatrix 0).above underneath

/-- The echelon form. -/
def rowEchelon (m : FlatMatrix R) : Checked R (FlatMatrix R) := do
  return (← m.echelon m.columnCount).withLabelsOf m

/-- Clear the columns above the leading cells of `count` rows, from number `row` on. -/
def reduceFrom : (count row : Nat) → FlatMatrix R → Checked R (FlatMatrix R)
  | 0, _, m => .ok m
  | count + 1, row, m => do
    match ← (List.range m.columnCount).findM? fun column => do
      return !(← m.index column row).isZero with
    | none => return m
    | some leading => reduceFrom count (row + 1) (← m.clear leading row (List.range row))

/-- The reduced echelon form. -/
def reducedRowEchelon (m : FlatMatrix R) : Checked R (FlatMatrix R) := do
  let echelon ← m.rowEchelon
  echelon.reduceFrom echelon.rowCount 0

/-! ### Texts -/

/-- The description of a matrix. -/
def describe (m : FlatMatrix R) : Checked R String := do
  return LabelledMatrix.bracketed
    ((← m.rows).map fun row => LabelledMatrix.bracketed (row.map Complex.describe))

/-- The text of a matrix.  Every column is as wide as its widest text, so that no text is wider. -/
def text (m : FlatMatrix R) : Checked R String := do
  let texts := m.cells.map Complex.text
  let widths ← (List.range m.columnCount).mapM fun column => do
    let column ← (List.range m.rowCount).mapM fun row =>
      fetch texts (row * m.columnCount + column)
    return LabelledMatrix.width column
  let lines ← (List.range m.rowCount).mapM fun row => do
    let cells ← widths.zipIdx.mapM fun (width, column) => do
      let text ← fetch texts (row * m.columnCount + column)
      let padding ← difference width text.utf8ByteSize
      return "(" ++ text ++ ")" ++ String.ofList (List.replicate (padding + 1) ' ')
    return "|" ++ String.join cells ++ "|"
  return "\n".intercalate lines

/-- What the rows of a reduced matrix say; each has a last cell. -/
def solution (m : FlatMatrix R) (labels : List String) : Checked R Solution :=
  if labels.length = m.columnCount then do
    let readings ← (← m.rows).mapM fun row => do
      let _ ← fetch row (← difference row.length 1)
      return RowReading.ofRow labels row
    return Solution.ofReadings readings
  else refuse (.labelCount m.columnCount labels.length)

end FlatMatrix
end LinearEquations
