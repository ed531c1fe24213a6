import LinearEquations.Complex.Text

/-! # Matrices with labelled columns

A matrix is given by its rows.  Its columns may carry labels, and it may remember its determinant.
Both are part of the matrix: later answers depend on them.

A matrix is plain data; `LabelledMatrix.WellFormed` says which data is a matrix.  Cells are
addressed by column and row, in this order, counted from zero. -/

namespace LinearEquations

/-- A matrix of cells, by rows. -/
@[ext]
structure LabelledMatrix (K : Type) where
  rows : List (List K)
  /-- One label for each column. -/
  labels : Option (List String) := none
  /-- The determinant, once it is known. -/
  remembered : Option K := none

namespace LabelledMatrix
variable {K : Type}

/-- The number of rows. -/
def rowCount (m : LabelledMatrix K) : Nat := m.rows.length

/-- The number of columns. -/
def columnCount (m : LabelledMatrix K) : Nat := (m.rows.headD []).length

/-- The number of rows and of columns. -/
def shape (m : LabelledMatrix K) : Nat × Nat := (m.rowCount, m.columnCount)

/-- Whether there are as many rows as columns. -/
def isSquare (m : LabelledMatrix K) : Bool := m.rowCount = m.columnCount

/-- There are cells, the rows have the same length, there is a label for each column if there are
any, and only a square matrix remembers a determinant. -/
structure WellFormed (m : LabelledMatrix K) : Prop where
  rowCount_pos : 0 < m.rowCount
  columnCount_pos : 0 < m.columnCount
  length_row : ∀ row ∈ m.rows, row.length = m.columnCount
  length_labels : ∀ labels, m.labels = some labels → labels.length = m.columnCount
  square_of_remembered : m.remembered.isSome → m.rowCount = m.columnCount

instance (m : LabelledMatrix K) : Decidable m.WellFormed :=
  decidable_of_iff
    (0 < m.rowCount ∧ 0 < m.columnCount ∧ (∀ row ∈ m.rows, row.length = m.columnCount) ∧
      (∀ labels ∈ m.labels, labels.length = m.columnCount) ∧
      (m.remembered.isSome → m.rowCount = m.columnCount))
    ⟨fun ⟨h₁, h₂, h₃, h₄, h₅⟩ => ⟨h₁, h₂, h₃, h₄, h₅⟩,
      fun ⟨h₁, h₂, h₃, h₄, h₅⟩ => ⟨h₁, h₂, h₃, h₄, h₅⟩⟩

/-! ### Looking at cells -/

/-- A row, if there is one with this number. -/
def row? (m : LabelledMatrix K) (row : Nat) : Option (List K) := m.rows[row]?

/-- A cell, if there is one at this place. -/
def get? (m : LabelledMatrix K) (column row : Nat) : Option K := m.rows[row]?.bind (·[column]?)

/-- Why there is no cell at a place. -/
inductive IndexError where
  | column
  | row
  deriving DecidableEq

/-- The message of an index error. -/
def IndexError.message : IndexError → String
  | .column => "Column index out of bounds"
  | .row => "Row index out of bounds"

/-- The cell at a place, or why there is none. -/
def index (m : LabelledMatrix K) (column row : Nat) : Except IndexError K :=
  if column < m.columnCount then
    match m.get? column row with
    | some x => .ok x
    | none => .error .row
  else .error .column

/-- The cells row by row, each with its column and row. -/
def cells (m : LabelledMatrix K) : List (Nat × Nat × K) :=
  m.rows.zipIdx.flatMap fun (row, r) => row.zipIdx.map fun (x, c) => (c, r, x)

/-- The column with the given number of a list of rows. -/
def columnOf (rows : List (List K)) (column : Nat) : List K := rows.filterMap (·[column]?)

/-- The columns from left to right. -/
def columns (m : LabelledMatrix K) : List (List K) :=
  (List.range m.columnCount).map (columnOf m.rows)

/-! ### Building and rearranging -/

/-- The rows of a table whose cells are given by column and row. -/
def table (columns rows : Nat) (cell : Nat → Nat → K) : List (List K) :=
  (List.range rows).map fun r => (List.range columns).map fun c => cell c r

/-- Apply a function to every cell. -/
def map {L : Type} (f : K → L) (m : LabelledMatrix K) : LabelledMatrix L :=
  { rows := m.rows.map (List.map f) }

/-- Apply a function to the cells of two matrices at the same places. -/
def zipWith {L M : Type} (f : K → L → M) (m : LabelledMatrix K) (n : LabelledMatrix L) :
    LabelledMatrix M :=
  { rows := List.zipWith (List.zipWith f) m.rows n.rows }

/-- The matrix whose rows are the columns.  The determinant stays the same. -/
def transpose (m : LabelledMatrix K) : LabelledMatrix K :=
  { rows := m.columns, remembered := m.remembered }

/-- The rows without the given row and column. -/
def without (row column : Nat) (rows : List (List K)) : List (List K) :=
  (rows.eraseIdx row).map (·.eraseIdx column)

/-! ### Texts

A matrix is written with one line for each row, between bars.  Every cell stands in parentheses, and
columns are aligned by spaces after the closing ones; widths are counted in bytes, and a text of
numbers has one byte for each character. -/

/-- The width of the widest text. -/
def width (texts : List String) : Nat := texts.foldl (fun w t => max w t.utf8ByteSize) 0

/-- A cell in parentheses, with spaces up to one more than the width of its column. -/
def cellText (width : Nat) (text : String) : String :=
  "(" ++ text ++ ")" ++ String.ofList (List.replicate (width - text.utf8ByteSize + 1) ' ')

/-- A row of cells between bars, the columns having the given widths. -/
def rowText (widths : List Nat) (texts : List String) : String :=
  "|" ++ String.join (List.zipWith cellText widths texts) ++ "|"

/-- A matrix of texts as lines. -/
def lines (m : LabelledMatrix String) : List String :=
  m.rows.map (rowText (m.columns.map width))

variable {R : Type} [Scalar R]

/-- The text of a matrix. -/
def text (m : LabelledMatrix (Complex R)) : String :=
  "\n".intercalate (m.map Complex.text).lines

/-- A list in brackets. -/
def bracketed (texts : List String) : String := "[" ++ ", ".intercalate texts ++ "]"

/-- A matrix as it is written in descriptions of values. -/
def describe (m : LabelledMatrix (Complex R)) : String :=
  bracketed (m.rows.map fun row => bracketed (row.map Complex.describe))

end LabelledMatrix
end LinearEquations
