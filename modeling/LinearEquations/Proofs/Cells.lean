import LinearEquations.LabelledMatrix.Determinant
import LinearEquations.Proofs.EliminationRun

/-! # Cells of matrices

Rows are determined by their number and by which cell stands in which row and column
(`rows_eq_of_cellAt?_eq`).  `cellAt?` looks a cell up.  For each way of rearranging or combining
rows one lemma says which cell of the result is which cell of the given rows, so that nobody else
has to count places in lists. -/

namespace LinearEquations.LabelledMatrix
variable {K L : Type} {p q r c : Nat} {rows other : List (List K)}

/-- The cell in the given row and column, if there is one. -/
def cellAt? (rows : List (List K)) (r c : Nat) : Option K := rows[r]?.bind (·[c]?)

/-- **Rows with the same cells are equal.** -/
theorem rows_eq_of_cellAt?_eq (hlen : rows.length = other.length)
    (h : ∀ r < rows.length, ∀ c, cellAt? rows r c = cellAt? other r c) : rows = other := by
  refine List.ext_getElem hlen fun r hr hr' => List.ext_getElem? fun c => ?_
  simpa [cellAt?, hr, hr'] using h r hr c

/-! ### Where there are cells -/

theorem exists_cellAt? (hw : HasWidth q rows) (hr : r < rows.length) (hc : c < q) :
    ∃ x, cellAt? rows r c = some x := by
  have hlen : c < rows[r].length := (hw _ (List.getElem_mem hr)).symm ▸ hc
  exact ⟨rows[r][c], by simp [cellAt?, hr, hlen]⟩

theorem cellAt?_of_length_le (h : rows.length ≤ r) (c : Nat) : cellAt? rows r c = none := by
  simp [cellAt?, h]

theorem cellAt?_of_width_le (hw : HasWidth q rows) (r : Nat) (h : q ≤ c) :
    cellAt? rows r c = none := by
  rw [cellAt?, Option.bind_eq_none_iff]
  intro row hrow
  exact List.getElem?_eq_none ((hw row (List.mem_of_getElem? hrow)).symm ▸ h)

/-- **Rows of the same width with the same cells are equal.** -/
theorem rows_eq_of_hasWidth (hlen : rows.length = other.length) (hw : HasWidth q rows)
    (hw' : HasWidth q other)
    (h : ∀ r < rows.length, ∀ c < q, cellAt? rows r c = cellAt? other r c) : rows = other := by
  refine rows_eq_of_cellAt?_eq hlen fun r hr c => ?_
  by_cases hc : c < q
  · exact h r hr c hc
  · have hc := Nat.le_of_not_lt hc
    rw [cellAt?_of_width_le hw r hc, cellAt?_of_width_le hw' r hc]

/-! ### Tables -/

@[simp] theorem length_table (columns rows : Nat) (f : Nat → Nat → K) :
    (table columns rows f).length = rows := by
  simp [table]

theorem hasWidth_table (columns rows : Nat) (f : Nat → Nat → K) :
    HasWidth columns (table columns rows f) := by
  refine List.forall_mem_map.mpr fun r _ => ?_
  simp

theorem cellAt?_table {f : Nat → Nat → K} (hr : r < p) (hc : c < q) :
    cellAt? (table q p f) r c = some (f c r) := by
  simp [cellAt?, table, hr, hc]

/-! ### Rearranging -/

theorem cellAt?_map (f : K → L) (rows : List (List K)) (r c : Nat) :
    cellAt? (rows.map (List.map f)) r c = (cellAt? rows r c).map f := by
  simp only [cellAt?, List.getElem?_map, Option.bind_map]
  cases rows[r]? <;> simp

theorem cellAt?_mapIdx (f : Nat → Nat → K → L) (rows : List (List K)) (r c : Nat) :
    cellAt? (rows.mapIdx fun r row => row.mapIdx (f r)) r c = (cellAt? rows r c).map (f r c) := by
  simp only [cellAt?, List.getElem?_mapIdx, Option.bind_map]
  cases rows[r]? <;> simp

/-- Another row in the place of the row `d`. -/
theorem cellAt?_set {d : Nat} {row : List K} (hd : d < rows.length) (i c : Nat) :
    cellAt? (rows.set d row) i c = if d = i then row[c]? else cellAt? rows i c := by
  rw [cellAt?, List.getElem?_set, if_pos hd]
  split <;> rfl

theorem hasWidth_without {i j : Nat} (hw : HasWidth (q + 1) rows) (hj : j < q + 1) :
    HasWidth q (without i j rows) := by
  refine List.forall_mem_map.mpr fun row hrow => ?_
  have hlen := hw row (List.mem_of_mem_eraseIdx hrow)
  rw [List.length_eraseIdx_of_lt (hlen.symm ▸ hj), hlen, Nat.add_sub_cancel]

theorem length_without {i j : Nat} (hi : i < rows.length) :
    (without i j rows).length = rows.length - 1 := by
  simp [without, List.length_eraseIdx_of_lt hi]

/-- The number of a row or column before row or column `i` is left out. -/
def skipping (i r : Nat) : Nat := if r < i then r else r + 1

theorem cellAt?_without (i j : Nat) (rows : List (List K)) (r c : Nat) :
    cellAt? (without i j rows) r c = cellAt? rows (skipping i r) (skipping j c) := by
  have hrow : (rows.eraseIdx i)[r]? = rows[skipping i r]? := by
    rw [List.getElem?_eraseIdx, skipping]
    split <;> rfl
  have hcell : ∀ row : List K, (row.eraseIdx j)[c]? = row[skipping j c]? := fun row => by
    rw [List.getElem?_eraseIdx, skipping]
    split <;> rfl
  simp only [cellAt?, without, List.getElem?_map, hrow, Option.bind_map]
  exact congrArg _ (funext hcell)

theorem columnOf_cons {row : List K} (h : c < row.length) (rows : List (List K)) :
    columnOf (row :: rows) c = row[c] :: columnOf rows c :=
  List.filterMap_cons_some (List.getElem?_eq_getElem h)

/-- All rows reach into the column, so that its cells are as many as the rows. -/
theorem getElem?_columnOf (hw : HasWidth q rows) (hc : c < q) (r : Nat) :
    (columnOf rows c)[r]? = cellAt? rows r c := by
  induction rows generalizing r with
  | nil => rfl
  | cons row rows ih =>
    obtain ⟨rfl, hrows⟩ := List.forall_mem_cons.mp hw
    rw [columnOf_cons hc]
    cases r with
    | zero => exact (List.getElem?_eq_getElem hc).symm
    | succ r => exact ih hrows r

theorem length_columnOf (hw : HasWidth q rows) (hc : c < q) :
    (columnOf rows c).length = rows.length := by
  induction rows with
  | nil => rfl
  | cons row rows ih =>
    obtain ⟨rfl, hrows⟩ := List.forall_mem_cons.mp hw
    rw [columnOf_cons hc, List.length_cons, List.length_cons, ih hrows]

variable {m : LabelledMatrix K}

@[simp] theorem length_columns (m : LabelledMatrix K) : m.columns.length = m.columnCount := by
  simp [columns]

theorem hasWidth_columns (hw : HasWidth m.columnCount m.rows) : HasWidth m.rowCount m.columns :=
  List.forall_mem_map.mpr fun _ hc => length_columnOf hw (List.mem_range.mp hc)

/-- **Transposing exchanges rows and columns.** -/
theorem cellAt?_columns (hw : HasWidth m.columnCount m.rows) (r c : Nat) :
    cellAt? m.columns r c = cellAt? m.rows c r := by
  by_cases hr : r < m.columnCount
  · have hrow : m.columns[r]? = some (columnOf m.rows r) := by simp [columns, hr]
    rw [cellAt?, hrow]
    exact getElem?_columnOf hw hr c
  · rw [cellAt?_of_length_le (by simpa using hr), cellAt?_of_width_le hw c (Nat.le_of_not_lt hr)]

/-! ### Combining -/

/-- A cell of rows put beside others. -/
theorem cellAt?_beside (hw : HasWidth q rows) (hlen : rows.length = other.length) (r c : Nat) :
    cellAt? (List.zipWith (· ++ ·) rows other) r c =
      if c < q then cellAt? rows r c else cellAt? other r (c - q) := by
  by_cases hr : r < rows.length
  · have hrow : rows[r].length = q := hw _ (List.getElem_mem hr)
    have hr' : r < other.length := hlen ▸ hr
    simp only [cellAt?, List.getElem?_zipWith, List.getElem?_eq_getElem hr,
      List.getElem?_eq_getElem hr', Option.bind_some, List.getElem?_append, hrow]
  · have hle := Nat.le_of_not_lt hr
    rw [cellAt?_of_length_le (by simpa [← hlen] using hle), cellAt?_of_length_le hle,
      cellAt?_of_length_le (hlen ▸ hle), ite_self]

end LinearEquations.LabelledMatrix
