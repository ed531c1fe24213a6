import LinearEquations.Proofs.Cells

/-! # The views of a matrix

A cell can be looked up by column and row, in its row, in its column, and in the list of all cells.
In a well-formed matrix all of these give the same cell (`WellFormed.viewsAgree`).  What has to be
counted is that the cell of row `r` and column `c` has the number `r * q + c` where `q` cells make
up a row (`getElem?_flatten`). -/

namespace LinearEquations.LabelledMatrix
variable {K L : Type} {q r c : Nat} {rows : List (List K)} {m : LabelledMatrix K}

/-! ### Rows laid end to end -/

theorem length_flatten (hw : HasWidth q rows) : rows.flatten.length = rows.length * q := by
  rw [List.length_flatten, List.map_congr_left hw, List.map_const', List.sum_replicate_nat]

/-- **Where a cell is when the rows are laid end to end.** -/
theorem getElem?_flatten (hw : HasWidth q rows) (hc : c < q) (r : Nat) :
    rows.flatten[r * q + c]? = cellAt? rows r c := by
  induction rows generalizing r with
  | nil => rfl
  | cons row rows ih =>
    obtain ⟨hrow, hrows⟩ := List.forall_mem_cons.mp hw
    rw [List.flatten_cons]
    cases r with
    | zero =>
      rw [Nat.zero_mul, Nat.zero_add, List.getElem?_append_left (hrow.symm ▸ hc)]
      rfl
    | succ r =>
      have hnumber : (r + 1) * q + c = q + (r * q + c) := by
        rw [Nat.add_mul, Nat.one_mul, Nat.add_right_comm, Nat.add_comm]
      rw [hnumber, ← hrow, List.getElem?_append_right (Nat.le_add_right ..),
        Nat.add_sub_cancel_left, hrow]
      exact ih hrows r

/-! ### The list of cells -/

/-- The list of cells, a row at a time. -/
def cellRows (m : LabelledMatrix K) : List (List (Nat × Nat × K)) :=
  m.rows.mapIdx fun r row => row.mapIdx fun c x => (c, r, x)

theorem cells_eq_flatten (m : LabelledMatrix K) : m.cells = m.cellRows.flatten := by
  simp only [cells, cellRows, List.mapIdx_eq_zipIdx_map, List.flatMap_def]

theorem hasWidth_cellRows (hw : HasWidth q m.rows) : HasWidth q m.cellRows := by
  intro row hrow
  obtain ⟨i, hi, rfl⟩ := List.mem_mapIdx.mp hrow
  exact List.length_mapIdx.trans (hw _ (List.getElem_mem hi))

theorem length_cellRows (m : LabelledMatrix K) : m.cellRows.length = m.rowCount :=
  List.length_mapIdx

/-! ### Agreement -/

/-- All ways to look at the cell in column `c` and row `r` show `x`. -/
structure Shows (m : LabelledMatrix K) (c r : Nat) (x : K) : Prop where
  get : m.get? c r = some x
  index : m.index c r = .ok x
  row : (m.row? r).bind (·[c]?) = some x
  rows : m.rows[r]?.bind (·[c]?) = some x
  cells : m.cells[r * m.columnCount + c]? = some (c, r, x)
  columns : m.columns[c]?.bind (·[r]?) = some x

/-- The views show the same cells and no others. -/
structure ViewsAgree (m : LabelledMatrix K) : Prop where
  shows : ∀ c < m.columnCount, ∀ r < m.rowCount, ∃ x, m.Shows c r x
  get_eq_none : ∀ c r, m.get? c r = none ↔ m.columnCount ≤ c ∨ m.rowCount ≤ r
  row_eq_none : ∀ r, m.row? r = none ↔ m.rowCount ≤ r
  index_eq_error : ∀ c r, (∃ e, m.index c r = .error e) ↔ m.columnCount ≤ c ∨ m.rowCount ≤ r
  length_cells : m.cells.length = m.rowCount * m.columnCount
  length_columns : m.columns.length = m.columnCount
  length_column : ∀ column ∈ m.columns, column.length = m.rowCount

theorem WellFormed.get?_eq_none (hm : m.WellFormed) (c r : Nat) :
    m.get? c r = none ↔ m.columnCount ≤ c ∨ m.rowCount ≤ r := by
  constructor
  · intro h
    by_contra hin
    obtain ⟨hc, hr⟩ := not_or.mp hin
    obtain ⟨x, hx⟩ := exists_cellAt? hm.length_row (Nat.lt_of_not_le hr) (Nat.lt_of_not_le hc)
    cases h.symm.trans hx
  · rintro (hc | hr)
    · exact cellAt?_of_width_le hm.length_row r hc
    · exact cellAt?_of_length_le hr c

theorem WellFormed.index_eq_error (hm : m.WellFormed) (c r : Nat) :
    (∃ e, m.index c r = .error e) ↔ m.columnCount ≤ c ∨ m.rowCount ≤ r := by
  rw [← hm.get?_eq_none]
  unfold index
  split
  · cases m.get? c r with
    | none => exact iff_of_true ⟨_, rfl⟩ rfl
    | some x => exact iff_of_false nofun nofun
  · rename_i hc
    exact iff_of_true ⟨_, rfl⟩ ((hm.get?_eq_none c r).mpr (.inl (Nat.le_of_not_lt hc)))

/-- **The views of a matrix agree.** -/
theorem WellFormed.viewsAgree (hm : m.WellFormed) : m.ViewsAgree where
  shows c hc r hr := by
    obtain ⟨x, hx⟩ := exists_cellAt? hm.length_row hr hc
    have hget : m.get? c r = some x := hx
    refine ⟨x, hget, ?_, hx, hx, ?_, ?_⟩
    · rw [index, if_pos hc, hget]
    · rw [cells_eq_flatten, getElem?_flatten (hasWidth_cellRows hm.length_row) hc, cellRows,
        cellAt?_mapIdx fun r c x => (c, r, x), hx]
      rfl
    · exact (cellAt?_columns hm.length_row c r).trans hx
  get_eq_none := hm.get?_eq_none
  row_eq_none _ := List.getElem?_eq_none_iff
  index_eq_error := hm.index_eq_error
  length_cells := by
    rw [cells_eq_flatten, length_flatten (hasWidth_cellRows hm.length_row), length_cellRows]
  length_columns := length_columns m
  length_column := hasWidth_columns hm.length_row

end LinearEquations.LabelledMatrix
