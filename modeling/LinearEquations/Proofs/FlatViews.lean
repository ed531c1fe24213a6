import LinearEquations.Proofs.FlatArithmetic

/-! # Looking at arrays

A matrix in one array is looked at by cutting pieces out of the array and by dividing numbers of
cells.  On the layout of a well-formed matrix this shows the same as looking at rows, and it faults
for no other reason than an index out of range (`index_eq`). -/

namespace LinearEquations.FlatMatrix
open LabelledMatrix Checked

variable {R : Type} {m : ComplexMatrix R} {p q c i : Nat} {rows : List (List (Complex R))}
variable {row : List (Complex R)}

/-! ### Cells and rows -/

theorem get?_flat (hm : m.WellFormed) (c r : Nat) : m.flat.get? c r = m.get? c r := by
  unfold FlatMatrix.get?
  rw [columnCount_flat, rowCount_flat]
  split
  · rename_i h
    exact getElem?_flatten hm.length_row (by simp at h; exact h.1) r
  · rename_i h
    refine ((hm.get?_eq_none c r).mpr ?_).symm
    simp only [Bool.and_eq_true, decide_eq_true_eq, not_and_or, Nat.not_lt] at h
    exact h

/-- **An index out of range is a fault, and nothing else is.** -/
theorem index_eq (hm : m.WellFormed) (c r : Nat) :
    m.flat.index c r = (m.index c r).mapError fun _ => .fault := by
  cases h : m.get? c r with
  | some x =>
    have hc : c < m.columnCount := by
      by_contra hle
      cases h.symm.trans ((hm.get?_eq_none c r).mpr (.inl (Nat.le_of_not_lt hle)))
    rw [index_flat hm h, LabelledMatrix.index, if_pos hc, h]
    rfl
  | none =>
    obtain ⟨e, he⟩ := (hm.index_eq_error c r).mpr ((hm.get?_eq_none c r).mp h)
    rw [he, FlatMatrix.index, columnCount_flat, rowCount_flat]
    by_cases hc : c < m.columnCount
    · have hr := ((hm.get?_eq_none c r).mp h).resolve_left (Nat.not_le_of_lt hc)
      rw [ensure_eq_ok (decide_eq_true hc), ok_bind, ensure_eq_error (by simpa using hr)]
      rfl
    · rw [ensure_eq_error (by simpa using hc)]
      rfl

/-- Rows around a row, and the place of the row between them. -/
theorem flatten_split (hw : HasWidth q rows) (hrow : rows[i]? = some row) :
    rows.flatten = (rows.take i).flatten ++ row ++ (rows.drop (i + 1)).flatten ∧
      (rows.take i).flatten.length = i * q ∧ row.length = q := by
  obtain ⟨hi, rfl⟩ := List.getElem?_eq_some_iff.mp hrow
  have hsplit : rows = rows.take i ++ rows[i] :: rows.drop (i + 1) := by
    rw [List.getElem_cons_drop, List.take_append_drop]
  refine ⟨?_, ?_, hw _ (List.getElem_mem hi)⟩
  · conv_lhs => rw [hsplit]
    rw [List.flatten_append, List.flatten_cons, List.append_assoc]
  · rw [length_flatten fun r hr => hw r (List.mem_of_mem_take hr), List.length_take,
      Nat.min_eq_left hi.le]

/-- A row is a slice of the array. -/
theorem slice_flatten (hw : HasWidth q rows) (hrow : rows[i]? = some row) :
    (slice rows.flatten (i * q) ((i + 1) * q) : Checked R _) = .ok row := by
  obtain ⟨hsplit, hbefore, hlen⟩ := flatten_split hw hrow
  have hstop : (i + 1) * q = ((rows.take i).flatten ++ row).length := by
    rw [List.length_append, hbefore, hlen, Nat.succ_mul]
  have hbounds : (i * q ≤ (i + 1) * q && (i + 1) * q ≤ rows.flatten.length) = true := by
    rw [hsplit, List.length_append, ← hstop]
    simp [Nat.mul_le_mul_right]
  rw [slice, ensure_eq_ok hbounds, ok_bind, hstop, hsplit, List.take_left' rfl, ← hbefore,
    List.drop_left' rfl]
  rfl

theorem row?_flat (hm : m.WellFormed) (i : Nat) : m.flat.row? i = .ok (m.row? i) := by
  unfold FlatMatrix.row? LabelledMatrix.row?
  rw [columnCount_flat, rowCount_flat]
  split
  · rename_i hi
    obtain ⟨row, hrow⟩ : ∃ row, m.rows[i]? = some row := ⟨_, List.getElem?_eq_getElem hi⟩
    have hslice : (slice m.flat.cells (i * m.columnCount) ((i + 1) * m.columnCount) :
        Checked R _) = .ok row := slice_flatten hm.length_row hrow
    rw [hslice, hrow]
    rfl
  · rename_i hi
    rw [List.getElem?_eq_none (Nat.le_of_not_lt hi)]

/-- Rows laid end to end are cut into the same rows again. -/
theorem chunks_flatten (hw : HasWidth q rows) : chunks q rows.length rows.flatten = rows := by
  induction rows with
  | nil => rfl
  | cons row rows ih =>
    obtain ⟨hrow, hrows⟩ := List.forall_mem_cons.mp hw
    rw [List.length_cons, chunks, List.flatten_cons, List.take_left' hrow, List.drop_left' hrow,
      ih hrows]

theorem rows_flat (hm : m.WellFormed) : m.flat.rows = .ok m.rows := by
  have hcount : m.flat.cells.length / m.columnCount = m.rows.length := by
    rw [show m.flat.cells.length = m.rows.length * m.columnCount from length_flatten hm.length_row,
      Nat.mul_div_cancel _ hm.columnCount_pos]
  rw [FlatMatrix.rows, columnCount_flat, ensure_eq_ok (by simpa using hm.columnCount_pos.ne'),
    hcount]
  exact congrArg Except.ok (chunks_flatten hm.length_row)

/-! ### All cells -/

theorem columns_flat (hm : m.WellFormed) : m.flat.columns = .ok m.columns := by
  rw [FlatMatrix.columns, columnCount_flat, rowCount_flat, ← length_columns m]
  refine mapM_range_eq_ok fun c column hcolumn => ?_
  rw [← hasWidth_columns hm.length_row column (List.mem_of_getElem? hcolumn)]
  refine mapM_range_eq_ok fun r x hx => index_flat hm ?_
  rw [← cellAt?_columns hm.length_row, cellAt?, hcolumn, Option.bind_some, hx]

theorem toColumnMajor_flat (hm : m.WellFormed) :
    m.flat.toColumnMajor = .ok m.toColumnMajor := by
  rw [FlatMatrix.toColumnMajor, columns_flat hm]
  rfl

/-- The number of a cell, divided by the length of a row, gives its column and row. -/
theorem cells_eq_map_zipIdx (hm : m.WellFormed) :
    m.cells = m.rows.flatten.zipIdx.map fun (x, i) =>
      (i % m.columnCount, i / m.columnCount, x) := by
  refine List.ext_getElem? fun i => ?_
  have hi : i / m.columnCount * m.columnCount + i % m.columnCount = i := Nat.div_add_mod' ..
  have hc : i % m.columnCount < m.columnCount := Nat.mod_lt i hm.columnCount_pos
  have hcell := getElem?_flatten hm.length_row hc (i / m.columnCount)
  have hplace := getElem?_flatten (hasWidth_cellRows hm.length_row) hc (i / m.columnCount)
  rw [hi] at hcell hplace
  rw [cells_eq_flatten, hplace, cellRows, cellAt?_mapIdx fun r c x => (c, r, x), ← hcell,
    List.getElem?_map, List.getElem?_zipIdx, Option.map_map]
  simp only [Function.comp_def, Nat.zero_add]

theorem places_flat (hm : m.WellFormed) : m.flat.places = .ok m.cells := by
  rw [cells_eq_map_zipIdx hm]
  refine mapM_eq_ok_map fun (x, i) _ => ?_
  rw [columnCount_flat, ensure_eq_ok (by simpa using hm.columnCount_pos.ne')]
  rfl

/-! ### Texts -/

section Texts
variable [Scalar R]

theorem describe_flat (hm : m.WellFormed) : m.flat.describe = .ok m.describe := by
  rw [FlatMatrix.describe, rows_flat hm]
  rfl

omit [Scalar R] in
/-- No text is wider than its column. -/
theorem le_width {text : String} {texts : List String} (h : text ∈ texts) :
    text.utf8ByteSize ≤ width texts := by
  have hge : ∀ (l : List String) (w : Nat),
      w ≤ l.foldl (fun w t => max w t.utf8ByteSize) w ∧
        ∀ t ∈ l, t.utf8ByteSize ≤ l.foldl (fun w t => max w t.utf8ByteSize) w := by
    intro l
    induction l with
    | nil => exact fun w => ⟨le_refl w, List.forall_mem_nil _⟩
    | cons first rest ih =>
      intro w
      obtain ⟨hw, hrest⟩ := ih (max w first.utf8ByteSize)
      exact ⟨(le_max_left ..).trans hw, List.forall_mem_cons.mpr
        ⟨(le_max_right ..).trans hw, hrest⟩⟩
  exact (hge texts 0).2 text h

omit [Scalar R] in
/-- A list computed from elements and the elements with the same numbers in another list. -/
theorem mapM_zipIdx_eq_ok {A B C : Type} {start : Nat} {f : A × Nat → Checked R C} {g : A → B → C}
    {first : List A} {second : List B} (hlen : first.length = second.length)
    (h : ∀ i a b, first[i]? = some a → second[i]? = some b → f (a, start + i) = .ok (g a b)) :
    (first.zipIdx start).mapM f = .ok (List.zipWith g first second) := by
  induction first generalizing start second with
  | nil => rfl
  | cons a first ih =>
    obtain ⟨b, rest, rfl⟩ := List.exists_cons_of_length_eq_add_one hlen.symm
    have hfirst : f (a, start) = .ok (g a b) := h 0 a b rfl rfl
    have hrest : (first.zipIdx (start + 1)).mapM f = .ok (List.zipWith g first rest) := by
      refine ih (Nat.succ.inj hlen) fun i a' b' ha hb => ?_
      rw [Nat.add_assoc, Nat.add_comm 1]
      exact h (i + 1) a' b' ha hb
    rw [List.zipIdx_cons, List.mapM_cons, hfirst, hrest]
    rfl

omit [Scalar R] in
theorem fetch_flatten {texts : List (List String)} {text : String} {r : Nat}
    (hw : HasWidth q texts) (h : cellAt? texts r c = some text) :
    (fetch texts.flatten (r * q + c) : Checked R String) = .ok text := by
  have hc : c < q := by
    by_contra hle
    cases h.symm.trans (cellAt?_of_width_le hw r (Nat.le_of_not_lt hle))
  exact fetch_eq_ok ((getElem?_flatten hw hc r).trans h)

omit [Scalar R] in
/-- Every column is as wide as its widest text. -/
theorem mapM_width {t : LabelledMatrix String} (ht : t.WellFormed) :
    ((List.range t.columnCount).mapM fun column => do
      let column ← (List.range t.rowCount).mapM fun row =>
        fetch t.rows.flatten (row * t.columnCount + column)
      return width column) = (.ok (t.columns.map width) : Checked R (List Nat)) := by
  rw [← length_columns t, ← List.length_map width]
  refine mapM_range_eq_ok fun c w hw => ?_
  obtain ⟨column, hcolumn, rfl⟩ := Option.map_eq_some_iff.mp (List.getElem?_map ▸ hw)
  have hlen : column.length = t.rowCount :=
    hasWidth_columns ht.length_row column (List.mem_of_getElem? hcolumn)
  rw [← hlen, List.length_map, length_columns, mapM_range_eq_ok fun r text htext => ?_]
  · rfl
  · refine fetch_flatten ht.length_row ?_
    rw [← cellAt?_columns ht.length_row, cellAt?, hcolumn, Option.bind_some, htext]

omit [Scalar R] in
/-- A line of text. -/
theorem mapM_cellText {t : LabelledMatrix String} (ht : t.WellFormed) {r : Nat} {row : List String}
    (hrow : t.rows[r]? = some row) :
    ((t.columns.map width).zipIdx.mapM fun (width, column) => do
      let text ← fetch t.rows.flatten (r * t.columnCount + column)
      let padding ← difference width text.utf8ByteSize
      return "(" ++ text ++ ")" ++ String.ofList (List.replicate (padding + 1) ' ')) =
    (.ok (List.zipWith cellText (t.columns.map width) row) : Checked R (List String)) := by
  have hlen : (t.columns.map width).length = row.length := by
    rw [List.length_map, length_columns, ht.length_row row (List.mem_of_getElem? hrow)]
  refine mapM_zipIdx_eq_ok hlen fun c w text hw htext => ?_
  obtain ⟨column, hcolumn, rfl⟩ := Option.map_eq_some_iff.mp (List.getElem?_map ▸ hw)
  have hcell : cellAt? t.rows r c = some text := by rw [cellAt?, hrow, Option.bind_some, htext]
  have hmem : text ∈ column := by
    rw [← cellAt?_columns ht.length_row, cellAt?, hcolumn, Option.bind_some] at hcell
    exact List.mem_of_getElem? hcell
  simp only [Nat.zero_add, fetch_flatten ht.length_row hcell, ok_bind,
    difference_eq_ok (le_width hmem)]
  rfl

theorem text_flat (hm : m.WellFormed) : m.flat.text = .ok m.text := by
  obtain ⟨ht, hshape⟩ := hm.map Complex.text
  generalize htexts : m.map Complex.text = t at ht hshape
  obtain ⟨hrows, hcols⟩ := Prod.mk.inj hshape
  have hcells : m.flat.cells.map Complex.text = t.rows.flatten := by
    rw [← htexts]
    exact List.map_flatten
  have htext : m.text = "\n".intercalate t.lines := by rw [← htexts, LabelledMatrix.text]
  rw [FlatMatrix.text, columnCount_flat, rowCount_flat, ← hrows, ← hcols, hcells]
  simp only [mapM_width ht, ok_bind]
  have hlines : t.rowCount = t.lines.length := (List.length_map _).symm
  rw [hlines, mapM_range_eq_ok fun r line hline => ?_]
  · exact congrArg Except.ok htext.symm
  · obtain ⟨row, hrow, rfl⟩ := Option.map_eq_some_iff.mp (List.getElem?_map ▸ hline)
    rw [mapM_cellText ht hrow]
    rfl

theorem solution_flat (hm : m.WellFormed) (labels : List String) :
    m.flat.solution labels = lift id (readSolution m labels) := by
  unfold FlatMatrix.solution readSolution
  rw [columnCount_flat]
  split
  · rw [rows_flat hm, ok_bind, mapM_eq_ok_map (g := RowReading.ofRow labels) fun row hrow => ?_]
    · rfl
    · have hlen : 0 < row.length := (hm.length_row row hrow).symm ▸ hm.columnCount_pos
      rw [difference_eq_ok hlen, ok_bind, fetch_eq_ok (List.getElem?_eq_getElem (by omega))]
      rfl
  · rfl

end Texts

/-! ### Agreement -/

/-- There is a cell for each place and at least one place, there is a label for each column if there
are any, and only a square matrix remembers a determinant. -/
structure WellFormed (m : FlatMatrix R) : Prop where
  rowCount_pos : 0 < m.rowCount
  columnCount_pos : 0 < m.columnCount
  length_cells : m.cells.length = m.rowCount * m.columnCount
  length_labels : ∀ labels, m.labels = some labels → labels.length = m.columnCount
  square_of_remembered : m.remembered.isSome → m.rowCount = m.columnCount

/-- All ways to look at the cell in column `c` and row `r` show `x`. -/
structure Shows (m : FlatMatrix R) (c r : Nat) (x : Complex R) : Prop where
  get : m.get? c r = some x
  index : m.index c r = .ok x
  row : ∃ row, m.row? r = .ok (some row) ∧ row[c]? = some x
  rows : ∃ rows, m.rows = .ok rows ∧ cellAt? rows r c = some x
  places : ∃ places, m.places = .ok places ∧
    places[r * m.columnCount + c]? = some (c, r, x)
  columns : ∃ columns, m.columns = .ok columns ∧ cellAt? columns c r = some x

/-- The views show the same cells and no others, and only an index out of range faults. -/
structure ViewsAgree (m : FlatMatrix R) : Prop where
  shows : ∀ c < m.columnCount, ∀ r < m.rowCount, ∃ x, m.Shows c r x
  get_eq_none : ∀ c r, m.get? c r = none ↔ m.columnCount ≤ c ∨ m.rowCount ≤ r
  row_eq_none : ∀ r, m.row? r = .ok none ↔ m.rowCount ≤ r
  index_eq_error : ∀ c r, m.index c r = .error .fault ↔ m.columnCount ≤ c ∨ m.rowCount ≤ r
  length_row : ∀ r < m.rowCount, ∃ row, m.row? r = .ok (some row) ∧ row.length = m.columnCount
  length_rows : ∃ rows, m.rows = .ok rows ∧ rows.length = m.rowCount ∧
    HasWidth m.columnCount rows
  length_places : ∃ places, m.places = .ok places ∧
    places.length = m.rowCount * m.columnCount
  length_columns : ∃ columns, m.columns = .ok columns ∧ columns.length = m.columnCount ∧
    HasWidth m.rowCount columns

theorem wellFormed_flat (hm : m.WellFormed) : m.flat.WellFormed where
  rowCount_pos := hm.rowCount_pos
  columnCount_pos := hm.columnCount_pos
  length_cells := length_flatten hm.length_row
  length_labels := hm.length_labels
  square_of_remembered := hm.square_of_remembered

/-- An array of the right length is made of pieces as long as a row. -/
theorem flatten_chunks {count : Nat} {cells : List (Complex R)}
    (hlen : cells.length = count * q) : (chunks q count cells).flatten = cells ∧
      (chunks q count cells).length = count ∧ HasWidth q (chunks q count cells) := by
  induction count generalizing cells with
  | zero =>
    rw [Nat.zero_mul] at hlen
    exact ⟨(List.length_eq_zero_iff.mp hlen).symm, rfl, List.forall_mem_nil _⟩
  | succ count ih =>
    rw [Nat.succ_mul] at hlen
    have hrest : (cells.drop q).length = count * q := by
      rw [List.length_drop, hlen, Nat.add_sub_cancel]
    obtain ⟨hcells, hcount, hw⟩ := ih hrest
    refine ⟨?_, congrArg Nat.succ hcount, List.forall_mem_cons.mpr ⟨?_, hw⟩⟩
    · rw [chunks, List.flatten_cons, hcells, List.take_append_drop]
    · rw [List.length_take, hlen, Nat.min_eq_left (Nat.le_add_left ..)]

/-- **Every matrix in an array is the layout of a matrix.** -/
theorem WellFormed.exists_flat {a : FlatMatrix R} (ha : a.WellFormed) :
    ∃ m : ComplexMatrix R, m.WellFormed ∧ m.flat = a := by
  obtain ⟨hcells, hlen, hw⟩ := flatten_chunks ha.length_cells
  generalize chunks a.columnCount a.rowCount a.cells = rows at hcells hlen hw
  have hpos : 0 < rows.length := hlen.symm ▸ ha.rowCount_pos
  have hcols : (⟨rows, a.labels, a.remembered⟩ : ComplexMatrix R).columnCount = a.columnCount :=
    columnCount_eq hpos hw
  refine ⟨⟨rows, a.labels, a.remembered⟩, ⟨hpos, ?_, ?_, ?_, fun hsome => ?_⟩, ?_⟩
  · exact hcols.symm ▸ ha.columnCount_pos
  · exact hcols.symm ▸ hw
  · exact hcols.symm ▸ ha.length_labels
  · exact hlen.trans ((ha.square_of_remembered hsome).trans hcols.symm)
  · rw [flat_eq ha.rowCount_pos hlen hw, hcells]

theorem shows_flat (hm : m.WellFormed) {c r : Nat} {x : Complex R}
    (h : LabelledMatrix.Shows m c r x) : m.flat.Shows c r x where
  get := (get?_flat hm c r).trans h.get
  index := by
    rw [index_eq hm, h.index]
    rfl
  row := by
    obtain ⟨row, hrow, hx⟩ := Option.bind_eq_some_iff.mp h.row
    exact ⟨row, (row?_flat hm r).trans (congrArg Except.ok hrow), hx⟩
  rows := ⟨m.rows, rows_flat hm, h.rows⟩
  places := ⟨m.cells, places_flat hm, h.cells⟩
  columns := ⟨m.columns, columns_flat hm, h.columns⟩

/-- **The views of a layout agree.** -/
theorem viewsAgree_flat (hm : m.WellFormed) : m.flat.ViewsAgree where
  shows c hc r hr := by
    obtain ⟨x, hx⟩ := hm.viewsAgree.shows c hc r hr
    exact ⟨x, shows_flat hm hx⟩
  get_eq_none c r := by
    rw [get?_flat hm]
    exact hm.get?_eq_none c r
  row_eq_none r := by
    rw [row?_flat hm, Except.ok.injEq]
    exact List.getElem?_eq_none_iff
  index_eq_error c r := by
    rw [index_eq hm]
    refine Iff.trans ?_ (hm.index_eq_error c r)
    cases m.index c r with
    | ok x => exact iff_of_false (fun h => by cases h) (fun ⟨_, h⟩ => by cases h)
    | error e => exact iff_of_true rfl ⟨e, rfl⟩
  length_row r hr := by
    obtain ⟨row, hrow⟩ : ∃ row, m.rows[r]? = some row := ⟨_, List.getElem?_eq_getElem hr⟩
    exact ⟨row, (row?_flat hm r).trans (congrArg Except.ok hrow),
      hm.length_row row (List.mem_of_getElem? hrow)⟩
  length_rows := ⟨m.rows, rows_flat hm, rfl, hm.length_row⟩
  length_places := ⟨m.cells, places_flat hm, hm.viewsAgree.length_cells⟩
  length_columns := ⟨m.columns, columns_flat hm, length_columns m, hasWidth_columns hm.length_row⟩

end LinearEquations.FlatMatrix
