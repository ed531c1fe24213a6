import LinearEquations.Proofs.FlatLayout

/-! # Making and combining matrices in arrays

The constructors, sums and products, and everything that goes by way of minors: on layouts of
well-formed matrices the programs give the layouts of what the operations on rows give. -/

namespace LinearEquations

/-- All cells of a dense array are there. -/
def ColumnMajor.IsFull {K : Type} (a : ColumnMajor K) : Prop :=
  a.cells.length = a.columnCount * a.rowCount

namespace FlatMatrix
open LabelledMatrix Checked

variable {R : Type} [Scalar R] {m n r : ComplexMatrix R} {p q c i j : Nat}
variable {rows : List (List (Complex R))}

/-! ### Constructors -/

/-- The entries of a row are read if all of them are finite. -/
theorem readEntries_eq (row column : Nat) (entries : List (Operand R)) :
    readEntries row column entries =
      match (entries.map Operand.value).findIdx? (!·.isFinite) with
      | some i => refuse (.invalidElement row (column + i))
      | none => .ok (entries.map Operand.value) := by
  induction entries generalizing column with
  | nil => rfl
  | cons entry entries ih =>
    rw [readEntries, List.map_cons, List.findIdx?_cons]
    cases hfinite : entry.value.isFinite with
    | false =>
      have hcheck : entry.check = .error (.invalidOperand entry) :=
        if_neg (Bool.eq_false_iff.mp hfinite)
      rw [hcheck]
      rfl
    | true =>
      have hcheck : entry.check = .ok entry.value := if_pos hfinite
      rw [hcheck, ih]
      cases (entries.map Operand.value).findIdx? (!·.isFinite) with
      | none => rfl
      | some i => simp [refuse, Nat.add_comm i, Nat.add_assoc]

/-- Rows are read if nothing is wrong with them. -/
theorem readRows_eq (row : Nat) (entries : List (List (Operand R))) :
    readRows row (some q) entries =
      lift (fun _ => (some q, (entries.map (List.map Operand.value)).flatten))
        (checkRows q row (entries.map (List.map Operand.value))) := by
  induction entries generalizing row with
  | nil => rfl
  | cons first rest ih =>
    rw [readRows, readEntries_eq, List.map_cons, checkRows]
    cases (first.map Operand.value).findIdx? (!·.isFinite) with
    | some column =>
      simp only [Nat.zero_add]
      rfl
    | none =>
      simp only [ok_bind, Option.getD_some, ih]
      by_cases hlen : (first.map Operand.value).length = q
      · rw [if_pos hlen, if_neg (not_not.mpr hlen.symm)]
        cases checkRows q (row + 1) (rest.map (List.map Operand.value)) <;> rfl
      · rw [if_neg hlen, if_pos (Ne.symm hlen)]
        rfl

/-- The first row says how many columns there are. -/
theorem readRows_none (row : Nat) (first : List (Operand R)) (rest : List (List (Operand R))) :
    readRows row none (first :: rest) = readRows row (some first.length) (first :: rest) := by
  rw [readRows, readRows, readEntries_eq]
  cases (first.map Operand.value).findIdx? (!·.isFinite) with
  | some column => rfl
  | none => simp

theorem ofOperands_flat (entries : List (List (Operand R))) :
    FlatMatrix.ofOperands entries = lift flat (LabelledMatrix.ofOperands entries) := by
  unfold FlatMatrix.ofOperands LabelledMatrix.ofOperands
  cases entries with
  | nil => rfl
  | cons first rest =>
    rw [readRows_none, readRows_eq]
    generalize hrows : (first :: rest).map (List.map Operand.value) = rows
    have hhead : (rows.headD []).length = first.length := by simp [← hrows]
    have hlen : rows.length = (first :: rest).length := by simp [← hrows]
    rw [ofRows, hhead]
    cases hcheck : checkRows first.length 0 rows with
    | error e => rfl
    | ok u =>
      simp only [lift_ok, ok_bind]
      cases hfirst : first.length with
      | zero =>
        rw [if_pos (List.isEmpty_iff.mpr (List.length_eq_zero_iff.mp (hhead.trans hfirst)))]
        rfl
      | succ k =>
        have hw : HasWidth (k + 1) rows := fun row hrow =>
          ((checkRows_eq_ok.mp hcheck row hrow).2).trans hfirst
        have hne : ¬ (rows.headD []).isEmpty := by
          intro hempty
          rw [List.isEmpty_iff.mp hempty, hfirst] at hhead
          cases hhead
        rw [if_neg hne]
        exact (ofCells_flatten hlen hw).trans
          (congrArg Except.ok (flat_eq (Nat.succ_pos _) hlen hw none none).symm)

theorem identity_flat (k : Nat) :
    (FlatMatrix.identity k : Checked R (FlatMatrix R)) =
      lift flat (LabelledMatrix.identity k) := by
  unfold FlatMatrix.identity LabelledMatrix.identity
  split
  · rfl
  · rename_i hk
    rw [init_table_eq_ok fun _ _ _ _ => rfl]
    exact congrArg Except.ok (flat_eq (Nat.pos_of_ne_zero hk) (length_table ..)
      (hasWidth_table _ _ _) none (some 1)).symm

theorem zeros_flat (hp : 0 < p) :
    (zeros q p : Checked R (FlatMatrix R)) =
      .ok (⟨table q p fun _ _ => 0, none, none⟩ : ComplexMatrix R).flat := by
  rw [zeros, init_table_eq_ok fun _ _ _ _ => rfl]
  exact congrArg Except.ok (flat_eq hp (length_table ..) (hasWidth_table _ _ _) none none).symm

/-! ### Dense arrays -/

/-- A row that is read by column. -/
theorem mapM_row {row column : Nat} {f : Nat → Checked R (Complex R)} {cells : List (Complex R)}
    (h : ∀ c x, cells[c]? = some x →
      f c = if x.isFinite then .ok x else refuse (.invalidElement row (column + c))) :
    (List.range cells.length).mapM f = readEntries row column (cells.map .complex) := by
  induction cells generalizing f column with
  | nil => rfl
  | cons x cells ih =>
    have hrest : (List.range cells.length).mapM (f ∘ Nat.succ) =
        readEntries row (column + 1) (cells.map .complex) := by
      refine ih fun c y hy => ?_
      rw [Nat.add_assoc, Nat.add_comm 1]
      exact h (c + 1) y hy
    rw [List.length_cons, List.range_succ_eq_map, List.mapM_cons, List.mapM_map, hrest, h 0 x rfl,
      List.map_cons, readEntries, Operand.check, Operand.value]
    by_cases hfinite : x.isFinite
    · rw [if_pos hfinite, if_pos hfinite]
      rfl
    · rw [if_neg hfinite, if_neg hfinite]
      rfl

/-- Rows that are read by column and row. -/
theorem mapM_rows {row : Nat} {f : Nat → Nat → Checked R (Complex R)} (hw : HasWidth q rows)
    (h : ∀ r c x, cellAt? rows r c = some x →
      f c r = if x.isFinite then .ok x else refuse (.invalidElement (row + r) c)) :
    (List.range rows.length).mapM (fun r => (List.range q).mapM fun c => f c r) =
      lift (fun _ => rows) (checkRows q row rows) := by
  induction rows generalizing f row with
  | nil => rfl
  | cons cells rest ih =>
    obtain ⟨hcells, hrest⟩ := List.forall_mem_cons.mp hw
    have hfirst : (List.range q).mapM (fun c => f c 0) =
        readEntries row 0 (cells.map .complex) := by
      rw [← hcells]
      refine mapM_row fun c x hx => ?_
      rw [Nat.zero_add]
      exact h 0 c x hx
    have hothers : (List.range rest.length).mapM
        ((fun r => (List.range q).mapM fun c => f c r) ∘ Nat.succ) =
        lift (fun _ => rest) (checkRows q (row + 1) rest) := by
      refine ih (f := fun c r => f c (r + 1)) hrest fun r c x hx => ?_
      rw [Nat.add_assoc, Nat.add_comm 1]
      exact h (r + 1) c x hx
    have hvalues : (cells.map Operand.complex).map Operand.value = cells :=
      List.map_map.trans (List.map_id _)
    rw [List.length_cons, List.range_succ_eq_map, List.mapM_cons, List.mapM_map, hfirst, hothers,
      readEntries_eq, hvalues, checkRows]
    cases cells.findIdx? (!·.isFinite) with
    | some column =>
      simp only [Nat.zero_add]
      rfl
    | none =>
      simp only [ok_bind, if_pos hcells]
      cases checkRows q (row + 1) rest <;> rfl

/-- **Cells that are checked one after another** make the matrix with these rows. -/
theorem init_checked {cell : Nat → Nat → Checked R (Complex R)} (hp : 0 < p) (hq : 0 < q)
    (hlen : rows.length = p) (hw : HasWidth q rows)
    (h : ∀ r c x, cellAt? rows r c = some x →
      cell c r = if x.isFinite then .ok x else refuse (.invalidElement r c)) :
    init q p cell = lift flat (ofRows rows) := by
  subst hlen
  have hread : (List.range rows.length).mapM (fun r => (List.range q).mapM fun c => cell c r) =
      lift (fun _ => rows) (checkRows q 0 rows) :=
    mapM_rows hw fun r c x hx => by rw [h r c x hx, Nat.zero_add]
  obtain ⟨row, rest, hcons⟩ := List.exists_cons_of_length_pos hp
  have hhead : (rows.headD []).length = q := hw _ (hcons ▸ List.mem_cons_self ..)
  have hne : ¬(rows.headD []).isEmpty := by
    intro hempty
    rw [List.isEmpty_iff.mp hempty] at hhead
    exact hq.ne hhead
  rw [ofRows, hhead, init, hread, if_neg hne]
  cases checkRows q 0 rows with
  | error e => rfl
  | ok u =>
    exact (ofCells_flatten rfl hw).trans (congrArg Except.ok (flat_eq hp rfl hw none none).symm)

omit [Scalar R] in
/-- A full array has a cell at every place. -/
theorem exists_get? {a : ColumnMajor (Complex R)} (ha : a.IsFull) (hi : i < a.rowCount)
    (hj : j < a.columnCount) : ∃ x, a.get? i j = some x := by
  have hlt : j * a.rowCount + i < a.cells.length := ha.symm ▸ place_lt hj hi
  refine ⟨a.cells[j * a.rowCount + i], ?_⟩
  rw [ColumnMajor.get?, if_pos (by simp [hi, hj]), List.getElem?_eq_getElem hlt]

theorem rows_eq_table {a : ColumnMajor (Complex R)} (ha : a.IsFull) :
    a.rows = table a.columnCount a.rowCount fun c r => (a.get? r c).getD 0 := by
  refine List.map_congr_left fun r hr => ?_
  rw [← List.filterMap_eq_map]
  refine List.filterMap_congr fun c hc => ?_
  obtain ⟨x, hx⟩ := exists_get? ha (List.mem_range.mp hr) (List.mem_range.mp hc)
  simp only [Function.comp_apply, hx, Option.getD_some]

theorem get?_of_cellAt?_rows {a : ColumnMajor (Complex R)} {x : Complex R} (ha : a.IsFull)
    (hx : cellAt? a.rows i j = some x) : a.get? i j = some x := by
  have hlen : a.rows.length = a.rowCount := by simp [rows_eq_table ha]
  have hi : i < a.rowCount := by
    by_contra hle
    cases (cellAt?_of_length_le (hlen.le.trans (Nat.le_of_not_lt hle)) j).symm.trans hx
  have hj : j < a.columnCount := by
    by_contra hle
    have hw : HasWidth a.columnCount a.rows := rows_eq_table ha ▸ hasWidth_table _ _ _
    cases (cellAt?_of_width_le hw i (Nat.le_of_not_lt hle)).symm.trans hx
  obtain ⟨y, hy⟩ := exists_get? ha hi hj
  rw [rows_eq_table ha, cellAt?_table hi hj, hy] at hx
  exact hy.trans hx

theorem ofColumnMajor_flat {a : ColumnMajor (Complex R)} (ha : a.IsFull) :
    FlatMatrix.ofColumnMajor a = lift flat (LabelledMatrix.ofColumnMajor a) := by
  have hlen : a.rows.length = a.rowCount := by simp [rows_eq_table ha]
  have hw : HasWidth a.columnCount a.rows := rows_eq_table ha ▸ hasWidth_table _ _ _
  unfold FlatMatrix.ofColumnMajor LabelledMatrix.ofColumnMajor
  by_cases hrows : a.rowCount = 0
  · have hnil : a.rows = [] := List.length_eq_zero_iff.mp (hlen.trans hrows)
    rw [if_pos (by simp [hrows]), hnil]
    rfl
  by_cases hcols : a.columnCount = 0
  · have hempty : ∀ row ∈ a.rows, row = [] := fun row hrow =>
      List.length_eq_zero_iff.mp ((hw row hrow).trans hcols)
    have hcheck : checkRows 0 0 a.rows = .ok () := checkRows_eq_ok.mpr fun row hrow => by
      rw [hempty row hrow]
      exact ⟨List.forall_mem_nil _, rfl⟩
    obtain ⟨row, rest, hcons⟩ :=
      List.exists_cons_of_length_pos (hlen ▸ Nat.pos_of_ne_zero hrows)
    have hhead : a.rows.headD [] = [] := hempty _ (hcons ▸ List.mem_cons_self ..)
    rw [if_pos (by simp [hcols]), ofRows, hhead, List.length_nil, hcheck]
    rfl
  · rw [if_neg (by simp [hrows, hcols])]
    refine init_checked (Nat.pos_of_ne_zero hrows) (Nat.pos_of_ne_zero hcols) hlen hw
      fun r c x hx => ?_
    rw [denseCell, get?_of_cellAt?_rows ha hx]

/-! ### Sums and products -/

omit [Scalar R] in
/-- Rows of the same width are combined as they are laid out. -/
theorem zipWith_flatten {A : Type} (f : Complex R → Complex R → A)
    {other : List (List (Complex R))} (hw : HasWidth q rows) (hw' : HasWidth q other) :
    List.zipWith f rows.flatten other.flatten =
      (List.zipWith (List.zipWith f) rows other).flatten := by
  induction rows generalizing other with
  | nil => simp
  | cons row rows ih =>
    cases other with
    | nil => simp
    | cons row' other =>
      obtain ⟨hrow, hrows⟩ := List.forall_mem_cons.mp hw
      obtain ⟨hrow', hother⟩ := List.forall_mem_cons.mp hw'
      rw [List.flatten_cons, List.flatten_cons, List.zipWith_append (hrow.trans hrow'.symm),
        ih hrows hother]
      rfl

omit [Scalar R] in
theorem cellwise_flat (operation : Combination) (f : Complex R → Complex R → Complex R)
    (hm : m.WellFormed) (hn : n.WellFormed) :
    FlatMatrix.cellwise operation f m.flat n.flat =
      lift flat (LabelledMatrix.cellwise operation f m n) := by
  unfold FlatMatrix.cellwise LabelledMatrix.cellwise
  rw [shape_flat, shape_flat]
  split
  · rename_i hshape
    have hcellwise : LabelledMatrix.cellwise operation f m n = .ok (m.zipWith f n) := if_pos hshape
    obtain ⟨hwf, hshape'⟩ := hm.cellwise hn hcellwise
    obtain ⟨hrows, hcols⟩ := Prod.mk.inj hshape'
    have hlen : (m.zipWith f n).rows.length = m.rowCount := hrows
    have hw : HasWidth m.columnCount (m.zipWith f n).rows := hcols ▸ hwf.length_row
    have hw' : HasWidth m.columnCount n.rows := by
      rw [(Prod.mk.inj hshape).2]
      exact hn.length_row
    have hcells : List.zipWith f m.flat.cells n.flat.cells = (m.zipWith f n).rows.flatten :=
      zipWith_flatten f hm.length_row hw'
    rw [hcells, columnCount_flat, rowCount_flat, ofCells_flatten hlen hw]
    exact congrArg Except.ok (flat_eq hm.rowCount_pos hlen hw none none).symm
  · rfl

omit [Scalar R] in
theorem agree_flat (near : Complex R → Complex R → Bool) (hm : m.WellFormed) (hn : n.WellFormed) :
    m.flat.agree near n.flat = LabelledMatrix.agree near m n := by
  unfold FlatMatrix.agree LabelledMatrix.agree
  rw [shape_flat, shape_flat]
  by_cases hshape : m.shape = n.shape
  · have hw' : HasWidth m.columnCount n.rows := by
      rw [(Prod.mk.inj hshape).2]
      exact hn.length_row
    have hcells : List.zipWith near m.flat.cells n.flat.cells = (m.zipWith near n).rows.flatten :=
      zipWith_flatten near hm.length_row hw'
    rw [hcells, List.all_flatten]
  · rw [decide_eq_false hshape, Bool.false_and, Bool.false_and]

theorem checkOperand_eq (k : Operand R) :
    FlatMatrix.checkOperand k = lift id (LabelledMatrix.checkOperand k) := by
  unfold FlatMatrix.checkOperand
  cases LabelledMatrix.checkOperand k <;> rfl

theorem scale_flat (hm : m.WellFormed) (k : Operand R) : m.flat.scale k = lift flat (m.scale k) :=
  lift_bind (checkOperand_eq k) fun _ _ => map_flat hm _

theorem conjugate_flat (hm : m.WellFormed) : m.flat.conjugate = .ok m.conjugate.flat :=
  map_flat hm _

theorem adjoint_flat (hm : m.WellFormed) : m.flat.adjoint = .ok m.adjoint.flat := by
  rw [FlatMatrix.adjoint, conjugate_flat hm]
  exact transpose_flat (hm.map _).1

omit [Scalar R] in
theorem getElem?_columns {column : List (Complex R)} (h : n.columns[c]? = some column) :
    c < n.columnCount ∧ columnOf n.rows c = column := by
  obtain ⟨k, hk, rfl⟩ := List.getElem?_map ▸ h |> Option.map_eq_some_iff.mp
  obtain ⟨hc, rfl⟩ := List.getElem?_eq_some_iff.mp hk
  rw [List.getElem_range]
  exact ⟨by simpa using hc, rfl⟩

/-- A cell of a product. -/
theorem exists_of_cellAt?_times {x : Complex R}
    (hx : cellAt? (m.rows.map fun row => n.columns.map (dot row)) i c = some x) :
    ∃ row, m.rows[i]? = some row ∧ c < n.columnCount ∧ dot row (columnOf n.rows c) = x := by
  simp only [cellAt?, List.getElem?_map, Option.bind_map, Option.bind_eq_some_iff,
    Function.comp_apply, Option.map_eq_some_iff] at hx
  obtain ⟨row, hrow, column, hcolumn, rfl⟩ := hx
  obtain ⟨hc, rfl⟩ := getElem?_columns hcolumn
  exact ⟨row, hrow, hc, rfl⟩

theorem times_flat (hm : m.WellFormed) (hn : n.WellFormed) :
    m.flat.times n.flat = lift flat (m.times n) := by
  unfold FlatMatrix.times LabelledMatrix.times
  rw [columnCount_flat, rowCount_flat, rowCount_flat]
  split
  · rename_i hinner
    have hlen : (m.rows.map fun row => n.columns.map (dot row)).length = m.rowCount :=
      List.length_map _
    have hw : HasWidth n.columnCount (m.rows.map fun row => n.columns.map (dot row)) :=
      List.forall_mem_map.mpr fun row _ => (List.length_map _).trans (length_columns n)
    rw [columnCount_flat, init_eq_ok hlen hw fun r c x hx => ?_]
    · exact congrArg Except.ok (flat_eq hm.rowCount_pos hlen hw none _).symm
    · obtain ⟨row, hrow, hc, rfl⟩ := exists_of_cellAt?_times hx
      have hrowlen := hm.length_row row (List.mem_of_getElem? hrow)
      have hcollen := length_columnOf hn.length_row hc
      have hcount : (List.zipWith (· * ·) row (columnOf n.rows c)).length = m.columnCount := by
        rw [List.length_zipWith, hrowlen, hcollen, hinner]
        exact Nat.min_self _
      rw [← hcount]
      refine foldlM_range_eq_ok (fun s i y hy => ?_) 0
      obtain ⟨a, b, ha, hb, rfl⟩ := List.getElem?_zipWith_eq_some.mp hy
      have ha' : m.flat.index i r = .ok a := index_flat hm (by rwa [cellAt?, hrow])
      have hb' : n.flat.index c i = .ok b :=
        index_flat hn (by rwa [getElem?_columnOf hn.length_row hc] at hb)
      rw [ha', hb']
      rfl
  · rfl

/-! ### Determinants and inverses -/

omit [Scalar R] in
/-- What is left without a row and a column is a matrix, if there are others. -/
theorem wellFormed_without (hm : m.WellFormed) (hi : i < m.rowCount) (hj : j < m.columnCount)
    (hrows : m.rowCount ≠ 1) (hcols : m.columnCount ≠ 1) :
    (⟨LabelledMatrix.without i j m.rows, none, none⟩ : ComplexMatrix R).WellFormed ∧
      (⟨LabelledMatrix.without i j m.rows, none, none⟩ : ComplexMatrix R).shape =
        (m.rowCount - 1, m.columnCount - 1) := by
  refine hm.minor (i := i) (j := j) ?_
  rw [LabelledMatrix.minor, if_neg (by simp; omega), if_neg (by simp [hrows, hcols])]

omit [Scalar R] in
/-- A single cell. -/
theorem cells_flat_of_one (hm : m.WellFormed) (hrows : m.rowCount = 1) (hcols : m.columnCount = 1) :
    ∃ x, m.rows = [[x]] := by
  obtain ⟨row, hrow⟩ := List.length_eq_one_iff.mp hrows
  have hlen : row.length = 1 := (hm.length_row row (by simp [hrow])).trans hcols
  obtain ⟨x, rfl⟩ := List.length_eq_one_iff.mp hlen
  exact ⟨x, hrow⟩

/-- A minor of a square matrix is square, and its determinant is an expansion one step down. -/
theorem exists_minor_of_square (hm : m.WellFormed) (hsquare : m.rowCount = m.columnCount)
    (hi : i < m.rowCount) (hj : j < m.columnCount) (hone : m.rowCount ≠ 1) :
    ∃ n : ComplexMatrix R, m.flat.without i j = .ok n.flat ∧ n.WellFormed ∧
      n.rowCount = n.columnCount ∧ n.rowCount = m.rowCount - 1 ∧
      n.squareDeterminant = expand (m.rowCount - 2) (LabelledMatrix.without i j m.rows) := by
  obtain ⟨hwf, hshape⟩ := wellFormed_without hm hi hj hone (hsquare ▸ hone)
  obtain ⟨hrows, hcols⟩ := Prod.mk.inj hshape
  refine ⟨_, without_flat hm hi hj hone (hsquare ▸ hone), hwf,
    hrows.trans ((congrArg (· - 1) hsquare).trans hcols.symm), hrows, ?_⟩
  rw [LabelledMatrix.squareDeterminant, hrows]
  rfl

omit [Scalar R] in
/-- A cell of the first row. -/
theorem index_top {x : Complex R} (hm : m.WellFormed) (hx : (m.rows.headD [])[c]? = some x) :
    m.flat.index c 0 = .ok x := by
  obtain ⟨row, rest, hrows⟩ := List.exists_cons_of_length_pos hm.rowCount_pos
  rw [hrows] at hx
  refine index_flat hm ?_
  rw [cellAt?, hrows]
  exact hx

/-- **Expansion ends before the depth is used up**, and gives the determinant. -/
theorem squareDeterminant_flat {depth : Nat} (hm : m.WellFormed)
    (hsquare : m.rowCount = m.columnCount) (hdepth : m.rowCount ≤ depth) :
    FlatMatrix.squareDeterminant depth m.flat = .ok m.squareDeterminant := by
  induction depth generalizing m with
  | zero => exact absurd hm.rowCount_pos (by omega)
  | succ depth ih =>
    have hflat : m.flat.isSquare := decide_eq_true hsquare
    rw [FlatMatrix.squareDeterminant, LabelledMatrix.squareDeterminant, ensure_eq_ok hflat,
      ok_bind, remembered_flat]
    cases m.remembered with
    | some d => rfl
    | none =>
      rw [rowCount_flat, columnCount_flat, Option.getD_none]
      by_cases hone : m.rowCount = 1
      · obtain ⟨x, hx⟩ := cells_flat_of_one hm hone (hsquare.symm.trans hone)
        rw [if_pos hone, hone, hx]
        exact fetch_eq_ok (congrArg (fun rows => rows.flatten[0]?) hx)
      · have hpos := hm.rowCount_pos
        obtain ⟨k, hk⟩ : ∃ k, m.rowCount - 1 = k + 1 := ⟨m.rowCount - 2, by omega⟩
        have hk' : m.rowCount - 2 = k := by omega
        rw [if_neg hone, hk, expand]
        have hcount : (m.rows.headD []).zipIdx.length = m.columnCount := List.length_zipIdx
        rw [← hcount]
        refine foldlM_range_eq_ok (fun s column y hy => ?_) 0
        obtain ⟨x, hx, rfl⟩ := Option.map_eq_some_iff.mp (List.getElem?_zipIdx ▸ hy)
        have hcolumn : column < m.columnCount := (List.getElem?_eq_some_iff.mp hx).1
        obtain ⟨minor, hminor, hwf, hsquare', hcount', hdeterminant⟩ :=
          exists_minor_of_square hm hsquare hm.rowCount_pos hcolumn hone
        have hindex : m.flat.index column 0 = .ok x := index_top hm hx
        rw [hminor, ok_bind, hindex, ok_bind, ih hwf hsquare' (by omega), hdeterminant, hk',
          Nat.zero_add]
        rfl

theorem determinant_flat (hm : m.WellFormed) :
    m.flat.determinant = .ok (m.determinant, m.remember.flat) := by
  unfold FlatMatrix.determinant LabelledMatrix.determinant remember
  rw [isSquare_flat, rowCount_flat]
  split
  · rename_i hsquare
    rw [squareDeterminant_flat hm (of_decide_eq_true hsquare) le_rfl]
    rfl
  · rfl

theorem minors_flat (hm : m.WellFormed) : m.flat.minors = lift flat m.minors := by
  unfold FlatMatrix.minors LabelledMatrix.minors
  rw [isSquare_flat, rowCount_flat, columnCount_flat]
  split
  · rename_i hsquare
    have hsquare : m.rowCount = m.columnCount := of_decide_eq_true hsquare
    have hlaid := flat_eq (p := m.rowCount) (q := m.columnCount) hm.rowCount_pos (length_table ..)
      (hasWidth_table _ _ fun c r => if m.rowCount = 1 then (1 : Complex R)
        else expand (m.rowCount - 2) (LabelledMatrix.without r c m.rows)) none none
    rw [lift_ok, hlaid]
    by_cases hone : m.rowCount = 1
    · rw [if_pos hone, ← hsquare, hone]
      exact init_table_eq_ok fun _ _ _ _ => rfl
    · rw [if_neg hone]
      refine init_table_eq_ok fun i hi j hj => ?_
      obtain ⟨minor, hminor, hwf, hsquare', hcount, hdeterminant⟩ :=
        exists_minor_of_square hm hsquare hi hj hone
      rw [hminor, ok_bind, squareDeterminant_flat hwf hsquare' (by omega), hdeterminant,
        if_neg hone]
  · rfl

theorem cofactor_flat (hm : m.WellFormed) : m.flat.cofactor = lift flat m.cofactor := by
  refine lift_bind (minors_flat hm) fun minors hminors => ?_
  obtain ⟨hwf, hshape⟩ := hm.minors hminors
  obtain ⟨hrows, hcols⟩ := Prod.mk.inj hshape
  have hlen : (minors.rows.mapIdx fun r row => row.mapIdx fun c x =>
      if (c + r) % 2 = 0 then x else -x).length = m.rowCount := List.length_mapIdx.trans hrows
  have hw : HasWidth m.columnCount (minors.rows.mapIdx fun r row => row.mapIdx fun c x =>
      if (c + r) % 2 = 0 then x else -x) := by
    intro row hrow
    obtain ⟨i, hi, rfl⟩ := List.mem_mapIdx.mp hrow
    exact List.length_mapIdx.trans ((hwf.length_row _ (List.getElem_mem hi)).trans hcols)
  rw [rowCount_flat, columnCount_flat, init_eq_ok hlen hw fun r c x hx => ?_]
  · exact congrArg Except.ok (flat_eq hm.rowCount_pos hlen hw none none).symm
  · rw [cellAt?_mapIdx fun r c (x : Complex R) => if (c + r) % 2 = 0 then x else -x] at hx
    obtain ⟨y, hy, rfl⟩ := Option.map_eq_some_iff.mp hx
    rw [index_flat hwf hy]
    rfl

theorem adjugate_flat (hm : m.WellFormed) : m.flat.adjugate = lift flat m.adjugate :=
  lift_bind (cofactor_flat hm) fun _ hcofactor => transpose_flat (hm.cofactor hcofactor).1

theorem adjugate_remember (m : ComplexMatrix R) : m.remember.adjugate = m.adjugate := by
  unfold remember
  split <;> rfl

/-- A remembered determinant does not change the inverse. -/
theorem inverse_remember (m : ComplexMatrix R) : m.remember.inverse = m.inverse := by
  have hdeterminant : m.remember.determinant = m.determinant := by
    by_cases hsquare : m.isSquare
    · have hremember : m.remember = { m with remembered := some m.squareDeterminant } :=
        if_pos hsquare
      rw [hremember]
      exact (if_pos hsquare).trans (if_pos hsquare).symm
    · have hremember : m.remember = m := if_neg hsquare
      rw [hremember]
  unfold LabelledMatrix.inverse
  rw [hdeterminant, adjugate_remember]

theorem inverse_flat (hm : m.WellFormed) :
    m.flat.inverse = lift (Option.map flat) m.inverse := by
  unfold FlatMatrix.inverse LabelledMatrix.inverse
  rw [determinant_flat hm, ok_bind]
  cases m.determinant with
  | none => rfl
  | some d =>
    by_cases hzero : d.isZero
    · simp only [if_pos hzero]
      rfl
    · simp only [if_neg hzero]
      refine lift_bind (f := id) ?_ fun factor _ => ?_
      · cases d.reciprocal <;> rfl
      · have hadjugate := adjugate_flat hm.remember
        rw [adjugate_remember] at hadjugate
        refine lift_bind hadjugate fun a ha => ?_
        refine lift_bind (scale_flat (hm.adjugate ha).1 _) fun _ _ => rfl

end FlatMatrix
end LinearEquations
