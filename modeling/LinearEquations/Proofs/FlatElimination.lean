import LinearEquations.Proofs.FlatRowOperation

/-! # Elimination in arrays

The programs clear a column by one row operation after another, each of which makes a new matrix;
`clearedRow` treats the rows one by one.  A run of the loop has cleared the rows above and not yet
the rows below (`clear_flat`), and the row that is added stays as it is.

The echelon form goes down to matrices with fewer columns.  Labels and remembered determinants do
not matter on the way, except that a single row or column of zeros is returned as it is. -/

namespace LinearEquations
open LabelledMatrix

/-! ### Programs that search -/

section Programs
variable {R A B C E F : Type}

theorem mapError_bind (x : Except E A) (f : A → Except E B) (g : E → F) :
    (x >>= f).mapError g = x.mapError g >>= fun a => (f a).mapError g := by
  cases x <;> rfl

theorem mapError_bind_pure (x : Except E A) (f : A → B) (g : E → F) :
    (x >>= fun a => pure (f a)).mapError g = x.mapError g >>= fun a => pure (f a) := by
  cases x <;> rfl

theorem lift_bind_pure (f : B → C) (g : A → B) (x : Except (MatrixError R) A) :
    Checked.lift f (x >>= fun a => pure (g a)) = Checked.lift (fun a => f (g a)) x := by
  cases x <;> rfl

theorem findM?_range'_eq_ok {f : Nat → Except E Bool} {p : A → Bool} {l : List A} {start : Nat}
    (h : ∀ i x, l[i]? = some x → f (start + i) = .ok (p x)) :
    (List.range' start l.length).findM? f = .ok ((l.findIdx? p).map (· + start)) := by
  induction l generalizing start with
  | nil => rfl
  | cons x l ih =>
    have hfirst : f start = .ok (p x) := h 0 x rfl
    have hrest : (List.range' (start + 1) l.length).findM? f =
        .ok ((l.findIdx? p).map (· + (start + 1))) := ih fun i y hy => by
      rw [Nat.add_assoc, Nat.add_comm 1]
      exact h (i + 1) y hy
    rw [List.length_cons, List.range'_succ, List.findM?, hfirst, ok_bind, hrest,
      List.findIdx?_cons]
    cases p x with
    | true => simp [pure, Except.pure]
    | false => simp [Nat.add_comm 1]

/-- A search by number. -/
theorem findM?_range_eq_ok {f : Nat → Except E Bool} {p : A → Bool} {l : List A}
    (h : ∀ i x, l[i]? = some x → f i = .ok (p x)) :
    (List.range l.length).findM? f = .ok (l.findIdx? p) := by
  rw [List.range_eq_range', findM?_range'_eq_ok fun i x hx => by rw [Nat.zero_add, h i x hx]]
  simp

end Programs

variable {R : Type} {m : ComplexMatrix R} {q c d s p : Nat} {k : Operand R}
variable {before todo after rows : Rows R} {row other top : List (Complex R)}
variable {labels : Option (List String)}

theorem LabelledMatrix.addMultiple_of_ne [Scalar R] (hrow : m.rows[d]? = some row)
    (hother : m.rows[s]? = some other) (hds : d ≠ s) :
    m.addMultiple d s k = k.check.mapError .arithmetic >>= fun a =>
      pure (m.withRows (m.rows.set d (addedRow row (scaledRow a other)))) := by
  have hs : m.checkRow (R := R) s = .ok other := checkRow_eq_ok.mpr hother
  obtain ⟨hlt, rfl⟩ := List.getElem?_eq_some_iff.mp hother
  cases hk : k.check with
  | error e =>
    have hscaled : m.scaleRow s k = .error (.arithmetic e) := by
      rw [scaleRow, hs, ok_bind, checkOperand, hk]
      rfl
    rw [addMultiple, hs, ok_bind, hscaled]
    rfl
  | ok a =>
    have hscaled : m.scaleRow s k =
        .ok (m.withRows (m.rows.set s (scaledRow a m.rows[s]))) := by
      rw [scaleRow, hs, ok_bind, checkOperand, hk]
      rfl
    have hrow : (m.withRows (m.rows.set s (scaledRow a m.rows[s]))).checkRow (R := R) d =
        .ok row := checkRow_eq_ok.mpr ((List.getElem?_set_ne (Ne.symm hds)).trans hrow)
    have hother : (m.withRows (m.rows.set s (scaledRow a m.rows[s]))).checkRow (R := R) s =
        .ok (scaledRow a m.rows[s]) := checkRow_eq_ok.mpr (List.getElem?_set_self hlt)
    have hset : ((m.rows.set s (scaledRow a m.rows[s])).set d
        (addedRow row (scaledRow a m.rows[s]))).set s m.rows[s] =
        m.rows.set d (addedRow row (scaledRow a m.rows[s])) := by
      rw [List.set_comm _ _ hds, List.set_set, List.set_getElem_self]
    rw [addMultiple, hs, ok_bind, hscaled, ok_bind, addRow, hrow, ok_bind, hother]
    exact congrArg (fun rows => Except.ok (m.withRows rows)) hset

namespace FlatMatrix
open Checked

/-- Rows of the same width under labels. -/
theorem wellFormed_mk (hp : 0 < rows.length) (hq : 0 < q) (hw : HasWidth q rows)
    (hlabels : ∀ names, labels = some names → names.length = q) :
    (⟨rows, labels, none⟩ : ComplexMatrix R).WellFormed := by
  have hcols : (⟨rows, labels, none⟩ : ComplexMatrix R).columnCount = q := columnCount_eq hp hw
  exact ⟨hp, hcols.symm ▸ hq, hcols.symm ▸ hw, hcols.symm ▸ hlabels, fun h => by cases h⟩

theorem wellFormed_plain (hp : 0 < rows.length) (hq : 0 < q) (hw : HasWidth q rows) :
    (⟨rows, none, none⟩ : ComplexMatrix R).WellFormed :=
  wellFormed_mk hp hq hw fun _ h => by cases h

/-- The row with the pivot is exchanged with the first one, unless it is the first one. -/
theorem pivotOnTop_flat {i : Nat} {first : List (Complex R)} (hm : m.WellFormed)
    (hi : i < m.rowCount) (hfirst : pivotFirst i m.rows = first :: after) :
    ∃ swapped : ComplexMatrix R, swapped.WellFormed ∧ swapped.rows = first :: after ∧
      swapped.shape = m.shape ∧ m.flat.pivotOnTop i = .ok swapped.flat := by
  obtain ⟨row, hrow⟩ : ∃ row, m.rows[i]? = some row := ⟨_, List.getElem?_eq_getElem hi⟩
  obtain ⟨top, rest, hrows⟩ := List.exists_cons_of_length_pos hm.rowCount_pos
  by_cases hzero : i = 0
  · subst hzero
    refine ⟨m, hm, ?_, rfl, if_pos rfl⟩
    rw [← hfirst, hrows]
    rfl
  · have hswap : m.swapRows i 0 = (.ok (m.withRows (pivotFirst i m.rows)) :
        Except (MatrixError R) (ComplexMatrix R)) := by
      have htop : m.rows[0]? = some top := by rw [hrows]; rfl
      rw [LabelledMatrix.swapRows, checkRow_eq_ok.mpr hrow, ok_bind, checkRow_eq_ok.mpr htop,
        ok_bind, pivotFirst, hrows, List.headD_cons, ← hrows, List.getD_eq_getElem?_getD, hrow]
      rfl
    obtain ⟨hwf, hshape⟩ := hm.swapRows hswap
    refine ⟨_, hwf, hfirst, hshape, ?_⟩
    rw [pivotOnTop, if_neg hzero, swapRows_flat hm, hswap, lift_ok]

variable [Scalar R]

/-! ### Clearing a column -/

/-- One round clears one row. -/
theorem clearRow_flat (hm : (⟨before ++ row :: after, labels, none⟩ : ComplexMatrix R).WellFormed)
    (hc : c < row.length) (hpivot : (before ++ row :: after)[p]? = some top)
    (hne : before.length ≠ p) :
    clearRow c p (⟨before ++ row :: after, labels, none⟩ : ComplexMatrix R).flat before.length =
      lift (fun row' => (⟨before ++ row' :: after, labels, none⟩ : ComplexMatrix R).flat)
        ((clearedRow c top row).mapError .arithmetic) := by
  have hrow : (before ++ row :: after)[before.length]? = some row := by simp
  have hcell : cellAt? (before ++ row :: after) before.length c = some (row.getD c 0) := by
    rw [cellAt?, hrow, Option.bind_some, List.getD_eq_getElem _ _ hc, List.getElem?_eq_getElem hc]
  rw [clearRow, index_flat hm hcell, ok_bind, clearedRow]
  split
  · rfl
  · rw [addMultiple_flat hm, addMultiple_of_ne hrow hpivot hne]
    cases (Operand.complex (-row.getD c 0)).check with
    | error e => rfl
    | ok a =>
      have hset : (before ++ row :: after).set before.length
          (addedRow row (scaledRow a top)) = before ++ addedRow row (scaledRow a top) :: after := by
        simp
      exact congrArg (fun rows : Rows R => Except.ok
        (⟨rows, labels, none⟩ : ComplexMatrix R).flat) hset

/-- **A column is cleared row by row.** -/
theorem clear_flat (before todo after : Rows R) (hq : 0 < q) (hc : c < q)
    (hw : HasWidth q (before ++ todo ++ after))
    (hlabels : ∀ names, labels = some names → names.length = q)
    (hpivot : ∀ cleared : Rows R, cleared.length = todo.length →
      (before ++ cleared ++ after)[p]? = some top)
    (hne : p < before.length ∨ before.length + todo.length ≤ p) :
    clear c p (List.range' before.length todo.length)
      (⟨before ++ todo ++ after, labels, none⟩ : ComplexMatrix R).flat =
      lift (fun cleared => (⟨before ++ cleared ++ after, labels, none⟩ : ComplexMatrix R).flat)
        ((todo.mapM (clearedRow c top)).mapError .arithmetic) := by
  induction todo generalizing before with
  | nil => rfl
  | cons row rest ih =>
    have hsplit : before ++ row :: rest ++ after = before ++ row :: (rest ++ after) := by simp
    rw [hsplit] at hw ⊢
    have hm : (⟨before ++ row :: (rest ++ after), labels, none⟩ : ComplexMatrix R).WellFormed :=
      wellFormed_mk (by simp) hq hw hlabels
    obtain ⟨hbefore, hothers⟩ := List.forall_mem_append.mp hw
    obtain ⟨hrow, hothers⟩ := List.forall_mem_cons.mp hothers
    have hpivot' := hpivot (row :: rest) rfl
    rw [hsplit] at hpivot'
    have hne' : before.length ≠ p := by
      rw [List.length_cons] at hne
      omega
    rw [List.length_cons, List.range'_succ, clear, List.foldlM_cons, List.mapM_cons, mapError_bind]
    refine lift_bind (clearRow_flat hm (hrow.symm ▸ hc) hpivot' hne') fun row' hrow' => ?_
    have hlen : row'.length = q :=
      (length_of_clearedRow (hrow.trans (hw top (List.mem_of_getElem? hpivot')).symm)
        (mapError_eq_ok.mp hrow')).trans hrow
    have hjoin : ∀ cleared : Rows R,
        before ++ [row'] ++ cleared ++ after = before ++ row' :: cleared ++ after := by simp
    have hw' : HasWidth q (before ++ [row'] ++ rest ++ after) := by
      rw [List.append_assoc, List.append_assoc]
      exact List.forall_mem_append.mpr ⟨hbefore, List.forall_mem_cons.mpr ⟨hlen, hothers⟩⟩
    have hpivots : ∀ cleared : Rows R, cleared.length = rest.length →
        (before ++ [row'] ++ cleared ++ after)[p]? = some top := fun cleared hcleared => by
      rw [hjoin]
      exact hpivot (row' :: cleared) (congrArg Nat.succ hcleared)
    have hnumber : (before ++ [row']).length = before.length + 1 := List.length_append
    -- the cleared row counts among those before the rest
    have hrun := ih (before ++ [row']) hw' hpivots (by
      rw [List.length_cons] at hne
      omega)
    rw [hnumber] at hrun
    simp only [hjoin] at hrun
    have hsplit' : before ++ row' :: rest ++ after = before ++ row' :: (rest ++ after) := by simp
    rw [hsplit'] at hrun
    rw [mapError_bind_pure, lift_bind_pure]
    exact hrun

/-! ### The cases of the recursion -/

theorem echelonRows_of_row {n : Nat} (h : rows.length = 1) :
    echelonRows (n + 1) rows = rows.mapM echelonRow := if_pos h

theorem echelonRows_of_column (h : rows.length ≠ 1) :
    echelonRows 1 rows = .ok (echelonColumn rows) := (if_neg h).trans (if_pos rfl)

theorem echelonRows_of_emptyColumn {n : Nat} (h : rows.length ≠ 1)
    (hi : rows.findIdx? (fun row => !(row.headD 0).isZero) = none) :
    echelonRows (n + 2) rows = echelonRows (n + 1) (rows.map List.tail) >>= fun rest =>
      pure (rest.map (0 :: ·)) := by
  rw [echelonRows, if_neg h, if_neg n.succ_ne_zero, hi]

theorem echelonRows_of_pivot {n i : Nat} {first : List (Complex R)} (h : rows.length ≠ 1)
    (hi : rows.findIdx? (fun row => !(row.headD 0).isZero) = some i)
    (hfirst : pivotFirst i rows = first :: after) :
    echelonRows (n + 2) rows = finiteReciprocal (first.headD 0) >>= fun k =>
      after.mapM (clearedRow 0 (scaledRow k first)) >>= fun cleared =>
      echelonRows (n + 1) (cleared.map List.tail) >>= fun rest =>
      pure (scaledRow k first :: rest.map (0 :: ·)) := by
  rw [echelonRows, if_neg h, if_neg n.succ_ne_zero, hi]
  simp only [hfirst]

/-- Whether all cells are zero does not depend on the layout. -/
theorem all_isZero_flatten (rows : Rows R) :
    rows.flatten.all Complex.isZero = allZero rows := List.all_flatten

/-! ### The echelon form -/

/-- The programs and the recursion over rows come to the same echelon form, but for the labels.  A
line of zeros keeps what it remembers. -/
def EchelonAgrees (depth : Nat) (m : ComplexMatrix R) : Prop :=
  ∃ labels, (labels = m.labels ∨ labels = none) ∧ echelon depth m.flat =
    lift (fun rows => (⟨rows, labels, if m.isZeroLine then m.remembered else none⟩ :
      ComplexMatrix R).flat) ((echelonRows m.columnCount m.rows).mapError .arithmetic)

/-- The first row is scaled by the reciprocal of a number. -/
theorem scaleFirst_flat (hm : m.WellFormed) (hrows : m.rows = row :: after) (x : Complex R) :
    ((x.reciprocal.mapError .arithmetic).mapError .refused >>= fun k =>
      m.flat.scaleRow 0 (.complex k)) =
      lift (fun k => (m.withRows (scaledRow k row :: after)).flat)
        ((finiteReciprocal x).mapError .arithmetic) := by
  unfold finiteReciprocal
  cases x.reciprocal with
  | error e => rfl
  | ok a =>
    have hrow : m.checkRow (R := R) 0 = .ok row := checkRow_eq_ok.mpr (by rw [hrows]; rfl)
    have hscale : m.flat.scaleRow 0 (.complex a) = lift flat (m.scaleRow 0 (.complex a)) :=
      scaleRow_flat hm
    refine hscale.trans ?_
    rw [LabelledMatrix.scaleRow, hrow, ok_bind, LabelledMatrix.checkOperand, hrows]
    change _ = lift _ ((Operand.complex a).check.mapError _)
    cases (Operand.complex a).check <;> rfl

/-- A single row. -/
theorem echelonAgrees_row (hm : m.WellFormed) (hone : m.rowCount = 1) (depth : Nat) :
    EchelonAgrees (depth + 1) m := by
  obtain ⟨row, hrows⟩ := List.length_eq_one_iff.mp hone
  obtain ⟨n, hn⟩ : ∃ n, m.columnCount = n + 1 := ⟨m.columnCount - 1, by
    have := hm.columnCount_pos
    omega⟩
  have hcells : m.flat.cells = row := by
    rw [show m.flat.cells = m.rows.flatten from rfl, hrows, List.flatten_cons, List.flatten_nil,
      List.append_nil]
  have hline : m.isZeroLine = row.all Complex.isZero := by
    simp [isZeroLine, hone, allZero, hrows]
  refine ⟨m.labels, .inl rfl, ?_⟩
  rw [echelon, rowCount_flat, if_pos hone, hcells, hn, echelonRows_of_row hone, hrows, hline,
    List.mapM_cons, List.mapM_nil, echelonRow]
  cases hfind : row.find? (!·.isZero) with
  | none =>
    have hzero : row.all Complex.isZero := by simpa using List.find?_eq_none.mp hfind
    have hm' : m = ⟨[row], m.labels, m.remembered⟩ := by rw [← hrows]
    rw [if_pos hzero]
    exact congrArg (fun m => Except.ok (LabelledMatrix.flat m)) hm'
  | some leading =>
    have hzero : ¬row.all Complex.isZero := fun h => by
      have hleading := List.all_eq_true.mp h leading (List.mem_of_find?_eq_some hfind)
      simpa [hleading] using List.find?_some hfind
    rw [if_neg hzero]
    refine (scaleFirst_flat hm hrows leading).trans ?_
    simp only
    cases finiteReciprocal leading <;> rfl

/-- A single column. -/
theorem echelonAgrees_column (hm : m.WellFormed) (hrows : m.rowCount ≠ 1)
    (hone : m.columnCount = 1) (depth : Nat) : EchelonAgrees (depth + 1) m := by
  have hcells : m.flat.cells.all Complex.isZero = allZero m.rows := all_isZero_flatten m.rows
  have hline : m.isZeroLine = allZero m.rows := by simp [isZeroLine, hone]
  unfold EchelonAgrees
  rw [echelon, rowCount_flat, columnCount_flat, if_neg hrows, if_pos hone, hcells, hone,
    echelonRows_of_column hrows, hline, echelonColumn]
  split
  · exact ⟨m.labels, .inl rfl, rfl⟩
  · refine ⟨none, .inr rfl, ?_⟩
    rw [init_table_eq_ok fun _ _ _ _ => rfl]
    exact congrArg Except.ok (flat_eq hm.rowCount_pos (length_table ..) (hasWidth_table _ _ _)
      none none).symm

/-- A column of zeros is put in front of rows. -/
theorem zeros_beside (hp : 0 < rows.length) (hq : 0 < q) (hw : HasWidth q rows) :
    (⟨table 1 rows.length fun _ _ => 0, none, none⟩ : ComplexMatrix R).flat.beside
      (⟨rows, none, none⟩ : ComplexMatrix R).flat =
      .ok (⟨rows.map (0 :: ·), none, none⟩ : ComplexMatrix R).flat := by
  have hzeros : (⟨table 1 rows.length fun _ _ => 0, none, none⟩ : ComplexMatrix R).WellFormed :=
    wellFormed_plain (by simpa using hp) Nat.one_pos (hasWidth_table _ _ _)
  have hlen : (table 1 rows.length fun _ _ => (0 : Complex R)).length = rows.length :=
    length_table ..
  have hrows : List.zipWith (· ++ ·) (table 1 rows.length fun _ _ => (0 : Complex R)) rows =
      rows.map (0 :: ·) := List.ext_getElem (by simp) fun i _ _ => by simp [table]
  rw [beside_flat hzeros (wellFormed_plain hp hq hw), LabelledMatrix.beside, ← hrows]
  exact congrArg (Checked.lift flat) (if_pos hlen)

/-- Without labels and memory the echelon forms are the same. -/
theorem EchelonAgrees.eq {depth : Nat} (hp : 0 < rows.length) (hw : HasWidth q rows)
    (h : EchelonAgrees depth (⟨rows, none, none⟩ : ComplexMatrix R)) :
    echelon depth (⟨rows, none, none⟩ : ComplexMatrix R).flat =
      lift (fun rows => (⟨rows, none, none⟩ : ComplexMatrix R).flat)
        ((echelonRows q rows).mapError .arithmetic) := by
  obtain ⟨labels, hlabels, hrun⟩ := h
  have hnone : labels = none := hlabels.elim id id
  rw [hrun, hnone, columnCount_eq (m := ⟨rows, none, none⟩) hp hw]
  simp only [ite_self]

theorem isZeroLine_eq_false (hrows : m.rowCount ≠ 1) (hcols : m.columnCount ≠ 1) :
    m.isZeroLine = false := by
  simp [isZeroLine, hrows, hcols]

/-- The search for a row with a pivot. -/
theorem findM?_index_eq (hm : m.WellFormed) :
    ((List.range m.rowCount).findM? fun row => do return !(← m.flat.index 0 row).isZero) =
      .ok (m.rows.findIdx? fun row => !(row.headD 0).isZero) := by
  refine findM?_range_eq_ok fun i row hrow => ?_
  have hcell : cellAt? m.rows i 0 = some (row.headD 0) := by
    have hlen : 0 < row.length :=
      (hm.length_row row (List.mem_of_getElem? hrow)).symm ▸ hm.columnCount_pos
    obtain ⟨x, rest, rfl⟩ := List.exists_cons_of_length_pos hlen
    rw [cellAt?, hrow]
    rfl
  rw [index_flat hm hcell]
  rfl

/-- An empty column. -/
theorem echelonAgrees_emptyColumn {n depth : Nat} (hm : m.WellFormed) (hrows : m.rowCount ≠ 1)
    (hcols : m.columnCount = n + 2)
    (hi : m.rows.findIdx? (fun row => !(row.headD 0).isZero) = none)
    (hrest : EchelonAgrees depth (⟨m.rows.map List.tail, none, none⟩ : ComplexMatrix R)) :
    EchelonAgrees (depth + 1) m := by
  have hcols' : m.columnCount ≠ 1 := by omega
  have hp : 0 < (m.rows.map List.tail).length := (List.length_map _).symm ▸ hm.rowCount_pos
  have hw : HasWidth (n + 1) (m.rows.map List.tail) := HasWidth.map_tail (hcols ▸ hm.length_row)
  have hdrop : m.dropColumn =
      (.ok ⟨m.rows.map List.tail, none, none⟩ : Except (MatrixError R) (ComplexMatrix R)) :=
    if_neg (by omega)
  refine ⟨none, .inr rfl, ?_⟩
  rw [isZeroLine_eq_false hrows hcols', if_neg Bool.false_ne_true, hcols,
    echelonRows_of_emptyColumn hrows hi, mapError_bind_pure, lift_bind_pure, echelon,
    rowCount_flat, columnCount_flat, if_neg hrows, if_neg hcols', findM?_index_eq hm, hi, ok_bind]
  simp only
  rw [zeros_flat hm.rowCount_pos, ok_bind, dropColumn_flat hm, hdrop, lift_ok, ok_bind,
    EchelonAgrees.eq hp hw hrest]
  cases hrun : echelonRows (n + 1) (m.rows.map List.tail) with
  | error e => rfl
  | ok rest =>
    have hechelon := echelonRun_of_echelonRows hrun
    have hlen : m.rowCount = rest.length := (hechelon.length_eq.trans (List.length_map _)).symm
    rw [hlen]
    exact zeros_beside (hlen ▸ hm.rowCount_pos) n.succ_pos (hechelon.hasWidth hw)

/-- The rows under the first one are cleared. -/
theorem clear_below (hq : 0 < q) (hw : HasWidth q (top :: after))
    (hlabels : ∀ names, labels = some names → names.length = q) :
    clear 0 0 (List.range' 1 after.length)
      (⟨top :: after, labels, none⟩ : ComplexMatrix R).flat =
      lift (fun cleared => (⟨top :: cleared, labels, none⟩ : ComplexMatrix R).flat)
        ((after.mapM (clearedRow 0 top)).mapError .arithmetic) := by
  have hjoin : ∀ rows : Rows R, [top] ++ rows ++ [] = top :: rows := fun rows => by simp
  have hclear : clear 0 0 (List.range' [top].length after.length)
      (⟨[top] ++ after ++ [], labels, none⟩ : ComplexMatrix R).flat =
      lift (fun cleared => (⟨[top] ++ cleared ++ [], labels, none⟩ : ComplexMatrix R).flat)
        ((after.mapM (clearedRow 0 top)).mapError .arithmetic) :=
    clear_flat [top] after [] hq hq (by rwa [hjoin]) hlabels (fun _ _ => rfl) (.inl Nat.one_pos)
  simp only [hjoin] at hclear
  exact hclear

/-- The echelon form is put together from the row with the pivot and what is left. -/
theorem rowMatrix_above {n : Nat} {rest : Rows R} (hm : m.WellFormed)
    (htop : m.rows[0]? = some top) (hcols : m.columnCount = n + 2) (hp : 0 < rest.length)
    (hw : HasWidth (n + 1) rest) :
    (m.flat.rowMatrix 0 >>= fun row => row.above
      (⟨rest.map (0 :: ·), none, none⟩ : ComplexMatrix R).flat) =
      .ok (⟨top :: rest.map (0 :: ·), none, none⟩ : ComplexMatrix R).flat := by
  have hlen : top.length = n + 2 :=
    (hm.length_row top (List.mem_of_getElem? htop)).trans hcols
  have hw' : HasWidth (n + 2) (rest.map (0 :: ·)) := HasWidth.map_cons hw 0
  have hp' : 0 < (rest.map (0 :: ·)).length := lt_of_lt_of_eq hp (List.length_map _).symm
  have hrow : (⟨[top], none, none⟩ : ComplexMatrix R).WellFormed :=
    wellFormed_plain Nat.one_pos (Nat.succ_pos _) (List.forall_mem_singleton.mpr hlen)
  have hcount : (⟨[top], none, none⟩ : ComplexMatrix R).columnCount =
      (⟨rest.map (0 :: ·), none, none⟩ : ComplexMatrix R).columnCount :=
    hlen.trans (columnCount_eq (m := ⟨rest.map (0 :: ·), none, none⟩) hp' hw').symm
  rw [rowMatrix_flat hm htop, ok_bind,
    above_flat hrow (wellFormed_plain hp' (Nat.succ_pos _) hw'), LabelledMatrix.above]
  exact congrArg (Checked.lift flat) (if_pos hcount)

/-- What comes after the clearing: the rest is reduced, and everything is put together. -/
theorem echelon_below {n depth : Nat} {cleared : Rows R} (hp : 0 < cleared.length)
    (hw : HasWidth (n + 2) (top :: cleared))
    (hlabels : ∀ names, labels = some names → names.length = n + 2)
    (hrest : EchelonAgrees depth (⟨cleared.map List.tail, none, none⟩ : ComplexMatrix R)) :
    (do
      let rest ← echelon depth (←
        (⟨top :: cleared, labels, none⟩ : ComplexMatrix R).flat.without 0 0)
      let underneath ← (← zeros 1 (← difference
        (⟨top :: cleared, labels, none⟩ : ComplexMatrix R).flat.rowCount 1)).beside rest
      (← (⟨top :: cleared, labels, none⟩ : ComplexMatrix R).flat.rowMatrix 0).above
        underneath) =
      lift (fun rest => (⟨top :: rest.map (0 :: ·), none, none⟩ : ComplexMatrix R).flat)
        ((echelonRows (n + 1) (cleared.map List.tail)).mapError .arithmetic) := by
  have hm : (⟨top :: cleared, labels, none⟩ : ComplexMatrix R).WellFormed :=
    wellFormed_mk (Nat.succ_pos _) (Nat.succ_pos _) hw hlabels
  have hcols : (⟨top :: cleared, labels, none⟩ : ComplexMatrix R).columnCount = n + 2 :=
    columnCount_eq (m := ⟨top :: cleared, labels, none⟩) (Nat.succ_pos _) hw
  have hw' : HasWidth (n + 1) (cleared.map List.tail) :=
    HasWidth.map_tail (List.forall_mem_cons.mp hw).2
  have hp' : 0 < (cleared.map List.tail).length := lt_of_lt_of_eq hp (List.length_map _).symm
  have hcount : (⟨top :: cleared, labels, none⟩ : ComplexMatrix R).rowCount =
      cleared.length + 1 := rfl
  have hrows : LabelledMatrix.without 0 0 (top :: cleared) = cleared.map List.tail :=
    List.map_congr_left fun row _ => List.eraseIdx_zero
  rw [without_flat hm hm.rowCount_pos hm.columnCount_pos (by omega) (by omega), ok_bind, hrows,
    EchelonAgrees.eq hp' hw' hrest, rowCount_flat, hcount,
    difference_eq_ok (Nat.le_add_left 1 cleared.length), Nat.add_sub_cancel]
  cases hrun : echelonRows (n + 1) (cleared.map List.tail) with
  | error e => rfl
  | ok rest =>
    have hechelon := echelonRun_of_echelonRows hrun
    have hlen : cleared.length = rest.length :=
      (hechelon.length_eq.trans (List.length_map _)).symm
    have hpos : 0 < rest.length := hlen ▸ hp
    have hrest := hechelon.hasWidth hw'
    have hok : (Except.ok rest : Except (ArithmeticError R) _).mapError MatrixError.arithmetic =
        .ok rest := rfl
    rw [hok, lift_ok, lift_ok, ok_bind, ok_bind, hlen, zeros_flat hpos, ok_bind,
      zeros_beside hpos (Nat.succ_pos n) hrest, ok_bind]
    exact rowMatrix_above hm rfl hcols hpos hrest

/-- A column with a pivot. -/
theorem echelonAgrees_pivot {n i depth : Nat} (hm : m.WellFormed) (hrows : m.rowCount ≠ 1)
    (hcols : m.columnCount = n + 2)
    (hi : m.rows.findIdx? (fun row => !(row.headD 0).isZero) = some i)
    (hrest : ∀ rest : Rows R, rest.length = m.rowCount - 1 → HasWidth (n + 1) rest →
      EchelonAgrees depth (⟨rest, none, none⟩ : ComplexMatrix R)) :
    EchelonAgrees (depth + 1) m := by
  have hcols' : m.columnCount ≠ 1 := by omega
  have hrowCount := hm.rowCount_pos
  obtain ⟨hlt, -⟩ := List.findIdx?_eq_some_iff_getElem.mp hi
  obtain ⟨after, hfirst, -⟩ := pivotFirst_eq_cons hlt
  generalize m.rows[i] = first at hfirst
  -- the exchange keeps the shape, and puts the row with the pivot in front of the others
  obtain ⟨swapped, hswapped, hrows', hshape, hswap⟩ := pivotOnTop_flat hm hlt hfirst
  obtain ⟨hcount, hwidth⟩ := Prod.mk.inj hshape
  have hlen : after.length + 1 = m.rowCount := by
    rw [← hcount, LabelledMatrix.rowCount, hrows', List.length_cons]
  have hw : HasWidth (n + 2) (first :: after) := by
    rw [← hrows', ← hcols, ← hwidth]
    exact hswapped.length_row
  have hlabels : ∀ names, swapped.labels = some names → names.length = n + 2 := by
    rw [← hcols, ← hwidth]
    exact hswapped.length_labels
  obtain ⟨hfirstlen, hafter⟩ := List.forall_mem_cons.mp hw
  have hcell : cellAt? swapped.rows 0 0 = some (first.headD 0) := by
    have hpos : 0 < first.length := by omega
    obtain ⟨x, cells, rfl⟩ := List.exists_cons_of_length_pos hpos
    rw [hrows']
    rfl
  refine ⟨none, .inr rfl, ?_⟩
  rw [isZeroLine_eq_false hrows hcols', if_neg Bool.false_ne_true, hcols,
    echelonRows_of_pivot hrows hi hfirst, echelon, rowCount_flat, columnCount_flat, if_neg hrows,
    if_neg hcols', findM?_index_eq hm, hi, ok_bind]
  simp only
  rw [hswap, ok_bind, index_flat hswapped hcell, ok_bind, ← bind_assoc,
    scaleFirst_flat hswapped hrows', mapError_bind]
  refine lift_bind rfl fun k _ => ?_
  have htop : (scaledRow k first).length = n + 2 := (length_scaledRow k first).trans hfirstlen
  -- that row is not touched while the others are cleared, so the recursion goes on below it
  have hclear := clear_below (Nat.succ_pos _) (List.forall_mem_cons.mpr ⟨htop, hafter⟩) hlabels
  rw [mapError_bind]
  refine lift_bind hclear fun cleared hcleared => ?_
  have hcleared := mapError_eq_ok.mp hcleared
  have hclearedlen : cleared.length = after.length := (mapM_eq_ok.mp hcleared).length_eq.symm
  have hclearedw : HasWidth (n + 2) cleared := hasWidth_of_mapM_clearedRow htop hafter hcleared
  have hpos : 0 < cleared.length := by omega
  have hlabelsw : HasWidth (n + 2) (scaledRow k first :: cleared) :=
    List.forall_mem_cons.mpr ⟨htop, hclearedw⟩
  rw [mapError_bind_pure, lift_bind_pure]
  refine echelon_below hpos hlabelsw hlabels (hrest _ ?_ (HasWidth.map_tail hclearedw))
  rw [List.length_map]
  omega

theorem echelonAgrees {depth : Nat} (hm : m.WellFormed) (hdepth : m.columnCount ≤ depth) :
    EchelonAgrees depth m := by
  induction depth generalizing m with
  | zero => exact absurd hm.columnCount_pos (by omega)
  | succ depth ih =>
    by_cases hrows : m.rowCount = 1
    · exact echelonAgrees_row hm hrows depth
    by_cases hcols : m.columnCount = 1
    · exact echelonAgrees_column hm hrows hcols depth
    obtain ⟨n, hn⟩ : ∃ n, m.columnCount = n + 2 := ⟨m.columnCount - 2, by
      have := hm.columnCount_pos
      omega⟩
    -- what is left has one column less
    have hrest : ∀ rest : Rows R, 0 < rest.length → HasWidth (n + 1) rest →
        EchelonAgrees depth (⟨rest, none, none⟩ : ComplexMatrix R) := fun rest hp hw => by
      refine ih (wellFormed_plain hp n.succ_pos hw) ?_
      rw [columnCount_eq (m := ⟨rest, none, none⟩) hp hw]
      omega
    cases hi : m.rows.findIdx? fun row => !(row.headD 0).isZero with
    | none =>
      have hw : HasWidth (n + 1) (m.rows.map List.tail) := HasWidth.map_tail (hn ▸ hm.length_row)
      exact echelonAgrees_emptyColumn hm hrows hn hi
        (hrest _ ((List.length_map _).symm ▸ hm.rowCount_pos) hw)
    | some i =>
      refine echelonAgrees_pivot hm hrows hn hi fun rest hlen hw => hrest rest ?_ hw
      have := hm.rowCount_pos
      omega

theorem rowEchelon_flat (hm : m.WellFormed) :
    m.flat.rowEchelon = lift flat m.rowEchelon := by
  obtain ⟨labels, -, hrun⟩ := echelonAgrees hm (Nat.le_refl _)
  rw [FlatMatrix.rowEchelon, columnCount_flat, hrun]
  cases hrows : echelonRows m.columnCount m.rows with
  | error e =>
    have hline : ¬m.isZeroLine := fun h => by
      cases (echelonRows_eq_ok_of_isZeroLine hm h).symm.trans hrows
    have hechelon : m.rowEchelon = .error (.arithmetic e) := by
      rw [LabelledMatrix.rowEchelon, hrows]
      exact if_neg hline
    rw [hechelon]
    rfl
  | ok rows =>
    have hechelon := echelonRun_of_echelonRows hrows
    have hw := hechelon.hasWidth hm.length_row
    have hp : 0 < rows.length := lt_of_lt_of_eq hm.rowCount_pos hechelon.length_eq.symm
    have hcols : (⟨rows, labels, if m.isZeroLine then m.remembered else none⟩ :
        ComplexMatrix R).columnCount = m.columnCount := columnCount_eq hp hw
    have hresult : m.rowEchelon =
        .ok ⟨rows, m.labels, if m.isZeroLine then m.remembered else none⟩ := by
      by_cases hline : m.isZeroLine
      · cases (echelonRows_eq_ok_of_isZeroLine hm hline).symm.trans hrows
        rw [if_pos hline]
        exact if_pos hline
      · rw [LabelledMatrix.rowEchelon, hrows, if_neg hline]
        exact if_neg hline
    rw [hresult]
    exact congrArg Except.ok (withLabelsOf_flat hcols)

/-! ### The reduced form -/

/-- The search for the first cell of a row that is not zero. -/
theorem findM?_row_eq {i : Nat} (hm : m.WellFormed) (hrow : m.rows[i]? = some row) :
    ((List.range m.columnCount).findM? fun column => do
      return !(← m.flat.index column i).isZero) = .ok (row.findIdx? (!·.isZero)) := by
  rw [← hm.length_row row (List.mem_of_getElem? hrow)]
  refine findM?_range_eq_ok fun c x hx => ?_
  have hcell : cellAt? m.rows i c = some x := by rw [cellAt?, hrow, Option.bind_some, hx]
  rw [index_flat hm hcell]
  rfl

/-- **The columns above the leading cells are cleared row by row.** -/
theorem reduceFrom_flat (done remaining : Rows R) (hq : 0 < q)
    (hw : HasWidth q (done ++ remaining))
    (hlabels : ∀ names, labels = some names → names.length = q) :
    reduceFrom remaining.length done.length
      (⟨done ++ remaining, labels, none⟩ : ComplexMatrix R).flat =
      lift (fun rows => (⟨rows, labels, none⟩ : ComplexMatrix R).flat)
        ((clearUpward done remaining).mapError .arithmetic) := by
  induction remaining generalizing done with
  | nil => rw [List.append_nil]; rfl
  | cons row rest ih =>
    have hm : (⟨done ++ row :: rest, labels, none⟩ : ComplexMatrix R).WellFormed :=
      wellFormed_mk (by simp) hq hw hlabels
    have hcols : (⟨done ++ row :: rest, labels, none⟩ : ComplexMatrix R).columnCount = q :=
      columnCount_eq (m := ⟨done ++ row :: rest, labels, none⟩) hm.rowCount_pos hw
    have hrow : (done ++ row :: rest)[done.length]? = some row := by simp
    have hfind := findM?_row_eq hm hrow
    obtain ⟨hdone, hothers⟩ := List.forall_mem_append.mp hw
    obtain ⟨hrowlen, hrest⟩ := List.forall_mem_cons.mp hothers
    rw [List.length_cons, reduceFrom, columnCount_flat, hfind, ok_bind, clearUpward]
    cases hleading : row.findIdx? (!·.isZero) with
    | none => rfl
    | some leading =>
      have hlt : leading < q := by
        obtain ⟨hlt, -⟩ := List.findIdx?_eq_some_iff_getElem.mp hleading
        omega
      have hclear : clear leading done.length (List.range done.length)
          (⟨done ++ row :: rest, labels, none⟩ : ComplexMatrix R).flat =
          lift (fun cleared => (⟨cleared ++ row :: rest, labels, none⟩ : ComplexMatrix R).flat)
            ((done.mapM (clearedRow leading row)).mapError .arithmetic) := by
        rw [List.range_eq_range']
        refine clear_flat [] done (row :: rest) hq hlt hw hlabels (fun cleared hlen => ?_)
          (.inr (Nat.zero_add _).le)
        rw [List.nil_append, ← hlen]
        simp
      simp only
      rw [mapError_bind]
      refine lift_bind hclear fun cleared hcleared => ?_
      have hcleared := mapError_eq_ok.mp hcleared
      have hlen : done.length = cleared.length := (mapM_eq_ok.mp hcleared).length_eq
      have hjoin : cleared ++ row :: rest = cleared ++ [row] ++ rest := by simp
      have hclearedw := hasWidth_of_mapM_clearedRow hrowlen hdone hcleared
      have hw' : HasWidth q (cleared ++ [row] ++ rest) := by
        rw [← hjoin]
        exact List.forall_mem_append.mpr ⟨hclearedw, hothers⟩
      have hnumber : done.length + 1 = (cleared ++ [row]).length := by
        rw [hlen, List.length_append, List.length_singleton]
      rw [hjoin, hnumber]
      exact ih _ hw'

/-- Zeros are left alone. -/
theorem reduceFrom_of_allZero (hm : m.WellFormed) (h : allZero m.rows) :
    reduceFrom m.rowCount 0 m.flat = .ok m.flat := by
  obtain ⟨row, rest, hrows⟩ := List.exists_cons_of_length_pos hm.rowCount_pos
  have hcount : m.rowCount = rest.length + 1 := by
    rw [LabelledMatrix.rowCount, hrows, List.length_cons]
  have hrow : m.rows[0]? = some row := by rw [hrows]; rfl
  have hnone : row.findIdx? (!·.isZero) = none := by
    have hall := List.all_eq_true.mp h row (List.mem_of_getElem? hrow)
    exact List.findIdx?_eq_none_iff.mpr (by simpa using hall)
  rw [hcount, reduceFrom, columnCount_flat, findM?_row_eq hm hrow, hnone]
  rfl

theorem reducedRowEchelon_flat (hm : m.WellFormed) :
    m.flat.reducedRowEchelon = lift flat m.reducedRowEchelon := by
  refine lift_bind (rowEchelon_flat hm) fun e he => ?_
  obtain ⟨hwf, -⟩ := hm.rowEchelon he
  obtain ⟨hrows, -, hrem⟩ := rowEchelon_eq_ok hm he
  -- only a line of zeros remembers a determinant; there nothing is left to clear
  by_cases hzero : allZero e.rows
  · rw [rowCount_flat, reduceFrom_of_allZero hwf hzero, clearUpward_of_allZero hzero]
    rfl
  · have hnone : e.remembered = none := by
      rw [hrem, if_neg fun hline => hzero ?_]
      have hsame := (echelonRows_eq_ok_of_isZeroLine hm hline).symm.trans hrows
      rw [← Except.ok.inj hsame]
      exact (Bool.and_eq_true_iff.mp hline).2
    have heq : e = ⟨e.rows, e.labels, none⟩ := by rw [← hnone]
    have hreduce := reduceFrom_flat [] e.rows hwf.columnCount_pos hwf.length_row hwf.length_labels
    rw [List.nil_append, List.length_nil, ← heq] at hreduce
    rw [rowCount_flat]
    refine hreduce.trans ?_
    cases (clearUpward [] e.rows).mapError MatrixError.arithmetic with
    | error e => rfl
    | ok rows =>
      exact congrArg (fun remembered =>
        Except.ok (⟨rows, e.labels, remembered⟩ : ComplexMatrix R).flat) hnone.symm

end FlatMatrix
end LinearEquations
