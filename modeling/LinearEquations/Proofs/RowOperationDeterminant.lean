import LinearEquations.Proofs.AddedMultiple
import LinearEquations.Proofs.Inverse

/-! # Determinants after row operations

Over the Gaussian rationals the row operations change the determinant as they do in linear algebra.
All but the exchange of two rows put a combination of two rows in the place of the first of them,
and one lemma says what this makes of the determinant (`det_set`).

What a row operation gives remembers no determinant, so that asking for it always expands the new
rows (`determinant_withRows`). -/

namespace LinearEquations.LabelledMatrix
variable {n i j : Nat} {m : ComplexMatrix Rat} {rows : Rows Rat}
variable {row other x : List (Complex Rat)}

/-! ### Rows of the matrix -/

theorem toMatrix_row (h : rows[i]? = some row) (hi : i < n) :
    toMatrix n n rows ⟨i, hi⟩ = fun c : Fin n => cell row c := by
  funext c
  rw [toMatrix_apply, cellAt?, h, Option.bind_some, cell, List.getD_eq_getElem?_getD]

/-- Another row in the place of the row `i`. -/
theorem toMatrix_set (hi : i < rows.length) (hn : i < n) (x : List (Complex Rat)) :
    toMatrix n n (rows.set i x) =
      (toMatrix n n rows).updateRow ⟨i, hn⟩ fun c : Fin n => cell x c := by
  refine Matrix.ext fun r c => ?_
  rw [toMatrix_apply, cellAt?_set hi, Matrix.updateRow_apply]
  by_cases hr : r = ⟨i, hn⟩
  · subst hr
    rw [if_pos rfl, if_pos rfl, cell, List.getD_eq_getElem?_getD]
  · rw [if_neg hr, if_neg fun h => hr (Fin.ext h.symm)]
    rfl

/-- **A combination of two rows in the place of the first of them.** -/
theorem det_set {a b : Complex Rat} (hlen : rows.length = n) (hrow : rows[i]? = some row)
    (hother : rows[j]? = some other) (hx : cell x = a • cell row + b • cell other) :
    (toMatrix n n (rows.set i x)).det =
      (if i = j then a + b else a) * (toMatrix n n rows).det := by
  obtain ⟨hi, -⟩ := List.getElem?_eq_some_iff.mp hrow
  obtain ⟨hj, -⟩ := List.getElem?_eq_some_iff.mp hother
  have hin : i < n := hlen ▸ hi
  have hjn : j < n := hlen ▸ hj
  have hcombination : (fun c : Fin n => cell x c) =
      a • toMatrix n n rows ⟨i, hin⟩ + b • toMatrix n n rows ⟨j, hjn⟩ := by
    rw [hx, toMatrix_row hrow hin, toMatrix_row hother hjn]
    rfl
  rw [toMatrix_set hi hin, hcombination, Matrix.det_updateRow_add, Matrix.det_updateRow_smul,
    Matrix.det_updateRow_smul, Matrix.updateRow_eq_self]
  by_cases hij : i = j
  · subst hij
    rw [if_pos rfl, Matrix.updateRow_eq_self, add_mul]
  · have hne : (⟨j, hjn⟩ : Fin n) ≠ ⟨i, hin⟩ := fun h => hij (Fin.ext_iff.mp h).symm
    rw [if_neg hij, Matrix.det_updateRow_eq_zero hne, mul_zero, add_zero]

/-- **Two different rows exchanged.** -/
theorem det_exchange (hlen : rows.length = n) (hij : i ≠ j) (hrow : rows[i]? = some row)
    (hother : rows[j]? = some other) :
    (toMatrix n n ((rows.set i other).set j row)).det = -(toMatrix n n rows).det := by
  obtain ⟨hi, -⟩ := List.getElem?_eq_some_iff.mp hrow
  obtain ⟨hj, -⟩ := List.getElem?_eq_some_iff.mp hother
  have hin : i < n := hlen ▸ hi
  have hjn : j < n := hlen ▸ hj
  have hne : (⟨i, hin⟩ : Fin n) ≠ ⟨j, hjn⟩ := fun h => hij (Fin.ext_iff.mp h)
  have hswap : toMatrix n n ((rows.set i other).set j row) =
      (toMatrix n n rows).submatrix (Equiv.swap ⟨i, hin⟩ ⟨j, hjn⟩) id := by
    rw [toMatrix_set (List.length_set.symm ▸ hj) hjn, toMatrix_set hi hin,
      ← toMatrix_row hrow hin, ← toMatrix_row hother hjn]
    refine Matrix.ext fun r c => ?_
    rw [Matrix.updateRow_apply, Matrix.updateRow_apply, Matrix.submatrix_apply,
      Equiv.swap_apply_def]
    by_cases hrj : r = ⟨j, hjn⟩
    · rw [if_pos hrj, if_neg fun h => hne (h.symm.trans hrj), if_pos hrj]
      rfl
    · rw [if_neg hrj, if_neg hrj]
      split <;> rfl
  rw [hswap, Matrix.det_permute, Equiv.Perm.sign_swap hne]
  push_cast
  rw [neg_one_mul]

/-! ### Determinants of matrices -/

theorem determinant_withRows (hm : HasSize n m) (hlen : rows.length = n) (hw : HasWidth n rows) :
    (m.withRows rows).determinant = some (toMatrix n n rows).det := by
  obtain ⟨hwf, hshape⟩ := hm.toWellFormed.withRows (hlen.trans hm.rowCount_eq.symm)
    (hm.columnCount_eq.symm ▸ hw)
  exact (hwf.valid rfl).determinant_eq_det ⟨hwf, hshape.trans hm.shape_eq⟩

/-- The determinant after a row operation that puts a combination of two rows in the place of the
first of them. -/
theorem determinant_withRows_set {a b : Complex Rat} (hm : HasSize n m)
    (hrow : m.rows[i]? = some row) (hother : m.rows[j]? = some other)
    (hlen : x.length = row.length) (hx : cell x = a • cell row + b • cell other) :
    (m.withRows (m.rows.set i x)).determinant =
      some ((if i = j then a + b else a) * (toMatrix n n m.rows).det) := by
  have hwx : x.length = n := hlen.trans (hm.hasWidth.length_eq hrow)
  rw [determinant_withRows hm (List.length_set.trans hm.rowCount_eq) (HasWidth.set hm.hasWidth hwx),
    det_set hm.rowCount_eq hrow hother hx]

variable (hm : HasSize n m) (hi : i < m.rowCount) (hj : j < m.rowCount)
include hm hi

theorem determinant_of_scaleRow (k : Operand Rat) : ∃ r, m.scaleRow i k = .ok r ∧
    r.determinant = some (k.value * (toMatrix n n m.rows).det) := by
  obtain ⟨row, hrow⟩ := exists_row hi
  have hx : cell (scaledRow k.value row) = k.value • cell row + (0 : Complex Rat) • cell row := by
    rw [cell_scaledRow, zero_smul, add_zero]
  refine ⟨_, scaleRow_of_row hrow rfl, ?_⟩
  rw [determinant_withRows_set hm hrow hrow (length_scaledRow ..) hx, if_pos rfl, add_zero]

include hj

theorem determinant_of_swapRows : ∃ r, m.swapRows i j = (.ok r : Except (MatrixError Rat) _) ∧
    r.determinant = some
      (if i = j then (toMatrix n n m.rows).det else -(toMatrix n n m.rows).det) := by
  obtain ⟨row, hrow⟩ := exists_row hi
  obtain ⟨other, hother⟩ := exists_row hj
  have hw : HasWidth n ((m.rows.set i other).set j row) :=
    (hm.hasWidth.set (hm.hasWidth.length_eq hother)).set (hm.hasWidth.length_eq hrow)
  have hswap : m.swapRows i j = (.ok (m.withRows ((m.rows.set i other).set j row)) :
      Except (MatrixError Rat) _) := by
    rw [swapRows, checkRow_eq_ok.mpr hrow, ok_bind, checkRow_eq_ok.mpr hother]
    rfl
  refine ⟨_, hswap, ?_⟩
  rw [determinant_withRows hm (by simp only [List.length_set]; exact hm.rowCount_eq) hw]
  by_cases hij : i = j
  · subst hij
    obtain ⟨hlt, rfl⟩ := List.getElem?_eq_some_iff.mp hrow
    rw [if_pos rfl, List.set_set, List.set_getElem_self]
  · rw [if_neg hij, det_exchange hm.rowCount_eq hij hrow hother]

theorem determinant_of_addRow : ∃ r, m.addRow i j = .ok r ∧
    r.determinant = some
      (if i = j then 2 * (toMatrix n n m.rows).det else (toMatrix n n m.rows).det) := by
  obtain ⟨row, hrow⟩ := exists_row hi
  obtain ⟨other, hother⟩ := exists_row hj
  have hlen : row.length = other.length := hm.hasWidth.length_eq_length hrow hother
  have hx : cell (addedRow row other) =
      (1 : Complex Rat) • cell row + (1 : Complex Rat) • cell other := by
    rw [cell_addedRow hlen, one_smul, one_smul]
  refine ⟨_, addRow_of_row hrow hother, ?_⟩
  rw [determinant_withRows_set hm hrow hother (length_addedRow hlen) hx, ite_mul, one_mul,
    one_add_one_eq_two]

/-- A row that is added to itself a number of times is put back as it was. -/
theorem determinant_of_addMultiple (k : Operand Rat) : ∃ r, m.addMultiple i j k = .ok r ∧
    r.determinant = some (toMatrix n n m.rows).det := by
  obtain ⟨r, hr⟩ := exists_addMultiple hj (show k.value.isFinite from rfl) hi
  obtain ⟨row, other, a, hrow, hother, -, rfl⟩ := addMultiple_eq_ok hr
  refine ⟨_, hr, ?_⟩
  by_cases hij : i = j
  · rw [if_pos hij, determinant_withRows hm hm.rowCount_eq hm.hasWidth]
  · have hlen : row.length = (scaledRow a other).length := by
      rw [length_scaledRow, hm.hasWidth.length_eq_length hrow hother]
    have hx : cell (addedRow row (scaledRow a other)) =
        (1 : Complex Rat) • cell row + a • cell other := by
      rw [cell_addedRow hlen, cell_scaledRow, one_smul]
    rw [if_neg hij, determinant_withRows_set hm hrow hother (length_addedRow hlen) hx, if_neg hij,
      one_mul]

omit hm hi hj

/-- **Determinants after row operations.** -/
theorem determinant_rowOperations (hm : m.Valid) (hsquare : m.rowCount = m.columnCount)
    (hi : i < m.rowCount) (hj : j < m.rowCount) (k : Operand Rat) :
    ∃ d, m.determinant = some d ∧
      (∃ r, m.swapRows i j = (.ok r : Except (MatrixError Rat) _) ∧
        r.determinant = some (if i = j then d else -d)) ∧
      (∃ r, m.scaleRow i k = .ok r ∧ r.determinant = some (k.value * d)) ∧
      (∃ r, m.addRow i j = .ok r ∧ r.determinant = some (if i = j then 2 * d else d)) ∧
      ∃ r, m.addMultiple i j k = .ok r ∧ r.determinant = some d := by
  have hsize : HasSize m.rowCount m := hm.toWellFormed.hasSize hsquare
  exact ⟨_, hm.determinant_eq_det hsize, determinant_of_swapRows hsize hi hj,
    determinant_of_scaleRow hsize hi k, determinant_of_addRow hsize hi hj,
    determinant_of_addMultiple hsize hi hj k⟩

/-- Three rows with the determinant `12 - 18i`; the second and the third are operated on. -/
theorem determinant_rowOperations_of_three_rows :
    let m : ComplexMatrix Rat :=
      { rows := [[⟨1, 0⟩, ⟨0, 2⟩, ⟨0, 0⟩], [⟨3, 0⟩, ⟨4, 0⟩, ⟨1, 1⟩], [⟨0, 0⟩, ⟨0, 0⟩, ⟨3, 0⟩]] }
    m.Valid ∧ m.determinant = some ⟨12, -18⟩ ∧
      (∃ r, m.swapRows 1 2 = (.ok r : Except (MatrixError Rat) _) ∧
        r.determinant = some ⟨-12, 18⟩) ∧
      (∃ r, m.scaleRow 1 (.complex ⟨0, 1⟩) = .ok r ∧ r.determinant = some ⟨18, 12⟩) ∧
      (∃ r, m.addRow 1 2 = .ok r ∧ r.determinant = some ⟨12, -18⟩) ∧
      ∃ r, m.addMultiple 1 2 (.complex ⟨0, 1⟩) = .ok r ∧ r.determinant = some ⟨12, -18⟩ := by
  intro m
  have hm : m.Valid := WellFormed.valid (by decide) rfl
  have hd : m.determinant = some ⟨12, -18⟩ := by decide +kernel
  obtain ⟨d, hd', ⟨r₁, hr₁, hswap⟩, ⟨r₂, hr₂, hscale⟩, hadd, hmultiple⟩ :=
    determinant_rowOperations hm rfl (i := 1) (j := 2) (by decide) (by decide)
      (.complex ⟨0, 1⟩)
  obtain rfl : d = ⟨12, -18⟩ := Option.some.inj (hd'.symm.trans hd)
  refine ⟨hm, hd, ⟨r₁, hr₁, hswap.trans ?_⟩, ⟨r₂, hr₂, hscale.trans ?_⟩, hadd, hmultiple⟩
  · decide +kernel
  · decide +kernel

end LinearEquations.LabelledMatrix
