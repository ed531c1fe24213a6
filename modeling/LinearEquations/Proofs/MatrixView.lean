import LinearEquations.Proofs.Shape

/-! # Rows as matrices of linear algebra

Over the Gaussian rationals rows of cells are read as a matrix in the sense of linear algebra
(`toMatrix`), and rows of a given shape are determined by it (`rows_eq_of_toMatrix_eq`).  Products,
multiples, transposes, identities and minors of rows are those of the matrices. -/

namespace LinearEquations.LabelledMatrix
variable {p q s : Nat} {rows other : List (List (Complex Rat))}

/-- The matrix with the given rows; there are zeros where there are no cells. -/
def toMatrix (p q : Nat) (rows : List (List (Complex Rat))) :
    Matrix (Fin p) (Fin q) (Complex Rat) :=
  Matrix.of fun r c => (cellAt? rows r c).getD 0

theorem toMatrix_apply (rows : List (List (Complex Rat))) (r : Fin p) (c : Fin q) :
    toMatrix p q rows r c = (cellAt? rows r c).getD 0 := rfl

theorem cellAt?_eq_toMatrix (hlen : rows.length = p) (hw : HasWidth q rows) (r : Fin p)
    (c : Fin q) : cellAt? rows r c = some (toMatrix p q rows r c) := by
  obtain ⟨x, hx⟩ := exists_cellAt? hw (r.isLt.trans_eq hlen.symm) c.isLt
  rw [toMatrix_apply, hx]
  rfl

/-- **Rows of the same shape with the same matrix are equal.** -/
theorem rows_eq_of_toMatrix_eq (hlen : rows.length = p) (hlen' : other.length = p)
    (hw : HasWidth q rows) (hw' : HasWidth q other)
    (h : toMatrix p q rows = toMatrix p q other) : rows = other := by
  refine rows_eq_of_hasWidth (hlen.trans hlen'.symm) hw hw' fun r hr c hc => ?_
  have hcell := congrFun (congrFun h ⟨r, hlen ▸ hr⟩) ⟨c, hc⟩
  rw [cellAt?_eq_toMatrix hlen hw ⟨r, hlen ▸ hr⟩ ⟨c, hc⟩,
    cellAt?_eq_toMatrix hlen' hw' ⟨r, hlen ▸ hr⟩ ⟨c, hc⟩, hcell]

theorem toMatrix_table (f : Nat → Nat → Complex Rat) :
    toMatrix p q (table q p f) = Matrix.of fun (r : Fin p) (c : Fin q) => f c r := by
  refine Matrix.ext fun r c => ?_
  rw [toMatrix_apply, cellAt?_table r.isLt c.isLt]
  rfl

theorem toMatrix_identity (n : Nat) :
    toMatrix n n (table n n fun c r => if c = r then 1 else 0) = 1 := by
  rw [toMatrix_table]
  refine Matrix.ext fun r c => ?_
  rw [Matrix.of_apply, Matrix.one_apply]
  refine if_congr ?_ rfl rfl
  rw [eq_comm, Fin.ext_iff]

theorem toMatrix_map_mul (a : Complex Rat) (rows : List (List (Complex Rat))) :
    toMatrix p q (rows.map (List.map (· * a))) = a • toMatrix p q rows := by
  refine Matrix.ext fun r c => ?_
  rw [toMatrix_apply, cellAt?_map, Matrix.smul_apply, toMatrix_apply, smul_eq_mul]
  cases cellAt? rows r c with
  | none => exact (mul_zero a).symm
  | some x => exact mul_comm x a

theorem toMatrix_columns {m : LabelledMatrix (Complex Rat)}
    (hw : HasWidth m.columnCount m.rows) :
    toMatrix q p m.columns = (toMatrix p q m.rows).transpose := by
  refine Matrix.ext fun r c => ?_
  rw [toMatrix_apply, cellAt?_columns hw, Matrix.transpose_apply, toMatrix_apply]

theorem toMatrix_without (i : Fin (p + 1)) (j : Fin (q + 1))
    (rows : List (List (Complex Rat))) :
    toMatrix p q (without i j rows) =
      (toMatrix (p + 1) (q + 1) rows).submatrix i.succAbove j.succAbove := by
  have hskip : ∀ {n : Nat} (i : Fin (n + 1)) (k : Fin n), skipping i k = i.succAbove k := by
    intro n i k
    by_cases h : (k : Nat) < i
    · rw [skipping, if_pos h, Fin.succAbove_of_castSucc_lt i k h, Fin.val_castSucc]
    · rw [skipping, if_neg h, Fin.succAbove_of_le_castSucc i k (Nat.le_of_not_lt h), Fin.val_succ]
  refine Matrix.ext fun r c => ?_
  rw [toMatrix_apply, cellAt?_without, hskip, hskip]
  rfl

/-! ### Products -/

/-- The cells of two rows, multiplied and added up. -/
theorem dot_eq_sum {row column : List (Complex Rat)} (hrow : row.length = q)
    (hcolumn : column.length = q) :
    dot row column = ∑ i ∈ Finset.range q, row.getD i 0 * column.getD i 0 := by
  rw [dot, ← List.sum_eq_foldl]
  induction q generalizing row column with
  | zero =>
    rw [List.length_eq_zero_iff.mp hrow]
    rfl
  | succ q ih =>
    obtain ⟨x, row, rfl⟩ := List.exists_cons_of_length_eq_add_one hrow
    obtain ⟨y, column, rfl⟩ := List.exists_cons_of_length_eq_add_one hcolumn
    rw [List.zipWith_cons_cons, List.sum_cons, ih (Nat.succ.inj hrow) (Nat.succ.inj hcolumn),
      Finset.sum_range_succ', add_comm]
    rfl

/-- **Products are products of matrices.** -/
theorem toMatrix_times {a b r : ComplexMatrix Rat} (ha : a.WellFormed) (hb : b.WellFormed)
    (h : a.times b = .ok r) (hp : a.rowCount = p) (hq : a.columnCount = q)
    (hs : b.columnCount = s) :
    toMatrix p s r.rows = toMatrix p q a.rows * toMatrix q s b.rows := by
  obtain ⟨hinner, hr⟩ := times_eq_ok.mp h
  refine Matrix.ext fun i j => ?_
  have hi : (i : Nat) < a.rows.length := i.isLt.trans_eq hp.symm
  have hj : (j : Nat) < b.columnCount := j.isLt.trans_eq hs.symm
  have hrow : a.rows[(i : Nat)].length = q := (ha.length_row _ (List.getElem_mem hi)).trans hq
  have hcolumn : (columnOf b.rows j).length = q :=
    (length_columnOf hb.length_row hj).trans (hinner.symm.trans hq)
  have hcell : cellAt? r.rows i j = some (dot a.rows[(i : Nat)] (columnOf b.rows j)) := by
    simp [hr, cellAt?, columns, hi, hj]
  rw [toMatrix_apply, hcell, Matrix.mul_apply, Option.getD_some, dot_eq_sum hrow hcolumn,
    Finset.sum_range]
  refine Finset.sum_congr rfl fun k _ => ?_
  rw [toMatrix_apply, toMatrix_apply, ← getElem?_columnOf hb.length_row hj,
    List.getD_eq_getElem?_getD, List.getD_eq_getElem?_getD, cellAt?, List.getElem?_eq_getElem hi]
  rfl

end LinearEquations.LabelledMatrix
