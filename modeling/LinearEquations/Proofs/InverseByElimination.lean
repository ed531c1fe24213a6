import LinearEquations.Proofs.Inverse
import LinearEquations.Proofs.RowEquivalence

/-! # Inverses by elimination

The adjugate and the elimination agree about inverses.

One row space contains another if its rows, multiplied by some matrix, give the rows of the other
(`rowSpace_le_iff_exists_mul`).  Rows that begin with the identity are reduced already
(`BeginsWithUnit.isReduced`).  So if `B` is the inverse of `A`, then `A` with the identity beside
it is reduced to the identity with `B` beside it, since multiplying by `B` and by `A` leads from one
to the other; and conversely, what leads to the identity is an inverse.

Leading columns increase from row to row.  So a square matrix whose reduced form has no row of zeros
at the end is reduced to the identity (`IsReduced.beginsWithUnit`), and thus invertible. -/

namespace LinearEquations.LabelledMatrix
variable {n p q s k : Nat} {rows other right : Rows Rat} {m a b r unit : ComplexMatrix Rat}

/-! ### Row spaces and products -/

theorem toMatrix_eq_cell (rows : Rows Rat) (i : Fin rows.length) (c : Fin q) :
    toMatrix rows.length q rows i c = cell rows[i] c := by
  rw [toMatrix_apply, cellAt?, Fin.getElem_fin, List.getElem?_eq_getElem i.isLt, cell,
    List.getD_eq_getElem?_getD]
  rfl

theorem rowSpace_eq_span_range (rows : Rows Rat) :
    rowSpace rows = Submodule.span (Complex Rat) (Set.range fun i : Fin rows.length =>
      cell rows[i]) := by
  rw [rowSpace]
  congr 1
  ext v
  simp [List.mem_iff_get, Fin.exists_iff]

/-- **Row spaces contain each other if some product leads from one to the other.** -/
theorem rowSpace_le_iff_exists_mul (hlen : rows.length = p) (hlen' : other.length = s)
    (hw : HasWidth q rows) (hw' : HasWidth q other) :
    rowSpace other ≤ rowSpace rows ↔
      ∃ X : Matrix (Fin s) (Fin p) (Complex Rat), X * toMatrix p q rows = toMatrix s q other := by
  subst hlen hlen'
  -- one row of a product is a combination of rows, and beyond the last column all of them are zero
  have hrow : ∀ (i : Fin other.length) (x : Fin rows.length → Complex Rat),
      ∑ j, x j • cell rows[j] = cell other[i] ↔
        ∀ c : Fin q, ∑ j, x j * toMatrix rows.length q rows j c =
          toMatrix other.length q other i c := by
    intro i x
    simp only [toMatrix_eq_cell, funext_iff, Finset.sum_apply, Pi.smul_apply, smul_eq_mul]
    refine ⟨fun h c => h c, fun h c => ?_⟩
    by_cases hc : c < q
    · exact h ⟨c, hc⟩
    · have hc := Nat.le_of_not_lt hc
      rw [cell_of_length_le (hw' other[i] (List.getElem_mem _) ▸ hc)]
      refine Finset.sum_eq_zero fun j _ => ?_
      rw [cell_of_length_le (hw rows[j] (List.getElem_mem _) ▸ hc), mul_zero]
  rw [rowSpace_le_iff, rowSpace_eq_span_range]
  constructor
  · intro h
    have hmem : ∀ i : Fin other.length, ∃ x : Fin rows.length → Complex Rat,
        ∑ j, x j • cell rows[j] = cell other[i] := fun i =>
      (Submodule.mem_span_range_iff_exists_fun _).mp (h other[i] (List.getElem_mem _))
    choose X hX using hmem
    exact ⟨Matrix.of X, Matrix.ext fun i c => (hrow i (X i)).mp (hX i) c⟩
  · rintro ⟨X, hX⟩ row hmem
    obtain ⟨i, hi, rfl⟩ := List.mem_iff_getElem.mp hmem
    refine (Submodule.mem_span_range_iff_exists_fun _).mpr ⟨X ⟨i, hi⟩, (hrow ⟨i, hi⟩ _).mpr ?_⟩
    intro c
    rw [← hX]
    rfl

/-- Rows for which there is a product in either direction have the same row space. -/
theorem rowSpace_eq_of_mul (hlen : rows.length = p) (hlen' : other.length = s)
    (hw : HasWidth q rows) (hw' : HasWidth q other) (X : Matrix (Fin s) (Fin p) (Complex Rat))
    (Y : Matrix (Fin p) (Fin s) (Complex Rat))
    (hX : X * toMatrix p q rows = toMatrix s q other)
    (hY : Y * toMatrix s q other = toMatrix p q rows) : rowSpace other = rowSpace rows :=
  le_antisymm ((rowSpace_le_iff_exists_mul hlen hlen' hw hw').mpr ⟨X, hX⟩)
    ((rowSpace_le_iff_exists_mul hlen' hlen hw' hw).mpr ⟨Y, hY⟩)

/-! ### Rows that begin with the identity -/

/-- The first columns of the rows, as many as there are rows, are those of the identity. -/
def BeginsWithUnit (rows : Rows Rat) : Prop :=
  ∀ i (hi : i < rows.length), ∀ c < rows.length, cell rows[i] c = if c = i then 1 else 0

theorem BeginsWithUnit.leading?_eq (h : BeginsWithUnit rows) {i : Nat} (hi : i < rows.length) :
    leading? rows[i] = some i := by
  refine leading?_eq_some_iff.mpr ⟨?_, fun c hc => ?_⟩
  · rw [h i hi i hi, if_pos rfl]
    exact one_ne_zero
  · rw [h i hi c (hc.trans hi), if_neg hc.ne]

/-- **Rows that begin with the identity are reduced.** -/
theorem BeginsWithUnit.isReduced (h : BeginsWithUnit rows) : IsReduced rows where
  staircase := List.pairwise_iff_getElem.mpr fun i j hi hj hij c hc => by
    rw [h.leading?_eq hj] at hc
    cases hc
    exact ⟨i, h.leading?_eq hi, hij⟩
  leadsWithOne := List.forall_mem_iff_forall_getElem.mpr fun i hi c hc => by
    rw [h.leading?_eq hi] at hc
    cases hc
    rw [Complex.eq_iff, h i hi i hi, if_pos rfl]
  cleared := List.pairwise_iff_getElem.mpr fun i j hi hj hij => by
    constructor
    · intro c hc
      rw [h.leading?_eq hi] at hc
      cases hc
      rw [Complex.isZero_iff, h j hj i hi, if_neg hij.ne]
    · intro c hc
      rw [h.leading?_eq hj] at hc
      cases hc
      rw [Complex.isZero_iff, h i hi j hj, if_neg hij.ne']

theorem beginsWithUnit_iff (hlen : rows.length = n) :
    BeginsWithUnit rows ↔ toMatrix n n rows = 1 := by
  subst hlen
  have hcell : ∀ i c : Fin rows.length, toMatrix rows.length rows.length rows i c =
      (1 : Matrix _ _ (Complex Rat)) i c ↔
        cell rows[i] c = if (c : Nat) = i then 1 else 0 := fun i c => by
    simp only [toMatrix_eq_cell, Matrix.one_apply, Fin.ext_iff, eq_comm]
  rw [← Matrix.ext_iff]
  constructor
  · intro h i c
    exact (hcell i c).mpr (h i i.isLt c c.isLt)
  · intro h i hi c hc
    exact (hcell ⟨i, hi⟩ ⟨c, hc⟩).mp (h ⟨i, hi⟩ ⟨c, hc⟩)

/-- Rows of which none is zero lead in one column after another, if there are as many columns. -/
theorem leading?_getElem (h : IsEchelon rows) (hw : HasWidth rows.length rows)
    (hne : ∀ row ∈ rows, leading? row ≠ none) {i : Nat} (hi : i < rows.length) :
    leading? rows[i] = some i := by
  have hlead : ∀ j : Fin rows.length, ∃ c : Fin rows.length, leading? rows[j] = some c.val := by
    intro j
    have hmem : rows[j] ∈ rows := List.getElem_mem _
    obtain ⟨c, hc⟩ := Option.ne_none_iff_exists'.mp (hne _ hmem)
    exact ⟨⟨c, (lt_length_of_leading? hc).trans_eq (hw _ hmem)⟩, hc⟩
  choose lead hlead using hlead
  have hmono : StrictMono lead := fun j k hjk =>
    (List.pairwise_iff_getElem.mp h.staircase j k j.isLt k.isLt hjk).lt (hlead j) (hlead k)
  have hi' := hlead ⟨i, hi⟩
  rw [hmono.eq_id] at hi'
  exact hi'

/-- **Reduced rows, as many as columns and none of them zero, are the identity.** -/
theorem IsReduced.beginsWithUnit (h : IsReduced rows) (hw : HasWidth rows.length rows)
    (hne : ∀ row ∈ rows, leading? row ≠ none) : BeginsWithUnit rows := by
  intro i hi c hc
  have hlead := leading?_getElem h.toIsEchelon hw hne hi
  split
  · rename_i heq
    subst heq
    exact cell_of_leadsWithOne (h.leadsWithOne _ (List.getElem_mem hi)) hlead
  · rename_i hci
    exact h.cell_eq_zero (List.getElem_mem hi) (List.getElem_mem hc) hlead
      (leading?_getElem h.toIsEchelon hw hne hc) hci

/-! ### Rows beside others -/

theorem toMatrix_beside_left (hw : HasWidth q rows) (hlen : rows.length = right.length) :
    toMatrix p q (List.zipWith (· ++ ·) rows right) = toMatrix p q rows := by
  refine Matrix.ext fun i c => ?_
  rw [toMatrix_apply, cellAt?_beside hw hlen, if_pos c.isLt]
  rfl

theorem toMatrix_beside_castAdd (hw : HasWidth q rows) (hlen : rows.length = right.length)
    (i : Fin p) (c : Fin q) :
    toMatrix p (q + s) (List.zipWith (· ++ ·) rows right) i (Fin.castAdd s c) =
      toMatrix p q rows i c := by
  rw [← toMatrix_beside_left hw hlen]
  rfl

theorem toMatrix_beside_natAdd (hw : HasWidth q rows) (hlen : rows.length = right.length)
    (i : Fin p) (c : Fin s) :
    toMatrix p (q + s) (List.zipWith (· ++ ·) rows right) i (Fin.natAdd q c) =
      toMatrix p s right i c := by
  rw [toMatrix_apply, cellAt?_beside hw hlen, Fin.val_natAdd, if_neg (by omega),
    Nat.add_sub_cancel_left]
  rfl

/-- A product with rows beside others is one with both. -/
theorem mul_toMatrix_beside_iff {rows' right' : Rows Rat} (hw : HasWidth q rows)
    (hlen : rows.length = right.length) (hw' : HasWidth q rows')
    (hlen' : rows'.length = right'.length) (X : Matrix (Fin k) (Fin p) (Complex Rat)) :
    X * toMatrix p (q + s) (List.zipWith (· ++ ·) rows right) =
        toMatrix k (q + s) (List.zipWith (· ++ ·) rows' right') ↔
      X * toMatrix p q rows = toMatrix k q rows' ∧
        X * toMatrix p s right = toMatrix k s right' := by
  simp only [← Matrix.ext_iff, Matrix.mul_apply]
  constructor
  · intro h
    constructor
    · intro i c
      simpa only [toMatrix_beside_castAdd hw hlen, toMatrix_beside_castAdd hw' hlen'] using
        h i (Fin.castAdd s c)
    · intro i c
      simpa only [toMatrix_beside_natAdd hw hlen, toMatrix_beside_natAdd hw' hlen'] using
        h i (Fin.natAdd q c)
  · rintro ⟨hleft, hright⟩ i c
    refine Fin.addCases (fun c => ?_) (fun c => ?_) c
    · simpa only [toMatrix_beside_castAdd hw hlen, toMatrix_beside_castAdd hw' hlen'] using
        hleft i c
    · simpa only [toMatrix_beside_natAdd hw hlen, toMatrix_beside_natAdd hw' hlen'] using
        hright i c

/-- The width of what stands on the right is what is left. -/
theorem hasWidth_of_beside (hw : HasWidth q rows) (hlen : rows.length = right.length)
    (h : HasWidth (q + s) (List.zipWith (· ++ ·) rows right)) : HasWidth s right := by
  intro row hrow
  obtain ⟨i, hi, rfl⟩ := List.mem_iff_getElem.mp hrow
  have hi' : i < (List.zipWith (· ++ ·) rows right).length := by
    rw [List.length_zipWith, hlen, Nat.min_self]
    exact hi
  have hlength := h _ (List.getElem_mem hi')
  rw [List.getElem_zipWith, List.length_append, hw _ (List.getElem_mem _)] at hlength
  exact Nat.add_left_cancel hlength

/-! ### Reducing a square matrix -/

theorem HasSize.reducedRowEchelon (hm : HasSize n m) (hr : m.reducedRowEchelon = .ok r) :
    HasSize n r := by
  obtain ⟨hwf, hshape, -⟩ := hm.toWellFormed.reducedRowEchelon hr
  exact ⟨hwf, hshape.trans hm.shape_eq⟩

/-- **A matrix is reduced to the identity exactly if its determinant is not zero.** -/
theorem HasSize.toMatrix_eq_one_iff (hm : HasSize n m) (hr : m.reducedRowEchelon = .ok r) :
    toMatrix n n r.rows = 1 ↔ (toMatrix n n m.rows).det ≠ 0 := by
  have hrsize := hm.reducedRowEchelon hr
  obtain ⟨-, hspace⟩ := isReduced_of_reducedRowEchelon hm.toWellFormed hr
  constructor
  · intro hone
    obtain ⟨X, hX⟩ := (rowSpace_le_iff_exists_mul hm.rowCount_eq hrsize.rowCount_eq hm.hasWidth
      hrsize.hasWidth).mp hspace.le
    exact Matrix.det_ne_zero_of_left_inverse (hX.trans hone)
  · intro hdet
    obtain ⟨unit, hunit⟩ := exists_identity (hm.rowCount_eq ▸ hm.rowCount_pos)
    have husize := hasSize_identity hunit
    have hone := toMatrix_of_identity hunit
    -- the inverse leads from the matrix to the identity, and the matrix leads back
    have hunitspace : rowSpace unit.rows = rowSpace m.rows :=
      rowSpace_eq_of_mul hm.rowCount_eq husize.rowCount_eq hm.hasWidth husize.hasWidth
        (toMatrix n n m.rows)⁻¹ (toMatrix n n m.rows)
        ((Matrix.nonsing_inv_mul _ (isUnit_iff_ne_zero.mpr hdet)).trans hone.symm)
        (by rw [hone, mul_one])
    have hreduced := ((beginsWithUnit_iff husize.rowCount_eq).mpr hone).isReduced
    have hlen : unit.rows.length = m.rows.length := husize.rowCount_eq.trans hm.rowCount_eq.symm
    rw [rows_eq_of_isReduced hm.toWellFormed hr hreduced hlen
      (hm.columnCount_eq.symm ▸ husize.hasWidth) hunitspace, hone]

theorem leading?_eq_none_iff_forall {row : List (Complex Rat)} :
    leading? row = none ↔ ∀ x ∈ row, x = 0 := by
  simp [leading?, List.findIdx?_eq_none_iff]

/-- Rows in echelon form end with one of zeros, if there is any. -/
theorem IsEchelon.last_eq_zero_iff (h : IsEchelon rows) :
    (∃ last, rows.getLast? = some last ∧ ∀ x ∈ last, x = 0) ↔
      ∃ row ∈ rows, leading? row = none := by
  constructor
  · rintro ⟨last, hlast, hzero⟩
    exact ⟨last, List.mem_of_getLast? hlast, leading?_eq_none_iff_forall.mpr hzero⟩
  · rintro ⟨row, hrow, hnone⟩
    rcases rows.eq_nil_or_concat' with rfl | ⟨front, last, rfl⟩
    · cases hrow
    · refine ⟨last, List.getLast?_concat, leading?_eq_none_iff_forall.mp ?_⟩
      rcases List.mem_append.mp hrow with hfront | hlast
      · have hprec := (List.pairwise_append.mp h.staircase).2.2 row hfront last
          (List.mem_singleton_self last)
        exact leading?_eq_none_of_precedes hprec hnone
      · exact List.mem_singleton.mp hlast ▸ hnone

/-- **A square matrix is singular exactly if the last row of its reduced form is zero.** -/
theorem HasSize.last_eq_zero_iff (hm : HasSize n m) (hr : m.reducedRowEchelon = .ok r) :
    (∃ last, r.rows.getLast? = some last ∧ ∀ x ∈ last, x = 0) ↔
      (toMatrix n n m.rows).det = 0 := by
  have hrsize := hm.reducedRowEchelon hr
  obtain ⟨hreduced, -⟩ := isReduced_of_reducedRowEchelon hm.toWellFormed hr
  have hw : HasWidth r.rowCount r.rows := hrsize.rowCount_eq.symm ▸ hrsize.hasWidth
  have hunit : BeginsWithUnit r.rows ↔ (toMatrix n n m.rows).det ≠ 0 :=
    (beginsWithUnit_iff hrsize.rowCount_eq).trans (hm.toMatrix_eq_one_iff hr)
  rw [hreduced.toIsEchelon.last_eq_zero_iff, ← not_iff_not, ← ne_eq, ← hunit]
  constructor
  · intro hnone
    exact hreduced.beginsWithUnit hw fun row hrow hzero => hnone ⟨row, hrow, hzero⟩
  · rintro hbegins ⟨row, hrow, hzero⟩
    obtain ⟨i, hi, rfl⟩ := List.mem_iff_getElem.mp hrow
    rw [hbegins.leading?_eq hi] at hzero
    cases hzero

/-! ### Reducing a matrix with the identity beside it -/

theorem exists_beside (h : a.rowCount = b.rowCount) :
    ∃ r, a.beside b = (.ok r : Except (MatrixError Rat) _) := ⟨_, if_pos h⟩

theorem HasSize.beside (ha : HasSize n a) (hb : HasSize n b)
    (h : a.beside b = (.ok r : Except (MatrixError Rat) _)) :
    r.WellFormed ∧ r.rowCount = n ∧ r.columnCount = n + n := by
  obtain ⟨hwf, hshape⟩ := ha.toWellFormed.beside hb.toWellFormed h
  obtain ⟨hrows, hcols⟩ := Prod.mk.inj hshape
  exact ⟨hwf, hrows.trans ha.rowCount_eq, by rw [hcols, ha.columnCount_eq, hb.columnCount_eq]⟩

theorem HasSize.mul_toMatrix_iff {a' b' r' : ComplexMatrix Rat} (ha : HasSize n a)
    (ha' : HasSize n a') (h : a.beside b = (.ok r : Except (MatrixError Rat) _))
    (h' : a'.beside b' = (.ok r' : Except (MatrixError Rat) _))
    (X : Matrix (Fin n) (Fin n) (Complex Rat)) :
    X * toMatrix n (n + n) r.rows = toMatrix n (n + n) r'.rows ↔
      X * toMatrix n n a.rows = toMatrix n n a'.rows ∧
        X * toMatrix n n b.rows = toMatrix n n b'.rows := by
  obtain ⟨hlen, rfl⟩ := beside_eq_ok h
  obtain ⟨hlen', rfl⟩ := beside_eq_ok h'
  exact mul_toMatrix_beside_iff ha.hasWidth hlen ha'.hasWidth hlen' X

section Beside
variable {joined expected reduced : ComplexMatrix Rat}
variable (hm : HasSize n m) (hunit : identity n = .ok unit)
  (hjoined : m.beside unit = (.ok joined : Except (MatrixError Rat) _))
  (hexpected : unit.beside b = (.ok expected : Except (MatrixError Rat) _))
  (hreduced : joined.reducedRowEchelon = .ok reduced)
include hm hunit hjoined hexpected hreduced

/-- **The identity moves to the left and the inverse appears on the right.** -/
theorem rows_eq_of_mul_eq_one (hb : HasSize n b)
    (hmul : toMatrix n n m.rows * toMatrix n n b.rows = 1) : reduced.rows = expected.rows := by
  have husize := hasSize_identity hunit
  have hone := toMatrix_of_identity hunit
  obtain ⟨hjwf, hjrows, hjcols⟩ := hm.beside husize hjoined
  obtain ⟨hewf, herows, hecols⟩ := husize.beside hb hexpected
  -- multiplying by `b` leads from `m` and the identity to the identity and `b`, and by `m` back
  have hspace : rowSpace expected.rows = rowSpace joined.rows :=
    rowSpace_eq_of_mul hjrows herows (hjcols ▸ hjwf.length_row) (hecols ▸ hewf.length_row)
      (toMatrix n n b.rows) (toMatrix n n m.rows)
      ((hm.mul_toMatrix_iff husize hjoined hexpected _).mpr
        ⟨(mul_eq_one_comm.mp hmul).trans hone.symm, by rw [hone, mul_one]⟩)
      ((husize.mul_toMatrix_iff hm hexpected hjoined _).mpr
        ⟨by rw [hone, mul_one], hmul.trans hone.symm⟩)
  have hbegins : toMatrix n n expected.rows = 1 := by
    obtain ⟨hlen, rfl⟩ := beside_eq_ok hexpected
    exact (toMatrix_beside_left husize.hasWidth hlen).trans hone
  exact rows_eq_of_isReduced hjwf hreduced ((beginsWithUnit_iff herows).mpr hbegins).isReduced
    (herows.trans hjrows.symm) (hjcols.trans hecols.symm ▸ hewf.length_row) hspace

/-- **What leads to the identity is an inverse.** -/
theorem mul_eq_one_of_rows_eq (hrows : reduced.rows = expected.rows) :
    b.rows.length = n ∧ HasWidth n b.rows ∧ toMatrix n n b.rows * toMatrix n n m.rows = 1 := by
  have husize := hasSize_identity hunit
  have hone := toMatrix_of_identity hunit
  obtain ⟨hjwf, hjrows, hjcols⟩ := hm.beside husize hjoined
  obtain ⟨hw, hlen⟩ := hasWidth_of_reducedRowEchelon hjwf hreduced
  obtain ⟨-, hspace⟩ := isReduced_of_reducedRowEchelon hjwf hreduced
  rw [hrows] at hw hlen hspace
  obtain ⟨X, hX⟩ := (rowSpace_le_iff_exists_mul hjrows (hlen.trans hjrows)
    (hjcols ▸ hjwf.length_row) (hjcols ▸ hw)).mp hspace.le
  obtain ⟨hXm, hXunit⟩ := (hm.mul_toMatrix_iff husize hjoined hexpected X).mp hX
  rw [hone, mul_one] at hXunit
  rw [hone] at hXm
  obtain ⟨hblen, rfl⟩ := beside_eq_ok hexpected
  exact ⟨hblen.symm.trans husize.rowCount_eq,
    hasWidth_of_beside husize.hasWidth hblen (hjcols ▸ hw), hXunit ▸ hXm⟩

end Beside

/-! ### Both ways to an inverse -/

theorem beside_congr (h : a.rows = b.rows) :
    (unit.beside a : Except (MatrixError Rat) _) = unit.beside b := by
  unfold LabelledMatrix.beside shape rowCount columnCount
  rw [h]

/-- **The adjugate and the elimination give the same inverse.**  A square matrix has the inverse `b`
exactly if the matrix with the identity beside it is reduced to the identity with `b` beside it, and
it has none exactly if its own reduced form ends in a row of zeros. -/
theorem inverse_iff_reducedRowEchelon (hm : m.Valid) (hsquare : m.rowCount = m.columnCount) :
    (∀ b : ComplexMatrix Rat,
      (∃ inverse, m.inverse = .ok (some inverse) ∧ inverse.rows = b.rows) ↔
        ∃ unit joined reduced expected, identity m.rowCount = .ok unit ∧
          m.beside unit = (.ok joined : Except (MatrixError Rat) _) ∧
          joined.reducedRowEchelon = .ok reduced ∧
          unit.beside b = (.ok expected : Except (MatrixError Rat) _) ∧
          reduced.rows = expected.rows) ∧
    (m.inverse = .ok none ↔ ∃ reduced last, m.reducedRowEchelon = .ok reduced ∧
      reduced.rows.getLast? = some last ∧ ∀ x ∈ last, x = 0) := by
  have hsize := hm.toWellFormed.hasSize hsquare
  have hd := hm.determinant_eq_det hsize
  constructor
  · intro b
    constructor
    · rintro ⟨inverse, hinverse, hrows⟩
      obtain ⟨_, hinverse', -, hisize, hproduct⟩ :=
        hm.exists_inverse_of_not_none (by rw [hinverse]; nofun)
      obtain rfl := Option.some.inj (Except.ok.inj (hinverse.symm.trans hinverse'))
      obtain ⟨unit, hunit⟩ := exists_identity hm.rowCount_pos
      have husize := hasSize_identity hunit
      obtain ⟨joined, hjoined⟩ := exists_beside (hsize.rowCount_eq.trans husize.rowCount_eq.symm)
      obtain ⟨reduced, hreduced⟩ := exists_reducedRowEchelon joined
      obtain ⟨expected, hexpected⟩ :=
        exists_beside (husize.rowCount_eq.trans hisize.rowCount_eq.symm)
      exact ⟨unit, joined, reduced, expected, hunit, hjoined, hreduced,
        (beside_congr hrows).symm.trans hexpected,
        rows_eq_of_mul_eq_one hsize hunit hjoined hexpected hreduced hisize hproduct⟩
    · rintro ⟨unit, joined, reduced, expected, hunit, hjoined, hreduced, hexpected, hrows⟩
      obtain ⟨hlen, hw, hmul⟩ :=
        mul_eq_one_of_rows_eq hsize hunit hjoined hexpected hreduced hrows
      obtain ⟨inverse, hinverse, hisize, hproduct⟩ :=
        hm.exists_inverse hsize hd (Matrix.det_ne_zero_of_left_inverse hmul)
      exact ⟨inverse, hinverse, rows_eq_of_toMatrix_eq hisize.rowCount_eq hlen hisize.hasWidth hw
        (left_inv_eq_right_inv hmul hproduct).symm⟩
  · obtain ⟨reduced, hreduced⟩ := exists_reducedRowEchelon m
    have hlast := hsize.last_eq_zero_iff hreduced
    rw [hm.inverse_eq_none_iff, hd, Option.some.injEq, or_iff_right (not_not.mpr hsquare), ← hlast]
    constructor
    · rintro ⟨last, hlast⟩
      exact ⟨reduced, last, hreduced, hlast⟩
    · rintro ⟨reduced', last, hreduced', hlast⟩
      obtain rfl : reduced = reduced' := Except.ok.inj (hreduced.symm.trans hreduced')
      exact ⟨last, hlast⟩

/-- Two rows with an inverse, and two without. -/
theorem inverse_iff_reducedRowEchelon_of_two_rows :
    let m : ComplexMatrix Rat := { rows := [[1, ⟨0, 1⟩], [0, ⟨2, 0⟩]] }
    let b : ComplexMatrix Rat := { rows := [[1, ⟨0, -1 / 2⟩], [0, ⟨1 / 2, 0⟩]] }
    let singular : ComplexMatrix Rat := { rows := [[1, ⟨0, 1⟩], [⟨0, 1⟩, ⟨-1, 0⟩]] }
    m.Valid ∧ singular.Valid ∧
      (∃ unit joined reduced expected, identity 2 = .ok unit ∧
        m.beside unit = (.ok joined : Except (MatrixError Rat) _) ∧
        joined.reducedRowEchelon = .ok reduced ∧
        unit.beside b = (.ok expected : Except (MatrixError Rat) _) ∧
        reduced.rows = expected.rows) ∧
      ∃ reduced last, singular.reducedRowEchelon = .ok reduced ∧
        reduced.rows.getLast? = some last ∧ ∀ x ∈ last, x = 0 := by
  intro m b singular
  have hm : m.Valid := WellFormed.valid (by decide) rfl
  have hsingular : singular.Valid := WellFormed.valid (by decide) rfl
  obtain ⟨hsome, -⟩ := inverse_iff_reducedRowEchelon hm rfl
  obtain ⟨-, hnone⟩ := inverse_iff_reducedRowEchelon hsingular rfl
  refine ⟨hm, hsingular, (hsome b).mp ?_, hnone.mp ?_⟩
  · have hrows : (m.inverse.toOption.join).map LabelledMatrix.rows = some b.rows := by
      decide +kernel
    obtain ⟨inverse, hinverse, -⟩ := hm.exists_inverse_of_not_none fun h => by
      rw [h] at hrows
      cases hrows
    rw [hinverse] at hrows
    exact ⟨inverse, hinverse, Option.some.inj hrows⟩
  · exact hsingular.inverse_eq_none_iff.mpr (.inr (by decide +kernel))

end LinearEquations.LabelledMatrix
