import LinearEquations.Proofs.Determinant

/-! # Adjugates and inverses

The minors of a square matrix, with the signs of a checkerboard and transposed, are its adjugate in
the sense of linear algebra (`WellFormed.toMatrix_adjugate`).  A matrix times its adjugate is
therefore the determinant times the identity, from both sides (`Valid.multiplyTo_adjugate`), and the
adjugate over the determinant is the inverse (`Valid.exists_inverse`).

Nothing on the way can fail when the matrix is square, so an inverse is missing only if there is
none (`Valid.inverse_eq_none_iff`).  All this needs that the matrix remembers no wrong determinant,
which is so of every matrix of a run (`isInvariant_valid`). -/

namespace LinearEquations.LabelledMatrix
variable {n : Nat} {m a b c r : ComplexMatrix Rat} {rows : List (List (Complex Rat))}

/-! ### Minors, cofactors and the adjugate -/

/-- A cell of the matrix of minors.  A single row has only the empty minor. -/
theorem minor_eq_det (hlen : rows.length = n + 1) (hw : HasWidth (n + 1) rows) (i j : Fin (n + 1)) :
    (if n + 1 = 1 then 1 else expand (n + 1 - 2) (without i j rows)) =
      ((toMatrix (n + 1) (n + 1) rows).submatrix i.succAbove j.succAbove).det := by
  cases n with
  | zero => rw [if_pos rfl, Matrix.det_isEmpty]
  | succ n =>
    have hlen' : (without i j rows).length = n + 1 := by
      rw [length_without (i.isLt.trans_eq hlen.symm), hlen, Nat.add_sub_cancel]
    rw [if_neg (by omega), ← toMatrix_without]
    exact expand_eq_det hlen' (hasWidth_without hw j.isLt)

theorem toMatrix_minors (hlen : m.rows.length = n + 1) (hw : HasWidth (n + 1) m.rows)
    (h : m.minors = .ok r) (i j : Fin (n + 1)) : toMatrix (n + 1) (n + 1) r.rows i j =
      ((toMatrix (n + 1) (n + 1) m.rows).submatrix i.succAbove j.succAbove).det := by
  obtain ⟨hsquare, rfl⟩ := minors_eq_ok h
  have hrows : m.rowCount = n + 1 := hlen
  rw [← hsquare, hrows, toMatrix_table, Matrix.of_apply, minor_eq_det hlen hw]

theorem checkerboard_eq_mul (k : Nat) (x : Complex Rat) :
    (if k % 2 = 0 then x else -x) = (-1) ^ k * x := by
  rw [neg_one_pow_eq_ite, ite_mul, one_mul, neg_one_mul]
  exact if_congr Nat.even_iff.symm rfl rfl

theorem toMatrix_cofactor (hlen : m.rows.length = n + 1) (hw : HasWidth (n + 1) m.rows)
    (h : m.cofactor = .ok r) (i j : Fin (n + 1)) : toMatrix (n + 1) (n + 1) r.rows i j =
      (-1) ^ (j + i : Nat) *
        ((toMatrix (n + 1) (n + 1) m.rows).submatrix i.succAbove j.succAbove).det := by
  obtain ⟨minors, hminors, rfl⟩ := cofactor_eq_ok h
  rw [← toMatrix_minors hlen hw hminors, toMatrix_apply, toMatrix_apply,
    cellAt?_mapIdx fun r c x => if (c + r) % 2 = 0 then x else -x]
  cases cellAt? minors.rows i j with
  | none => exact (mul_zero _).symm
  | some x => exact checkerboard_eq_mul (j + i) x

/-- **The adjugate is the adjugate of linear algebra.** -/
theorem WellFormed.toMatrix_adjugate (hm : m.WellFormed) (hn : m.rowCount = n)
    (h : m.adjugate = .ok r) : toMatrix n n r.rows = (toMatrix n n m.rows).adjugate := by
  obtain ⟨cofactors, hcofactors, rfl⟩ := adjugate_eq_ok h
  obtain ⟨minors, hminors, -⟩ := cofactor_eq_ok hcofactors
  obtain ⟨k, hlen, hw⟩ := hm.exists_size (minors_eq_ok hminors).1
  obtain rfl : n = k + 1 := hn.symm.trans hlen
  -- row `i` and column `j` of the adjugate belong to the minor without row `j` and column `i`
  refine Matrix.ext fun i j => ?_
  change toMatrix (k + 1) (k + 1) cofactors.columns i j = _
  rw [toMatrix_columns (hm.cofactor hcofactors).1.length_row, Matrix.transpose_apply,
    toMatrix_cofactor hlen hw hcofactors, Matrix.adjugate_fin_succ_eq_det_submatrix, add_comm]

/-- Every square matrix has an adjugate. -/
theorem exists_adjugate (hsquare : m.rowCount = m.columnCount) : ∃ r, m.adjugate = .ok r := by
  have hminors : m.minors = .ok _ := if_pos (decide_eq_true hsquare)
  have hcofactor : m.cofactor = .ok _ := bind_eq_ok.mpr ⟨_, hminors, rfl⟩
  exact ⟨_, bind_eq_ok.mpr ⟨_, hcofactor, rfl⟩⟩

/-! ### Square matrices of the same size -/

/-- A well-formed matrix with `n` rows and `n` columns. -/
structure HasSize (n : Nat) (m : ComplexMatrix Rat) : Prop extends WellFormed m where
  shape_eq : m.shape = (n, n)

theorem WellFormed.hasSize (hm : m.WellFormed) (hsquare : m.rowCount = m.columnCount) :
    HasSize m.rowCount m := ⟨hm, congrArg (m.rowCount, ·) hsquare.symm⟩

theorem HasSize.rowCount_eq (hm : HasSize n m) : m.rowCount = n := congrArg Prod.fst hm.shape_eq

theorem HasSize.columnCount_eq (hm : HasSize n m) : m.columnCount = n :=
  congrArg Prod.snd hm.shape_eq

theorem HasSize.hasWidth (hm : HasSize n m) : HasWidth n m.rows :=
  hm.columnCount_eq ▸ hm.length_row

theorem HasSize.map (hm : HasSize n m) (f : Complex Rat → Complex Rat) : HasSize n (m.map f) := by
  obtain ⟨hwf, hshape⟩ := hm.toWellFormed.map f
  exact ⟨hwf, hshape.trans hm.shape_eq⟩

theorem HasSize.adjugate (hm : HasSize n m) (h : m.adjugate = .ok r) : HasSize n r := by
  obtain ⟨hwf, hshape⟩ := hm.toWellFormed.adjugate h
  exact ⟨hwf, by rw [hshape, hm.columnCount_eq, hm.rowCount_eq]⟩

theorem hasSize_identity (h : identity n = .ok r) : HasSize n r := by
  obtain ⟨hwf, hshape⟩ := WellFormed.identity h
  exact ⟨hwf, hshape⟩

theorem exists_identity (hn : 0 < n) : ∃ r : ComplexMatrix Rat, identity n = .ok r :=
  ⟨_, if_neg hn.ne'⟩

theorem toMatrix_of_identity (h : identity n = .ok r) : toMatrix n n r.rows = 1 := by
  obtain ⟨-, rfl⟩ := identity_eq_ok h
  exact toMatrix_identity n

theorem scale_rat (m : ComplexMatrix Rat) (k : Operand Rat) :
    m.scale k = .ok (m.map (· * k.value)) := rfl

/-! ### Products with a given result -/

/-- Multiplied in either order, two matrices give the rows of the third. -/
def MultiplyTo (a b c : ComplexMatrix Rat) : Prop :=
  (∃ p, a.times b = .ok p ∧ p.rows = c.rows) ∧ ∃ q, b.times a = .ok q ∧ q.rows = c.rows

/-- Square matrices of the same size can be multiplied, and multiply as in linear algebra. -/
theorem HasSize.times_eq (ha : HasSize n a) (hb : HasSize n b) (hc : HasSize n c)
    (h : toMatrix n n a.rows * toMatrix n n b.rows = toMatrix n n c.rows) :
    ∃ p, a.times b = .ok p ∧ p.rows = c.rows := by
  have hp : a.times b = .ok _ :=
    times_eq_ok.mpr ⟨ha.columnCount_eq.trans hb.rowCount_eq.symm, rfl⟩
  obtain ⟨hpwf, hpshape⟩ := ha.toWellFormed.times hb.toWellFormed hp
  have hpsize : HasSize n _ := ⟨hpwf, by rw [hpshape, ha.rowCount_eq, hb.columnCount_eq]⟩
  refine ⟨_, hp, rows_eq_of_toMatrix_eq hpsize.rowCount_eq hc.rowCount_eq hpsize.hasWidth
    hc.hasWidth ?_⟩
  rw [toMatrix_times ha.toWellFormed hb.toWellFormed hp ha.rowCount_eq ha.columnCount_eq
    hb.columnCount_eq, h]

theorem HasSize.multiplyTo (ha : HasSize n a) (hb : HasSize n b) (hc : HasSize n c)
    (hab : toMatrix n n a.rows * toMatrix n n b.rows = toMatrix n n c.rows)
    (hba : toMatrix n n b.rows * toMatrix n n a.rows = toMatrix n n c.rows) : MultiplyTo a b c :=
  ⟨ha.times_eq hb hc hab, hb.times_eq ha hc hba⟩

/-! ### Inverses -/

/-- There is no inverse where there is no determinant, or where it is zero. -/
theorem inverse_eq_none (h : m.determinant = none ∨ m.determinant = some 0) :
    m.inverse = .ok none := by
  rcases h with h | h
  · rw [inverse, h]
  · rw [inverse, h]
    rfl

/-- Otherwise the inverse is the adjugate over the determinant. -/
theorem inverse_eq_map {d : Complex Rat} (hd : m.determinant = some d) (hne : d ≠ 0)
    (hr : m.adjugate = .ok r) : m.inverse = .ok (some (r.map (· * d⁻¹))) := by
  have hzero : d.isZero = false := (Complex.isZero_eq_false_iff d).mpr hne
  simp only [inverse, hd, hzero, Complex.reciprocal_eq_ok hne, hr]
  rfl

section Square
variable (hm : m.Valid) (hsize : HasSize n m)
include hm hsize

theorem Valid.determinant_eq_det : m.determinant = some (toMatrix n n m.rows).det := by
  rw [hm.determinant_eq, if_pos (hsize.rowCount_eq.trans hsize.columnCount_eq.symm), leibniz_eq_det,
    hsize.rowCount_eq]

/-- **A matrix times its adjugate is its determinant times the identity.** -/
theorem Valid.multiplyTo_adjugate {d : Complex Rat} {unit : ComplexMatrix Rat}
    (hd : m.determinant = some d) (hr : m.adjugate = .ok r)
    (hunit : LabelledMatrix.identity n = .ok unit) : MultiplyTo m r (unit.map (· * d)) := by
  obtain rfl : d = _ := Option.some.inj (hd.symm.trans (hm.determinant_eq_det hsize))
  have hadjugate := hm.toWellFormed.toMatrix_adjugate hsize.rowCount_eq hr
  have hscaled : toMatrix n n (unit.map (· * (toMatrix n n m.rows).det)).rows =
      (toMatrix n n m.rows).det • 1 := by
    rw [← toMatrix_of_identity hunit]
    exact toMatrix_map_mul _ unit.rows
  refine hsize.multiplyTo (hsize.adjugate hr) ((hasSize_identity hunit).map _) ?_ ?_
  · rw [hadjugate, Matrix.mul_adjugate, hscaled]
  · rw [hadjugate, Matrix.adjugate_mul, hscaled]

/-- **A matrix whose determinant is not zero has an inverse.** -/
theorem Valid.exists_inverse {d : Complex Rat} (hd : m.determinant = some d) (hne : d ≠ 0) :
    ∃ b, m.inverse = .ok (some b) ∧ HasSize n b ∧
      toMatrix n n m.rows * toMatrix n n b.rows = 1 := by
  obtain ⟨r, hr⟩ := exists_adjugate (hsize.rowCount_eq.trans hsize.columnCount_eq.symm)
  obtain hdet : d = _ := Option.some.inj (hd.symm.trans (hm.determinant_eq_det hsize))
  refine ⟨_, inverse_eq_map hd hne hr, (hsize.adjugate hr).map _, ?_⟩
  have hrows : toMatrix n n (r.map (· * d⁻¹)).rows = d⁻¹ • toMatrix n n r.rows :=
    toMatrix_map_mul d⁻¹ r.rows
  rw [hrows, hm.toWellFormed.toMatrix_adjugate hsize.rowCount_eq hr, Matrix.mul_smul,
    Matrix.mul_adjugate, ← hdet, smul_smul, inv_mul_cancel₀ hne, one_smul]

end Square

theorem Valid.inverse_eq_none_iff (hm : m.Valid) :
    m.inverse = .ok none ↔ m.rowCount ≠ m.columnCount ∨ m.determinant = some 0 := by
  by_cases hsquare : m.rowCount = m.columnCount
  · have hsize := hm.toWellFormed.hasSize hsquare
    obtain ⟨d, hd⟩ : ∃ d, m.determinant = some d := ⟨_, hm.determinant_eq_det hsize⟩
    by_cases hzero : d = 0
    · have hd' : m.determinant = some 0 := hd.trans (congrArg some hzero)
      exact iff_of_true (inverse_eq_none (.inr hd')) (.inr hd')
    · obtain ⟨b, hb, -⟩ := hm.exists_inverse hsize hd hzero
      rw [hb, hd]
      exact iff_of_false nofun (not_or.mpr ⟨not_not.mpr hsquare, mt Option.some.inj hzero⟩)
  · refine iff_of_true (inverse_eq_none (.inl ?_)) (.inl hsquare)
    rw [hm.determinant_eq, if_neg hsquare]

theorem Valid.exists_inverse_of_not_none (hm : m.Valid) (h : m.inverse ≠ .ok none) :
    ∃ b, m.inverse = .ok (some b) ∧ HasSize m.rowCount m ∧ HasSize m.rowCount b ∧
      toMatrix m.rowCount m.rowCount m.rows * toMatrix m.rowCount m.rowCount b.rows = 1 := by
  obtain ⟨hsquare, hzero⟩ := not_or.mp (mt hm.inverse_eq_none_iff.mpr h)
  have hsize := hm.toWellFormed.hasSize (not_not.mp hsquare)
  have hd := hm.determinant_eq_det hsize
  obtain ⟨b, hb, hbsize, hproduct⟩ := hm.exists_inverse hsize hd fun h0 => hzero (h0 ▸ hd)
  exact ⟨b, hb, hsize, hbsize, hproduct⟩

/-- **The adjugate and the inverse are what they are called.**  A square matrix times its adjugate,
from either side, is its determinant times the identity.  Asking for an inverse never fails; there
is none exactly if the matrix is not square or its determinant is zero, and otherwise the inverse
times the matrix, from either side, is the identity. -/
theorem times_adjugate_and_inverse (hm : m.Valid) :
    (m.rowCount = m.columnCount → ∃ d adjugate unit multiple,
      m.determinant = some d ∧ m.adjugate = .ok adjugate ∧ identity m.rowCount = .ok unit ∧
        unit.scale (.complex d) = .ok multiple ∧ MultiplyTo m adjugate multiple) ∧
    ∃ inverse, m.inverse = .ok inverse ∧
      (inverse = none ↔ m.rowCount ≠ m.columnCount ∨ m.determinant = some 0) ∧
      ∀ b, inverse = some b → ∃ unit, identity m.rowCount = .ok unit ∧ MultiplyTo m b unit := by
  obtain ⟨unit, hunit⟩ := exists_identity hm.rowCount_pos
  constructor
  · intro hsquare
    have hsize := hm.toWellFormed.hasSize hsquare
    have hd := hm.determinant_eq_det hsize
    obtain ⟨adjugate, hadjugate⟩ := exists_adjugate hsquare
    exact ⟨_, adjugate, unit, _, hd, hadjugate, hunit, scale_rat unit _,
      hm.multiplyTo_adjugate hsize hd hadjugate hunit⟩
  · by_cases hnone : m.inverse = .ok none
    · exact ⟨none, hnone, iff_of_true rfl (hm.inverse_eq_none_iff.mp hnone), nofun⟩
    · obtain ⟨b, hb, hsize, hbsize, hproduct⟩ := hm.exists_inverse_of_not_none hnone
      refine ⟨some b, hb, iff_of_false nofun (mt hm.inverse_eq_none_iff.mpr hnone), ?_⟩
      rintro _ ⟨⟩
      have hone := (toMatrix_of_identity hunit).symm
      exact ⟨unit, hunit, hsize.multiplyTo hbsize (hasSize_identity hunit) (hproduct.trans hone)
        ((mul_eq_one_comm.mp hproduct).trans hone)⟩

/-- Two rows with the determinant `4 - 6i`. -/
theorem times_adjugate_and_inverse_of_two_rows :
    let m : ComplexMatrix Rat := { rows := [[⟨1, 0⟩, ⟨0, 2⟩], [⟨3, 0⟩, ⟨4, 0⟩]] }
    m.Valid ∧ m.rowCount = m.columnCount ∧ m.determinant = some ⟨4, -6⟩ ∧
      ∃ adjugate unit multiple b, m.adjugate = .ok adjugate ∧ identity 2 = .ok unit ∧
        unit.scale (.complex ⟨4, -6⟩) = .ok multiple ∧ MultiplyTo m adjugate multiple ∧
        m.inverse = .ok (some b) ∧ MultiplyTo m b unit := by
  intro m
  have hm : m.Valid := WellFormed.valid (by decide) rfl
  have hd : m.determinant = some ⟨4, -6⟩ := by decide +kernel
  obtain ⟨hadjugate, inverse, hinverse, hnone, hsome⟩ := times_adjugate_and_inverse hm
  obtain ⟨d, adjugate, unit, multiple, hd', hadj, hunit, hmultiple, hproduct⟩ := hadjugate rfl
  obtain rfl : d = ⟨4, -6⟩ := Option.some.inj (hd'.symm.trans hd)
  obtain ⟨b, rfl⟩ : ∃ b, inverse = some b := Option.ne_none_iff_exists'.mp fun h => by
    rcases hnone.mp h with h | h
    · exact h rfl
    · rw [hd] at h
      exact absurd h (by decide)
  obtain ⟨unit', hunit', hb⟩ := hsome b rfl
  obtain rfl : unit = unit' := Except.ok.inj (hunit.symm.trans hunit')
  exact ⟨hm, rfl, hd, adjugate, unit, multiple, b, hadj, hunit, hmultiple, hproduct, hinverse, hb⟩

end LinearEquations.LabelledMatrix
