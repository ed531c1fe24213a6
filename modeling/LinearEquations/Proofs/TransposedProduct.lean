import LinearEquations.Proofs.DoubleArithmetic
import LinearEquations.Proofs.GaussianRational
import LinearEquations.Proofs.ReducedDoubles

/-! # Products of transposed matrices

The transpose of a product is the product of the transposes in the other order.  Of rounded
arithmetic this needs no more than that sums and products of scalars do not depend on the order of
their operands (`CommutativeScalar`): both sides add up the same products of cells in the same
order, and what differs is the order inside a product of complex numbers (`Complex.mul_swap`).  So
the two sides are the same matrix, with the same bits.

Adjoints are also conjugated.  Opposite imaginary parts stay opposite through all sums and products,
because rounding knows no direction, but where they cancel both sides have a positive zero, which is
not the opposite of itself.  The two sides therefore have the same values (`IsConjugate`), and are
equal where these are numbers. -/

namespace LinearEquations

/-- Scalars whose sums and products do not depend on the order of the operands. -/
class CommutativeScalar (R : Type) [Scalar R] : Prop where
  add_swap (x y : R) : x + y = y + x
  mul_swap (x y : R) : x * y = y * x

instance : CommutativeScalar Float := ⟨Double.add_comm, Double.mul_comm⟩

instance : CommutativeScalar Rat := ⟨add_comm, mul_comm⟩

namespace LabelledMatrix

/-! ### Columns -/

section Columns
variable {A B K : Type} {m : LabelledMatrix K}

/-- The columns of the columns are the rows. -/
theorem WellFormed.columns_transpose (hm : m.WellFormed) : m.transpose.columns = m.rows := by
  obtain ⟨htwf, htshape⟩ := hm.transpose
  obtain ⟨htrows, htcols⟩ := Prod.mk.inj htshape
  have hw : HasWidth m.transpose.rowCount m.transpose.columns := hasWidth_columns htwf.length_row
  have hcells : ∀ r c, cellAt? m.transpose.columns r c = cellAt? m.rows r c := fun r c =>
    (cellAt?_columns htwf.length_row r c).trans (cellAt?_columns hm.length_row c r)
  refine rows_eq_of_hasWidth ?_ hw (htrows ▸ hm.length_row) fun r _ c _ => hcells r c
  rw [length_columns, htcols]
  rfl

/-- A table of all pairs, by its columns. -/
theorem columns_of_pairs (f : A → B → K) {as : List A} (hne : as ≠ []) (bs : List B) :
    ({ rows := as.map fun a => bs.map (f a) } : LabelledMatrix K).columns =
      bs.map fun b => as.map fun a => f a b := by
  obtain ⟨a, as, rfl⟩ := List.exists_cons_of_ne_nil hne
  have hcount : ({ rows := (a :: as).map fun a => bs.map (f a) } : LabelledMatrix K).columnCount =
      bs.length := List.length_map _
  have hlen := (length_columns _).trans hcount
  refine List.ext_getElem (hlen.trans (List.length_map _).symm) fun c hc hc' => ?_
  have hlt : c < bs.length := by simpa using hc'
  simp only [columns, List.getElem_map, List.getElem_range]
  refine List.ext_getElem? fun r => ?_
  rw [getElem?_columnOf (q := bs.length) ?_ hlt]
  · simp only [cellAt?, List.getElem?_map]
    cases (a :: as)[r]? with
    | none => rfl
    | some x => simp [hlt]
  · refine List.forall_mem_map.mpr fun x _ => ?_
    rw [List.length_map]

/-- The columns of a matrix whose cells were changed one by one. -/
theorem WellFormed.columns_map {L : Type} (hm : m.WellFormed) (f : K → L) :
    (m.map f).columns = m.columns.map (List.map f) := by
  obtain ⟨hwf, hshape⟩ := hm.map f
  obtain ⟨hrows, hcols⟩ := Prod.mk.inj hshape
  refine rows_eq_of_cellAt?_eq (by rw [length_columns, hcols]; simp) fun r _ c => ?_
  rw [cellAt?_columns hwf.length_row, cellAt?_map, cellAt?_columns hm.length_row]
  exact cellAt?_map f m.rows c r

end Columns

end LabelledMatrix

/-! ### Transposes -/

section Commutative
variable {R : Type} [Scalar R] [CommutativeScalar R]

theorem Complex.mul_swap (a b : Complex R) : a * b = b * a := by
  refine Complex.ext ?_ ?_
  · change a.re * b.re - a.im * b.im = b.re * a.re - b.im * a.im
    rw [CommutativeScalar.mul_swap a.re, CommutativeScalar.mul_swap a.im]
  · change a.re * b.im + a.im * b.re = b.re * a.im + b.im * a.re
    rw [CommutativeScalar.add_swap, CommutativeScalar.mul_swap a.re,
      CommutativeScalar.mul_swap a.im]

namespace LabelledMatrix
variable {m n p r : ComplexMatrix R}

theorem dot_swap (row column : List (Complex R)) : dot row column = dot column row := by
  rw [dot, dot, List.zipWith_comm]
  simp only [Complex.mul_swap]

omit [CommutativeScalar R] in
/-- A product of transposes fits if the product in the other order does. -/
theorem WellFormed.exists_times_transpose_iff (hm : m.WellFormed) (hn : n.WellFormed) :
    (∃ p, m.times n = .ok p) ↔ ∃ r, n.transpose.times m.transpose = .ok r := by
  have hfits : ∀ a b : ComplexMatrix R, (∃ p, a.times b = .ok p) ↔ a.columnCount = b.rowCount := by
    intro a b
    constructor
    · rintro ⟨p, hp⟩
      exact (times_eq_ok.mp hp).1
    · exact fun h => ⟨_, times_eq_ok.mpr ⟨h, rfl⟩⟩
  rw [hfits, hfits, (Prod.mk.inj hn.transpose.2).2, (Prod.mk.inj hm.transpose.2).1, eq_comm]

/-- **The transpose of a product** is the product of the transposes in the other order, bit by
bit. -/
theorem WellFormed.times_transpose (hm : m.WellFormed) (hn : n.WellFormed)
    (hp : m.times n = .ok p) : n.transpose.times m.transpose = .ok p.transpose := by
  obtain ⟨r, hr⟩ := (hm.exists_times_transpose_iff hn).mp ⟨p, hp⟩
  rw [hr]
  obtain ⟨-, rfl⟩ := times_eq_ok.mp hp
  obtain ⟨-, rfl⟩ := times_eq_ok.mp hr
  refine congrArg Except.ok (LabelledMatrix.ext ?_ rfl ?_)
  · change n.columns.map (fun column => m.transpose.columns.map (dot column)) =
      LabelledMatrix.columns { rows := m.rows.map fun row => n.columns.map (dot row) }
    rw [columns_of_pairs dot (List.length_pos_iff.mp hm.rowCount_pos), hm.columns_transpose]
    simp only [dot_swap]
  · change (do return (← n.remembered) * (← m.remembered) : Option (Complex R)) =
      do return (← m.remembered) * (← n.remembered)
    cases m.remembered <;> cases n.remembered <;> simp [Complex.mul_swap]

end LabelledMatrix
end Commutative

/-! ### Adjoints -/

/-- Equal values of the real parts, and opposite values of the imaginary ones. -/
def IsConjugate (a b : Complex Float) : Prop :=
  Extended.ofFloat b.re = Extended.ofFloat a.re ∧
    Extended.ofFloat b.im = (Extended.ofFloat a.im).neg

namespace IsConjugate
variable {a a' b b' : Complex Float}

theorem conjugate (a : Complex Float) : IsConjugate a a.conjugate := ⟨rfl, ofFloat_neg_eq a.im⟩

theorem zero : IsConjugate 0 0 := by
  have hzero : Extended.ofFloat 0 = .finite 0 := by decide +kernel
  refine ⟨rfl, ?_⟩
  change Extended.ofFloat 0 = (Extended.ofFloat 0).neg
  rw [hzero]
  rfl

theorem add (ha : IsConjugate a a') (hb : IsConjugate b b') : IsConjugate (a + b) (a' + b') :=
  ⟨ofFloat_add_congr ha.1 hb.1, ofFloat_add_of_neg ha.2 hb.2⟩

/-- Two opposite imaginary parts have the same product, and all other products with one of them are
opposite. -/
theorem mul (ha : IsConjugate a a') (hb : IsConjugate b b') : IsConjugate (a * b) (a' * b') := by
  have hre : Extended.ofFloat (a'.im * b'.im) = Extended.ofFloat (a.im * b.im) := by
    have hfirst := ofFloat_mul_of_neg (y := b'.im) ha.2 rfl
    have hsecond := ofFloat_mul_of_neg (y := a.im) hb.2 rfl
    rw [hfirst, Double.mul_comm a.im, hsecond, Extended.neg_neg, Double.mul_comm b.im]
  have him : Extended.ofFloat (a'.re * b'.im) = (Extended.ofFloat (a.re * b.im)).neg := by
    rw [Double.mul_comm, Double.mul_comm a.re]
    exact ofFloat_mul_of_neg hb.2 ha.1
  refine ⟨?_, ofFloat_add_of_neg him (ofFloat_mul_of_neg ha.2 hb.1)⟩
  change Extended.ofFloat (a'.re * b'.re - a'.im * b'.im) =
    Extended.ofFloat (a.re * b.re - a.im * b.im)
  rw [Double.sub_eq_add_neg, Double.sub_eq_add_neg]
  refine ofFloat_add_congr (ofFloat_mul_congr ha.1 hb.1) ?_
  rw [ofFloat_neg_eq, ofFloat_neg_eq, hre]

/-- Numbers that are conjugate to a finite one are equal to its conjugate. -/
theorem eq_conjugate (h : IsConjugate a b) (ha : a.isFinite) : b.eq a.conjugate := by
  have hfinite : a.conjugate.isFinite := by
    obtain ⟨hre, him⟩ := Complex.isFinite_iff.mp ha
    obtain ⟨q, hq⟩ := Scalar.exists_value him
    have hminus : Extended.ofFloat (-a.im) = .finite (-q) := ofFloat_neg hq
    refine Complex.isFinite_iff.mpr ⟨hre, ?_⟩
    change (Extended.ofFloat (-a.im)).isFinite = true
    rw [hminus]
    rfl
  have hself := Complex.eq_iff_parts.mp (Complex.eq_self_of_isFinite hfinite)
  rw [Scalar.eq_iff, Scalar.eq_iff] at hself
  have him : Scalar.value b.im = Scalar.value (-a.im) := h.2.trans (ofFloat_neg_eq a.im).symm
  refine Complex.eq_iff_parts.mpr ⟨Scalar.eq_iff.mpr ⟨h.1, ?_⟩, Scalar.eq_iff.mpr ⟨him, ?_⟩⟩
  · exact fun hnan => hself.1.2 (h.1.symm.trans hnan)
  · exact fun hnan => hself.2.2 (him.symm.trans hnan)

end IsConjugate

namespace LabelledMatrix
variable {m n p : ComplexMatrix Float} {terms terms' : List (Complex Float)}

theorem isConjugate_foldl {a b : Complex Float} (h : List.Forall₂ IsConjugate terms terms')
    (hab : IsConjugate a b) : IsConjugate (terms.foldl (· + ·) a) (terms'.foldl (· + ·) b) := by
  induction h generalizing a b with
  | nil => exact hab
  | cons hxy _ ih => exact ih (hab.add hxy)

theorem isConjugate_products (row column : List (Complex Float)) :
    List.Forall₂ IsConjugate (List.zipWith (· * ·) row column)
      (List.zipWith (· * ·) (row.map Complex.conjugate) (column.map Complex.conjugate)) := by
  induction row generalizing column with
  | nil => exact .nil
  | cons x row ih =>
    cases column with
    | nil => exact .nil
    | cons y column =>
      exact .cons ((IsConjugate.conjugate x).mul (IsConjugate.conjugate y)) (ih column)

/-- The sum of the products of conjugate numbers. -/
theorem isConjugate_dot (row column : List (Complex Float)) :
    IsConjugate (dot row column)
      (dot (column.map Complex.conjugate) (row.map Complex.conjugate)) := by
  rw [dot_swap (column.map Complex.conjugate)]
  exact isConjugate_foldl (isConjugate_products row column) IsConjugate.zero

theorem WellFormed.conjugate (hm : m.WellFormed) :
    m.conjugate.WellFormed ∧ m.conjugate.shape = m.shape := hm.map Complex.conjugate

/-- **The adjoint of a finite product** equals the product of the adjoints in the other order. -/
theorem WellFormed.times_adjoint (hm : m.WellFormed) (hn : n.WellFormed)
    (hp : m.times n = .ok p) (hfinite : AllFinite p.rows) :
    ∃ r, n.adjoint.times m.adjoint = .ok r ∧ r.eq p.adjoint := by
  obtain ⟨hinner, hrows⟩ := times_eq_ok.mp hp
  obtain ⟨hmc, hmshape⟩ := hm.conjugate
  obtain ⟨hnc, hnshape⟩ := hn.conjugate
  have hfits : m.conjugate.columnCount = n.conjugate.rowCount := by
    rw [(Prod.mk.inj hmshape).2, (Prod.mk.inj hnshape).1, hinner]
  obtain ⟨r, hr⟩ := (hmc.exists_times_transpose_iff hnc).mp ⟨_, times_eq_ok.mpr ⟨hfits, rfl⟩⟩
  refine ⟨r, hr, ?_⟩
  obtain ⟨-, hr⟩ := times_eq_ok.mp hr
  have hne : m.rows ≠ [] := List.length_pos_iff.mp hm.rowCount_pos
  have hleft : r.rows = n.columns.map fun column => m.rows.map fun row =>
      dot (column.map Complex.conjugate) (row.map Complex.conjugate) := by
    have hcolumns : n.conjugate.transpose.rows = n.columns.map (List.map Complex.conjugate) :=
      hn.columns_map Complex.conjugate
    have hback : m.conjugate.transpose.columns = m.rows.map (List.map Complex.conjugate) :=
      hmc.columns_transpose
    rw [hr, hcolumns, hback, List.map_map]
    simp only [List.map_map, Function.comp_def]
  have hright : p.adjoint.rows = n.columns.map fun column => m.rows.map fun row =>
      (dot row column).conjugate := by
    have hconj : p.conjugate =
        { rows := m.rows.map fun row => n.columns.map fun column => (dot row column).conjugate } := by
      rw [hrows, LabelledMatrix.conjugate, LabelledMatrix.map]
      simp only [List.map_map, Function.comp_def]
    exact (congrArg columns hconj).trans (columns_of_pairs _ hne n.columns)
  have hshape : r.shape = p.adjoint.shape := by
    rw [shape, shape, rowCount, rowCount, columnCount, columnCount, hleft, hright]
    cases n.columns <;> simp
  refine eq_of_sameRows hshape ?_
  rw [SameRows, hleft, hright, List.forall₂_map_left_iff, List.forall₂_map_right_iff]
  refine List.forall₂_same.mpr fun column hcolumn => ?_
  rw [SameRow, List.forall₂_map_left_iff, List.forall₂_map_right_iff]
  refine List.forall₂_same.mpr fun row hrow => (isConjugate_dot row column).eq_conjugate ?_
  refine hfinite (n.columns.map (dot row)) ?_ _ (List.mem_map_of_mem hcolumn)
  rw [hrows]
  exact List.mem_map_of_mem hrow

/-- **Products of transposes and of adjoints.**  Doubles are commutative scalars, and for all of
these the product of the transposes is the transpose of the product, also in what is refused.  The
adjoints of finite products of doubles are equal, too. -/
theorem times_of_transposes :
    CommutativeScalar Float ∧
    (∀ (R : Type) [Scalar R] [CommutativeScalar R] (m n : ComplexMatrix R),
      m.WellFormed → n.WellFormed →
        ((∃ p, m.times n = .ok p) ↔ ∃ r, n.transpose.times m.transpose = .ok r) ∧
          ∀ p, m.times n = .ok p → n.transpose.times m.transpose = .ok p.transpose) ∧
    ∀ m n p : ComplexMatrix Float, m.WellFormed → n.WellFormed → m.times n = .ok p →
      AllFinite p.rows → ∃ r, n.adjoint.times m.adjoint = .ok r ∧ r.eq p.adjoint :=
  ⟨inferInstance,
    fun _ _ _ _ _ hm hn => ⟨hm.exists_times_transpose_iff hn, fun _ => hm.times_transpose hn⟩,
    fun _ _ _ hm hn => hm.times_adjoint hn⟩

/-- The imaginary parts of the first cell cancel. -/
theorem times_of_transposes_of_row_and_column :
    let m : ComplexMatrix Float := { rows := [[⟨1, 1⟩, ⟨0.1, 0⟩]] }
    let n : ComplexMatrix Float := { rows := [[⟨1, -1⟩], [⟨0, -0.0⟩]] }
    ∃ p, m.WellFormed ∧ n.WellFormed ∧ m.times n = .ok p ∧ AllFinite p.rows ∧
      n.transpose.times m.transpose = .ok p.transpose ∧
      ∃ r, n.adjoint.times m.adjoint = .ok r ∧ r.eq p.adjoint := by
  intro m n
  have hm : m.WellFormed := by decide
  have hn : n.WellFormed := by decide
  have hp : m.times n = .ok _ := times_eq_ok.mpr ⟨rfl, rfl⟩
  obtain ⟨-, htransposes, hadjoints⟩ := times_of_transposes
  have hfinite : ∀ row ∈ m.rows.map fun row => n.columns.map (dot row), ∀ x ∈ row, x.isFinite := by
    decide +kernel
  exact ⟨_, hm, hn, hp, hfinite, (htransposes Float m n hm hn).2 _ hp,
    hadjoints m n _ hm hn hp hfinite⟩

end LabelledMatrix
end LinearEquations
