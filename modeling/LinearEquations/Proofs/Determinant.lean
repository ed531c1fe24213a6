import LinearEquations.Proofs.MatrixView
import LinearEquations.Proofs.WorkspaceRun

/-! # Remembered determinants

`leibniz` is the determinant as a signed sum over permutations.  Over the Gaussian rationals the
expansion along the first row gives this number (`expand_eq_leibniz`).

A matrix is `Valid` if it is well formed and what it remembers is its determinant in this sense.
That is so of every matrix of a run (`isInvariant_valid`): a matrix remembers a number because it
was asked, because it is an identity, because it has the rows of a matrix that remembers it or the
columns as its rows, or because it is the product of two matrices that remember theirs.  So whatever
was computed before, asking for a determinant is answered by the signed sum. -/

namespace LinearEquations
namespace LabelledMatrix
variable {n p q : Nat} {rows : List (List (Complex Rat))}

/-- The determinant of `n` rows: the sum over all permutations of the products of one cell from each
column, with the sign of the permutation. -/
def leibniz (n : Nat) (rows : List (List (Complex Rat))) : Complex Rat :=
  ∑ σ : Equiv.Perm (Fin n), Equiv.Perm.sign σ • ∏ c : Fin n, (cellAt? rows (σ c) c).getD 0

theorem leibniz_eq_det (n : Nat) (rows : List (List (Complex Rat))) :
    leibniz n rows = (toMatrix n n rows).det := (Matrix.det_apply (toMatrix n n rows)).symm

/-! ### Expansion along the first row -/

/-- Adding up the cells of a row together with their columns, from column `k` on. -/
theorem foldl_zipIdx_eq_sum (f : Complex Rat → Nat → Complex Rat) (row : List (Complex Rat))
    (k : Nat) (a : Complex Rat) :
    (row.zipIdx k).foldl (fun sum (x, c) => sum + f x c) a =
      a + ∑ c ∈ Finset.range row.length, f (cell row c) (k + c) := by
  induction row generalizing k a with
  | nil => exact (add_zero a).symm
  | cons x row ih =>
    rw [List.zipIdx_cons, List.foldl_cons, ih, List.length_cons, Finset.sum_range_succ', add_assoc,
      add_comm (f x k)]
    refine congrArg (a + ·) (congrArg (· + f x k) (Finset.sum_congr rfl fun c _ => ?_))
    rw [cell_cons_succ, Nat.add_right_comm, Nat.add_assoc]

theorem expansionSign_eq_pow (c : Nat) : (expansionSign c : Complex Rat) = (-1) ^ c := by
  rw [neg_one_pow_eq_ite, expansionSign]
  by_cases hc : c % 2 = 0
  · rw [if_pos hc, if_pos (Nat.even_iff.mpr hc)]
    rfl
  · rw [if_neg hc, if_neg (mt Nat.even_iff.mp hc)]
    ext <;> simp [Complex.ofReal]

/-- **The expansion along the first row gives the determinant.** -/
theorem expand_eq_det (hlen : rows.length = n + 1) (hw : HasWidth (n + 1) rows) :
    expand n rows = (toMatrix (n + 1) (n + 1) rows).det := by
  induction n generalizing rows with
  | zero =>
    obtain ⟨row, rfl⟩ := List.length_eq_one_iff.mp hlen
    obtain ⟨x, rfl⟩ := List.length_eq_one_iff.mp (hw row (List.mem_singleton_self row))
    rw [Matrix.det_fin_one]
    rfl
  | succ n ih =>
    obtain ⟨first, rest, rfl⟩ := List.exists_cons_of_length_eq_add_one hlen
    have hfirst : first.length = n + 2 := hw first (List.mem_cons_self ..)
    rw [expand, List.headD_cons, foldl_zipIdx_eq_sum (fun x c =>
      expansionSign c * x * expand n (without 0 c (first :: rest))), zero_add, hfirst,
      Finset.sum_range, Matrix.det_succ_row_zero]
    refine Finset.sum_congr rfl fun c _ => ?_
    have hminor : toMatrix (n + 1) (n + 1) (without 0 c (first :: rest)) =
        (toMatrix (n + 2) (n + 2) (first :: rest)).submatrix Fin.succ c.succAbove := by
      rw [← Fin.succAbove_zero]
      exact toMatrix_without 0 c (first :: rest)
    have hlen' : (without 0 c (first :: rest)).length = n + 1 :=
      (length_without (Nat.succ_pos _)).trans (congrArg Nat.pred hlen)
    rw [Nat.zero_add, expansionSign_eq_pow, ih hlen' (hasWidth_without hw c.isLt), hminor]
    rfl

theorem expand_eq_leibniz (hlen : rows.length = n + 1) (hw : HasWidth (n + 1) rows) :
    expand n rows = leibniz (n + 1) rows :=
  (expand_eq_det hlen hw).trans (leibniz_eq_det (n + 1) rows).symm

/-! ### Matrices that remember their determinants -/

variable {m r : ComplexMatrix Rat} {d : Complex Rat}

/-- A well-formed matrix which remembers no other number than its determinant. -/
structure Valid (m : ComplexMatrix Rat) : Prop extends WellFormed m where
  remembered_eq : ∀ d, m.remembered = some d → d = leibniz m.rowCount m.rows

theorem WellFormed.valid (hm : m.WellFormed) (h : m.remembered = none) : m.Valid := by
  refine ⟨hm, fun d hd => ?_⟩
  rw [h] at hd
  cases hd

/-- A square matrix has as many columns as rows, and at least one. -/
theorem WellFormed.exists_size (hm : m.WellFormed) (hsquare : m.rowCount = m.columnCount) :
    ∃ n, m.rows.length = n + 1 ∧ HasWidth (n + 1) m.rows := by
  obtain ⟨n, hn⟩ : ∃ n, m.rowCount = n + 1 := Nat.exists_eq_add_one.mpr hm.rowCount_pos
  exact ⟨n, hn, hn ▸ hsquare ▸ hm.length_row⟩

/-- **The determinant is the signed sum over permutations**, remembered or not. -/
theorem Valid.squareDeterminant_eq (hm : m.Valid) (hsquare : m.rowCount = m.columnCount) :
    m.squareDeterminant = leibniz m.rowCount m.rows := by
  rw [squareDeterminant]
  cases hd : m.remembered with
  | some d => exact hm.remembered_eq d hd
  | none =>
    obtain ⟨n, hlen, hw⟩ := hm.exists_size hsquare
    have hrows : m.rowCount = n + 1 := hlen
    rw [hrows]
    exact expand_eq_leibniz hlen hw

theorem Valid.determinant_eq (hm : m.Valid) : m.determinant =
    if m.rowCount = m.columnCount then some (leibniz m.rowCount m.rows) else none := by
  unfold determinant isSquare
  by_cases hsquare : m.rowCount = m.columnCount
  · rw [if_pos hsquare, if_pos (decide_eq_true hsquare), hm.squareDeterminant_eq hsquare]
  · rw [if_neg hsquare, if_neg fun h => hsquare (of_decide_eq_true h)]

theorem Valid.remember (hm : m.Valid) : m.remember.Valid := by
  refine ⟨hm.toWellFormed.remember, fun d hd => ?_⟩
  unfold LabelledMatrix.remember at hd ⊢
  split at hd
  · rename_i hsquare
    cases hd
    rw [if_pos hsquare]
    exact hm.squareDeterminant_eq (of_decide_eq_true hsquare)
  · rename_i hsquare
    rw [if_neg hsquare]
    exact hm.remembered_eq d hd

/-- Exchanging rows and columns does not change the determinant. -/
theorem leibniz_columns (hw : HasWidth m.columnCount m.rows) (n : Nat) :
    leibniz n m.columns = leibniz n m.rows := by
  rw [leibniz_eq_det, toMatrix_columns hw, Matrix.det_transpose, leibniz_eq_det]

/-- The determinant of a product of square matrices is the product of their determinants. -/
theorem leibniz_times {a b : ComplexMatrix Rat} (ha : a.WellFormed) (hb : b.WellFormed)
    (hasquare : a.rowCount = a.columnCount) (hbsquare : b.rowCount = b.columnCount)
    (h : a.times b = .ok r) :
    leibniz r.rowCount r.rows = leibniz a.rowCount a.rows * leibniz b.rowCount b.rows := by
  obtain ⟨hinner, -⟩ := times_eq_ok.mp h
  obtain ⟨hrows, -⟩ := Prod.mk.inj (ha.times hb h).2
  have hb' : b.rowCount = a.rowCount := (hasquare.trans hinner).symm
  rw [leibniz_eq_det, leibniz_eq_det, leibniz_eq_det, hrows, hb',
    toMatrix_times ha hb h rfl hasquare.symm (hbsquare.symm.trans hb'), Matrix.det_mul]

theorem Valid.apply {operation : UnaryOperation Rat} (hm : m.Valid)
    (h : operation.apply m = .ok r) : r.Valid := by
  have hr := operation.wellFormed_of_apply hm.toWellFormed h
  refine ⟨hr, fun d hd => ?_⟩
  obtain ⟨hd', hrows⟩ := operation.remembered_of_apply hm.toWellFormed h hd
  have hsquare := hm.square_of_remembered (Option.isSome_of_eq_some hd')
  rw [hm.remembered_eq d hd', rowCount, rowCount]
  rcases hrows with hrows | hrows
  · rw [hrows]
  · rw [hrows, length_columns, leibniz_columns hm.length_row, ← hsquare]
    rfl

theorem Valid.apply₂ {operation : BinaryOperation} {a b : ComplexMatrix Rat} (ha : a.Valid)
    (hb : b.Valid) (h : operation.apply a b = .ok r) : r.Valid := by
  refine ⟨operation.wellFormed_of_apply ha.toWellFormed hb.toWellFormed h, fun d hd => ?_⟩
  obtain ⟨htimes, x, y, hx, hy, rfl⟩ := operation.remembered_of_apply h hd
  rw [leibniz_times ha.toWellFormed hb.toWellFormed
    (ha.square_of_remembered (Option.isSome_of_eq_some hx))
    (hb.square_of_remembered (Option.isSome_of_eq_some hy)) htimes,
    ha.remembered_eq x hx, hb.remembered_eq y hy]

theorem Valid.identity {n : Nat} (h : identity n = .ok r) : r.Valid := by
  refine ⟨(WellFormed.identity h).1, fun d hd => ?_⟩
  obtain ⟨-, rfl⟩ := identity_eq_ok h
  cases hd
  rw [leibniz_eq_det, rowCount, length_table, toMatrix_identity, Matrix.det_one]

end LabelledMatrix

open LabelledMatrix

/-- **Every matrix of a run remembers its determinant or nothing.** -/
theorem isInvariant_valid : IsInvariant Valid where
  ofRows rows m h := by
    obtain ⟨-, -, hm⟩ := ofRows_eq_ok.mp h
    exact (wellFormed_of_ofRows h).valid (by rw [hm])
  identity _ _ h := Valid.identity h
  unary _ _ _ hm h := hm.apply h
  binary _ _ _ _ hm hn h := hm.apply₂ hn h
  inverse m r hm h := by
    obtain ⟨_, _, _, -, -, -, hscale⟩ := inverse_eq_some h
    obtain ⟨_, -, hr⟩ := scale_eq_ok hscale
    exact (hm.toWellFormed.inverse h).1.valid (by rw [hr]; rfl)
  remember _ hm := hm.remember

/-- **What a matrix remembers is its determinant, whatever was done before.**  A matrix that a run
leaves behind or answers is square if it remembers a number, and the number is the signed sum over
permutations of its cells; and asking a matrix for its determinant after the run is answered by this
sum, if the matrix is square. -/
theorem run_remembers_leibniz (steps : List (Step Rat)) :
    (∀ m : ComplexMatrix Rat, (∃ name, (Workspace.empty.run steps).2 name = some m) ∨
        .ok (.matrix m) ∈ (Workspace.empty.run steps).1 →
      m.WellFormed ∧
      (∀ d, m.remembered = some d →
        m.rowCount = m.columnCount ∧ d = leibniz m.rowCount m.rows) ∧
      m.determinant =
        if m.rowCount = m.columnCount then some (leibniz m.rowCount m.rows) else none) ∧
    ∀ name (m : ComplexMatrix Rat), (Workspace.empty.run steps).2 name = some m →
      ((Workspace.empty.run steps).2.step (.ask .determinant name)).1 = .ok (.determinant
        (if m.rowCount = m.columnCount then some (leibniz m.rowCount m.rows) else none)) := by
  obtain ⟨hstored, hanswered⟩ := isInvariant_valid.run Workspace.holds_empty steps
  constructor
  · intro m hm
    have hvalid : m.Valid := by
      rcases hm with ⟨name, hname⟩ | hm
      · exact hstored name m hname
      · exact hanswered m hm
    exact ⟨hvalid.toWellFormed, fun d hd =>
      ⟨hvalid.square_of_remembered (Option.isSome_of_eq_some hd), hvalid.remembered_eq d hd⟩,
      hvalid.determinant_eq⟩
  · intro name m hname
    simp only [Workspace.step, Workspace.lookup_eq_ok.mpr hname, Workspace.answer]
    rw [(hstored name m hname).determinant_eq]

/-- The product of a matrix that was asked for its determinant and its transpose. -/
theorem run_remembers_leibniz_of_product :
    let steps : List (Step Rat) :=
      [.make (.rows [[.real 1, .complex ⟨0, 2⟩], [.real 3, .real 4]]) (some "a"),
        .ask .determinant "a", .make (.unary .transpose "a") (some "b"),
        .make (.binary .times "a" "b") (some "c")]
    ∃ m : ComplexMatrix Rat, (Workspace.empty.run steps).2 "c" = some m ∧
      m.remembered = some ⟨-20, -48⟩ ∧ m.rowCount = m.columnCount ∧
      ⟨-20, -48⟩ = leibniz m.rowCount m.rows := by
  intro steps
  obtain ⟨hmatrices, -⟩ := run_remembers_leibniz steps
  have hremembered : ((Workspace.empty.run steps).2 "c").bind LabelledMatrix.remembered =
      some ⟨-20, -48⟩ := by decide +kernel
  obtain ⟨m, hm, hd⟩ := Option.bind_eq_some_iff.mp hremembered
  obtain ⟨-, hleibniz, -⟩ := hmatrices m (.inl ⟨"c", hm⟩)
  exact ⟨m, hm, hd, hleibniz _ hd⟩

end LinearEquations
