import LinearEquations.LabelledMatrix.Workspace
import LinearEquations.Proofs.Cells
import LinearEquations.Proofs.Construction
import LinearEquations.Proofs.RowOperation

/-! # Shapes of results

What each operation on matrices returns when it succeeds, and that the result is again a matrix, of
the shape one expects.  Nothing here depends on the arithmetic.

For the operations on one and on two matrices this is summed up in
`UnaryOperation.wellFormed_of_apply` and `BinaryOperation.wellFormed_of_apply`, and
`UnaryOperation.remembered_of_apply` and `BinaryOperation.remembered_of_apply` say when a result
remembers a determinant. -/

namespace LinearEquations.LabelledMatrix

/-- Rows of the same width, without labels. -/
theorem wellFormed_of_hasWidth {K : Type} {m : LabelledMatrix K} {p q : Nat} (hp : 0 < p)
    (hq : 0 < q) (hlen : m.rows.length = p) (hw : HasWidth q m.rows) (hlabels : m.labels = none)
    (hrem : m.remembered.isSome → p = q) : m.WellFormed ∧ m.shape = (p, q) := by
  have hrows : m.rowCount = p := hlen
  have hcols : m.columnCount = q := columnCount_eq (hrows.symm ▸ hp) hw
  refine ⟨⟨hrows.symm ▸ hp, hcols.symm ▸ hq, hcols.symm ▸ hw, ?_, ?_⟩, by rw [shape, hrows, hcols]⟩
  · intro labels h
    rw [hlabels] at h
    cases h
  · rw [hrows, hcols]
    exact hrem

section AnyCells
variable {K L : Type} {m n : LabelledMatrix K}

/-! ### Rearranging -/

theorem WellFormed.transpose (hm : m.WellFormed) :
    m.transpose.WellFormed ∧ m.transpose.shape = (m.columnCount, m.rowCount) :=
  wellFormed_of_hasWidth hm.columnCount_pos hm.rowCount_pos (length_columns m)
    (hasWidth_columns hm.length_row) rfl fun h => (hm.square_of_remembered h).symm

theorem WellFormed.map (hm : m.WellFormed) (f : K → L) :
    (m.map f).WellFormed ∧ (m.map f).shape = m.shape := by
  refine wellFormed_of_hasWidth hm.rowCount_pos hm.columnCount_pos (List.length_map _)
    (List.forall_mem_map.mpr fun row hrow => ?_) rfl nofun
  exact (List.length_map _).trans (hm.length_row row hrow)

end AnyCells

variable {R : Type} {m n r : ComplexMatrix R}

theorem swapRows_eq_ok {first second : Nat}
    (h : m.swapRows first second = (.ok r : Except (MatrixError R) _)) :
    ∃ a b, m.rows[first]? = some a ∧ m.rows[second]? = some b ∧
      r = m.withRows ((m.rows.set first b).set second a) := by
  obtain ⟨a, ha, h⟩ := bind_eq_ok.mp h
  obtain ⟨b, hb, h⟩ := bind_eq_ok.mp h
  cases h
  exact ⟨a, b, checkRow_eq_ok.mp ha, checkRow_eq_ok.mp hb, rfl⟩

theorem WellFormed.swapRows {first second : Nat} (hm : m.WellFormed)
    (h : m.swapRows first second = (.ok r : Except (MatrixError R) _)) :
    r.WellFormed ∧ r.shape = m.shape := by
  obtain ⟨a, b, ha, hb, rfl⟩ := swapRows_eq_ok h
  have ha := HasWidth.length_eq hm.length_row ha
  have hb := HasWidth.length_eq hm.length_row hb
  exact hm.withRows (by simp) (HasWidth.set (HasWidth.set hm.length_row hb) ha)

/-! ### Joining and splitting -/

theorem beside_eq_ok (h : m.beside n = (.ok r : Except (MatrixError R) _)) :
    m.rowCount = n.rowCount ∧ r = { rows := List.zipWith (· ++ ·) m.rows n.rows } := by
  unfold beside at h
  split at h <;> cases h
  exact ⟨‹_›, rfl⟩

theorem hasWidth_zipWith_append {p q : Nat} {rows other : Rows R} (hw : HasWidth p rows)
    (hw' : HasWidth q other) : HasWidth (p + q) (List.zipWith (· ++ ·) rows other) := by
  intro row hrow
  obtain ⟨i, hi, rfl⟩ := List.mem_iff_getElem.mp hrow
  rw [List.getElem_zipWith, List.length_append, hw _ (List.getElem_mem _),
    hw' _ (List.getElem_mem _)]

theorem WellFormed.beside (hm : m.WellFormed) (hn : n.WellFormed)
    (h : m.beside n = (.ok r : Except (MatrixError R) _)) :
    r.WellFormed ∧ r.shape = (m.rowCount, m.columnCount + n.columnCount) := by
  obtain ⟨hrows, rfl⟩ := beside_eq_ok h
  refine wellFormed_of_hasWidth hm.rowCount_pos (Nat.add_pos_left hm.columnCount_pos _) ?_
    (hasWidth_zipWith_append hm.length_row hn.length_row) rfl nofun
  have hlen : m.rows.length = n.rows.length := hrows
  rw [List.length_zipWith, ← hlen, Nat.min_self]
  rfl

theorem above_eq_ok (h : m.above n = (.ok r : Except (MatrixError R) _)) :
    m.columnCount = n.columnCount ∧ r = { rows := m.rows ++ n.rows } := by
  unfold above at h
  split at h <;> cases h
  exact ⟨‹_›, rfl⟩

theorem WellFormed.above (hm : m.WellFormed) (hn : n.WellFormed)
    (h : m.above n = (.ok r : Except (MatrixError R) _)) :
    r.WellFormed ∧ r.shape = (m.rowCount + n.rowCount, m.columnCount) := by
  obtain ⟨hcols, rfl⟩ := above_eq_ok h
  exact wellFormed_of_hasWidth (Nat.add_pos_left hm.rowCount_pos _) hm.columnCount_pos
    List.length_append (List.forall_mem_append.mpr ⟨hm.length_row, hcols ▸ hn.length_row⟩) rfl nofun

theorem dropColumn_eq_ok (h : m.dropColumn = (.ok r : Except (MatrixError R) _)) :
    2 ≤ m.columnCount ∧ r = { rows := m.rows.map List.tail } := by
  unfold dropColumn at h
  split at h <;> cases h
  exact ⟨Nat.le_of_not_lt ‹_›, rfl⟩

theorem WellFormed.dropColumn (hm : m.WellFormed)
    (h : m.dropColumn = (.ok r : Except (MatrixError R) _)) :
    r.WellFormed ∧ r.shape = (m.rowCount, m.columnCount - 1) := by
  obtain ⟨hcols, rfl⟩ := dropColumn_eq_ok h
  obtain ⟨q, hq⟩ : ∃ q, m.columnCount = q + 1 := ⟨m.columnCount - 1, by omega⟩
  have hw : HasWidth (q + 1) m.rows := hq ▸ hm.length_row
  exact wellFormed_of_hasWidth hm.rowCount_pos (by omega) (List.length_map _)
    (by rw [hq]; exact hw.map_tail) rfl nofun

theorem minor_eq_ok {i j : Nat} (h : m.minor i j = .ok r) :
    i < m.rowCount ∧ j < m.columnCount ∧ m.rowCount ≠ 1 ∧ m.columnCount ≠ 1 ∧
      r = { rows := without i j m.rows } := by
  unfold minor at h
  split at h
  · cases h
  · rename_i hrange
    split at h <;> cases h
    rename_i hone
    simp only [Bool.or_eq_true, decide_eq_true_eq, not_or, Nat.not_le] at hrange hone
    exact ⟨hrange.1, hrange.2, hone.1, hone.2, rfl⟩

theorem WellFormed.minor {i j : Nat} (hm : m.WellFormed) (h : m.minor i j = .ok r) :
    r.WellFormed ∧ r.shape = (m.rowCount - 1, m.columnCount - 1) := by
  obtain ⟨hi, hj, hrows, hcols, rfl⟩ := minor_eq_ok h
  have hpos := hm.rowCount_pos
  have hpos' := hm.columnCount_pos
  obtain ⟨q, hq⟩ : ∃ q, m.columnCount = q + 1 := ⟨m.columnCount - 1, by omega⟩
  refine wellFormed_of_hasWidth (by omega) (by omega) (length_without hi) ?_ rfl nofun
  rw [hq]
  exact hasWidth_without (hq ▸ hm.length_row) (hq ▸ hj)

variable [Scalar R]

/-! ### Arithmetic -/

theorem times_eq_ok : m.times n = .ok r ↔ m.columnCount = n.rowCount ∧
    r = { rows := m.rows.map fun row => n.columns.map (dot row),
          remembered := do return (← m.remembered) * (← n.remembered) } := by
  unfold times
  split
  · rename_i h
    exact ⟨fun hr => ⟨h, (Except.ok.inj hr).symm⟩, fun hr => congrArg _ hr.2.symm⟩
  · rename_i h
    exact ⟨nofun, fun hr => absurd hr.1 h⟩

/-- A product remembers a number if both factors do. -/
theorem remembered_product_eq_some {a b : Option (Complex R)} {d : Complex R} :
    (do return (← a) * (← b) : Option (Complex R)) = some d ↔
      ∃ x y, a = some x ∧ b = some y ∧ x * y = d := by
  cases a <;> cases b <;> simp

theorem WellFormed.times (hm : m.WellFormed) (hn : n.WellFormed) (h : m.times n = .ok r) :
    r.WellFormed ∧ r.shape = (m.rowCount, n.columnCount) := by
  obtain ⟨hinner, rfl⟩ := times_eq_ok.mp h
  refine wellFormed_of_hasWidth hm.rowCount_pos hn.columnCount_pos (List.length_map _)
    (List.forall_mem_map.mpr fun row _ => ?_) rfl fun hsome => ?_
  · rw [List.length_map, length_columns]
  · obtain ⟨d, hd⟩ := Option.isSome_iff_exists.mp hsome
    obtain ⟨x, y, hx, hy, -⟩ := remembered_product_eq_some.mp hd
    rw [hm.square_of_remembered (Option.isSome_of_eq_some hx), hinner,
      hn.square_of_remembered (Option.isSome_of_eq_some hy)]

omit [Scalar R] in
theorem cellwise_eq_ok {operation : Combination} {f : Complex R → Complex R → Complex R}
    (h : cellwise operation f m n = .ok r) : m.shape = n.shape ∧ r = m.zipWith f n := by
  unfold cellwise at h
  split at h <;> cases h
  exact ⟨‹_›, rfl⟩

omit [Scalar R] in
theorem WellFormed.cellwise {operation : Combination} {f : Complex R → Complex R → Complex R}
    (hm : m.WellFormed) (hn : n.WellFormed) (h : cellwise operation f m n = .ok r) :
    r.WellFormed ∧ r.shape = m.shape := by
  obtain ⟨hshape, rfl⟩ := cellwise_eq_ok h
  obtain ⟨hrows, hcols⟩ := Prod.mk.inj hshape
  have hlen : m.rows.length = n.rows.length := hrows
  refine wellFormed_of_hasWidth hm.rowCount_pos hm.columnCount_pos ?_ (fun row hrow => ?_) rfl nofun
  · simp [LabelledMatrix.zipWith, rowCount, hlen]
  · obtain ⟨i, hi, rfl⟩ := List.mem_iff_getElem.mp hrow
    simp only [LabelledMatrix.zipWith, List.getElem_zipWith, List.length_zipWith]
    rw [hm.length_row _ (List.getElem_mem _), hn.length_row _ (List.getElem_mem _), ← hcols,
      Nat.min_self]

theorem scale_eq_ok {k : Operand R} (h : m.scale k = .ok r) :
    ∃ a, k.check = .ok a ∧ r = m.map (· * a) := by
  obtain ⟨a, ha, h⟩ := bind_eq_ok.mp h
  cases h
  exact ⟨a, mapError_eq_ok.mp ha, rfl⟩

theorem identity_eq_ok {k : Nat} (h : identity k = .ok r) :
    0 < k ∧ r = { rows := table k k fun c r => if c = r then 1 else 0, remembered := some 1 } := by
  unfold identity at h
  split at h <;> cases h
  exact ⟨Nat.pos_of_ne_zero ‹_›, rfl⟩

theorem WellFormed.identity {k : Nat} (h : identity k = .ok r) :
    r.WellFormed ∧ r.shape = (k, k) := by
  obtain ⟨hk, rfl⟩ := identity_eq_ok h
  exact wellFormed_of_hasWidth hk hk (length_table ..) (hasWidth_table _ _ _) rfl fun _ => rfl

/-! ### Minors and cofactors -/

theorem minors_eq_ok (h : m.minors = .ok r) :
    m.rowCount = m.columnCount ∧ r = { rows := table m.columnCount m.rowCount fun c r =>
      if m.rowCount = 1 then 1 else expand (m.rowCount - 2) (without r c m.rows) } := by
  unfold minors at h
  split at h
  · rename_i hsquare
    cases h
    exact ⟨by simpa [isSquare] using hsquare, rfl⟩
  · cases h

theorem WellFormed.minors (hm : m.WellFormed) (h : m.minors = .ok r) :
    r.WellFormed ∧ r.shape = m.shape := by
  obtain ⟨-, rfl⟩ := minors_eq_ok h
  exact wellFormed_of_hasWidth hm.rowCount_pos hm.columnCount_pos (length_table ..)
    (hasWidth_table _ _ _) rfl nofun

theorem cofactor_eq_ok (h : m.cofactor = .ok r) : ∃ minors, m.minors = .ok minors ∧
    r = { rows := minors.rows.mapIdx fun r row => row.mapIdx fun c x =>
      if (c + r) % 2 = 0 then x else -x } := by
  obtain ⟨minors, hminors, h⟩ := bind_eq_ok.mp h
  cases h
  exact ⟨minors, hminors, rfl⟩

theorem WellFormed.cofactor (hm : m.WellFormed) (h : m.cofactor = .ok r) :
    r.WellFormed ∧ r.shape = m.shape := by
  obtain ⟨minors, hminors, rfl⟩ := cofactor_eq_ok h
  obtain ⟨hwf, hshape⟩ := hm.minors hminors
  rw [← hshape]
  refine wellFormed_of_hasWidth hwf.rowCount_pos hwf.columnCount_pos List.length_mapIdx
    (fun row hrow => ?_) rfl nofun
  obtain ⟨i, hi, rfl⟩ := List.mem_mapIdx.mp hrow
  exact List.length_mapIdx.trans (hwf.length_row _ (List.getElem_mem hi))

theorem adjugate_eq_ok (h : m.adjugate = .ok r) :
    ∃ cofactors, m.cofactor = .ok cofactors ∧ r = cofactors.transpose := by
  obtain ⟨cofactors, hcofactors, h⟩ := bind_eq_ok.mp h
  cases h
  exact ⟨cofactors, hcofactors, rfl⟩

theorem WellFormed.adjugate (hm : m.WellFormed) (h : m.adjugate = .ok r) :
    r.WellFormed ∧ r.shape = (m.columnCount, m.rowCount) := by
  obtain ⟨cofactors, hcofactors, rfl⟩ := adjugate_eq_ok h
  obtain ⟨hwf, hshape⟩ := hm.cofactor hcofactors
  obtain ⟨hrows, hcols⟩ := Prod.mk.inj hshape
  exact hrows ▸ hcols ▸ hwf.transpose

/-- An inverse is a multiple of the adjugate. -/
theorem inverse_eq_some (h : m.inverse = .ok (some r)) :
    ∃ d factor adjugate, m.determinant = some d ∧ d.reciprocal = .ok factor ∧
      m.adjugate = .ok adjugate ∧ adjugate.scale (.complex factor) = .ok r := by
  unfold inverse at h
  split at h
  · cases h
  · rename_i d hd
    split at h
    · cases h
    · obtain ⟨factor, hfactor, h⟩ := bind_eq_ok.mp h
      obtain ⟨adjugate, hadjugate, h⟩ := bind_eq_ok.mp h
      obtain ⟨inverse, hinverse, h⟩ := bind_eq_ok.mp h
      cases h
      exact ⟨d, factor, adjugate, hd, mapError_eq_ok.mp hfactor, hadjugate, hinverse⟩

theorem WellFormed.inverse (hm : m.WellFormed) (h : m.inverse = .ok (some r)) :
    r.WellFormed ∧ r.shape = (m.columnCount, m.rowCount) := by
  obtain ⟨d, factor, adjugate, -, -, hadjugate, hscale⟩ := inverse_eq_some h
  obtain ⟨a, -, rfl⟩ := scale_eq_ok hscale
  obtain ⟨hwf, hshape⟩ := hm.adjugate hadjugate
  exact hshape ▸ hwf.map _

theorem WellFormed.remember (hm : m.WellFormed) : m.remember.WellFormed := by
  unfold LabelledMatrix.remember
  split
  · rename_i hsquare
    exact ⟨hm.rowCount_pos, hm.columnCount_pos, hm.length_row, hm.length_labels,
      fun _ => of_decide_eq_true hsquare⟩
  · exact hm

/-! ### Row operations and elimination -/

theorem WellFormed.addRow {destination source : Nat} (hm : m.WellFormed)
    (h : m.addRow destination source = .ok r) : r.WellFormed ∧ r.shape = m.shape := by
  obtain ⟨row, other, hrow, hother, rfl⟩ := addRow_eq_ok h
  have hrow := HasWidth.length_eq hm.length_row hrow
  have hother := HasWidth.length_eq hm.length_row hother
  exact hm.withRows_set ((length_addedRow (hrow.trans hother.symm)).trans hrow)

theorem WellFormed.rowEchelon (hm : m.WellFormed) (h : m.rowEchelon = .ok r) :
    r.WellFormed ∧ r.shape = m.shape := by
  obtain ⟨hrows, hlabels, hrem⟩ := rowEchelon_eq_ok hm h
  have hrun := echelonRun_of_echelonRows hrows
  refine hm.of_shape hrun.length_eq (hrun.hasWidth hm.length_row) hlabels fun hsome => ?_
  rw [hrem] at hsome
  split at hsome
  · exact hsome
  · cases hsome

/-- Rows of zeros are left alone. -/
theorem clearUpward_of_allZero {rows : Rows R} (h : allZero rows) :
    clearUpward [] rows = .ok rows := by
  cases rows with
  | nil => rfl
  | cons row rest =>
    have hrow : row.all Complex.isZero := List.all_eq_true.mp h row (List.mem_cons_self ..)
    have hnone : row.findIdx? (!·.isZero) = none :=
      List.findIdx?_eq_none_iff.mpr (by simpa using hrow)
    rw [clearUpward, hnone]
    rfl

/-- A reduced matrix remembers a determinant only if it is a line of zeros, which stays as it is. -/
theorem remembered_of_reducedRowEchelon {d : Complex R} (hm : m.WellFormed)
    (h : m.reducedRowEchelon = .ok r) (hd : r.remembered = some d) :
    m.remembered = some d ∧ r.rows = m.rows := by
  obtain ⟨rows, hrows, hclear, -, hrem⟩ := reducedRowEchelon_eq_ok hm h
  rw [hrem] at hd
  split at hd
  · rename_i hline
    rw [echelonRows_eq_ok_of_isZeroLine hm hline] at hrows
    cases hrows
    rw [clearUpward_of_allZero (Bool.and_eq_true_iff.mp hline).2] at hclear
    exact ⟨hd, (Except.ok.inj hclear).symm⟩
  · cases hd

theorem remembered_of_rowEchelon {d : Complex R} (hm : m.WellFormed) (h : m.rowEchelon = .ok r)
    (hd : r.remembered = some d) : m.remembered = some d ∧ r.rows = m.rows := by
  obtain ⟨hrows, -, hrem⟩ := rowEchelon_eq_ok hm h
  rw [hrem] at hd
  split at hd
  · rename_i hline
    rw [echelonRows_eq_ok_of_isZeroLine hm hline] at hrows
    exact ⟨hd, (Except.ok.inj hrows).symm⟩
  · cases hd

end LabelledMatrix

variable {R : Type} [Scalar R] {m n r : ComplexMatrix R} {d : Complex R}

/-- **Operations on a matrix make a matrix.** -/
theorem UnaryOperation.wellFormed_of_apply {operation : UnaryOperation R} (hm : m.WellFormed)
    (h : operation.apply m = .ok r) : r.WellFormed := by
  cases operation with
  | copy =>
    cases h
    exact hm
  | transpose =>
    cases h
    exact hm.transpose.1
  | conjugate =>
    cases h
    exact (hm.map _).1
  | adjoint =>
    cases h
    exact (hm.map _).1.transpose.1
  | minors => exact (hm.minors h).1
  | cofactor => exact (hm.cofactor h).1
  | adjugate => exact (hm.adjugate h).1
  | dropColumn => exact (hm.dropColumn h).1
  | rowEchelon => exact (hm.rowEchelon h).1
  | reducedRowEchelon => exact (hm.reducedRowEchelon h).1
  | withLabels labels => exact hm.withLabels h
  | minor row column => exact (hm.minor h).1
  | scale k =>
    obtain ⟨a, -, rfl⟩ := LabelledMatrix.scale_eq_ok h
    exact (hm.map _).1
  | swapRows first second => exact (hm.swapRows h).1
  | scaleRow row k => exact (hm.scaleRow h).1
  | addRow destination source => exact (hm.addRow h).1
  | addMultiple destination source k => exact (hm.addMultiple h).1

/-- **Operations on two matrices make a matrix.** -/
theorem BinaryOperation.wellFormed_of_apply {operation : BinaryOperation} (hm : m.WellFormed)
    (hn : n.WellFormed) (h : operation.apply m n = .ok r) : r.WellFormed := by
  cases operation with
  | times => exact (hm.times hn h).1
  | plus => exact (hm.cellwise hn h).1
  | minus => exact (hm.cellwise hn h).1
  | beside => exact (hm.beside hn h).1
  | above => exact (hm.above hn h).1

/-- **An operation on a matrix keeps a determinant only together with the rows**, or with the
columns as rows. -/
theorem UnaryOperation.remembered_of_apply {operation : UnaryOperation R} (hm : m.WellFormed)
    (h : operation.apply m = .ok r) (hd : r.remembered = some d) :
    m.remembered = some d ∧ (r.rows = m.rows ∨ r.rows = m.columns) := by
  cases operation with
  | copy =>
    cases h
    exact ⟨hd, .inl rfl⟩
  | transpose =>
    cases h
    exact ⟨hd, .inr rfl⟩
  | withLabels labels =>
    obtain ⟨-, rfl⟩ := LabelledMatrix.withLabels_eq_ok.mp h
    exact ⟨hd, .inl rfl⟩
  | rowEchelon =>
    obtain ⟨hrem, hrows⟩ := LabelledMatrix.remembered_of_rowEchelon hm h hd
    exact ⟨hrem, .inl hrows⟩
  | reducedRowEchelon =>
    obtain ⟨hrem, hrows⟩ := LabelledMatrix.remembered_of_reducedRowEchelon hm h hd
    exact ⟨hrem, .inl hrows⟩
  -- all others make new rows and forget
  | conjugate =>
    cases h
    cases hd
  | adjoint =>
    cases h
    cases hd
  | minors =>
    obtain ⟨-, rfl⟩ := LabelledMatrix.minors_eq_ok h
    cases hd
  | cofactor =>
    obtain ⟨_, -, rfl⟩ := LabelledMatrix.cofactor_eq_ok h
    cases hd
  | adjugate =>
    obtain ⟨_, hcofactors, rfl⟩ := LabelledMatrix.adjugate_eq_ok h
    obtain ⟨_, -, rfl⟩ := LabelledMatrix.cofactor_eq_ok hcofactors
    cases hd
  | dropColumn =>
    obtain ⟨-, rfl⟩ := LabelledMatrix.dropColumn_eq_ok h
    cases hd
  | minor row column =>
    obtain ⟨-, -, -, -, rfl⟩ := LabelledMatrix.minor_eq_ok h
    cases hd
  | scale k =>
    obtain ⟨_, -, rfl⟩ := LabelledMatrix.scale_eq_ok h
    cases hd
  | swapRows first second =>
    obtain ⟨_, _, -, -, rfl⟩ := LabelledMatrix.swapRows_eq_ok h
    cases hd
  | scaleRow row k =>
    obtain ⟨_, _, -, -, rfl⟩ := LabelledMatrix.scaleRow_eq_ok h
    cases hd
  | addRow destination source =>
    obtain ⟨_, _, -, -, rfl⟩ := LabelledMatrix.addRow_eq_ok h
    cases hd
  | addMultiple destination source k =>
    obtain ⟨_, _, _, -, -, -, rfl⟩ := LabelledMatrix.addMultiple_eq_ok h
    cases hd

/-- **Of two matrices only the product remembers a determinant**: the product of what both
remember. -/
theorem BinaryOperation.remembered_of_apply {operation : BinaryOperation}
    (h : operation.apply m n = .ok r) (hd : r.remembered = some d) :
    m.times n = .ok r ∧ ∃ x y, m.remembered = some x ∧ n.remembered = some y ∧ x * y = d := by
  cases operation with
  | times =>
    obtain ⟨-, hr⟩ := LabelledMatrix.times_eq_ok.mp h
    rw [hr] at hd
    exact ⟨h, LabelledMatrix.remembered_product_eq_some.mp hd⟩
  | plus =>
    obtain ⟨-, rfl⟩ := LabelledMatrix.cellwise_eq_ok h
    cases hd
  | minus =>
    obtain ⟨-, rfl⟩ := LabelledMatrix.cellwise_eq_ok h
    cases hd
  | beside =>
    obtain ⟨-, rfl⟩ := LabelledMatrix.beside_eq_ok h
    cases hd
  | above =>
    obtain ⟨-, rfl⟩ := LabelledMatrix.above_eq_ok h
    cases hd

end LinearEquations
