import LinearEquations.Proofs.RowSpace

/-! # Row operations

What the row operations make of the rows of a matrix, for any arithmetic, and that over the Gaussian
rationals they leave the row space as it is.

Adding a multiple of a row overwrites that row with its multiple, adds it and puts it back; what
remains of this is a new row at the destination, and nothing at all if the row is added to itself
(`addMultiple_eq_ok`). -/

namespace LinearEquations.LabelledMatrix

section AnyArithmetic
variable {R : Type} [Scalar R] {m r : ComplexMatrix R} {i d s : Nat} {k : Operand R}

omit [Scalar R] in
theorem checkRow_eq_ok {row : List (Complex R)} :
    m.checkRow (R := R) i = .ok row ↔ m.rows[i]? = some row := by
  unfold checkRow
  cases m.rows[i]? <;> simp

theorem scaleRow_eq_ok (h : m.scaleRow i k = .ok r) :
    ∃ row a, m.rows[i]? = some row ∧ k.check = .ok a ∧
      r = m.withRows (m.rows.set i (scaledRow a row)) := by
  obtain ⟨row, hrow, h⟩ := bind_eq_ok.mp h
  obtain ⟨a, ha, h⟩ := bind_eq_ok.mp h
  cases h
  exact ⟨row, a, checkRow_eq_ok.mp hrow, mapError_eq_ok.mp ha, rfl⟩

theorem addRow_eq_ok (h : m.addRow d s = .ok r) :
    ∃ row other, m.rows[d]? = some row ∧ m.rows[s]? = some other ∧
      r = m.withRows (m.rows.set d (addedRow row other)) := by
  obtain ⟨row, hrow, h⟩ := bind_eq_ok.mp h
  obtain ⟨other, hother, h⟩ := bind_eq_ok.mp h
  cases h
  exact ⟨row, other, checkRow_eq_ok.mp hrow, checkRow_eq_ok.mp hother, rfl⟩

/-- **Adding a multiple of a row.** -/
theorem addMultiple_eq_ok (h : m.addMultiple d s k = .ok r) :
    ∃ row other a, m.rows[d]? = some row ∧ m.rows[s]? = some other ∧ k.check = .ok a ∧
      r = m.withRows (if d = s then m.rows
        else m.rows.set d (addedRow row (scaledRow a other))) := by
  obtain ⟨kept, hkept, h⟩ := bind_eq_ok.mp h
  obtain ⟨scaled, hscaled, h⟩ := bind_eq_ok.mp h
  obtain ⟨moved, hmoved, h⟩ := bind_eq_ok.mp h
  cases h
  obtain ⟨other, a, hother, ha, rfl⟩ := scaleRow_eq_ok hscaled
  obtain ⟨row, other', hrow, hother', rfl⟩ := addRow_eq_ok hmoved
  cases hother.symm.trans (checkRow_eq_ok.mp hkept)
  obtain ⟨hs, rfl⟩ := List.getElem?_eq_some_iff.mp hother
  simp only [withRows] at hrow hother' ⊢
  rw [List.getElem?_set_self hs] at hother'
  cases hother'
  by_cases hds : d = s
  · subst hds
    refine ⟨m.rows[d], m.rows[d], a, hother, hother, ha, ?_⟩
    simp
  · rw [List.getElem?_set_ne (Ne.symm hds)] at hrow
    refine ⟨row, m.rows[s], a, hrow, hother, ha, ?_⟩
    rw [if_neg hds, List.set_comm _ _ hds, List.set_set, List.set_getElem_self]

omit [Scalar R] in
/-- Replacing the rows by as many of the same length. -/
theorem WellFormed.withRows (hm : m.WellFormed) {rows : Rows R}
    (hlen : rows.length = m.rows.length) (hw : HasWidth m.columnCount rows) :
    (m.withRows rows).WellFormed ∧ (m.withRows rows).shape = m.shape :=
  hm.of_shape hlen hw rfl nofun

omit [Scalar R] in
theorem WellFormed.withRows_set (hm : m.WellFormed) {row : List (Complex R)}
    (hrow : row.length = m.columnCount) :
    (m.withRows (m.rows.set i row)).WellFormed ∧
      (m.withRows (m.rows.set i row)).shape = m.shape :=
  hm.withRows List.length_set (HasWidth.set hm.length_row hrow)

/-- Scaling a row keeps the shape of a matrix. -/
theorem WellFormed.scaleRow (hm : m.WellFormed) (h : m.scaleRow i k = .ok r) :
    r.WellFormed ∧ r.shape = m.shape := by
  obtain ⟨row, a, hrow, -, rfl⟩ := scaleRow_eq_ok h
  exact hm.withRows_set ((length_scaledRow a row).trans (HasWidth.length_eq hm.length_row hrow))

/-- Adding a multiple of a row keeps the shape of a matrix. -/
theorem WellFormed.addMultiple (hm : m.WellFormed) (h : m.addMultiple d s k = .ok r) :
    r.WellFormed ∧ r.shape = m.shape := by
  obtain ⟨row, other, a, hrow, hother, -, rfl⟩ := addMultiple_eq_ok h
  have hrow := HasWidth.length_eq hm.length_row hrow
  have hother := HasWidth.length_eq hm.length_row hother
  split
  · exact hm.withRows rfl hm.length_row
  · exact hm.withRows_set
      ((length_addedRow (by rw [length_scaledRow, hrow, hother])).trans hrow)

end AnyArithmetic

/-! ### Row spaces -/

variable {m r : ComplexMatrix Rat} {rows : Rows Rat} {row other : List (Complex Rat)}

/-- A row in the span of the others adds nothing. -/
theorem rowSpace_cons_of_mem (h : cell row ∈ rowSpace rows) :
    rowSpace (row :: rows) = rowSpace rows :=
  le_antisymm (rowSpace_le_iff.mpr (List.forall_mem_cons.mpr
    ⟨h, fun _ hr => cell_mem_rowSpace hr⟩)) (rowSpace_mono (List.subset_cons_self ..))

theorem rowSpace_set_scaledRow {i : Nat} {k : Complex Rat} (hk : k ≠ 0) (h : rows[i]? = some row) :
    rowSpace (rows.set i (scaledRow k row)) = rowSpace rows := by
  obtain ⟨hi, rfl⟩ := List.getElem?_eq_some_iff.mp h
  rw [rowSpace_eq_of_perm (List.set_perm_cons_eraseIdx hi _), rowSpace_cons_scaledRow hk,
    rowSpace_eq_of_perm (List.getElem_cons_eraseIdx_perm hi)]

theorem forall₂_differsBy_set {d : Nat} {x : List (Complex Rat)} (h : rows[d]? = some row)
    (hx : DiffersBy other row x) : List.Forall₂ (DiffersBy other) rows (rows.set d x) := by
  have hrefl : ∀ l : Rows Rat, List.Forall₂ (DiffersBy other) l l := fun l =>
    List.forall₂_same.mpr fun r _ => ⟨0, by rw [zero_smul, add_zero]⟩
  induction rows generalizing d with
  | nil => cases h
  | cons first rest ih =>
    cases d with
    | zero =>
      cases h
      exact .cons hx (hrefl rest)
    | succ d => exact .cons ⟨0, by rw [zero_smul, add_zero]⟩ (ih h)

/-- A row that stays may be added to another any number of times. -/
theorem rowSpace_set_addedRow {d s : Nat} (k : Complex Rat) (hds : d ≠ s)
    (hlen : row.length = other.length) (hrow : rows[d]? = some row)
    (hother : rows[s]? = some other) :
    rowSpace (rows.set d (addedRow row (scaledRow k other))) = rowSpace rows := by
  have hdiffers : DiffersBy other row (addedRow row (scaledRow k other)) :=
    ⟨k, by rw [cell_addedRow (by simpa using hlen), cell_scaledRow]⟩
  have hmem : other ∈ rows.set d (addedRow row (scaledRow k other)) :=
    List.mem_of_getElem? ((List.getElem?_set_ne hds).trans hother)
  rw [← rowSpace_cons_of_mem (cell_mem_rowSpace hmem),
    rowSpace_cons_eq_of_differsBy (forall₂_differsBy_set hrow hdiffers),
    rowSpace_cons_of_mem (cell_mem_rowSpace (List.mem_of_getElem? hother))]

theorem rowSpace_of_scaleRow {i : Nat} {k : Operand Rat} (hk : k.value ≠ 0)
    (h : m.scaleRow i k = .ok r) : rowSpace r.rows = rowSpace m.rows := by
  obtain ⟨row, a, hrow, ha, rfl⟩ := scaleRow_eq_ok h
  cases ha
  exact rowSpace_set_scaledRow hk hrow

theorem rowSpace_of_addMultiple {d s : Nat} {k : Operand Rat} (hm : m.WellFormed)
    (h : m.addMultiple d s k = .ok r) : rowSpace r.rows = rowSpace m.rows := by
  obtain ⟨row, other, a, hrow, hother, -, rfl⟩ := addMultiple_eq_ok h
  have hlen : row.length = other.length := HasWidth.length_eq_length hm.length_row hrow hother
  simp only [withRows]
  split
  · rfl
  · rename_i hds
    exact rowSpace_set_addedRow a hds hlen hrow hother

end LinearEquations.LabelledMatrix
