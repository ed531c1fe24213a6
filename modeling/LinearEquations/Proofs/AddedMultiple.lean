import LinearEquations.Scalar.Double
import LinearEquations.Proofs.FlatRowOperation

/-! # Which cells a row operation changes

`LabelledMatrix.addMultiple` overwrites the source row with its multiple, adds it to the destination
and puts the source back.  Each of the three steps checks its own arguments, and the first check
that fails is the one that is told: the source row, then the number, then the destination row.  If
none fails, only the destination row is different afterwards (`IsRowSum`).  Nothing is asked of the
arithmetic. -/

namespace LinearEquations.LabelledMatrix
variable {R : Type} [Scalar R] {m r : ComplexMatrix R} {i d s : Nat} {k : Operand R}
variable {row other : List (Complex R)}

/-! ### What is refused -/

omit [Scalar R] in
theorem checkRow_of_le (hi : m.rowCount ≤ i) :
    m.checkRow (R := R) i = .error (.rowOutOfRange i m.rowCount) := by
  rw [checkRow, List.getElem?_eq_none hi]

omit [Scalar R] in
theorem exists_row (hi : i < m.rowCount) : ∃ row, m.rows[i]? = some row :=
  ⟨_, List.getElem?_eq_getElem hi⟩

theorem checkOperand_of_isFinite (hk : k.value.isFinite) : checkOperand k = .ok k.value := by
  rw [checkOperand, Operand.check, if_pos hk]
  rfl

theorem checkOperand_of_not_isFinite (hk : ¬ k.value.isFinite) :
    checkOperand k = .error (.arithmetic (.invalidOperand k)) := by
  rw [checkOperand, Operand.check, if_neg hk]
  rfl

/-- A row with a number can be scaled by any finite operand. -/
theorem scaleRow_of_row (hrow : m.rows[i]? = some row) (hk : k.value.isFinite) :
    m.scaleRow i k = .ok (m.withRows (m.rows.set i (scaledRow k.value row))) := by
  rw [scaleRow, checkRow_eq_ok.mpr hrow, ok_bind, checkOperand_of_isFinite hk]
  rfl

theorem addRow_of_row (hrow : m.rows[d]? = some row) (hother : m.rows[s]? = some other) :
    m.addRow d s = .ok (m.withRows (m.rows.set d (addedRow row other))) := by
  rw [addRow, checkRow_eq_ok.mpr hrow, ok_bind, checkRow_eq_ok.mpr hother]
  rfl

/-- The first check is that of the source row. -/
theorem addMultiple_of_source_le (hs : m.rowCount ≤ s) :
    m.addMultiple d s k = .error (.rowOutOfRange s m.rowCount) := by
  rw [addMultiple, checkRow_of_le hs, error_bind]

/-- The second check is that of the number. -/
theorem addMultiple_of_not_isFinite (hs : s < m.rowCount) (hk : ¬ k.value.isFinite) :
    m.addMultiple d s k = .error (.arithmetic (.invalidOperand k)) := by
  obtain ⟨kept, hkept⟩ := exists_row hs
  have hscaled : m.scaleRow s k = .error (.arithmetic (.invalidOperand k)) := by
    rw [scaleRow, checkRow_eq_ok.mpr hkept, ok_bind, checkOperand_of_not_isFinite hk, error_bind]
  rw [addMultiple, checkRow_eq_ok.mpr hkept, ok_bind, hscaled, error_bind]

/-- The last check is that of the destination row.  By then the source row is scaled, which does not
change how many rows there are. -/
theorem addMultiple_of_destination_le (hs : s < m.rowCount) (hk : k.value.isFinite)
    (hd : m.rowCount ≤ d) : m.addMultiple d s k = .error (.rowOutOfRange d m.rowCount) := by
  obtain ⟨kept, hkept⟩ := exists_row hs
  have hcount : ∀ row, (m.withRows (m.rows.set s row)).rowCount = m.rowCount :=
    fun _ => List.length_set
  rw [addMultiple, checkRow_eq_ok.mpr hkept, ok_bind, scaleRow_of_row hkept hk, ok_bind, addRow,
    checkRow_of_le ((hcount _).trans_le hd), hcount]
  rfl

/-- Nothing else is refused. -/
theorem exists_addMultiple (hs : s < m.rowCount) (hk : k.value.isFinite) (hd : d < m.rowCount) :
    ∃ r, m.addMultiple d s k = .ok r := by
  obtain ⟨kept, hkept⟩ := exists_row hs
  have hcount : ∀ row, (m.withRows (m.rows.set s row)).rowCount = m.rowCount :=
    fun _ => List.length_set
  obtain ⟨row, hrow⟩ := exists_row (lt_of_lt_of_eq hd (hcount _).symm)
  obtain ⟨other, hother⟩ := exists_row (lt_of_lt_of_eq hs (hcount _).symm)
  rw [addMultiple, checkRow_eq_ok.mpr hkept, ok_bind, scaleRow_of_row hkept hk, ok_bind,
    addRow_of_row hrow hother]
  exact ⟨_, rfl⟩

/-! ### What is changed -/

/-- What adding `k` times the row `s` to the row `d` makes of a matrix `m`: the cells of the row `d`
are sums, and all others stay.  A row that is added to itself stays as well. -/
structure IsRowSum (m r : ComplexMatrix R) (d s : Nat) (k : Complex R) : Prop where
  wellFormed : r.WellFormed
  shape_eq : r.shape = m.shape
  labels_eq : r.labels = m.labels
  remembered_eq : r.remembered = none
  changed : d ≠ s → ∀ c, r.get? c d = do return (← m.get? c d) + (← m.get? c s) * k
  kept : ∀ row, row ≠ d ∨ d = s → ∀ c, r.get? c row = m.get? c row

theorem getElem?_addedRow_scaledRow (k : Complex R) (row other : List (Complex R)) (c : Nat) :
    (addedRow row (scaledRow k other))[c]? = do return (← row[c]?) + (← other[c]?) * k := by
  rw [addedRow, scaledRow, List.getElem?_zipWith, List.getElem?_map]
  cases row[c]? <;> cases other[c]? <;> rfl

theorem isRowSum_of_addMultiple (hm : m.WellFormed) (h : m.addMultiple d s k = .ok r) :
    IsRowSum m r d s k.value := by
  obtain ⟨hwf, hshape⟩ := hm.addMultiple h
  obtain ⟨row, other, a, hrow, hother, hk, rfl⟩ := addMultiple_eq_ok h
  obtain ⟨hd, -⟩ := List.getElem?_eq_some_iff.mp hrow
  have ha : k.value = a := by
    unfold Operand.check at hk
    split at hk
    · exact Except.ok.inj hk
    · cases hk
  subst ha
  refine ⟨hwf, hshape, rfl, rfl, fun hds c => ?_, fun i hi c => ?_⟩
  · show cellAt? (if d = s then m.rows else m.rows.set d _) d c = _
    rw [if_neg hds, cellAt?_set hd, if_pos rfl, getElem?_addedRow_scaledRow, get?, get?, hrow,
      hother]
    rfl
  · show cellAt? (if d = s then m.rows else m.rows.set d _) i c = cellAt? m.rows i c
    by_cases hds : d = s
    · rw [if_pos hds]
    · rw [if_neg hds, cellAt?_set hd, if_neg (Ne.symm (hi.resolve_right hds))]

/-- **Adding a multiple of a row**, for any arithmetic: what is refused, in the order of the checks,
what is changed, and that the program on arrays does the same. -/
theorem addMultiple_spec (hm : m.WellFormed) (d s : Nat) (k : Operand R) :
    (m.rowCount ≤ s → m.addMultiple d s k = .error (.rowOutOfRange s m.rowCount)) ∧
      (s < m.rowCount → ¬ k.value.isFinite →
        m.addMultiple d s k = .error (.arithmetic (.invalidOperand k))) ∧
      (s < m.rowCount → k.value.isFinite → m.rowCount ≤ d →
        m.addMultiple d s k = .error (.rowOutOfRange d m.rowCount)) ∧
      (s < m.rowCount → k.value.isFinite → d < m.rowCount →
        ∃ r, m.addMultiple d s k = .ok r ∧ IsRowSum m r d s k.value) ∧
      m.flat.addMultiple d s k = Checked.lift flat (m.addMultiple d s k) := by
  refine ⟨addMultiple_of_source_le, addMultiple_of_not_isFinite, addMultiple_of_destination_le,
    fun hs hk hd => ?_, FlatMatrix.addMultiple_flat hm⟩
  obtain ⟨r, hr⟩ := exists_addMultiple hs hk hd
  exact ⟨r, hr, isRowSum_of_addMultiple hm hr⟩

/-- A multiple of the lower row added to the upper one, and the three refusals, where possible with
the later checks failing too. -/
theorem addMultiple_spec_of_two_rows :
    let m : ComplexMatrix Float :=
      { rows := [[⟨1, 0⟩, ⟨2, -0.0⟩], [⟨0.5, 0⟩, ⟨-0.0, 1⟩]], labels := some ["x", "rhs"] }
    let k : Operand Float := .complex ⟨0.5, 0.75⟩
    m.WellFormed ∧ m.addMultiple 0 2 (.real (1 / 0)) = .error (.rowOutOfRange 2 2) ∧
      m.addMultiple 2 1 (.real (1 / 0)) =
        .error (.arithmetic (.invalidOperand (.real (1 / 0)))) ∧
      m.addMultiple 2 1 k = .error (.rowOutOfRange 2 2) ∧
      ∃ r, m.addMultiple 0 1 k = .ok r ∧ IsRowSum m r 0 1 ⟨0.5, 0.75⟩ := by
  intro m k
  have hm : m.WellFormed := by decide
  have hk : k.value.isFinite := by decide +kernel
  have hinfinite : ¬ (Operand.real (1 / 0 : Float)).value.isFinite := by decide +kernel
  obtain ⟨hsource, -⟩ := addMultiple_spec hm 0 2 (.real (1 / 0))
  obtain ⟨-, hnumber, -⟩ := addMultiple_spec hm 2 1 (.real (1 / 0))
  obtain ⟨-, -, hdestination, -⟩ := addMultiple_spec hm 2 1 k
  obtain ⟨-, -, -, hsum, -⟩ := addMultiple_spec hm 0 1 k
  exact ⟨hm, hsource (by decide), hnumber (by decide) hinfinite,
    hdestination (by decide) hk (by decide), hsum (by decide) hk (by decide)⟩

end LinearEquations.LabelledMatrix
