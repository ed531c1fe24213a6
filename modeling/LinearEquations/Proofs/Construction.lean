import LinearEquations.LabelledMatrix.Construction
import LinearEquations.Result

/-! # Matrices made from rows

Rows make a matrix exactly when all of their cells are finite and they are as long as the first one,
which must not be empty (`ofRows_eq_ok`).  What is made is well formed, and labels keep it so. -/

namespace LinearEquations.LabelledMatrix
variable {R : Type} [Scalar R]

/-- The check runs through if no row has anything wrong with it. -/
theorem checkRows_eq_ok {expected row : Nat} {rows : List (List (Complex R))} :
    checkRows expected row rows = .ok () ↔
      ∀ cells ∈ rows, (∀ x ∈ cells, x.isFinite) ∧ cells.length = expected := by
  induction rows generalizing row with
  | nil => simp [checkRows]
  | cons cells rest ih =>
    rw [checkRows, List.forall_mem_cons]
    split
    · rename_i column hcolumn
      obtain ⟨hlt, hbad, -⟩ := List.findIdx?_eq_some_iff_getElem.mp hcolumn
      constructor
      · intro h
        cases h
      · rintro ⟨⟨hfinite, -⟩, -⟩
        rw [hfinite _ (List.getElem_mem hlt)] at hbad
        cases hbad
    · rename_i hnone
      have hfinite : ∀ x ∈ cells, x.isFinite := by simpa using List.findIdx?_eq_none_iff.mp hnone
      split
      · rename_i hlen
        rw [ih]
        exact ⟨fun h => ⟨⟨hfinite, hlen⟩, h⟩, And.right⟩
      · rename_i hlen
        constructor
        · intro h
          cases h
        · rintro ⟨⟨-, hlen'⟩, -⟩
          exact absurd hlen' hlen

/-- A row of finite numbers that has the expected length. -/
def IsGoodRow (expected : Nat) (cells : List (Complex R)) : Prop :=
  (∀ x ∈ cells, x.isFinite) ∧ cells.length = expected

/-- The row number `i` is the first with something wrong. -/
structure IsFirstBadRow (expected : Nat) (rows : List (List (Complex R))) (i : Nat)
    (cells : List (Complex R)) : Prop where
  row_eq : rows[i]? = some cells
  bad : ¬ IsGoodRow expected cells
  before : ∀ j < i, ∀ other, rows[j]? = some other → IsGoodRow expected other

/-- What is told about a row that is wrong: the first number that is not finite, if there is one,
and otherwise its length. -/
def rowError (expected row : Nat) (cells : List (Complex R)) : MatrixError R :=
  match cells.findIdx? (!·.isFinite) with
  | some column => .invalidElement row column
  | none => .raggedRows row expected cells.length

/-- The check tells the first row that is wrong. -/
theorem exists_isFirstBadRow {expected start : Nat} {rows : List (List (Complex R))}
    {e : MatrixError R} (h : checkRows expected start rows = .error e) :
    ∃ i cells, IsFirstBadRow expected rows i cells ∧ e = rowError expected (start + i) cells := by
  induction rows generalizing start with
  | nil => cases h
  | cons cells rest ih =>
    by_cases hgood : IsGoodRow expected cells
    · obtain ⟨hfinite, hlen⟩ := hgood
      have hnone : cells.findIdx? (!·.isFinite) = none :=
        List.findIdx?_eq_none_iff.mpr fun x hx => by rw [hfinite x hx, Bool.not_true]
      rw [checkRows, hnone] at h
      obtain ⟨i, bad, hbad, rfl⟩ := ih ((if_pos hlen).symm.trans h)
      refine ⟨i + 1, bad, ⟨hbad.row_eq, hbad.bad, fun j hj other hother => ?_⟩, ?_⟩
      · cases j with
        | zero =>
          cases hother
          exact ⟨hfinite, hlen⟩
        | succ j => exact hbad.before j (Nat.lt_of_succ_lt_succ hj) other hother
      · rw [Nat.add_right_comm, Nat.add_assoc]
    · refine ⟨0, cells, ⟨rfl, hgood, nofun⟩, ?_⟩
      rw [checkRows] at h
      cases hfind : cells.findIdx? (!·.isFinite) with
      | some column =>
        rw [hfind] at h
        rw [rowError, hfind]
        exact (Except.error.inj h).symm
      | none =>
        have hfinite : ∀ x ∈ cells, x.isFinite := by simpa using List.findIdx?_eq_none_iff.mp hfind
        have hlen : cells.length ≠ expected := fun hlen => hgood ⟨hfinite, hlen⟩
        rw [hfind] at h
        rw [rowError, hfind]
        exact (Except.error.inj ((if_neg hlen).symm.trans h)).symm

/-- **When rows make a matrix.** -/
theorem ofRows_eq_ok {rows : List (List (Complex R))} {m : ComplexMatrix R} :
    ofRows rows = .ok m ↔
      (∀ cells ∈ rows, (∀ x ∈ cells, x.isFinite) ∧ cells.length = (rows.headD []).length) ∧
        rows.headD [] ≠ [] ∧ m = { rows } := by
  rw [← @checkRows_eq_ok _ _ _ 0, ofRows, bind_eq_ok]
  simp only [List.isEmpty_iff]
  constructor
  · rintro ⟨⟨⟩, hcheck, h⟩
    split at h
    · cases h
    · rename_i hne
      cases h
      exact ⟨hcheck, hne, rfl⟩
  · rintro ⟨hcheck, hne, rfl⟩
    exact ⟨(), hcheck, by rw [if_neg hne]; rfl⟩

omit [Scalar R] in
theorem withLabels_eq_ok {K : Type} {m r : LabelledMatrix K} {labels : List String} :
    (m.withLabels labels : Except (MatrixError R) _) = .ok r ↔
      labels.length = m.columnCount ∧ r = { m with labels := some labels } := by
  unfold withLabels
  split
  · rename_i hlen
    exact ⟨fun h => ⟨hlen, (Except.ok.inj h).symm⟩, fun h => congrArg _ h.2.symm⟩
  · rename_i hlen
    constructor
    · intro h
      cases h
    · rintro ⟨hlen', -⟩
      exact absurd hlen' hlen

/-- **What is made from rows is well formed.** -/
theorem wellFormed_of_ofRows {rows : List (List (Complex R))} {m : ComplexMatrix R}
    (h : ofRows rows = .ok m) : m.WellFormed := by
  obtain ⟨hrows, hne, rfl⟩ := ofRows_eq_ok.mp h
  have hpos : 0 < (rows.headD []).length := List.length_pos_iff.mpr hne
  refine ⟨?_, hpos, fun row hrow => (hrows row hrow).2, ?_, ?_⟩
  · cases rows with
    | nil => exact absurd rfl hne
    | cons row rest => exact Nat.succ_pos _
  · intro labels hlabels
    cases hlabels
  · intro hrem
    cases hrem

omit [Scalar R] in
theorem WellFormed.withLabels {K : Type} {m r : LabelledMatrix K} {labels : List String}
    (hm : m.WellFormed) (h : (m.withLabels labels : Except (MatrixError R) _) = .ok r) :
    r.WellFormed := by
  obtain ⟨hlen, rfl⟩ := withLabels_eq_ok.mp h
  refine ⟨hm.rowCount_pos, hm.columnCount_pos, hm.length_row, ?_, hm.square_of_remembered⟩
  intro labels' hlabels'
  cases hlabels'
  exact hlen

end LinearEquations.LabelledMatrix
