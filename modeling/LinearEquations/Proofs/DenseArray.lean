import LinearEquations.Proofs.AugmentedMatrix
import LinearEquations.Proofs.FlatViews

/-! # Dense arrays and matrices

A dense array has its cells column by column and is asked for a row and a column, in this order; a
matrix has its cells row by row and is asked for a column and a row.  Going from one to the other
exchanges the order of the cells and keeps their places, which square or symmetric cells would not
tell: that the places are kept is said of each direction by itself (`cellAt?_rows`,
`get?_toColumnMajor`), and that nothing is lost follows, because a full array is determined by its
cells and their places (`ColumnMajor.eq_of_get?_eq`).

An array is read row by row although it is stored column by column, so the cell that is refused is
the first one in the order of the matrix. -/

namespace LinearEquations

namespace ColumnMajor
variable {K : Type} {a b : ColumnMajor K}

/-- **Where a cell is in an array**: the cell number `i` is in row `i % p` and column `i / p`, a
column having `p` cells. -/
theorem getElem?_cells (ha : a.IsFull) {i : Nat} (hi : i < a.cells.length) :
    a.cells[i]? = a.get? (i % a.rowCount) (i / a.rowCount) := by
  have hlen : a.cells.length = a.columnCount * a.rowCount := ha
  have hp : 0 < a.rowCount := Nat.pos_of_ne_zero fun hzero => by
    rw [hlen, hzero, Nat.mul_zero] at hi
    exact Nat.not_lt_zero i hi
  have hr : i % a.rowCount < a.rowCount := Nat.mod_lt i hp
  have hc : i / a.rowCount < a.columnCount := (Nat.div_lt_iff_lt_mul hp).mpr (hi.trans_eq hlen)
  simp only [get?, hr, hc, decide_true, Bool.and_true, if_true, Nat.div_add_mod']

theorem mem_cells_iff (ha : a.IsFull) {x : K} : x ∈ a.cells ↔ ∃ r c, a.get? r c = some x := by
  constructor
  · intro hx
    obtain ⟨i, hi, rfl⟩ := List.mem_iff_getElem.mp hx
    exact ⟨_, _, (getElem?_cells ha hi).symm.trans (List.getElem?_eq_getElem hi)⟩
  · rintro ⟨r, c, hx⟩
    unfold get? at hx
    split at hx
    · exact List.mem_of_getElem? hx
    · cases hx

/-- **A full array is determined by its cells and their places.** -/
theorem eq_of_get?_eq (ha : a.IsFull) (hb : b.IsFull) (hrows : a.rowCount = b.rowCount)
    (hcols : a.columnCount = b.columnCount) (h : ∀ r c, a.get? r c = b.get? r c) : a = b := by
  have hlen : a.cells.length = b.cells.length :=
    Eq.trans ha ((congrArg₂ (· * ·) hcols hrows).trans (Eq.symm hb))
  refine ColumnMajor.ext hrows hcols (List.ext_getElem? fun i => ?_)
  by_cases hi : i < a.cells.length
  · rw [getElem?_cells ha hi, h, getElem?_cells hb (hlen ▸ hi), hrows]
  · have hle := Nat.le_of_not_lt hi
    rw [List.getElem?_eq_none hle, List.getElem?_eq_none (hlen ▸ hle)]

end ColumnMajor

namespace LabelledMatrix
variable {K : Type} {m : LabelledMatrix K}

theorem isFull_toColumnMajor (hm : m.WellFormed) : m.toColumnMajor.IsFull := by
  have hlen := length_flatten (hasWidth_columns hm.length_row)
  rwa [length_columns] at hlen

/-- **A cell keeps its place** when a matrix becomes an array. -/
theorem get?_toColumnMajor (hm : m.WellFormed) (r c : Nat) :
    m.toColumnMajor.get? r c = m.get? c r := by
  unfold ColumnMajor.get? toColumnMajor
  split
  · rename_i h
    have hr : r < m.rowCount := by simp at h; exact h.1
    rw [getElem?_flatten (hasWidth_columns hm.length_row) hr]
    exact cellAt?_columns hm.length_row c r
  · rename_i h
    refine ((hm.get?_eq_none c r).mpr ?_).symm
    simp only [Bool.and_eq_true, decide_eq_true_eq, not_and_or, Nat.not_lt] at h
    exact h.symm

end LabelledMatrix

namespace FlatMatrix
open LabelledMatrix Checked

variable {R : Type} [Scalar R] {a : ColumnMajor (Complex R)} {m : ComplexMatrix R}

/-! ### Reading an array -/

theorem hasWidth_rows (ha : a.IsFull) : HasWidth a.columnCount a.rows :=
  rows_eq_table ha ▸ hasWidth_table _ _ _

theorem length_rows (ha : a.IsFull) : a.rows.length = a.rowCount := by
  rw [rows_eq_table ha, length_table]

/-- **A cell keeps its place** when an array becomes rows. -/
theorem cellAt?_rows (ha : a.IsFull) (r c : Nat) : cellAt? a.rows r c = a.get? r c := by
  by_cases hin : r < a.rowCount ∧ c < a.columnCount
  · obtain ⟨x, hx⟩ := exists_get? ha hin.1 hin.2
    rw [rows_eq_table ha, cellAt?_table hin.1 hin.2, hx, Option.getD_some]
  · have hnone : a.get? r c = none := if_neg (by simpa using hin)
    rw [hnone]
    rcases not_and_or.mp hin with hr | hc
    · exact cellAt?_of_length_le ((length_rows ha).le.trans (Nat.le_of_not_lt hr)) c
    · exact cellAt?_of_width_le (hasWidth_rows ha) r (Nat.le_of_not_lt hc)

theorem headD_rows (ha : a.IsFull) (hp : 0 < a.rowCount) :
    (a.rows.headD []).length = a.columnCount := by
  obtain ⟨row, rest, hcons⟩ := List.exists_cons_of_length_pos (hp.trans_eq (length_rows ha).symm)
  exact hasWidth_rows ha _ (hcons ▸ List.mem_cons_self ..)

/-- The rows of an array have its cells and no others. -/
theorem exists_mem_rows_iff (ha : a.IsFull) {x : Complex R} :
    (∃ row ∈ a.rows, x ∈ row) ↔ x ∈ a.cells := by
  rw [ColumnMajor.mem_cells_iff ha]
  simp only [← cellAt?_rows ha, cellAt?, Option.bind_eq_some_iff]
  constructor
  · rintro ⟨row, hrow, hx⟩
    obtain ⟨r, hr⟩ := List.mem_iff_getElem?.mp hrow
    obtain ⟨c, hc⟩ := List.mem_iff_getElem?.mp hx
    exact ⟨r, c, row, hr, hc⟩
  · rintro ⟨r, c, row, hr, hc⟩
    exact ⟨row, List.mem_of_getElem? hr, List.mem_of_getElem? hc⟩

/-- An array of finite numbers becomes the matrix with its rows. -/
theorem ofRows_rows (ha : a.IsFull) (hp : 0 < a.rowCount) (hq : 0 < a.columnCount)
    (hfinite : ∀ x ∈ a.cells, x.isFinite) : ofRows a.rows = .ok { rows := a.rows } := by
  have hhead := headD_rows ha hp
  refine ofRows_eq_ok.mpr ⟨fun row hrow => ⟨fun x hx => ?_, ?_⟩, ?_, rfl⟩
  · exact hfinite x ((exists_mem_rows_iff ha).mp ⟨row, hrow, hx⟩)
  · exact (hasWidth_rows ha row hrow).trans hhead.symm
  · exact List.ne_nil_of_length_pos (hhead ▸ hq)

/-- The rows of a matrix come back from its array. -/
theorem rows_toColumnMajor (hm : m.WellFormed) : m.toColumnMajor.rows = m.rows := by
  have hfull := isFull_toColumnMajor hm
  refine rows_eq_of_hasWidth (length_rows hfull) (hasWidth_rows hfull) hm.length_row
    fun r _ c _ => ?_
  rw [cellAt?_rows hfull, get?_toColumnMajor hm]
  rfl

/-- **From a matrix to an array and back**: the cells are the same, labels and what is remembered are
left behind. -/
theorem ofColumnMajor_toColumnMajor (hm : m.WellFormed) (hfinite : ∀ x ∈ m.flat.cells, x.isFinite) :
    FlatMatrix.ofColumnMajor m.toColumnMajor =
      .ok { m.flat with labels := none, remembered := none } := by
  have hrows : ofRows m.rows = .ok { rows := m.rows } := by
    refine ofRows_eq_ok.mpr ⟨fun row hrow => ⟨fun x hx => ?_, hm.length_row row hrow⟩, ?_, rfl⟩
    · exact hfinite x (List.mem_flatten_of_mem hrow hx)
    · exact List.ne_nil_of_length_pos hm.columnCount_pos
  rw [ofColumnMajor_flat (isFull_toColumnMajor hm), LabelledMatrix.ofColumnMajor,
    rows_toColumnMajor hm, hrows]
  rfl

/-- **From an array to a matrix and back**: nothing has changed. -/
theorem exists_toColumnMajor_eq (ha : a.IsFull) (hp : 0 < a.rowCount) (hq : 0 < a.columnCount)
    (hfinite : ∀ x ∈ a.cells, x.isFinite) :
    ∃ b, FlatMatrix.ofColumnMajor a = .ok b ∧ b.toColumnMajor = .ok a := by
  have hrows := ofRows_rows ha hp hq hfinite
  have hwf := wellFormed_of_ofRows hrows
  have hcols : (⟨a.rows, none, none⟩ : ComplexMatrix R).columnCount = a.columnCount :=
    headD_rows ha hp
  refine ⟨flat ⟨a.rows, none, none⟩, ?_, ?_⟩
  · rw [ofColumnMajor_flat ha, LabelledMatrix.ofColumnMajor, hrows]
    rfl
  · rw [toColumnMajor_flat hwf]
    refine congrArg Except.ok (ColumnMajor.eq_of_get?_eq (isFull_toColumnMajor hwf) ha
      (length_rows ha) hcols fun r c => ?_)
    rw [get?_toColumnMajor hwf, ← cellAt?_rows ha]
    rfl

theorem ofColumnMajor_of_empty (h : a.rowCount = 0 ∨ a.columnCount = 0) :
    FlatMatrix.ofColumnMajor a = refuse .empty := if_pos (by simpa using h)

/-- The first cell in the order of the matrix is refused. -/
theorem exists_isFirstBad_of_not_isFinite (ha : a.IsFull) (hp : 0 < a.rowCount)
    {x : Complex R} (hx : x ∈ a.cells) (hbad : ¬ x.isFinite) :
    ∃ r c, IsFirstBad a.get? r c ∧
      FlatMatrix.ofColumnMajor a = refuse (.invalidElement r c) := by
  have hhead := headD_rows ha hp
  have hcells : cellAt? a.rows = a.get? := funext₂ (cellAt?_rows ha)
  cases hcheck : checkRows a.columnCount 0 a.rows with
  | error e =>
    obtain ⟨r, c, hfirst, rfl⟩ := LinearSystem.exists_isFirstBad (hasWidth_rows ha) hcheck
    refine ⟨r, c, hcells ▸ hfirst, ?_⟩
    rw [ofColumnMajor_flat ha, LabelledMatrix.ofColumnMajor, ofRows, hhead, hcheck]
    rfl
  | ok =>
    -- all cells of the array are in its rows, and these are finite
    obtain ⟨row, hrow, hx⟩ := (exists_mem_rows_iff ha).mpr hx
    exact absurd ((checkRows_eq_ok.mp hcheck row hrow).1 x hx) hbad

/-- **Matrices and dense arrays.**

* A matrix of finite numbers becomes an array of the same shape with the same cells in the same
  places, and that array becomes a matrix with the same cells, without labels and with nothing
  remembered.
* An array of finite numbers that has rows and columns becomes a matrix, which becomes the same
  array.
* An array without rows or without columns is refused for being empty.
* Another array is refused for its first cell, row by row, that is not finite. -/
theorem denseArray_roundTrip :
    (∀ m : FlatMatrix R, m.WellFormed → (∀ x ∈ m.cells, x.isFinite) →
      ∃ a, m.toColumnMajor = .ok a ∧ a.IsFull ∧ a.rowCount = m.rowCount ∧
        a.columnCount = m.columnCount ∧ (∀ r c, a.get? r c = m.get? c r) ∧
        FlatMatrix.ofColumnMajor a = .ok { m with labels := none, remembered := none }) ∧
    (∀ a : ColumnMajor (Complex R), a.IsFull → 0 < a.rowCount → 0 < a.columnCount →
      (∀ x ∈ a.cells, x.isFinite) →
        ∃ m, FlatMatrix.ofColumnMajor a = .ok m ∧ m.toColumnMajor = .ok a) ∧
    (∀ a : ColumnMajor (Complex R), a.rowCount = 0 ∨ a.columnCount = 0 →
      FlatMatrix.ofColumnMajor a = refuse .empty) ∧
    ∀ a : ColumnMajor (Complex R), a.IsFull → 0 < a.rowCount → 0 < a.columnCount →
      (∃ x ∈ a.cells, ¬ x.isFinite) → ∃ r c, IsFirstBad a.get? r c ∧
        FlatMatrix.ofColumnMajor a = refuse (.invalidElement r c) := by
  refine ⟨fun m hm hfinite => ?_, fun a ha hp hq hfinite => exists_toColumnMajor_eq ha hp hq hfinite,
    fun a h => ofColumnMajor_of_empty h, ?_⟩
  · obtain ⟨n, hn, rfl⟩ := hm.exists_flat
    refine ⟨n.toColumnMajor, toColumnMajor_flat hn, isFull_toColumnMajor hn, rfl, rfl,
      fun r c => ?_, ofColumnMajor_toColumnMajor hn hfinite⟩
    rw [get?_toColumnMajor hn, get?_flat hn]
  · rintro a ha hp - ⟨x, hx, hbad⟩
    exact exists_isFirstBad_of_not_isFinite ha hp hx hbad

/-- Two rows of three cells.  In the second array the cell in row `1` and column `0` comes first in
the array, but the one in row `0` and column `2` comes first in the matrix. -/
theorem denseArray_roundTrip_of_two_rows :
    let m : FlatMatrix Float := { cells := [⟨1, 0⟩, ⟨2, -0.0⟩, ⟨3, 0⟩, ⟨4, 0⟩, ⟨5, 0⟩, ⟨6, -1⟩],
                                  columnCount := 3, rowCount := 2, labels := some ["x", "y", "rhs"] }
    let full : ColumnMajor (Complex Float) :=
      ⟨2, 3, [⟨1, 0⟩, ⟨4, 0⟩, ⟨2, -0.0⟩, ⟨5, 0⟩, ⟨3, 0⟩, ⟨6, -1⟩]⟩
    let bad : ColumnMajor (Complex Float) :=
      ⟨2, 3, [⟨1, 0⟩, ⟨1 / 0, 0⟩, ⟨2, 0⟩, ⟨5, 0⟩, ⟨0, 0 / 0⟩, ⟨6, 0⟩]⟩
    m.WellFormed ∧
      (∃ a, m.toColumnMajor = .ok a ∧ a.get? 0 1 = some ⟨2, -0.0⟩ ∧
        FlatMatrix.ofColumnMajor a = .ok { m with labels := none, remembered := none }) ∧
      (∃ m, FlatMatrix.ofColumnMajor full = .ok m ∧ m.toColumnMajor = .ok full) ∧
      FlatMatrix.ofColumnMajor bad = refuse (.invalidElement 0 2) := by
  intro m full bad
  have hm : m.WellFormed := by
    refine ⟨by decide, by decide, rfl, ?_, nofun⟩
    rintro _ ⟨⟩
    rfl
  obtain ⟨hmatrix, harray, -, hrefused⟩ := denseArray_roundTrip (R := Float)
  obtain ⟨a, ha, -, -, -, hget, hback⟩ := hmatrix m hm (by decide +kernel)
  refine ⟨hm, ⟨a, ha, hget 0 1, hback⟩,
    harray full rfl (by decide) (by decide) (by decide +kernel), ?_⟩
  have hfirst : IsFirstBad bad.get? 0 2 := by
    refine ⟨⟨⟨0, 0 / 0⟩, rfl, by decide +kernel⟩, fun r c hlt x hx => ?_⟩
    obtain ⟨rfl, rfl | rfl⟩ : r = 0 ∧ (c = 0 ∨ c = 1) := by omega
    · cases hx
      decide +kernel
    · cases hx
      decide +kernel
  obtain ⟨r, c, hrc, herror⟩ := hrefused bad rfl (by decide) (by decide) (by decide +kernel)
  obtain ⟨rfl, rfl⟩ := hfirst.unique hrc
  exact herror

end FlatMatrix
end LinearEquations
