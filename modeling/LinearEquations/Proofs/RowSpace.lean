import Mathlib
import LinearEquations.Proofs.EchelonForm
import LinearEquations.Proofs.EliminationRun

/-! # Row spaces

The row space of a list of rows is the span of its rows, each taken as a function of the column.
The steps of the elimination leave it as it is: rearranging rows, scaling one of them, adding
multiples of one to the others, and going on below a row and to the right of an empty column. -/

namespace LinearEquations.LabelledMatrix
variable {row pivot : List (Complex Rat)} {rows out : Rows Rat}

/-- The span of the rows. -/
def rowSpace (rows : Rows Rat) : Submodule (Complex Rat) (Nat → Complex Rat) :=
  Submodule.span (Complex Rat) (cell '' {row | row ∈ rows})

theorem cell_mem_rowSpace (h : row ∈ rows) : cell row ∈ rowSpace rows :=
  Submodule.subset_span ⟨row, h, rfl⟩

theorem rowSpace_le_iff {W : Submodule (Complex Rat) (Nat → Complex Rat)} :
    rowSpace rows ≤ W ↔ ∀ row ∈ rows, cell row ∈ W := by
  rw [rowSpace, Submodule.span_le]
  constructor
  · intro h row hrow
    exact h ⟨row, hrow, rfl⟩
  · rintro h _ ⟨row, hrow, rfl⟩
    exact h row hrow

theorem rowSpace_mono (h : rows ⊆ out) : rowSpace rows ≤ rowSpace out :=
  rowSpace_le_iff.mpr fun _ hrow => cell_mem_rowSpace (h hrow)

theorem rowSpace_eq_of_perm (h : rows.Perm out) : rowSpace rows = rowSpace out :=
  le_antisymm (rowSpace_mono h.subset) (rowSpace_mono h.symm.subset)

theorem rowSpace_cons (row : List (Complex Rat)) (rows : Rows Rat) :
    rowSpace (row :: rows) = Submodule.span (Complex Rat) {cell row} ⊔ rowSpace rows := by
  rw [rowSpace, rowSpace, ← Submodule.span_union]
  congr 1
  ext v
  simp [eq_comm]

theorem rowSpace_append (rows out : Rows Rat) :
    rowSpace (rows ++ out) = rowSpace rows ⊔ rowSpace out := by
  rw [rowSpace, rowSpace, rowSpace, ← Submodule.span_union, ← Set.image_union]
  congr 2
  ext v
  simp

/-- Scaling a row by a number other than zero. -/
theorem rowSpace_cons_scaledRow {k : Complex Rat} (hk : k ≠ 0) (row : List (Complex Rat))
    (rows : Rows Rat) : rowSpace (scaledRow k row :: rows) = rowSpace (row :: rows) := by
  rw [rowSpace_cons, rowSpace_cons, cell_scaledRow,
    Submodule.span_singleton_smul_eq (IsUnit.mk0 k hk)]

/-! ### Adding multiples of one row -/

/-- The row `out` is `row` plus a multiple of `pivot`. -/
def DiffersBy (pivot row out : List (Complex Rat)) : Prop :=
  ∃ k : Complex Rat, cell out = cell row + k • cell pivot

theorem DiffersBy.symm {other : List (Complex Rat)} (h : DiffersBy pivot row other) :
    DiffersBy pivot other row := by
  obtain ⟨k, hk⟩ := h
  exact ⟨-k, by rw [hk, neg_smul, add_neg_cancel_right]⟩

theorem rowSpace_cons_le_of_differsBy (h : List.Forall₂ (DiffersBy pivot) rows out) :
    rowSpace (pivot :: out) ≤ rowSpace (pivot :: rows) := by
  refine rowSpace_le_iff.mpr (List.forall_mem_cons.mpr
    ⟨cell_mem_rowSpace (List.mem_cons_self ..), fun r hr => ?_⟩)
  obtain ⟨row, hrow, k, hk⟩ := exists_mem_of_forall₂ h hr
  rw [hk]
  exact Submodule.add_mem _ (cell_mem_rowSpace (List.mem_cons_of_mem _ hrow))
    (Submodule.smul_mem _ _ (cell_mem_rowSpace (List.mem_cons_self ..)))

/-- Adding multiples of one row to others. -/
theorem rowSpace_cons_eq_of_differsBy (h : List.Forall₂ (DiffersBy pivot) rows out) :
    rowSpace (pivot :: out) = rowSpace (pivot :: rows) :=
  le_antisymm (rowSpace_cons_le_of_differsBy h)
    (rowSpace_cons_le_of_differsBy (.flip (h.imp fun _ _ hd => DiffersBy.symm hd)))

/-! ### Clearing a column -/

/-- The row that `clearedRow` gives. -/
def clearRow (c : Nat) (pivot row : List (Complex Rat)) : List (Complex Rat) :=
  if (cell row c).isZero then row else addedRow row (scaledRow (-cell row c) pivot)

theorem clearedRow_eq_ok (c : Nat) (pivot row : List (Complex Rat)) :
    clearedRow c pivot row = .ok (clearRow c pivot row) := by
  change (if (cell row c).isZero then Except.ok row
    else .ok (addedRow row (scaledRow (-cell row c) pivot))) = _
  unfold clearRow
  split <;> rfl

theorem mapM_clearedRow (c : Nat) (pivot : List (Complex Rat)) (rows : Rows Rat) :
    rows.mapM (clearedRow c pivot) = .ok (rows.map (clearRow c pivot)) :=
  mapM_eq_ok.mpr (List.forall₂_map_right_iff.mpr
    (List.forall₂_same.mpr fun row _ => clearedRow_eq_ok c pivot row))

theorem cell_clearRow (c : Nat) (hlen : row.length = pivot.length) :
    cell (clearRow c pivot row) = cell row - cell row c • cell pivot := by
  unfold clearRow
  split
  · rename_i hzero
    rw [(Complex.isZero_iff _).mp hzero, zero_smul, sub_zero]
  · rw [cell_addedRow (by simpa using hlen), cell_scaledRow, sub_eq_add_neg, neg_smul]

/-- Clearing a column of all other rows with the help of one of them. -/
theorem rowSpace_cons_map_clearRow (c : Nat) (hlen : HasWidth pivot.length rows) :
    rowSpace (pivot :: rows.map (clearRow c pivot)) = rowSpace (pivot :: rows) := by
  refine rowSpace_cons_eq_of_differsBy
    (List.forall₂_map_right_iff.mpr (List.forall₂_same.mpr fun row hrow => ⟨-cell row c, ?_⟩))
  rw [cell_clearRow c (hlen row hrow), sub_eq_add_neg, neg_smul]

/-! ### A column of zeros in front -/

/-- Functions of the column, moved one column to the right. -/
def shiftRight : (Nat → Complex Rat) →ₗ[Complex Rat] (Nat → Complex Rat) where
  toFun v
    | 0 => 0
    | c + 1 => v c
  map_add' v w := by
    funext c
    cases c with
    | zero => exact (add_zero 0).symm
    | succ c => rfl
  map_smul' k v := by
    funext c
    cases c with
    | zero => exact (smul_zero k).symm
    | succ c => rfl

theorem shiftRight_cell (row : List (Complex Rat)) : shiftRight (cell row) = cell (0 :: row) := by
  funext c
  cases c <;> rfl

theorem rowSpace_map_cons_zero (rows : Rows Rat) :
    rowSpace (rows.map (0 :: ·)) = (rowSpace rows).map shiftRight := by
  rw [rowSpace, rowSpace, Submodule.map_span, Set.image_image]
  congr 1
  ext v
  simp [shiftRight_cell]

/-- Rows with a zero in front, put together again. -/
theorem map_cons_zero_map_tail {n : Nat} (hw : HasWidth (n + 1) rows)
    (hzero : ∀ row ∈ rows, cell row 0 = 0) : (rows.map List.tail).map (0 :: ·) = rows := by
  rw [List.map_map]
  refine (List.map_congr_left fun row hrow => ?_).trans (List.map_id rows)
  cases row with
  | nil => cases hw [] hrow
  | cons x row =>
    obtain rfl : x = 0 := hzero _ hrow
    rfl

end LinearEquations.LabelledMatrix
