import Mathlib.Algebra.Module.Pi
import LinearEquations.LabelledMatrix.Echelon
import LinearEquations.Proofs.GaussianRational

/-! # Echelon forms

What it means for rows to be in echelon form (`IsEchelon`) and in reduced echelon form
(`IsReduced`), by the exact test for zero.  The conditions are stated of neighbouring and distant
rows alike, as `List.Pairwise` relations, so that an induction over the rows carries them.

Over the Gaussian rationals a row is determined by its cells as a function of the column (`cell`),
and its leading column is where that function is first different from zero. -/

namespace LinearEquations.LabelledMatrix

section Definitions
variable {R : Type} [Scalar R]

/-- The cell of a row in the given column, zero beyond the end of the row. -/
def cell (row : List (Complex R)) (c : Nat) : Complex R := row.getD c 0

/-- The column of the first cell that is not zero. -/
def leading? (row : List (Complex R)) : Option Nat := row.findIdx? (!·.isZero)

/-- The first cell that is not zero is one. -/
def LeadsWithOne (row : List (Complex R)) : Prop :=
  ∀ c, leading? row = some c → (cell row c).eq 1

/-- If the row `lower` has a leading column, then so has `upper`, farther to the left. -/
def Precedes (upper lower : List (Complex R)) : Prop :=
  ∀ c, leading? lower = some c → ∃ b, leading? upper = some b ∧ b < c

/-- The row `row` is zero in the leading column of `pivot`. -/
def Clears (pivot row : List (Complex R)) : Prop :=
  ∀ c, leading? pivot = some c → (cell row c).isZero

/-- **Echelon form**: leading columns increase from row to row, rows of zeros come last, and every
other row leads with one. -/
structure IsEchelon (rows : Rows R) : Prop where
  staircase : rows.Pairwise Precedes
  leadsWithOne : ∀ row ∈ rows, LeadsWithOne row

/-- **Reduced echelon form**: moreover, a leading column has no other cell that is not zero. -/
structure IsReduced (rows : Rows R) : Prop extends IsEchelon rows where
  cleared : rows.Pairwise fun upper lower => Clears upper lower ∧ Clears lower upper

/-! All of this can be decided. -/

instance (row : List (Complex R)) : Decidable (LeadsWithOne row) :=
  inferInstanceAs (Decidable (∀ c ∈ leading? row, (cell row c).eq 1 = true))

instance (upper lower : List (Complex R)) : Decidable (Precedes upper lower) :=
  inferInstanceAs (Decidable (∀ c ∈ leading? lower, ∃ b ∈ leading? upper, b < c))

instance (pivot row : List (Complex R)) : Decidable (Clears pivot row) :=
  inferInstanceAs (Decidable (∀ c ∈ leading? pivot, (cell row c).isZero = true))

instance (rows : Rows R) : Decidable (IsEchelon rows) :=
  decidable_of_iff (rows.Pairwise Precedes ∧ ∀ row ∈ rows, LeadsWithOne row)
    ⟨fun h => ⟨h.1, h.2⟩, fun h => ⟨h.1, h.2⟩⟩

instance (rows : Rows R) : Decidable (IsReduced rows) :=
  decidable_of_iff
    (IsEchelon rows ∧ rows.Pairwise fun upper lower => Clears upper lower ∧ Clears lower upper)
    ⟨fun h => ⟨h.1, h.2⟩, fun h => ⟨h.1, h.2⟩⟩

end Definitions

/-! ### Rows of any arithmetic -/

section AnyArithmetic
variable {R : Type} [Scalar R] {row other : List (Complex R)} {rows : Rows R} {x y : Complex R}

theorem headD_eq_cell (row : List (Complex R)) : row.headD 0 = cell row 0 := by
  cases row <;> rfl

theorem lt_length_of_leading? {c : Nat} (h : leading? row = some c) : c < row.length :=
  (List.findIdx?_eq_some_iff_getElem.mp h).1

theorem leading?_eq_none_iff_isZero : leading? row = none ↔ ∀ x ∈ row, x.isZero := by
  simp [leading?]

theorem allZero_iff : allZero rows ↔ ∀ row ∈ rows, leading? row = none := by
  simp [allZero, leading?_eq_none_iff_isZero]

/-- What comes after a row of zeros is zero. -/
theorem leading?_eq_none_of_precedes (h : Precedes row other) (hrow : leading? row = none) :
    leading? other = none := by
  cases hother : leading? other with
  | none => rfl
  | some c =>
    obtain ⟨b, hb, -⟩ := h c hother
    rw [hrow] at hb
    cases hb

theorem Precedes.lt {b c : Nat} (h : Precedes row other) (hb : leading? row = some b)
    (hc : leading? other = some c) : b < c := by
  obtain ⟨b', hb', hlt⟩ := h c hc
  rw [hb] at hb'
  cases hb'
  exact hlt

theorem Precedes.congr {row' other' : List (Complex R)} (h : Precedes row other)
    (hrow : leading? row' = leading? row) (hother : leading? other' = leading? other) :
    Precedes row' other' := by
  intro c hc
  rw [hrow]
  exact h c (hother ▸ hc)

/-! A zero in front of a row shifts its leading column, and nothing else. -/

theorem leading?_cons_of_isZero (hx : x.isZero) (row : List (Complex R)) :
    leading? (x :: row) = (leading? row).map (· + 1) := by
  simp [leading?, List.findIdx?_cons, hx]

theorem leading?_cons_of_not_isZero (hx : ¬ x.isZero) (row : List (Complex R)) :
    leading? (x :: row) = some 0 := by
  simp [leading?, List.findIdx?_cons, hx]

theorem LeadsWithOne.of_cons (h : LeadsWithOne (x :: row)) (hx : x.isZero) : LeadsWithOne row := by
  intro c hc
  exact h (c + 1) (by rw [leading?_cons_of_isZero hx, hc]; rfl)

theorem Precedes.of_cons (h : Precedes (x :: row) (y :: other)) (hx : x.isZero) (hy : y.isZero) :
    Precedes row other := by
  intro c hc
  obtain ⟨b, hb, hlt⟩ := h (c + 1) (by rw [leading?_cons_of_isZero hy, hc]; rfl)
  rw [leading?_cons_of_isZero hx] at hb
  obtain ⟨d, hd, rfl⟩ := Option.map_eq_some_iff.mp hb
  exact ⟨d, hd, Nat.lt_of_succ_lt_succ hlt⟩

theorem Clears.of_cons (h : Clears (x :: row) (y :: other)) (hx : x.isZero) : Clears row other := by
  intro c hc
  exact h (c + 1) (by rw [leading?_cons_of_isZero hx, hc]; rfl)

/-- The row has a first cell, and this cell is zero. -/
def StartsWithZero (row : List (Complex R)) : Prop := ∃ x rest, row = x :: rest ∧ x.isZero

theorem startsWithZero_of_cell {n : Nat} (hlen : row.length = n + 1)
    (h : (cell row 0).isZero) : StartsWithZero row := by
  obtain ⟨x, rest, rfl⟩ := List.exists_cons_of_length_eq_add_one hlen
  exact ⟨x, rest, rfl, h⟩

/-- A row that leads in the first column has zeros below its first cell. -/
theorem IsReduced.startsWithZero {n : Nat} (h : IsReduced (row :: rows))
    (hlen : ∀ other ∈ rows, other.length = n + 1) (hlead : leading? row = some 0) :
    ∀ other ∈ rows, StartsWithZero other := fun other hother =>
  startsWithZero_of_cell (hlen other hother)
    (((List.pairwise_cons.mp h.cleared).1 other hother).1 0 hlead)

theorem IsReduced.of_cons (h : IsReduced (row :: rows)) : IsReduced rows where
  staircase := h.staircase.of_cons
  leadsWithOne other hother := h.leadsWithOne other (List.mem_cons_of_mem row hother)
  cleared := h.cleared.of_cons

/-- **A column of zeros in front may be left out.** -/
theorem IsReduced.map_tail (h : IsReduced rows) (hzero : ∀ row ∈ rows, StartsWithZero row) :
    IsReduced (rows.map List.tail) where
  staircase := by
    refine List.pairwise_map.mpr (h.staircase.imp_of_mem fun ha hb hab => ?_)
    obtain ⟨x, row, rfl, hx⟩ := hzero _ ha
    obtain ⟨y, other, rfl, hy⟩ := hzero _ hb
    exact hab.of_cons hx hy
  leadsWithOne := by
    refine List.forall_mem_map.mpr fun r hr => ?_
    obtain ⟨x, row, rfl, hx⟩ := hzero r hr
    exact (h.leadsWithOne _ hr).of_cons hx
  cleared := by
    refine List.pairwise_map.mpr (h.cleared.imp_of_mem fun ha hb hab => ?_)
    obtain ⟨x, row, rfl, hx⟩ := hzero _ ha
    obtain ⟨y, other, rfl, hy⟩ := hzero _ hb
    exact ⟨hab.1.of_cons hx, hab.2.of_cons hy⟩

end AnyArithmetic

/-! ### Cells of rows -/

variable {row other : List (Complex Rat)} {rows : Rows Rat}

@[simp] theorem cell_nil (c : Nat) : cell ([] : List (Complex Rat)) c = 0 := rfl

@[simp] theorem cell_cons_zero (x : Complex Rat) (row : List (Complex Rat)) :
    cell (x :: row) 0 = x := rfl

@[simp] theorem cell_cons_succ (x : Complex Rat) (row : List (Complex Rat)) (c : Nat) :
    cell (x :: row) (c + 1) = cell row c := rfl

theorem cell_of_length_le {c : Nat} (h : row.length ≤ c) : cell row c = 0 := by
  simp [cell, h]

theorem cell_replicate_zero (n : Nat) : cell (List.replicate n (0 : Complex Rat)) = 0 := by
  funext c
  simp only [cell, List.getD_eq_getElem?_getD, List.getElem?_replicate]
  split <;> rfl

theorem cell_scaledRow (k : Complex Rat) (row : List (Complex Rat)) :
    cell (scaledRow k row) = k • cell row := by
  funext c
  induction row generalizing c with
  | nil => simp [scaledRow]
  | cons x row ih =>
    cases c with
    | zero => simp [scaledRow, mul_comm]
    | succ c => exact ih c

theorem cell_addedRow (h : row.length = other.length) :
    cell (addedRow row other) = cell row + cell other := by
  funext c
  induction row generalizing other c with
  | nil => simp [addedRow, List.length_eq_zero_iff.mp h.symm]
  | cons x row ih =>
    cases other with
    | nil => cases h
    | cons y other =>
      cases c with
      | zero => rfl
      | succ c => exact ih (Nat.succ.inj h) c

/-- Rows of the same length with the same cells are equal. -/
theorem eq_of_cell_eq (hlen : row.length = other.length) (h : cell row = cell other) :
    row = other := by
  refine List.ext_getElem hlen fun c hc hc' => ?_
  simpa [cell, hc, hc'] using congrFun h c

/-! ### Leading columns -/

theorem leading?_cons_zero (row : List (Complex Rat)) :
    leading? (0 :: row) = (leading? row).map (· + 1) :=
  leading?_cons_of_isZero ((Complex.isZero_iff 0).mpr rfl) row

theorem leading?_cons_of_ne {x : Complex Rat} (h : x ≠ 0) : leading? (x :: row) = some 0 :=
  leading?_cons_of_not_isZero (mt (Complex.isZero_iff x).mp h) row

theorem leading?_eq_none_iff : leading? row = none ↔ cell row = 0 := by
  induction row with
  | nil => exact ⟨fun _ => funext cell_nil, fun _ => rfl⟩
  | cons x row ih =>
    by_cases hx : x = 0
    · subst hx
      rw [leading?_cons_zero, Option.map_eq_none_iff, ih]
      constructor
      · intro h
        funext c
        cases c with
        | zero => rfl
        | succ c => exact congrFun h c
      · intro h
        funext c
        exact congrFun h (c + 1)
    · rw [leading?_cons_of_ne hx]
      constructor
      · intro h
        cases h
      · intro h
        exact absurd (congrFun h 0) hx

theorem leading?_eq_some_iff {c : Nat} :
    leading? row = some c ↔ cell row c ≠ 0 ∧ ∀ b < c, cell row b = 0 := by
  induction row generalizing c with
  | nil => simp [leading?]
  | cons x row ih =>
    by_cases hx : x = 0
    · subst hx
      rw [leading?_cons_zero]
      cases c with
      | zero => simp
      | succ c =>
        rw [Option.map_eq_some_iff]
        constructor
        · rintro ⟨a, ha, hac⟩
          obtain rfl := Nat.succ.inj hac
          refine ⟨(ih.mp ha).1, fun b hb => ?_⟩
          cases b with
          | zero => rfl
          | succ b => exact (ih.mp ha).2 b (Nat.lt_of_succ_lt_succ hb)
        · rintro ⟨hc, hlt⟩
          exact ⟨c, ih.mpr ⟨hc, fun b hb => hlt (b + 1) (Nat.succ_lt_succ hb)⟩, rfl⟩
    · rw [leading?_cons_of_ne hx]
      constructor
      · intro h
        cases h
        exact ⟨hx, fun b hb => absurd hb (Nat.not_lt_zero b)⟩
      · rintro ⟨-, hlt⟩
        cases c with
        | zero => rfl
        | succ c => exact absurd (hlt 0 (Nat.succ_pos c)) hx

theorem leading?_eq_zero_of_cell (h : cell row 0 ≠ 0) : leading? row = some 0 :=
  leading?_eq_some_iff.mpr ⟨h, fun b hb => absurd hb (Nat.not_lt_zero b)⟩

theorem leading?_scaledRow {k : Complex Rat} (hk : k ≠ 0) (row : List (Complex Rat)) :
    leading? (scaledRow k row) = leading? row := by
  refine Option.ext fun c => ?_
  simp [leading?_eq_some_iff, cell_scaledRow, hk]

theorem cell_of_leadsWithOne {c : Nat} (hone : LeadsWithOne row) (h : leading? row = some c) :
    cell row c = 1 := (Complex.eq_iff _ _).mp (hone c h)

theorem cell_of_clears {c : Nat} (hclears : Clears other row) (h : leading? other = some c) :
    cell row c = 0 := (Complex.isZero_iff _).mp (hclears c h)

/-! ### Rows with a zero in front -/

theorem leadsWithOne_cons_zero (h : LeadsWithOne row) : LeadsWithOne (0 :: row) := by
  intro c hc
  rw [leading?_cons_zero] at hc
  obtain ⟨b, hb, rfl⟩ := Option.map_eq_some_iff.mp hc
  exact h b hb

theorem precedes_cons_zero (h : Precedes row other) : Precedes (0 :: row) (0 :: other) := by
  intro c hc
  rw [leading?_cons_zero] at hc
  obtain ⟨d, hd, rfl⟩ := Option.map_eq_some_iff.mp hc
  obtain ⟨b, hb, hlt⟩ := h d hd
  refine ⟨b + 1, ?_, Nat.succ_lt_succ hlt⟩
  rw [leading?_cons_zero, hb]
  rfl

/-- A row that leads in the first column precedes all rows with a zero there. -/
theorem precedes_of_leading?_eq_zero (h : leading? row = some 0) (other : List (Complex Rat)) :
    Precedes row (0 :: other) := by
  intro c hc
  rw [leading?_cons_zero] at hc
  obtain ⟨d, -, rfl⟩ := Option.map_eq_some_iff.mp hc
  exact ⟨0, h, Nat.succ_pos d⟩

theorem IsEchelon.map_cons_zero (h : IsEchelon rows) : IsEchelon (rows.map (0 :: ·)) where
  staircase := h.staircase.map _ fun _ _ hab => precedes_cons_zero hab
  leadsWithOne := List.forall_mem_map.mpr fun row hrow =>
    leadsWithOne_cons_zero (h.leadsWithOne row hrow)

/-- Rows of zeros are in echelon form. -/
theorem isEchelon_of_leading?_eq_none (h : ∀ row ∈ rows, leading? row = none) :
    IsEchelon rows where
  staircase := List.pairwise_of_forall_mem_list fun upper _ lower hlower c hc => by
    rw [h lower hlower] at hc
    cases hc
  leadsWithOne row hrow c hc := by
    rw [h row hrow] at hc
    cases hc

/-- A row that leads with one in the first column, put on top. -/
theorem IsEchelon.cons (h : IsEchelon rows) (hone : cell row 0 = 1) :
    IsEchelon (row :: rows.map (0 :: ·)) where
  staircase := by
    refine List.pairwise_cons.mpr ⟨List.forall_mem_map.mpr fun other _ => ?_,
      h.map_cons_zero.staircase⟩
    exact precedes_of_leading?_eq_zero (leading?_eq_zero_of_cell (hone ▸ one_ne_zero)) other
  leadsWithOne := by
    refine List.forall_mem_cons.mpr ⟨fun c hc => ?_, h.map_cons_zero.leadsWithOne⟩
    rw [leading?_eq_zero_of_cell (hone ▸ one_ne_zero)] at hc
    cases hc
    exact (Complex.eq_iff _ _).mpr hone

/-- A lower row is zero in the leading columns of the rows above it. -/
theorem clears_of_precedes (h : Precedes row other) : Clears row other := by
  intro b hb
  rw [Complex.isZero_iff]
  cases hother : leading? other with
  | none => exact congrFun (leading?_eq_none_iff.mp hother) b
  | some c =>
    exact (leading?_eq_some_iff.mp hother).2 b (h.lt hb hother)

end LinearEquations.LabelledMatrix
