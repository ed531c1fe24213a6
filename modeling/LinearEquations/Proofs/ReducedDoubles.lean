import LinearEquations.Proofs.EchelonForm
import LinearEquations.Proofs.EliminationRun
import LinearEquations.Proofs.ExactUnit
import LinearEquations.Proofs.FlatElimination

/-! # Reduced matrices of doubles

Where arithmetic rounds, reducing a matrix twice need not give the same numbers as reducing it once.
But a matrix of finite doubles that is in reduced form already keeps its numbers: every pivot is a
one, so that scaling its row changes nothing but signs of zeros, and all cells that would be cleared
are zeros (`exists_echelonRows_of_isReduced`, by induction along the recursion, and
`clearUpward_of_isReduced`, by induction on the rows that remain).

Equality of rows is therefore equality of numbers, cell by cell (`SameRows`), for which zeros of
either sign are the same.  Whether rows are in reduced form does not depend on these signs
(`IsReduced.congr`). -/

namespace LinearEquations

/-! ### Equality of numbers -/

section AnyArithmetic
variable {R : Type} [Scalar R]

theorem Scalar.eq_iff {x y : R} : eq x y ↔ value x = value y ∧ value x ≠ .nan := by
  simp [eq, Extended.eq]

namespace Complex
variable {a b c : Complex R}

theorem eq_iff_parts : a.eq b ↔ Scalar.eq a.re b.re ∧ Scalar.eq a.im b.im := Bool.and_eq_true_iff

theorem eq_symm (h : a.eq b) : b.eq a := by
  simp only [eq_iff_parts, Scalar.eq_iff] at h ⊢
  obtain ⟨⟨hre, hre'⟩, him, him'⟩ := h
  exact ⟨⟨hre.symm, hre ▸ hre'⟩, him.symm, him ▸ him'⟩

theorem eq_trans (h : a.eq b) (h' : b.eq c) : a.eq c := by
  simp only [eq_iff_parts, Scalar.eq_iff] at h h' ⊢
  exact ⟨⟨h.1.1.trans h'.1.1, h.1.2⟩, h.2.1.trans h'.2.1, h.2.2⟩

theorem eq_self_of_isFinite (h : a.isFinite) : a.eq a := by
  obtain ⟨hre, him⟩ := isFinite_iff.mp h
  obtain ⟨q, hq⟩ := Scalar.exists_value hre
  obtain ⟨r, hr⟩ := Scalar.exists_value him
  refine eq_iff_parts.mpr ⟨Scalar.eq_iff.mpr ⟨rfl, ?_⟩, Scalar.eq_iff.mpr ⟨rfl, ?_⟩⟩
  · rw [hq]
    exact nofun
  · rw [hr]
    exact nofun

theorem isZero_congr (h : a.eq b) : a.isZero = b.isZero := by
  simp only [eq_iff_parts, Scalar.eq_iff] at h
  rw [isZero, isZero, Scalar.isZero, Scalar.isZero, Scalar.isZero, Scalar.isZero, h.1.1, h.2.1]

end Complex

namespace LabelledMatrix
variable {row other : List (Complex R)} {rows out : Rows R}

/-- The rows have equal numbers at the same places. -/
def SameRow (row other : List (Complex R)) : Prop := List.Forall₂ (fun a b => a.eq b) row other

/-- The rows of the two lists have equal numbers at the same places. -/
def SameRows (out rows : Rows R) : Prop := List.Forall₂ SameRow out rows

/-- All cells are finite. -/
def AllFinite (rows : Rows R) : Prop := ∀ row ∈ rows, ∀ x ∈ row, x.isFinite

theorem AllFinite.map_tail (h : AllFinite rows) : AllFinite (rows.map List.tail) :=
  List.forall_mem_map.mpr fun row hrow x hx => h row hrow x (List.mem_of_mem_tail hx)

theorem sameRow_refl (h : ∀ x ∈ row, x.isFinite) : SameRow row row :=
  List.forall₂_same.mpr fun x hx => Complex.eq_self_of_isFinite (h x hx)

theorem sameRows_refl (h : AllFinite rows) : SameRows rows rows :=
  List.forall₂_same.mpr fun row hrow => sameRow_refl (h row hrow)

theorem SameRow.leading?_eq (h : SameRow row other) : leading? row = leading? other := by
  induction h with
  | nil => rfl
  | @cons x y row other hxy _ ih =>
    have hzero := Complex.isZero_congr hxy
    by_cases hx : x.isZero
    · rw [leading?_cons_of_isZero hx, leading?_cons_of_isZero (hzero ▸ hx), ih]
    · rw [leading?_cons_of_not_isZero hx, leading?_cons_of_not_isZero (hzero ▸ hx)]

/-- Beyond their ends rows have no numbers that could differ. -/
theorem SameRow.cell_cases (h : SameRow row other) (c : Nat) :
    (cell row c).eq (cell other c) ∨ cell row c = cell other c := by
  induction h generalizing c with
  | nil => exact .inr rfl
  | cons hxy _ ih =>
    cases c with
    | zero => exact .inl hxy
    | succ c => exact ih c

theorem SameRow.isZero_cell (h : SameRow row other) (c : Nat) :
    (cell row c).isZero = (cell other c).isZero := by
  rcases h.cell_cases c with heq | heq
  · exact Complex.isZero_congr heq
  · rw [heq]

theorem SameRow.leadsWithOne (h : SameRow row other) (hone : LeadsWithOne other) :
    LeadsWithOne row := by
  intro c hc
  have hcell := hone c (h.leading?_eq ▸ hc)
  rcases h.cell_cases c with heq | heq
  · exact Complex.eq_trans heq hcell
  · rwa [heq]

theorem SameRow.clears {row' other' : List (Complex R)} (h : SameRow row row')
    (h' : SameRow other other') (hclears : Clears row' other') : Clears row other := by
  intro c hc
  rw [h'.isZero_cell]
  exact hclears c (h.leading?_eq ▸ hc)

/-- What holds of any two rows in their order also holds of rows that correspond to them. -/
theorem pairwise_of_forall₂ {A B : Type} {S : A → B → Prop} {P : A → A → Prop}
    {Q : B → B → Prop} {l : List A} {l' : List B}
    (hQP : ∀ {a b a' b'}, S a b → S a' b' → Q b b' → P a a') (h : List.Forall₂ S l l')
    (hl : l'.Pairwise Q) : l.Pairwise P := by
  induction h with
  | nil => exact List.Pairwise.nil
  | cons hab hrest ih =>
    obtain ⟨hhead, htail⟩ := List.pairwise_cons.mp hl
    refine List.pairwise_cons.mpr ⟨fun a' ha' => ?_, ih htail⟩
    obtain ⟨b', hb', hab'⟩ := exists_mem_of_forall₂ hrest.flip ha'
    exact hQP hab hab' (hhead b' hb')

/-- **Reduced form is a matter of numbers.** -/
theorem IsReduced.congr (h : IsReduced rows) (hsame : SameRows out rows) : IsReduced out where
  staircase := pairwise_of_forall₂
    (fun ha hb hab => hab.congr ha.leading?_eq hb.leading?_eq) hsame h.staircase
  leadsWithOne row hrow := by
    obtain ⟨other, hother, hsame⟩ := exists_mem_of_forall₂ hsame.flip hrow
    exact SameRow.leadsWithOne hsame (h.leadsWithOne other hother)
  cleared := pairwise_of_forall₂
    (fun ha hb hab => ⟨ha.clears hb hab.1, hb.clears ha hab.2⟩) hsame h.cleared

/-! ### Nothing to clear -/

theorem clearedRow_of_isZero {column : Nat} (pivot : List (Complex R))
    (h : (cell row column).isZero) : clearedRow column pivot row = .ok row := if_pos h

theorem mapM_clearedRow_of_isZero {column : Nat} (pivot : List (Complex R))
    (h : ∀ row ∈ rows, (cell row column).isZero) :
    rows.mapM (clearedRow column pivot) = .ok rows :=
  mapM_eq_ok.mpr (List.forall₂_same.mpr fun row hrow => clearedRow_of_isZero pivot (h row hrow))

/-- **There is nothing to clear upward in reduced rows.** -/
theorem clearUpward_of_isReduced {done remaining : Rows R} (h : IsReduced (done ++ remaining)) :
    clearUpward done remaining = .ok (done ++ remaining) := by
  induction remaining generalizing done with
  | nil =>
    rw [List.append_nil]
    rfl
  | cons row rest ih =>
    rw [clearUpward]
    cases hleading : leading? row with
    | none =>
      rw [show row.findIdx? (!·.isZero) = none from hleading]
    | some c =>
      rw [show row.findIdx? (!·.isZero) = some c from hleading]
      have hzero : ∀ above ∈ done, (cell above c).isZero := fun above habove =>
        ((List.pairwise_append.mp h.cleared).2.2 above habove row List.mem_cons_self).2 c hleading
      rw [List.append_cons] at h ⊢
      exact bind_eq_ok.mpr ⟨done, mapM_clearedRow_of_isZero row hzero, ih h⟩

/-! ### Pivots of reduced rows -/

theorem echelonRow_of_leading? {c : Nat} (h : leading? row = some c) : echelonRow row = do
    return scaledRow (← finiteReciprocal (cell row c)) row := by
  have hc := lt_length_of_leading? h
  have hfind : row.find? (!·.isZero) = some (cell row c) := by
    rw [List.find?_eq_bind_findIdx?_getElem?, show row.findIdx? (!·.isZero) = some c from h,
      Option.bind_some, cell, List.getD_eq_getElem?_getD, List.getElem?_eq_getElem hc]
    rfl
  rw [echelonRow, hfind]

theorem leading?_of_cell {n : Nat} (hlen : row.length = n + 1) (h : ¬ (cell row 0).isZero) :
    leading? row = some 0 := by
  obtain ⟨x, rest, rfl⟩ := List.exists_cons_of_length_eq_add_one hlen
  exact leading?_cons_of_not_isZero h rest

/-- If the first row is zero, then so are all others. -/
theorem IsReduced.leading?_ne_none (h : IsReduced (row :: rows))
    (hzero : ¬ allZero (row :: rows)) : leading? row ≠ none := by
  intro hnone
  refine hzero (allZero_iff.mpr (List.forall_mem_cons.mpr ⟨hnone, fun other hother => ?_⟩))
  exact leading?_eq_none_of_precedes ((List.pairwise_cons.mp h.staircase).1 other hother) hnone

/-- In reduced rows a pivot in the first column is in the first row. -/
theorem IsReduced.exists_pivot_on_top {n i : Nat} (h : IsReduced rows) (hw : HasWidth (n + 1) rows)
    (hi : rows.findIdx? (fun row => !(row.headD 0).isZero) = some i) :
    ∃ first below, i = 0 ∧ rows = first :: below ∧ leading? first = some 0 := by
  obtain ⟨hlt, hpivot, -⟩ := List.findIdx?_eq_some_iff_getElem.mp hi
  rw [headD_eq_cell] at hpivot
  have hlead : leading? rows[i] = some 0 :=
    leading?_of_cell (hw _ (List.getElem_mem hlt)) (by simpa using hpivot)
  cases rows with
  | nil => exact absurd hlt (Nat.not_lt_zero i)
  | cons first below =>
    cases i with
    | zero => exact ⟨first, below, rfl, rfl, hlead⟩
    | succ i =>
      have hlt : i < below.length := Nat.lt_of_succ_lt_succ hlt
      obtain ⟨b, -, hb⟩ := (List.pairwise_cons.mp h.staircase).1 below[i] (List.getElem_mem hlt) 0
        hlead
      exact absurd hb (Nat.not_lt_zero b)

end LabelledMatrix
end AnyArithmetic

/-! ### Elimination of reduced doubles -/

namespace LabelledMatrix
variable {n : Nat} {row : List (Complex Float)} {rows rest : Rows Float}

theorem sameRow_scaledRow {k : Complex Float} (hk : k.eq 1) (h : ∀ x ∈ row, x.isFinite) :
    SameRow (scaledRow k row) row :=
  List.forall₂_map_left_iff.mpr (List.forall₂_same.mpr fun x hx => Complex.mul_eq_self (h x hx) hk)

/-- A single row is scaled by the reciprocal of a one. -/
theorem exists_echelonRow_of_leadsWithOne (hfinite : ∀ x ∈ row, x.isFinite)
    (hone : LeadsWithOne row) : ∃ out, echelonRow row = .ok out ∧ SameRow out row := by
  cases hleading : leading? row with
  | none =>
    have hzero := leading?_eq_none_iff_isZero.mp hleading
    exact ⟨row, echelonRow_eq_ok_of_zero hzero, sameRow_refl hfinite⟩
  | some c =>
    obtain ⟨k, hk, hunit⟩ := exists_finiteReciprocal_of_eq_one (hone c hleading)
    refine ⟨scaledRow k row, ?_, sameRow_scaledRow hunit hfinite⟩
    rw [echelonRow_of_leading? hleading, hk]
    rfl

/-- Zeros that are put in front take the places of zeros. -/
theorem sameRows_map_cons_zero (hzero : ∀ row ∈ rows, StartsWithZero row)
    (h : SameRows rest (rows.map List.tail)) : SameRows (rest.map (0 :: ·)) rows := by
  induction rows generalizing rest with
  | nil =>
    cases h
    exact .nil
  | cons row rows ih =>
    obtain ⟨⟨x, tail, rfl, hx⟩, hrows⟩ := List.forall_mem_cons.mp hzero
    obtain ⟨r, rest, hr, hrest, rfl⟩ := List.forall₂_cons_right_iff.mp h
    exact .cons (.cons (Complex.zero_eq hx) hr) (ih hrows hrest)

/-- Rows of one zero each: without the zeros nothing is left of them. -/
theorem sameRows_replicate_zero (hw : HasWidth 1 rows) (hzero : ∀ row ∈ rows, StartsWithZero row) :
    SameRows (List.replicate rows.length [0]) rows := by
  have htails : rows.map List.tail = List.replicate rows.length [] := by
    refine List.eq_replicate_iff.mpr ⟨List.length_map _, ?_⟩
    refine List.forall_mem_map.mpr fun row hrow => ?_
    rw [← List.length_eq_zero_iff, List.length_tail, hw row hrow]
  have hsame : SameRows (List.replicate rows.length []) (rows.map List.tail) := by
    rw [htails]
    exact sameRows_refl fun row hrow => by simp [List.eq_of_mem_replicate hrow]
  have hcells := sameRows_map_cons_zero hzero hsame
  rwa [List.map_replicate] at hcells

/-- A single column has its only cell other than zero on top. -/
theorem sameRows_echelonColumn (hw : HasWidth 1 rows) (hfinite : AllFinite rows)
    (h : IsReduced rows) : SameRows (echelonColumn rows) rows := by
  by_cases hzero : allZero rows
  · rw [echelonColumn, if_pos hzero]
    exact sameRows_refl hfinite
  · obtain ⟨m, hm⟩ := echelonColumn_eq_cons (Bool.not_eq_true _ ▸ hzero)
    have hlen := length_echelonColumn rows
    rw [hm] at hlen ⊢
    cases rows with
    | nil => cases hlen
    | cons row below =>
      obtain rfl : m = below.length := by simpa using hlen
      obtain ⟨hrow, hbelow⟩ := List.forall_mem_cons.mp hw
      obtain ⟨x, rfl⟩ := List.length_eq_one_iff.mp hrow
      have hx : ¬ x.isZero := fun hx => h.leading?_ne_none hzero
        (leading?_eq_none_iff_isZero.mpr (List.forall_mem_singleton.mpr hx))
      have hlead : leading? [x] = some 0 := leading?_cons_of_not_isZero hx []
      have hone : x.eq 1 := h.leadsWithOne [x] List.mem_cons_self 0 hlead
      exact .cons (.cons (Complex.eq_symm hone) .nil)
        (sameRows_replicate_zero hbelow (h.startsWithZero hbelow hlead))

/-- A pivot is a one already, and there is nothing to clear below it. -/
theorem exists_pivotRow (h : IsReduced (row :: rows)) (hfinite : ∀ x ∈ row, x.isFinite)
    (hlead : leading? row = some 0) :
    ∃ k, finiteReciprocal (row.headD 0) = .ok k ∧ SameRow (scaledRow k row) row ∧
      rows.mapM (clearedRow 0 (scaledRow k row)) = .ok rows := by
  have hone := h.leadsWithOne row List.mem_cons_self 0 hlead
  obtain ⟨k, hk, hunit⟩ := exists_finiteReciprocal_of_eq_one hone
  rw [← headD_eq_cell] at hk
  refine ⟨k, hk, sameRow_scaledRow hunit hfinite, mapM_clearedRow_of_isZero _ ?_⟩
  intro other hother
  exact ((List.pairwise_cons.mp h.cleared).1 other hother).1 0 hlead

/-- **Elimination keeps the numbers of reduced rows.** -/
theorem exists_echelonRows_of_isReduced (hw : HasWidth n rows) (hfinite : AllFinite rows)
    (h : IsReduced rows) : ∃ out, echelonRows n rows = .ok out ∧ SameRows out rows := by
  induction n generalizing rows with
  | zero => exact ⟨rows, rfl, sameRows_refl hfinite⟩
  | succ n ih =>
    unfold echelonRows
    by_cases hsingle : rows.length = 1
    · rw [if_pos hsingle]
      obtain ⟨row, rfl⟩ := List.length_eq_one_iff.mp hsingle
      have hmem : row ∈ [row] := List.mem_singleton_self row
      obtain ⟨out, hout, hsame⟩ :=
        exists_echelonRow_of_leadsWithOne (hfinite row hmem) (h.leadsWithOne row hmem)
      exact ⟨[out], mapM_eq_ok.mpr (.cons hout .nil), .cons hsame .nil⟩
    · rw [if_neg hsingle]
      by_cases hn : n = 0
      · subst hn
        exact ⟨_, rfl, sameRows_echelonColumn hw hfinite h⟩
      · rw [if_neg hn]
        cases hpivot : rows.findIdx? fun row => !(row.headD 0).isZero with
        | none =>
          have hzero : ∀ row ∈ rows, StartsWithZero row := by
            intro row hrow
            have hcell := List.findIdx?_eq_none_iff.mp hpivot row hrow
            rw [headD_eq_cell] at hcell
            exact startsWithZero_of_cell (hw row hrow) (by simpa using hcell)
          obtain ⟨rest, hrest, hsame⟩ := ih hw.map_tail hfinite.map_tail (h.map_tail hzero)
          exact ⟨rest.map (0 :: ·), bind_eq_ok.mpr ⟨rest, hrest, rfl⟩,
            sameRows_map_cons_zero hzero hsame⟩
        | some i =>
          obtain ⟨first, below, rfl, rfl, hlead⟩ := h.exists_pivot_on_top hw hpivot
          obtain ⟨hfirst, hfinite⟩ := List.forall_mem_cons.mp hfinite
          obtain ⟨-, hw⟩ := List.forall_mem_cons.mp hw
          obtain ⟨k, hk, htop, hcleared⟩ := exists_pivotRow h hfirst hlead
          have hbelow := h.startsWithZero hw hlead
          obtain ⟨rest, hrest, hsame⟩ :=
            ih (HasWidth.map_tail hw) (AllFinite.map_tail hfinite) (h.of_cons.map_tail hbelow)
          exact ⟨scaledRow k first :: rest.map (0 :: ·),
            bind_eq_ok.mpr ⟨k, hk, bind_eq_ok.mpr ⟨below, hcleared,
              bind_eq_ok.mpr ⟨rest, hrest, rfl⟩⟩⟩,
            .cons htop (sameRows_map_cons_zero hbelow hsame)⟩

/-! ### Reduced matrices -/

variable {m r : ComplexMatrix Float}

theorem exists_rowEchelon_of_isReduced (hm : m.WellFormed) (hfinite : AllFinite m.rows)
    (h : IsReduced m.rows) :
    ∃ e, m.rowEchelon = .ok e ∧ SameRows e.rows m.rows ∧ e.labels = m.labels := by
  unfold rowEchelon
  split
  · exact ⟨m, rfl, sameRows_refl hfinite, rfl⟩
  · obtain ⟨out, hout, hsame⟩ := exists_echelonRows_of_isReduced hm.length_row hfinite h
    exact ⟨m.withRows out, bind_eq_ok.mpr ⟨out, mapError_eq_ok.mpr hout, rfl⟩, hsame, rfl⟩

/-- Matrices with equal numbers are equal. -/
theorem eq_of_sameRows (hshape : r.shape = m.shape) (h : SameRows r.rows m.rows) : r.eq m := by
  have hrow : ∀ {row other : List (Complex Float)}, SameRow row other →
      (List.zipWith Complex.eq row other).all id := by
    intro row other h
    induction h with
    | nil => rfl
    | cons hxy _ ih => simpa [hxy] using ih
  have hrows : ∀ {out rows : Rows Float}, SameRows out rows →
      (List.zipWith (List.zipWith Complex.eq) out rows).all (·.all id) := by
    intro out rows h
    induction h with
    | nil => rfl
    | cons hsame _ ih => simpa [hrow hsame] using ih
  exact Bool.and_eq_true_iff.mpr ⟨decide_eq_true hshape, hrows h⟩

/-- **A reduced matrix of finite doubles keeps its numbers**, and its labels, on rows and in
arrays. -/
theorem reducedRowEchelon_of_isReduced (hm : m.WellFormed)
    (hfinite : ∀ row ∈ m.rows, ∀ x ∈ row, x.isFinite) (hreduced : IsReduced m.rows) :
    ∃ r, m.reducedRowEchelon = .ok r ∧ r.eq m ∧ r.labels = m.labels ∧
      m.flat.reducedRowEchelon = .ok r.flat := by
  obtain ⟨e, he, hsame, hlabels⟩ := exists_rowEchelon_of_isReduced hm hfinite hreduced
  have hclear : clearUpward [] e.rows = .ok ([] ++ e.rows) :=
    clearUpward_of_isReduced (hreduced.congr hsame)
  have hr : m.reducedRowEchelon = .ok e :=
    bind_eq_ok.mpr ⟨e, he, bind_eq_ok.mpr ⟨e.rows, mapError_eq_ok.mpr hclear, rfl⟩⟩
  have hflat := FlatMatrix.reducedRowEchelon_flat hm
  rw [hr] at hflat
  exact ⟨e, hr, eq_of_sameRows (hm.reducedRowEchelon hr).2.1 hsame, hlabels, hflat⟩

/-- Three rows with zeros of either sign and numbers below the normal range; the first pivot is
`1 - 0i`. -/
theorem reducedRowEchelon_of_reduced_three_rows :
    let m : ComplexMatrix Float := {
      rows := [[⟨1, -0.0⟩, ⟨4.9e-324, 0.1⟩, ⟨-0.0, 0⟩, ⟨-1.7e308, 0.3⟩],
        [⟨-0.0, -0.0⟩, ⟨0, -0.0⟩, ⟨1, 0⟩, ⟨2.5e-310, -7⟩],
        [⟨0, -0.0⟩, ⟨0, 0⟩, ⟨-0.0, 0⟩, ⟨0, -0.0⟩]]
      labels := some ["x", "y", "z", "rhs"] }
    m.WellFormed ∧ (∀ row ∈ m.rows, ∀ x ∈ row, x.isFinite) ∧ IsReduced m.rows ∧
      ∃ r, m.reducedRowEchelon = .ok r ∧ r.eq m ∧ r.labels = m.labels ∧
        m.flat.reducedRowEchelon = .ok r.flat := by
  intro m
  have hm : m.WellFormed := by decide
  have hfinite : ∀ row ∈ m.rows, ∀ x ∈ row, x.isFinite := by decide +kernel
  have hreduced : IsReduced m.rows := by decide +kernel
  exact ⟨hm, hfinite, hreduced, reducedRowEchelon_of_isReduced hm hfinite hreduced⟩

end LabelledMatrix
end LinearEquations
