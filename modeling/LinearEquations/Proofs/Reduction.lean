import LinearEquations.Proofs.RowSpace

/-! # Elimination over the Gaussian rationals

Without rounding the elimination does what it is meant to do.  It always has a result
(`exists_echelonRows`, `exists_clearUpward`), the rows of which span the same space as the given
ones (`EchelonRun.rowSpace_eq`) and are in echelon form (`EchelonRun.isEchelon`). -/

namespace LinearEquations.LabelledMatrix
variable {n : Nat} {rows out : Rows Rat}

/-! ### There is a result -/

theorem finiteReciprocal_eq_ok {a : Complex Rat} (h : a ≠ 0) : finiteReciprocal a = .ok a⁻¹ := by
  simp [finiteReciprocal, Complex.reciprocal_eq_ok h, bind, Except.bind, Operand.value]

theorem exists_mapM {E A B : Type} {f : A → Except E B} {l : List A}
    (h : ∀ a ∈ l, ∃ b, f a = .ok b) : ∃ out, l.mapM f = .ok out := by
  induction l with
  | nil => exact ⟨[], rfl⟩
  | cons a l ih =>
    obtain ⟨ha, hl⟩ := List.forall_mem_cons.mp h
    obtain ⟨b, hb⟩ := ha
    obtain ⟨bs, hbs⟩ := ih hl
    exact ⟨b :: bs, mapM_eq_ok.mpr (.cons hb (mapM_eq_ok.mp hbs))⟩

theorem exists_echelonRow (row : List (Complex Rat)) : ∃ out, echelonRow row = .ok out := by
  unfold echelonRow
  split
  · exact ⟨row, rfl⟩
  · rename_i leading hfind
    have hne : leading ≠ 0 := by simpa using List.find?_some hfind
    rw [finiteReciprocal_eq_ok hne]
    exact ⟨_, rfl⟩

/-- **Elimination never fails.** -/
theorem exists_echelonRows (n : Nat) (rows : Rows Rat) :
    ∃ out, echelonRows n rows = .ok out := by
  induction n generalizing rows with
  | zero => exact ⟨rows, rfl⟩
  | succ n ih =>
    unfold echelonRows
    split
    · exact exists_mapM fun row _ => exists_echelonRow row
    · split
      · exact ⟨_, rfl⟩
      · split
        · obtain ⟨rest, hrest⟩ := ih (rows.map List.tail)
          rw [hrest]
          exact ⟨_, rfl⟩
        · rename_i i hi
          split
          · exact ⟨_, rfl⟩
          · rename_i first below hfirst
            have hne : first.headD 0 ≠ 0 :=
              (Complex.isZero_eq_false_iff _).mp (pivotFirst_spec hi hfirst).1
            rw [finiteReciprocal_eq_ok hne]
            obtain ⟨rest, hrest⟩ :=
              ih ((below.map (clearRow 0 (scaledRow (first.headD 0)⁻¹ first))).map List.tail)
            exact ⟨_, bind_eq_ok.mpr ⟨_, rfl, bind_eq_ok.mpr ⟨_, mapM_clearedRow ..,
              bind_eq_ok.mpr ⟨rest, hrest, rfl⟩⟩⟩⟩

theorem exists_clearUpward (done remaining : Rows Rat) :
    ∃ out, clearUpward done remaining = .ok out := by
  induction remaining generalizing done with
  | nil => exact ⟨done, rfl⟩
  | cons row rest ih =>
    unfold clearUpward
    split
    · exact ⟨_, rfl⟩
    · rename_i c _
      rw [mapM_clearedRow]
      exact ih (done.map (clearRow c row) ++ [row])

/-! ### The steps of the elimination -/

/-- **A pivot step.**  The scaled pivot row has a one in front, the rows below it get zeros there,
and the row space stays the same. -/
theorem pivot_step {i : Nat} {first : List (Complex Rat)} {below cleared : Rows Rat}
    {k : Complex Rat} (hw : HasWidth n rows)
    (hi : rows.findIdx? (fun row => !(row.headD 0).isZero) = some i)
    (hfirst : pivotFirst i rows = first :: below)
    (hk : finiteReciprocal (first.headD 0) = .ok k)
    (hcleared : below.mapM (clearedRow 0 (scaledRow k first)) = .ok cleared) :
    cell (scaledRow k first) 0 = 1 ∧ HasWidth n cleared ∧ (∀ row ∈ cleared, cell row 0 = 0) ∧
      rowSpace (scaledRow k first :: cleared) = rowSpace rows := by
  obtain ⟨hhead, hperm⟩ := pivotFirst_spec hi hfirst
  rw [headD_eq_cell, Complex.isZero_eq_false_iff] at hhead
  rw [headD_eq_cell, finiteReciprocal_eq_ok hhead] at hk
  cases hk
  obtain ⟨hlen, hbelow, hwidth⟩ := hasWidth_of_pivot hw hi hfirst hcleared
  have hone : cell (scaledRow (cell first 0)⁻¹ first) 0 = 1 := by
    rw [cell_scaledRow]
    exact inv_mul_cancel₀ hhead
  rw [mapM_clearedRow] at hcleared
  cases hcleared
  refine ⟨hone, hwidth, List.forall_mem_map.mpr fun row hrow => ?_, ?_⟩
  · rw [cell_clearRow 0 ((hbelow row hrow).trans hlen.symm)]
    simp [hone]
  · rw [rowSpace_cons_map_clearRow 0 (hlen ▸ hbelow),
      rowSpace_cons_scaledRow (inv_ne_zero hhead), rowSpace_eq_of_perm hperm]

/-- A single row keeps its span and comes to lead with one. -/
theorem echelonRow_spec {row out : List (Complex Rat)} (h : echelonRow row = .ok out) :
    LeadsWithOne out ∧ rowSpace [out] = rowSpace [row] := by
  unfold echelonRow at h
  split at h
  · rename_i hfind
    cases h
    have hnone : leading? row = none := by
      simpa [leading?] using List.find?_eq_none.mp hfind
    refine ⟨fun c hc => ?_, rfl⟩
    rw [hnone] at hc
    cases hc
  · rename_i x hfind
    obtain ⟨hx, c, hc, rfl, hbefore⟩ := List.find?_eq_some_iff_getElem.mp hfind
    have hne : row[c] ≠ 0 := by simpa using hx
    rw [finiteReciprocal_eq_ok hne] at h
    cases h
    have hlead : leading? row = some c :=
      List.findIdx?_eq_some_iff_getElem.mpr ⟨hc, hx, by simpa using hbefore⟩
    refine ⟨fun d hd => ?_, rowSpace_cons_scaledRow (inv_ne_zero hne) row []⟩
    rw [leading?_scaledRow (inv_ne_zero hne), hlead] at hd
    cases hd
    have hcell : cell row c = row[c] := by simp [cell, hc]
    rw [Complex.eq_iff, cell_scaledRow, Pi.smul_apply, smul_eq_mul, hcell, inv_mul_cancel₀ hne]

theorem isEchelon_echelonColumn (rows : Rows Rat) : IsEchelon (echelonColumn rows) := by
  cases hzero : allZero rows with
  | true =>
    rw [echelonColumn, if_pos hzero]
    exact isEchelon_of_leading?_eq_none (allZero_iff.mp hzero)
  | false =>
    obtain ⟨m, hm⟩ := echelonColumn_eq_cons hzero
    have hrest : IsEchelon (List.replicate m ([] : List (Complex Rat))) :=
      isEchelon_of_leading?_eq_none fun row hrow => by
        rw [List.eq_of_mem_replicate hrow]
        rfl
    rw [hm, ← List.map_replicate (f := ((0 : Complex Rat) :: ·))]
    exact hrest.cons rfl

/-- Every row with one cell is a multiple of the row `[1]`. -/
theorem cell_singleton (x : Complex Rat) : cell [x] = x • cell [1] := by
  funext c
  cases c <;> simp

theorem rowSpace_echelonColumn (hw : HasWidth 1 rows) :
    rowSpace (echelonColumn rows) = rowSpace rows := by
  cases hzero : allZero rows with
  | true => rw [echelonColumn, if_pos hzero]
  | false =>
    obtain ⟨m, hm⟩ := echelonColumn_eq_cons hzero
    have hone : cell [1] ∈ rowSpace (echelonColumn rows) :=
      cell_mem_rowSpace (hm ▸ List.mem_cons_self ..)
    obtain ⟨row, hrow, hne⟩ : ∃ row ∈ rows, row.all Complex.isZero = false := by
      simpa [allZero] using hzero
    obtain ⟨a, rfl⟩ := List.length_eq_one_iff.mp (hw row hrow)
    have ha : a ≠ 0 := by simpa using hne
    have hone' : cell [1] ∈ rowSpace rows := by
      have hcell : cell [1] = a⁻¹ • cell [a] := by
        rw [cell_singleton a, smul_smul, inv_mul_cancel₀ ha, one_smul]
      rw [hcell]
      exact Submodule.smul_mem _ _ (cell_mem_rowSpace hrow)
    refine le_antisymm (rowSpace_le_iff.mpr fun r hr => ?_) (rowSpace_le_iff.mpr fun r hr => ?_)
    · obtain ⟨x, rfl⟩ := List.length_eq_one_iff.mp (hasWidth_echelonColumn hw r hr)
      exact cell_singleton x ▸ Submodule.smul_mem _ _ hone'
    · obtain ⟨x, rfl⟩ := List.length_eq_one_iff.mp (hw r hr)
      exact cell_singleton x ▸ Submodule.smul_mem _ _ hone

/-! ### The echelon form -/

/-- **Elimination keeps the row space.** -/
theorem EchelonRun.rowSpace_eq (h : EchelonRun n rows out) (hw : HasWidth n rows) :
    rowSpace out = rowSpace rows := by
  induction h with
  | noColumn => rfl
  | singleRow h => exact (echelonRow_spec h).2
  | singleColumn => exact rowSpace_echelonColumn hw
  | @emptyColumn n rows rest hzero h ih =>
    have hzero : ∀ row ∈ rows, cell row 0 = 0 := fun row hrow => by
      rw [← headD_eq_cell]
      exact (Complex.isZero_iff _).mp (hzero row hrow)
    rw [rowSpace_map_cons_zero, ih hw.map_tail, ← rowSpace_map_cons_zero,
      map_cons_zero_map_tail hw hzero]
  | pivot hi hfirst hk hcleared h ih =>
    obtain ⟨-, hwidth, hzero, hspace⟩ := pivot_step hw hi hfirst hk hcleared
    rw [rowSpace_cons, rowSpace_map_cons_zero, ih hwidth.map_tail, ← rowSpace_map_cons_zero,
      map_cons_zero_map_tail hwidth hzero, ← rowSpace_cons, hspace]

/-- **Elimination brings the rows into echelon form.** -/
theorem EchelonRun.isEchelon (h : EchelonRun n rows out) (hw : HasWidth n rows) :
    IsEchelon out := by
  induction h with
  | noColumn =>
    refine isEchelon_of_leading?_eq_none fun row hrow => ?_
    rw [List.length_eq_zero_iff.mp (hw row hrow)]
    rfl
  | singleRow h =>
    exact ⟨List.pairwise_singleton .., List.forall_mem_singleton.mpr (echelonRow_spec h).1⟩
  | singleColumn => exact isEchelon_echelonColumn _
  | emptyColumn _ _ ih => exact (ih hw.map_tail).map_cons_zero
  | pivot hi hfirst hk hcleared h ih =>
    obtain ⟨hone, hwidth, -, -⟩ := pivot_step hw hi hfirst hk hcleared
    exact (ih hwidth.map_tail).cons hone

end LinearEquations.LabelledMatrix
