import LinearEquations.Proofs.Reduction

/-! # The reduced echelon form

Clearing upward keeps the invariant `IsPartlyReduced`: all rows together are in echelon form, and
those that are done clear each other.  A row that serves as a pivot has only zeros in the leading
columns above it, so adding a multiple of it to the rows above spoils none of these columns.

Together with the elimination this gives every matrix a reduced form, which is a matrix of the same
shape in reduced echelon form with the same row space (`isReduced_of_reducedRowEchelon`). -/

namespace LinearEquations.LabelledMatrix
variable {n c : Nat} {row pivot : List (Complex Rat)} {done rest : Rows Rat}

/-! ### One pivot row -/

/-- To the left of its leading column a pivot row changes nothing. -/
theorem cell_clearRow_of_lt (hlen : row.length = pivot.length) (hc : leading? pivot = some c)
    {b : Nat} (hb : b < c) : cell (clearRow c pivot row) b = cell row b := by
  rw [cell_clearRow c hlen, Pi.sub_apply, Pi.smul_apply, (leading?_eq_some_iff.mp hc).2 b hb,
    smul_zero, sub_zero]

theorem cell_clearRow_self (hlen : row.length = pivot.length) (hone : cell pivot c = 1) :
    cell (clearRow c pivot row) c = 0 := by
  rw [cell_clearRow c hlen, Pi.sub_apply, Pi.smul_apply, hone, smul_eq_mul, mul_one, sub_self]

/-- Rows above keep their leading columns. -/
theorem leading?_clearRow (hlen : row.length = pivot.length) (hprec : Precedes row pivot)
    (hc : leading? pivot = some c) : leading? (clearRow c pivot row) = leading? row := by
  obtain ⟨b, hb, hbc⟩ := hprec c hc
  obtain ⟨hne, hbefore⟩ := leading?_eq_some_iff.mp hb
  rw [hb, leading?_eq_some_iff, cell_clearRow_of_lt hlen hc hbc]
  refine ⟨hne, fun a ha => ?_⟩
  rw [cell_clearRow_of_lt hlen hc (ha.trans hbc), hbefore a ha]

/-! ### The invariant of clearing upward -/

/-- The rows `done` are cleared, the rows `remaining` are yet to be used as pivots. -/
structure IsPartlyReduced (done remaining : Rows Rat) : Prop where
  echelon : IsEchelon (done ++ remaining)
  cleared : done.Pairwise fun upper lower => Clears upper lower ∧ Clears lower upper

theorem IsPartlyReduced.precedes (h : IsPartlyReduced done (pivot :: rest)) :
    ∀ row ∈ done, Precedes row pivot := fun row hrow =>
  (List.pairwise_append.mp h.echelon.staircase).2.2 row hrow pivot (List.mem_cons_self ..)

theorem leadsWithOne_clearRow (hlen : row.length = pivot.length) (hprec : Precedes row pivot)
    (hc : leading? pivot = some c) (h : LeadsWithOne row) :
    LeadsWithOne (clearRow c pivot row) := by
  intro b hb
  rw [leading?_clearRow hlen hprec hc] at hb
  rw [cell_clearRow_of_lt hlen hc (hprec.lt hb hc)]
  exact h b hb

/-- A cleared row is still cleared after the next pivot row was used. -/
theorem clears_clearRow {other : List (Complex Rat)} (hlen : row.length = pivot.length)
    (hlen' : other.length = pivot.length) (hprec : Precedes row pivot)
    (hc : leading? pivot = some c) (h : Clears row other) :
    Clears (clearRow c pivot row) (clearRow c pivot other) := by
  intro b hb
  rw [leading?_clearRow hlen hprec hc] at hb
  rw [cell_clearRow_of_lt hlen' hc (hprec.lt hb hc)]
  exact h b hb

/-- All leading columns stay where they are, so the rows stay in echelon form. -/
theorem IsPartlyReduced.echelon_step (h : IsPartlyReduced done (pivot :: rest))
    (hlen : HasWidth pivot.length done) (hc : leading? pivot = some c) :
    IsEchelon (done.map (clearRow c pivot) ++ pivot :: rest) := by
  have hprec := h.precedes
  have hlead : ∀ row ∈ done, leading? (clearRow c pivot row) = leading? row :=
    fun row hrow => leading?_clearRow (hlen row hrow) (hprec row hrow) hc
  obtain ⟨hstair, hstair', hcross⟩ := List.pairwise_append.mp h.echelon.staircase
  obtain ⟨hone, hone'⟩ := List.forall_mem_append.mp h.echelon.leadsWithOne
  constructor
  · refine List.pairwise_append.mpr ⟨List.pairwise_map.mpr ?_, hstair', ?_⟩
    · exact hstair.imp_of_mem fun ha hb hab => hab.congr (hlead _ ha) (hlead _ hb)
    · exact List.forall_mem_map.mpr fun row hrow lower hlower =>
        (hcross row hrow lower hlower).congr (hlead row hrow) rfl
  · exact List.forall_mem_append.mpr ⟨List.forall_mem_map.mpr fun row hrow =>
      leadsWithOne_clearRow (hlen row hrow) (hprec row hrow) hc (hone row hrow), hone'⟩

/-- The rows that are done clear each other as before, and the pivot row clears them and is cleared
by them. -/
theorem IsPartlyReduced.cleared_step (h : IsPartlyReduced done (pivot :: rest))
    (hlen : HasWidth pivot.length done) (hc : leading? pivot = some c) :
    (done.map (clearRow c pivot) ++ [pivot]).Pairwise fun upper lower =>
      Clears upper lower ∧ Clears lower upper := by
  have hprec := h.precedes
  have hpivot : cell pivot c = 1 := cell_of_leadsWithOne
    (h.echelon.leadsWithOne pivot (List.mem_append_right _ (List.mem_cons_self ..))) hc
  refine List.pairwise_append.mpr ⟨List.pairwise_map.mpr ?_, List.pairwise_singleton .., ?_⟩
  · exact h.cleared.imp_of_mem fun ha hb hab =>
      ⟨clears_clearRow (hlen _ ha) (hlen _ hb) (hprec _ ha) hc hab.1,
        clears_clearRow (hlen _ hb) (hlen _ ha) (hprec _ hb) hc hab.2⟩
  · refine List.forall_mem_map.mpr fun row hrow => List.forall_mem_singleton.mpr ⟨?_, ?_⟩
    · have hlead := leading?_clearRow (hlen row hrow) (hprec row hrow) hc
      exact clears_of_precedes ((hprec row hrow).congr hlead rfl)
    · intro d hd
      rw [hc] at hd
      cases hd
      rw [cell_clearRow_self (hlen row hrow) hpivot, Complex.isZero_iff]

/-- **Using one more pivot row keeps the invariant.** -/
theorem IsPartlyReduced.step (h : IsPartlyReduced done (pivot :: rest))
    (hlen : HasWidth pivot.length done) (hc : leading? pivot = some c) :
    IsPartlyReduced (done.map (clearRow c pivot) ++ [pivot]) rest := by
  refine ⟨?_, h.cleared_step hlen hc⟩
  rw [List.append_assoc]
  exact h.echelon_step hlen hc

/-- Using one more pivot row keeps the row space. -/
theorem rowSpace_clearRow_step (hlen : HasWidth pivot.length done) (rest : Rows Rat) :
    rowSpace ((done.map (clearRow c pivot) ++ [pivot]) ++ rest) =
      rowSpace (done ++ pivot :: rest) := by
  rw [rowSpace_append, rowSpace_eq_of_perm (List.perm_append_singleton ..),
    rowSpace_cons_map_clearRow c hlen, ← rowSpace_append]
  exact rowSpace_eq_of_perm List.perm_middle.symm

/-- Once a row of zeros is reached, all is done. -/
theorem IsPartlyReduced.of_zero (h : IsPartlyReduced done (pivot :: rest))
    (hzero : leading? pivot = none) : IsReduced (done ++ pivot :: rest) := by
  obtain ⟨-, hrest, -⟩ := List.pairwise_append.mp h.echelon.staircase
  have hzeros : ∀ row ∈ pivot :: rest, leading? row = none := List.forall_mem_cons.mpr
    ⟨hzero, fun row hrow =>
      leading?_eq_none_of_precedes ((List.pairwise_cons.mp hrest).1 row hrow) hzero⟩
  have hclears : ∀ row ∈ pivot :: rest, ∀ other, Clears row other ∧ Clears other row := by
    refine fun row hrow other => ⟨fun b hb => ?_, fun b _ => ?_⟩
    · rw [hzeros row hrow] at hb
      cases hb
    · rw [Complex.isZero_iff]
      exact congrFun (leading?_eq_none_iff.mp (hzeros row hrow)) b
  refine ⟨h.echelon, List.pairwise_append.mpr ⟨h.cleared, ?_, ?_⟩⟩
  · exact List.pairwise_of_forall_mem_list fun row hrow other _ => hclears row hrow other
  · exact fun row _ other hother => (hclears other hother row).symm

/-- **Clearing upward leads from echelon form to reduced echelon form, in the same row space.** -/
theorem clearUpward_spec {done remaining out : Rows Rat} (h : IsPartlyReduced done remaining)
    (hd : HasWidth n done) (hr : HasWidth n remaining)
    (hout : clearUpward done remaining = .ok out) :
    IsReduced out ∧ rowSpace out = rowSpace (done ++ remaining) := by
  induction remaining generalizing done with
  | nil =>
    cases hout
    rw [List.append_nil]
    exact ⟨⟨by simpa using h.echelon, h.cleared⟩, rfl⟩
  | cons pivot rest ih =>
    obtain ⟨hp, hrest⟩ := List.forall_mem_cons.mp hr
    unfold clearUpward at hout
    split at hout
    · rename_i hnone
      cases hout
      exact ⟨h.of_zero hnone, rfl⟩
    · rename_i c hc
      rw [mapM_clearedRow] at hout
      subst hp
      have hw : HasWidth pivot.length (done.map (clearRow c pivot) ++ [pivot]) :=
        List.forall_mem_append.mpr ⟨hasWidth_of_mapM_clearedRow rfl hd (mapM_clearedRow ..),
          List.forall_mem_singleton.mpr rfl⟩
      obtain ⟨hreduced, hspace⟩ := ih (h.step hd hc) hw hrest hout
      exact ⟨hreduced, hspace.trans (rowSpace_clearRow_step hd rest)⟩

/-! ### Reducing a matrix -/

theorem exists_reducedRowEchelon (m : ComplexMatrix Rat) : ∃ r, m.reducedRowEchelon = .ok r := by
  have hechelon : ∃ e, m.rowEchelon = .ok e := by
    unfold rowEchelon
    split
    · exact ⟨m, rfl⟩
    · obtain ⟨rows, hrows⟩ := exists_echelonRows m.columnCount m.rows
      rw [hrows]
      exact ⟨_, rfl⟩
  obtain ⟨e, he⟩ := hechelon
  obtain ⟨rows, hrows⟩ := exists_clearUpward [] e.rows
  exact ⟨_, bind_eq_ok.mpr ⟨e, he, bind_eq_ok.mpr ⟨rows, mapError_eq_ok.mpr hrows, rfl⟩⟩⟩

theorem isReduced_of_reducedRowEchelon {m r : ComplexMatrix Rat} (hm : m.WellFormed)
    (h : m.reducedRowEchelon = .ok r) : IsReduced r.rows ∧ rowSpace r.rows = rowSpace m.rows := by
  obtain ⟨rows, hrows, hclear, -, -⟩ := reducedRowEchelon_eq_ok hm h
  have hrun := echelonRun_of_echelonRows hrows
  have hstart : IsPartlyReduced [] rows := ⟨hrun.isEchelon hm.length_row, List.Pairwise.nil⟩
  obtain ⟨hreduced, hspace⟩ := clearUpward_spec hstart (List.forall_mem_nil _)
    (hrun.hasWidth hm.length_row) hclear
  exact ⟨hreduced, hspace.trans (hrun.rowSpace_eq hm.length_row)⟩

/-- **Every matrix has a reduced form**: a matrix of the same shape, in reduced echelon form, with
the same row space. -/
theorem exists_reduced_form (m : ComplexMatrix Rat) (hm : m.WellFormed) :
    ∃ r, m.reducedRowEchelon = .ok r ∧ r.WellFormed ∧ r.shape = m.shape ∧
      IsReduced r.rows ∧ rowSpace r.rows = rowSpace m.rows := by
  obtain ⟨r, hr⟩ := exists_reducedRowEchelon m
  obtain ⟨hwf, hshape, -⟩ := hm.reducedRowEchelon hr
  obtain ⟨hreduced, hspace⟩ := isReduced_of_reducedRowEchelon hm hr
  exact ⟨r, hr, hwf, hshape, hreduced, hspace⟩

/-- A matrix with an empty column, in which a row with a pivot has to be moved up and a row comes
out as zero. -/
theorem exists_reduced_form_of_empty_column :
    let m : ComplexMatrix Rat :=
      { rows := [[0, 0, ⟨3, 0⟩], [0, ⟨2, 0⟩, ⟨4, 0⟩], [0, ⟨1, 0⟩, ⟨2, 0⟩]] }
    m.WellFormed ∧ ∃ r, m.reducedRowEchelon = .ok r ∧ r.rows = [[0, 1, 0], [0, 0, 1], [0, 0, 0]] ∧
      IsReduced r.rows ∧ rowSpace r.rows = rowSpace m.rows := by
  intro m
  have hm : m.WellFormed := by decide
  obtain ⟨r, hr, -, -, hreduced, hspace⟩ := exists_reduced_form m hm
  have hrows : m.reducedRowEchelon.toOption.map LabelledMatrix.rows =
      some [[0, 1, 0], [0, 0, 1], [0, 0, 0]] := by decide +kernel
  rw [hr] at hrows
  exact ⟨hm, r, hr, Option.some.inj hrows, hreduced, hspace⟩

end LinearEquations.LabelledMatrix
