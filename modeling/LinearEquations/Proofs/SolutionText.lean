import LinearEquations.Proofs.BackSubstitution

/-! # What a solution says

The texts of the cells of a row decide what the row says.  That is right because the row comes from
a reduced matrix: its first cell that is not zero is one, and these two numbers are written as `0`
and `1` and so are told apart whatever the other cells are.  A row thus says what its leading column
says (`RowReading.ofRow_spec`): nothing if there is none, a contradiction if that is the last
column, and an equation otherwise.

With the solutions of reduced rows this settles when a system is called inconsistent
(`ofReadings_eq_inconsistent_iff_solves`) and what is written of a single solution
(`ofReadings_of_unique`). -/

namespace LinearEquations
open LabelledMatrix

/-! ### Terms of a row -/

section AnyArithmetic
variable {R : Type} [Scalar R] {l : List (Complex R × String)} {terms : String}

/-- Terms that are written as zero are left out. -/
theorem termsOfRow_of_zero (h : ∀ p ∈ l, p.1.text = "0") : termsOfRow terms l = terms := by
  induction l with
  | nil => rfl
  | cons p l ih =>
    obtain ⟨hp, hl⟩ := List.forall_mem_cons.mp h
    rw [termsOfRow, if_pos hp, ih hl]

/-- There is something on the left of a row if some coefficient is not written as zero, since at
least a space is written for it. -/
theorem termsOfRow_eq_empty_iff :
    termsOfRow terms l = "" ↔ terms = "" ∧ ∀ p ∈ l, p.1.text = "0" := by
  induction l generalizing terms with
  | nil => simp [termsOfRow]
  | cons p l ih =>
    rw [termsOfRow, List.forall_mem_cons]
    by_cases hp : p.1.text = "0"
    · rw [if_pos hp, ih]
      exact ⟨fun h => ⟨h.1, hp, h.2⟩, fun h => ⟨h.1, h.2.2⟩⟩
    · rw [if_neg hp, ih, String.append_eq_empty_iff]
      constructor
      · rintro ⟨⟨-, hspace⟩, -⟩
        exact absurd hspace (by decide)
      · rintro ⟨-, hp', -⟩
        exact absurd hp' hp

variable {labels : List String} {row : List (Complex R)}

theorem RowReading.ofRow_of_terms_eq (h : termsOfRow "" (row.dropLast.zip labels) = "") :
    ofRow labels row = if (row.getLastD 0).text = "0" then .vacuous else .contradiction := by
  simp only [ofRow, h]
  rfl

theorem RowReading.ofRow_of_terms_ne (h : termsOfRow "" (row.dropLast.zip labels) ≠ "") :
    ofRow labels row = .equation
      (termsOfRow "" (row.dropLast.zip labels) ++ "= " ++ (row.getLastD 0).text) := by
  have hne : (termsOfRow "" (row.dropLast.zip labels)).isEmpty = false := by simpa using h
  simp only [ofRow, hne]
  rfl

end AnyArithmetic

variable {n c : Nat} {row : List (Complex Rat)} {labels : List String}

namespace Complex

theorem text_zero : (0 : Complex Rat).text = "0" := by decide +kernel

theorem text_one : (1 : Complex Rat).text = "1" := by decide +kernel

theorem text_one_ne : (1 : Complex Rat).text ≠ "0" := by
  rw [text_one]
  decide

end Complex

/-- A single coefficient of one among zeros. -/
theorem termsOfRow_single {l : List (Complex Rat × String)} {label : String}
    (hc : l[c]? = some (1, label)) (hzero : ∀ b p, b ≠ c → l[b]? = some p → p.1 = 0) :
    termsOfRow "" l = label ++ " " := by
  induction l generalizing c with
  | nil => cases hc
  | cons p l ih =>
    cases c with
    | zero =>
      cases hc
      -- the coefficient has no sign, being the first, and nothing comes after it
      have hrest : ∀ p ∈ l, p.1.text = "0" := by
        intro p hp
        obtain ⟨b, hb⟩ := List.mem_iff_getElem?.mp hp
        rw [hzero (b + 1) p (Nat.succ_ne_zero b) hb, Complex.text_zero]
      rw [termsOfRow, if_neg Complex.text_one_ne, termsOfRow_of_zero hrest, termOfColumn,
        if_pos Complex.text_one]
      rfl
    | succ c =>
      have hp : p.1 = 0 := hzero 0 p (Nat.succ_ne_zero c).symm rfl
      rw [termsOfRow, if_pos (hp ▸ Complex.text_zero)]
      exact ih hc fun b q hb hq => hzero (b + 1) q (fun h => hb (Nat.succ.inj h)) hq

/-! ### Rows by their leading column -/

theorem getElem?_zip_labels (hrow : row.length = n + 1) (hlabels : n ≤ labels.length) (c : Nat) :
    (row.dropLast.zip labels)[c]? =
      if c < n then some (cell row c, labels.getD c "") else none := by
  by_cases hc : c < n
  · have hdrop : c < row.dropLast.length := by simpa [hrow] using hc
    have hlt : c < labels.length := hc.trans_le hlabels
    rw [if_pos hc, List.getElem?_zip_eq_some, ← cell_dropLast hrow hc]
    simp only [cell, List.getD_eq_getElem?_getD, List.getElem?_eq_getElem hdrop,
      List.getElem?_eq_getElem hlt, Option.getD_some, and_self]
  · rw [if_neg hc]
    exact List.getElem?_eq_none (by simp [hrow]; omega)

theorem termsOfRow_eq_empty_iff_cell (hrow : row.length = n + 1) (hlabels : n ≤ labels.length) :
    termsOfRow "" (row.dropLast.zip labels) = "" ↔ ∀ c < n, (cell row c).text = "0" := by
  rw [termsOfRow_eq_empty_iff]
  constructor
  · rintro ⟨-, h⟩ c hc
    have hget := (getElem?_zip_labels hrow hlabels c).trans (if_pos hc)
    exact h (cell row c, labels.getD c "") (List.mem_of_getElem? hget)
  · intro h
    refine ⟨rfl, fun p hp => ?_⟩
    obtain ⟨c, hc⟩ := List.mem_iff_getElem?.mp hp
    rw [getElem?_zip_labels hrow hlabels] at hc
    split at hc
    · rename_i hlt
      cases hc
      exact h c hlt
    · cases hc

/-- **A row says what its leading column says**: nothing if there is none, a contradiction if it is
the last column, and an equation otherwise. -/
theorem RowReading.ofRow_spec (hrow : row.length = n + 1) (hlabels : n ≤ labels.length)
    (hone : LeadsWithOne row) :
    (leading? row = none → ofRow labels row = .vacuous) ∧
    (leading? row = some n → ofRow labels row = .contradiction) ∧
    ∀ c < n, leading? row = some c → ∃ line, ofRow labels row = .equation line := by
  have hterms := termsOfRow_eq_empty_iff_cell hrow hlabels
  refine ⟨fun hnone => ?_, fun hn => ?_, fun c hc hlead => ?_⟩
  · have hzero : cell row = 0 := leading?_eq_none_iff.mp hnone
    rw [ofRow_of_terms_eq (hterms.mpr fun c _ => hzero ▸ Complex.text_zero),
      getLastD_eq_cell hrow, hzero]
    exact if_pos Complex.text_zero
  · have hzero : ∀ c < n, cell row c = 0 := (leading?_eq_some_iff.mp hn).2
    rw [ofRow_of_terms_eq (hterms.mpr fun c hc => (hzero c hc).symm ▸ Complex.text_zero),
      getLastD_eq_cell hrow, cell_of_leadsWithOne hone hn]
    exact if_neg Complex.text_one_ne
  · refine ⟨_, ofRow_of_terms_ne fun hempty => Complex.text_one_ne ?_⟩
    rw [← cell_of_leadsWithOne hone hlead]
    exact hterms.mp hempty c hc

/-- A row with a single coefficient of one gives the value of an unknown. -/
theorem RowReading.ofRow_of_single (hrow : row.length = n + 1) (hlabels : n ≤ labels.length)
    (hc : c < n) (hcell : ∀ b < n, cell row b = if b = c then 1 else 0) :
    ofRow labels row = .equation (labels.getD c "" ++ " = " ++ (cell row n).text) := by
  have hterms : termsOfRow "" (row.dropLast.zip labels) = labels.getD c "" ++ " " := by
    refine termsOfRow_single (c := c) ?_ fun b p hbc hb => ?_
    · rw [getElem?_zip_labels hrow hlabels, if_pos hc, hcell c hc, if_pos rfl]
    · rw [getElem?_zip_labels hrow hlabels] at hb
      split at hb
      · rename_i hlt
        cases hb
        exact (hcell b hlt).trans (if_neg hbc)
      · cases hb
  have hne : termsOfRow "" (row.dropLast.zip labels) ≠ "" := by
    rw [hterms, Ne, String.append_eq_empty_iff]
    exact fun h => absurd h.2 (by decide)
  have hjoin : labels.getD c "" ++ " " ++ "= " = labels.getD c "" ++ " = " := by
    rw [String.append_assoc]
    rfl
  rw [ofRow_of_terms_ne hne, hterms, getLastD_eq_cell hrow, hjoin]

/-! ### Solutions of a system -/

theorem Solution.ofReadings_eq_inconsistent_iff {readings : List RowReading} :
    ofReadings readings = .inconsistent ↔ .contradiction ∈ readings := by
  unfold ofReadings
  split
  · rename_i h
    exact iff_of_true rfl (List.contains_iff_mem.mp h)
  · rename_i h
    exact iff_of_false nofun fun hmem => h (List.contains_iff_mem.mpr hmem)

theorem Solution.ofReadings_of_notMem {readings : List RowReading} (h : .contradiction ∉ readings) :
    ofReadings readings = .solved (readings.filterMap RowReading.line?) :=
  if_neg fun hmem => h (List.contains_iff_mem.mp hmem)

/-- Reduced rows are read as inconsistent if and only if they have no solution. -/
theorem ofReadings_eq_inconsistent_iff_solves {rows : Rows Rat} (h : IsReduced rows)
    (hw : HasWidth (n + 1) rows) (hlabels : n ≤ labels.length) :
    Solution.ofReadings (rows.map (RowReading.ofRow labels)) = .inconsistent ↔
      ¬ ∃ x, Solves n rows x := by
  rw [Solution.ofReadings_eq_inconsistent_iff, exists_solves_iff h hw, List.mem_map]
  push Not
  refine exists_congr fun row => and_congr_right fun hrow => ?_
  obtain ⟨hnone, hlast, hlead⟩ :=
    RowReading.ofRow_spec (hw row hrow) hlabels (h.leadsWithOne row hrow)
  constructor
  · intro hreading
    cases hc : leading? row with
    | none =>
      rw [hnone hc] at hreading
      cases hreading
    | some c =>
      by_contra hn
      obtain ⟨line, hline⟩ := hlead c (lt_of_leading? (hw row hrow) hc (hc ▸ hn)) hc
      rw [hline] at hreading
      cases hreading
  · exact hlast

/-- Reduced rows with a single solution are read as the values of the columns. -/
theorem ofReadings_of_unique {rows : Rows Rat} {x : Nat → Complex Rat} (h : IsReduced rows)
    (hw : HasWidth (n + 1) rows) (hlabels : n ≤ labels.length) (hx : Solves n rows x)
    (hunique : ∀ y, Solves n rows y → ∀ c < n, y c = x c) :
    Solution.ofReadings (rows.map (RowReading.ofRow labels)) =
      .solved ((List.range n).map fun c => labels.getD c "" ++ " = " ++ (x c).text) := by
  have hall : ∀ c < n, ∃ row ∈ rows, leading? row = some c :=
    fun c hc => exists_leading?_of_unique h hw hx hunique hc
  have hlt : ∀ row ∈ rows, ∀ c, leading? row = some c → c < n := fun row hrow c hc =>
    lt_of_leading? (hw row hrow) hc (leading?_ne_of_solves h hx hrow)
  have hconsistent : .contradiction ∉ rows.map (RowReading.ofRow labels) := by
    rw [← Solution.ofReadings_eq_inconsistent_iff,
      ofReadings_eq_inconsistent_iff_solves h hw hlabels]
    exact fun hnone => hnone ⟨x, hx⟩
  -- the rows with a line are those with a leading column, and these are all columns in order
  rw [Solution.ofReadings_of_notMem hconsistent, List.filterMap_map,
    ← filterMap_leading?_eq_range h.toIsEchelon hlt hall, List.map_filterMap]
  refine congrArg Solution.solved (List.filterMap_congr fun row hrow => ?_)
  show (RowReading.ofRow labels row).line? = _
  cases hc : leading? row with
  | none =>
    rw [(RowReading.ofRow_spec (hw row hrow) hlabels (h.leadsWithOne row hrow)).1 hc]
    rfl
  | some c =>
    have hcn := hlt row hrow c hc
    rw [RowReading.ofRow_of_single (hw row hrow) hlabels hcn fun b hb =>
      cell_of_leading? h hall hrow hc hb, cell_eq_value h hx hall hrow hc hcn]
    rfl

namespace LinearSystem
variable {s : LinearSystem Rat}

/-- The values of the columns as values of the unknowns. -/
def valuesOf (s : LinearSystem Rat) (x : Nat → Complex Rat) (name : String) : Complex Rat :=
  x (s.unknowns.idxOf name)

theorem getD_labels (s : LinearSystem Rat) (hc : c < s.unknowns.length) :
    s.labels.getD c "" = s.unknowns[c] := by
  rw [labels, List.getD_append _ _ _ _ hc, List.getD_eq_getElem _ _ hc]

theorem columnValues_valuesOf (s : LinearSystem Rat) (x : Nat → Complex Rat)
    (hc : c < s.unknowns.length) : columnValues s.labels (s.valuesOf x) c = x c := by
  rw [columnValues, getD_labels s hc, valuesOf, s.nodup_unknowns.idxOf_getElem c hc]

theorem satisfies_valuesOf (s : LinearSystem Rat) (x : Nat → Complex Rat) :
    s.Satisfies (s.valuesOf x) ↔ Solves s.unknowns.length s.augmentedRows x := by
  rw [satisfies_iff]
  exact forall₂_congr fun row _ => by
    rw [defect_congr fun c hc => s.columnValues_valuesOf x hc]

theorem exists_satisfies_iff (s : LinearSystem Rat) :
    (∃ v, s.Satisfies v) ↔ ∃ x, Solves s.unknowns.length s.augmentedRows x := by
  constructor
  · rintro ⟨v, hv⟩
    exact ⟨_, (s.satisfies_iff v).mp hv⟩
  · rintro ⟨x, hx⟩
    exact ⟨_, (s.satisfies_valuesOf x).mpr hx⟩

/-- An assignment without alternatives gives the only solution of the rows. -/
theorem columnValues_unique {v : String → Complex Rat}
    (hunique : ∀ w, s.Satisfies w → ∀ name ∈ s.unknowns, w name = v name)
    (y : Nat → Complex Rat) (hy : Solves s.unknowns.length s.augmentedRows y) :
    ∀ c < s.unknowns.length, y c = columnValues s.labels v c := by
  intro c hc
  rw [← s.columnValues_valuesOf y hc, columnValues, columnValues, getD_labels s hc]
  exact hunique _ ((s.satisfies_valuesOf y).mpr hy) _ (List.getElem_mem hc)

/-- **A system is reported as inconsistent if and only if it has no solution, and if it has just
one, its lines are the values of the unknowns.** -/
theorem solution_spec (s : LinearSystem Rat) (hs : s.equations ≠ []) :
    ∃ r solution, s.solve = .ok r ∧ r.solution = .ok solution ∧
      (solution = .inconsistent ↔ ¬ ∃ v, s.Satisfies v) ∧
      ∀ v, s.Satisfies v → (∀ w, s.Satisfies w → ∀ x ∈ s.unknowns, w x = v x) →
        solution = .solved (s.unknowns.map fun x => x ++ " = " ++ (v x).text) := by
  obtain ⟨m, hsolve, -, hshape, hw, hreduced, hspace⟩ := exists_solve hs
  have hlabels : s.unknowns.length ≤ s.labels.length := by simp [labels]
  refine ⟨_, _, hsolve, if_pos (Prod.mk.inj hshape).2.symm, ?_, fun v hv hunique => ?_⟩
  · rw [ofReadings_eq_inconsistent_iff_solves hreduced hw hlabels, exists_satisfies_iff]
    exact not_congr (exists_congr fun x => solves_congr hspace)
  · have hx := (solves_congr hspace).mpr ((s.satisfies_iff v).mp hv)
    rw [ofReadings_of_unique hreduced hw hlabels hx fun y hy =>
      columnValues_unique hunique y ((solves_congr hspace).mp hy)]
    refine congrArg Solution.solved (List.ext_getElem (by simp) fun c hc _ => ?_)
    have hc : c < s.unknowns.length := by simpa using hc
    rw [List.getElem_map, List.getElem_map, List.getElem_range, columnValues, getD_labels s hc]

/-- Two equations that give the values of two unknowns. -/
theorem solution_spec_of_two_equations :
    let s : LinearSystem Rat :=
      ⟨[((Equation.empty 3).set "x" 1).set "y" 1, (Equation.empty 1).set "y" 1]⟩
    let v : String → Complex Rat := fun x => if x = "x" then 2 else 1
    s.equations ≠ [] ∧ s.Satisfies v ∧ (∀ w, s.Satisfies w → ∀ x ∈ s.unknowns, w x = v x) ∧
      ∃ r solution, s.solve = .ok r ∧ r.solution = .ok solution ∧
        solution = .solved ["x = 2", "y = 1"] := by
  intro s v
  have hs : s.equations ≠ [] := List.cons_ne_nil _ _
  have hv : s.Satisfies v := by decide +kernel
  have hunique : ∀ w, s.Satisfies w → ∀ x ∈ s.unknowns, w x = v x := by
    intro w hw
    obtain ⟨hfirst, hy⟩ : w "x" + w "y" = 3 ∧ w "y" = 1 := by
      simpa [s, Satisfies, Equation.Holds, Equation.set, Equation.setTerm, Equation.empty] using hw
    have hx : w "x" = 2 := by linear_combination hfirst - hy
    have hunknowns : s.unknowns = ["x", "y"] := by decide +kernel
    rw [hunknowns]
    exact List.forall_mem_cons.mpr ⟨hx, List.forall_mem_singleton.mpr hy⟩
  obtain ⟨r, solution, hr, hsolution, -, hlines⟩ := solution_spec s hs
  refine ⟨hs, hv, hunique, r, solution, hr, hsolution, (hlines v hv hunique).trans ?_⟩
  decide +kernel

end LinearSystem
end LinearEquations
