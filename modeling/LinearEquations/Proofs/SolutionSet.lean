import LinearEquations.LinearSystem.Basic
import LinearEquations.Proofs.Construction
import LinearEquations.Proofs.ReducedForm

/-! # Solving keeps the solutions

An assignment gives a number to every name.  It may satisfy the equations of a system, and it may
satisfy the rows of a matrix, read through the labels of the columns.  For the augmented matrix of a
system these are the same (`rowHolds_rowOf`): the row of an equation has the coefficients of the
equation, in the order of the unknowns of the whole system, and zeros elsewhere.

Whether an assignment satisfies a row is whether the row is in the kernel of a linear map
(`defect`).  So it satisfies all rows of a matrix if and only if that kernel contains the row space
(`solves_congr`), which reducing the matrix does not change. -/

namespace LinearEquations
open LabelledMatrix

/-- The values `v` satisfy an equation. -/
def Equation.Holds (e : Equation Rat) (v : String → Complex Rat) : Prop :=
  (e.terms.map fun term => term.2 * v term.1).sum = e.rhs

instance (e : Equation Rat) (v : String → Complex Rat) : Decidable (e.Holds v) :=
  inferInstanceAs (Decidable (_ = _))

/-- The values `v` satisfy all equations of a system. -/
def LinearSystem.Satisfies (s : LinearSystem Rat) (v : String → Complex Rat) : Prop :=
  ∀ e ∈ s.equations, e.Holds v

instance (s : LinearSystem Rat) (v : String → Complex Rat) : Decidable (s.Satisfies v) :=
  inferInstanceAs (Decidable (∀ e ∈ s.equations, e.Holds v))

/-- The values `v` satisfy a row: its cells times the values of their labels add up to the last
cell. -/
def RowHolds (labels : List String) (row : List (Complex Rat)) (v : String → Complex Rat) : Prop :=
  (List.zipWith (fun a x => a * v x) row.dropLast labels).sum = row.getLastD 0

instance (labels : List String) (row : List (Complex Rat)) (v : String → Complex Rat) :
    Decidable (RowHolds labels row v) := inferInstanceAs (Decidable (_ = _))

variable {v : String → Complex Rat}

/-! ### Rows of equations -/

/-- The coefficient of a name in a list of terms, zero if it has none. -/
def coefficientIn (terms : List (String × Complex Rat)) (x : String) : Complex Rat :=
  ((terms.find? fun term => term.1 = x).map Prod.snd).getD 0

theorem coefficientIn_of_notMem {terms : List (String × Complex Rat)} {x : String}
    (h : x ∉ terms.map Prod.fst) : coefficientIn terms x = 0 := by
  have hnone : (terms.find? fun term => term.1 = x) = none := by
    refine List.find?_eq_none.mpr fun term hterm heq => h ?_
    exact List.mem_map.mpr ⟨term, hterm, by simpa using heq⟩
  rw [coefficientIn, hnone]
  rfl

/-- Of several terms only the first with a name counts, but no name has another. -/
theorem coefficientIn_cons {term : String × Complex Rat} {terms : List (String × Complex Rat)}
    (h : term.1 ∉ terms.map Prod.fst) (x : String) :
    coefficientIn (term :: terms) x =
      (if x = term.1 then term.2 else 0) + coefficientIn terms x := by
  by_cases hx : x = term.1
  · subst hx
    rw [coefficientIn_of_notMem h]
    simp [coefficientIn]
  · have hx' : ¬ term.1 = x := fun heq => hx heq.symm
    simp [coefficientIn, hx, hx']

/-- Adding up over the terms is adding up over all names. -/
theorem sum_coefficientIn {names : List String} (hnames : names.Nodup)
    {terms : List (String × Complex Rat)} (hterms : (terms.map Prod.fst).Nodup)
    (hsubset : terms.map Prod.fst ⊆ names) :
    (names.map fun x => coefficientIn terms x * v x).sum =
      (terms.map fun term => term.2 * v term.1).sum := by
  induction terms with
  | nil => simp [coefficientIn]
  | cons term terms ih =>
    obtain ⟨hterm, hterms⟩ := List.nodup_cons.mp hterms
    obtain ⟨hmem, hsubset⟩ := List.cons_subset.mp hsubset
    -- the name of the first term occurs once among all names
    have hsingle : (names.map fun x => (if x = term.1 then term.2 else 0) * v x).sum =
        term.2 * v term.1 := by
      rw [List.sum_map_eq_nsmul_single term.1 _ fun x hx _ => by rw [if_neg hx, zero_mul],
        List.count_eq_one_of_mem hnames hmem, one_nsmul, if_pos rfl]
    calc (names.map fun x => coefficientIn (term :: terms) x * v x).sum
        = (names.map fun x => (if x = term.1 then term.2 else 0) * v x +
            coefficientIn terms x * v x).sum := by
          simp only [coefficientIn_cons hterm, add_mul]
      _ = term.2 * v term.1 + (terms.map fun t => t.2 * v t.1).sum := by
          rw [List.sum_map_add, hsingle, ih hterms hsubset]
      _ = _ := (List.sum_cons ..).symm

/-- **An equation and its row say the same.** -/
theorem rowHolds_rowOf {e : Equation Rat} {unknowns : List String} (hunknowns : unknowns.Nodup)
    (hsubset : e.unknowns ⊆ unknowns) (rhs : String) :
    RowHolds (unknowns ++ [rhs]) (LinearSystem.rowOf unknowns e) v ↔ e.Holds v := by
  have hzip : List.zipWith (fun a x => a * v x) (unknowns.map (coefficientIn e.terms))
      (unknowns ++ [rhs]) = unknowns.map fun x => coefficientIn e.terms x * v x := by
    rw [← List.append_nil (unknowns.map (coefficientIn e.terms)),
      List.zipWith_append (List.length_map _), List.zipWith_nil_left, List.append_nil,
      List.zipWith_map_left, List.zipWith_self]
  have hrow : LinearSystem.rowOf unknowns e = unknowns.map (coefficientIn e.terms) ++ [e.rhs] := rfl
  rw [RowHolds, hrow, List.dropLast_concat, hzip, sum_coefficientIn hunknowns e.nodup hsubset,
    List.getLastD_concat]
  rfl

/-! ### Rows as linear conditions -/

/-- The cell in column `c`, as a linear map. -/
def cellAt (c : Nat) : (Nat → Complex Rat) →ₗ[Complex Rat] Complex Rat := LinearMap.proj c

/-- By how much a row fails whose columns have the values `x` and whose right hand side is in column
`n`. -/
def defect (n : Nat) (x : Nat → Complex Rat) : (Nat → Complex Rat) →ₗ[Complex Rat] Complex Rat :=
  (∑ c ∈ Finset.range n, x c • cellAt c) - cellAt n

theorem defect_apply (n : Nat) (x a : Nat → Complex Rat) :
    defect n x a = (∑ c ∈ Finset.range n, x c * a c) - a n := by
  simp [defect, cellAt]

/-- The values of the columns with the given labels. -/
def columnValues (labels : List String) (v : String → Complex Rat) (c : Nat) : Complex Rat :=
  v (labels.getD c "")

theorem getLastD_eq_cell {n : Nat} {row : List (Complex Rat)} (h : row.length = n + 1) :
    row.getLastD 0 = cell row n := by
  simp [cell, List.getLastD_eq_getLast?, List.getLast?_eq_getElem?, h]

theorem cell_dropLast {n c : Nat} {row : List (Complex Rat)} (h : row.length = n + 1) (hc : c < n) :
    cell row.dropLast c = cell row c := by
  simp only [cell, List.getD_eq_getElem?_getD, List.getElem?_dropLast, h, Nat.add_sub_cancel, hc,
    if_true]

theorem sum_zipWith_eq {cells : List (Complex Rat)} {labels : List String}
    (h : cells.length ≤ labels.length) :
    (List.zipWith (fun a x => a * v x) cells labels).sum =
      ∑ c ∈ Finset.range cells.length, columnValues labels v c * cell cells c := by
  induction cells generalizing labels with
  | nil => rfl
  | cons a cells ih =>
    cases labels with
    | nil => cases h
    | cons x labels =>
      rw [List.zipWith_cons_cons, List.sum_cons, ih (Nat.le_of_succ_le_succ h), List.length_cons,
        Finset.sum_range_succ', add_comm, mul_comm a]
      rfl

theorem rowHolds_iff_defect {n : Nat} {labels : List String} {row : List (Complex Rat)}
    (hlabels : n ≤ labels.length) (hrow : row.length = n + 1) :
    RowHolds labels row v ↔ defect n (columnValues labels v) (cell row) = 0 := by
  have hlen : row.dropLast.length = n := by simp [hrow]
  rw [RowHolds, sum_zipWith_eq (hlen.trans_le hlabels), hlen, getLastD_eq_cell hrow, defect_apply,
    sub_eq_zero]
  refine Eq.congr_left (Finset.sum_congr rfl fun c hc => ?_)
  rw [cell_dropLast hrow (Finset.mem_range.mp hc)]

/-- The values `x` of the columns satisfy all rows. -/
def Solves (n : Nat) (rows : Rows Rat) (x : Nat → Complex Rat) : Prop :=
  ∀ row ∈ rows, defect n x (cell row) = 0

/-- **The rows are satisfied if the row space is in the kernel of the defect**, so it does not
matter by which rows the space is spanned. -/
theorem solves_congr {n : Nat} {rows rows' : Rows Rat} {x : Nat → Complex Rat}
    (h : rowSpace rows = rowSpace rows') : Solves n rows x ↔ Solves n rows' x := by
  have hker : ∀ rows, Solves n rows x ↔ rowSpace rows ≤ LinearMap.ker (defect n x) := fun rows => by
    rw [rowSpace_le_iff]
    exact forall₂_congr fun _ _ => LinearMap.mem_ker.symm
  rw [hker, hker, h]

theorem forall_rowHolds_iff {n : Nat} {labels : List String} {rows : Rows Rat}
    (hlabels : n ≤ labels.length) (hw : HasWidth (n + 1) rows) :
    (∀ row ∈ rows, RowHolds labels row v) ↔ Solves n rows (columnValues labels v) :=
  forall₂_congr fun row hrow => rowHolds_iff_defect hlabels (hw row hrow)

/-! ### Solving a system -/

theorem nodup_eraseDups (l : List String) : l.eraseDups.Nodup := by
  induction hn : l.length using Nat.strong_induction_on generalizing l with
  | _ n ih =>
    cases l with
    | nil => exact List.nodup_nil
    | cons x l =>
      rw [List.eraseDups_cons, List.nodup_cons]
      have hlen : (l.filter fun y => !y == x).length < n :=
        hn ▸ Nat.lt_succ_of_le (List.length_filter_le _ l)
      refine ⟨fun hmem => ?_, ih _ hlen _ rfl⟩
      rw [List.mem_eraseDups, List.mem_filter] at hmem
      simp at hmem

namespace LinearSystem
variable {s : LinearSystem Rat}

theorem nodup_unknowns (s : LinearSystem Rat) : s.unknowns.Nodup := nodup_eraseDups _

theorem unknowns_subset {e : Equation Rat} (he : e ∈ s.equations) : e.unknowns ⊆ s.unknowns :=
  fun _ hx => List.mem_eraseDups.mpr (List.mem_flatMap.mpr ⟨e, he, hx⟩)

/-- The rows of the augmented matrix. -/
def augmentedRows (s : LinearSystem Rat) : Rows Rat := s.equations.map (rowOf s.unknowns)

theorem hasWidth_augmentedRows (s : LinearSystem Rat) :
    HasWidth (s.unknowns.length + 1) s.augmentedRows :=
  List.forall_mem_map.mpr fun e _ => by simp [rowOf]

/-- A system is satisfied if the rows of its augmented matrix are. -/
theorem satisfies_iff (s : LinearSystem Rat) (v : String → Complex Rat) :
    s.Satisfies v ↔ Solves s.unknowns.length s.augmentedRows (columnValues s.labels v) := by
  rw [← forall_rowHolds_iff (by simp [labels]) s.hasWidth_augmentedRows, augmentedRows,
    List.forall_mem_map]
  exact forall₂_congr fun e he =>
    (rowHolds_rowOf s.nodup_unknowns (unknowns_subset he) rhsLabel).symm

theorem augmentedMatrix_eq_ok (hs : s.equations ≠ []) :
    s.augmentedMatrix = .ok { rows := s.augmentedRows, labels := some s.labels } := by
  have hwidth := s.hasWidth_augmentedRows
  let m : ComplexMatrix Rat := { rows := s.augmentedRows }
  have hcols : m.columnCount = s.unknowns.length + 1 :=
    columnCount_eq (by simpa [m, rowCount, augmentedRows, List.length_pos_iff] using hs) hwidth
  refine bind_eq_ok.mpr ⟨m, ofRows_eq_ok.mpr ⟨?_, ?_, rfl⟩, withLabels_eq_ok.mpr ⟨?_, rfl⟩⟩
  · exact fun row hrow => ⟨fun _ _ => rfl, (hwidth row hrow).trans hcols.symm⟩
  · exact List.ne_nil_of_length_eq_add_one hcols
  · rw [hcols, labels, List.length_append, List.length_singleton]

/-- **Solving reduces the rows of the augmented matrix**, and there is always a result. -/
theorem exists_solve (hs : s.equations ≠ []) :
    ∃ m : ComplexMatrix Rat, s.solve = .ok ⟨m, s.labels⟩ ∧ m.labels = some s.labels ∧
      m.shape = (s.equations.length, s.labels.length) ∧
      HasWidth (s.unknowns.length + 1) m.rows ∧ IsReduced m.rows ∧
      rowSpace m.rows = rowSpace s.augmentedRows := by
  have haugmented := augmentedMatrix_eq_ok hs
  obtain ⟨m₀, hrows, hlabels⟩ := bind_eq_ok.mp haugmented
  have hwf := (wellFormed_of_ofRows hrows).withLabels hlabels
  obtain ⟨m, hm⟩ := exists_reducedRowEchelon { rows := s.augmentedRows, labels := some s.labels }
  obtain ⟨hm', hshape, hmlabels⟩ := hwf.reducedRowEchelon hm
  obtain ⟨hreduced, hspace⟩ := isReduced_of_reducedRowEchelon hwf hm
  have hsolve : s.solve = .ok ⟨m, m.labels.getD []⟩ :=
    bind_eq_ok.mpr ⟨_, haugmented, bind_eq_ok.mpr ⟨m, hm, rfl⟩⟩
  rw [hmlabels] at hsolve
  have hcols : m.columnCount = s.labels.length := (hm'.length_labels _ hmlabels).symm
  refine ⟨m, hsolve, hmlabels, ?_, ?_, hreduced, hspace⟩
  · rw [shape, hcols]
    exact congrArg (·, _) ((Prod.mk.inj hshape).1.trans (List.length_map _))
  · have hlen : s.labels.length = s.unknowns.length + 1 := by simp [labels]
    exact hlen ▸ hcols ▸ hm'.length_row

/-- **Solving keeps the solutions**: an assignment satisfies the equations of a system if and only
if it satisfies all rows of the reduced matrix, read through their labels. -/
theorem solve_keeps_solutions (s : LinearSystem Rat) (hs : s.equations ≠ []) :
    ∃ r, s.solve = .ok r ∧ r.labels = s.labels ∧ r.matrix.labels = some s.labels ∧
      r.matrix.shape = (s.equations.length, s.labels.length) ∧
      ∀ v, s.Satisfies v ↔ ∀ row ∈ r.matrix.rows, RowHolds r.labels row v := by
  obtain ⟨m, hsolve, hlabels, hshape, hw, -, hspace⟩ := exists_solve hs
  refine ⟨_, hsolve, rfl, hlabels, hshape, fun v => ?_⟩
  rw [satisfies_iff, ← solves_congr hspace, forall_rowHolds_iff (by simp [labels]) hw]

/-- Two equations in two unknowns, one of which the second equation does not mention. -/
theorem solve_keeps_solutions_of_two_equations :
    let s : LinearSystem Rat :=
      ⟨[((Equation.empty ⟨3, 0⟩).set "x" ⟨1, 0⟩).set "y" ⟨2, 0⟩,
        (Equation.empty ⟨1, 0⟩).set "y" ⟨1, 0⟩]⟩
    s.equations ≠ [] ∧ ∃ r, s.solve = .ok r ∧ r.labels = ["x", "y", "rhs"] ∧
      r.matrix.rows = [[1, 0, ⟨1, 0⟩], [0, 1, ⟨1, 0⟩]] ∧
      ∀ v, s.Satisfies v ↔ ∀ row ∈ r.matrix.rows, RowHolds r.labels row v := by
  intro s
  have hs : s.equations ≠ [] := List.cons_ne_nil _ _
  obtain ⟨r, hr, hlabels, -, -, hsolutions⟩ := solve_keeps_solutions s hs
  have hrows : s.solve.toOption.map (·.matrix.rows) =
      some [[1, 0, ⟨1, 0⟩], [0, 1, ⟨1, 0⟩]] := by decide +kernel
  rw [hr] at hrows
  exact ⟨hs, r, hr, hlabels, Option.some.inj hrows, hsolutions⟩

end LinearSystem
end LinearEquations
