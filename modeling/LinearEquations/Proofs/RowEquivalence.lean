import LinearEquations.Proofs.ReducedForm
import LinearEquations.Proofs.RowOperation

/-! # The reduced form is unique

Rows in reduced echelon form are determined by the space that they span.  The reason is
`recombination`: a vector of the row space is the sum of the rows, each taken as often as the vector
has in the leading column of the row.  So a vector that vanishes in all leading columns is zero, the
leading columns are the columns in which some vector of the space is first different from zero, and
the rows are those vectors of the space that have a one in one leading column and zeros in all
others.

The list of the rows that are not zero is thus the same for all matrices with the same row space
(`nonzeroRows_eq_of_rowSpace_eq`), whatever pivots the elimination takes in each of them. -/

namespace LinearEquations.LabelledMatrix

/-- The rows that are not zero. -/
def nonzeroRows {R : Type} [Scalar R] (rows : Rows R) : Rows R :=
  rows.filter (!·.all Complex.isZero)

variable {n c : Nat} {row : List (Complex Rat)} {rows other : Rows Rat}
variable {v : Nat → Complex Rat}

/-! ### Vectors of the row space -/

/-- The sum of the rows, each times what the vector has in its leading column. -/
def recombination : Rows Rat → (Nat → Complex Rat) →ₗ[Complex Rat] (Nat → Complex Rat)
  | [] => 0
  | row :: rest =>
    (match leading? row with
      | some c => (LinearMap.proj c).smulRight (cell row)
      | none => 0) + recombination rest

theorem recombination_cons_of_some (hc : leading? row = some c) (v : Nat → Complex Rat) :
    recombination (row :: rows) v = v c • cell row + recombination rows v := by
  rw [recombination, hc]
  rfl

theorem recombination_cons_of_none (hc : leading? row = none) (v : Nat → Complex Rat) :
    recombination (row :: rows) v = recombination rows v := by
  rw [recombination, hc]
  exact zero_add _

/-- A column in which no row contributes. -/
theorem recombination_apply_eq_zero
    (h : ∀ row ∈ rows, ∀ d, leading? row = some d → v d * cell row c = 0) :
    recombination rows v c = 0 := by
  induction rows with
  | nil => rfl
  | cons row rest ih =>
    obtain ⟨hrow, hrest⟩ := List.forall_mem_cons.mp h
    cases hd : leading? row with
    | none => rw [recombination_cons_of_none hd, ih hrest]
    | some d =>
      rw [recombination_cons_of_some hd, Pi.add_apply, ih hrest, add_zero]
      exact hrow d hd

/-- A vector that vanishes in all leading columns. -/
theorem recombination_eq_zero (h : ∀ row ∈ rows, ∀ d, leading? row = some d → v d = 0) :
    recombination rows v = 0 := by
  funext c
  refine recombination_apply_eq_zero fun row hrow d hd => ?_
  rw [h row hrow d hd, zero_mul]

theorem recombination_of_mem (h : IsReduced rows) (hrow : row ∈ rows) :
    recombination rows (cell row) = cell row := by
  obtain ⟨⟨-, hone⟩, hcleared⟩ := h
  induction rows with
  | nil => cases hrow
  | cons first rest ih =>
    obtain ⟨hfirst, hrest⟩ := List.pairwise_cons.mp hcleared
    obtain ⟨hone, hone'⟩ := List.forall_mem_cons.mp hone
    rcases List.mem_cons.mp hrow with rfl | hmem
    · -- the others have their leading columns where this row is zero
      have hzero : recombination rest (cell row) = 0 :=
        recombination_eq_zero fun r hr d hd => cell_of_clears (hfirst r hr).2 hd
      cases hc : leading? row with
      | none => rw [recombination_cons_of_none hc, hzero, leading?_eq_none_iff.mp hc]
      | some c =>
        rw [recombination_cons_of_some hc, hzero, cell_of_leadsWithOne hone hc, one_smul, add_zero]
    · have hrec := ih hmem hrest hone'
      cases hc : leading? first with
      | none => rw [recombination_cons_of_none hc, hrec]
      | some c =>
        rw [recombination_cons_of_some hc, hrec, cell_of_clears (hfirst row hmem).1 hc, zero_smul,
          zero_add]

/-- **A vector of the row space is recombined from its values in the leading columns.** -/
theorem recombination_of_mem_rowSpace (h : IsReduced rows) (hv : v ∈ rowSpace rows) :
    recombination rows v = v := by
  let identity : (Nat → Complex Rat) →ₗ[Complex Rat] (Nat → Complex Rat) := LinearMap.id
  have heq : Set.EqOn (recombination rows) identity (cell '' {row | row ∈ rows}) := by
    rintro _ ⟨row, hrow, rfl⟩
    exact recombination_of_mem h hrow
  exact LinearMap.eqOn_span heq hv

theorem eq_zero_of_mem_rowSpace (h : IsReduced rows) (hv : v ∈ rowSpace rows)
    (hzero : ∀ row ∈ rows, ∀ d, leading? row = some d → v d = 0) : v = 0 :=
  (recombination_of_mem_rowSpace h hv).symm.trans (recombination_eq_zero hzero)

/-- The column in which a vector of the row space is first different from zero is a leading
column. -/
theorem exists_leading?_of_mem_rowSpace (h : IsReduced rows) (hv : v ∈ rowSpace rows)
    (hc : v c ≠ 0) (hbefore : ∀ b < c, v b = 0) : ∃ row ∈ rows, leading? row = some c := by
  by_contra hnone
  refine hc ?_
  rw [← recombination_of_mem_rowSpace h hv]
  refine recombination_apply_eq_zero fun row hrow d hd => ?_
  rcases Nat.lt_trichotomy d c with hlt | rfl | hgt
  · rw [hbefore d hlt, zero_mul]
  · exact absurd ⟨row, hrow, hd⟩ hnone
  · rw [(leading?_eq_some_iff.mp hd).2 c hgt, mul_zero]

/-! ### Rows are determined by the row space -/

/-- A row is zero in the leading columns of the others. -/
theorem IsReduced.cell_eq_zero (h : IsReduced rows) {r s : List (Complex Rat)} (hr : r ∈ rows)
    (hs : s ∈ rows) {d : Nat} (hc : leading? r = some c) (hd : leading? s = some d)
    (hne : d ≠ c) : cell r d = 0 := by
  have hrs : s ≠ r := by
    rintro rfl
    rw [hc] at hd
    exact hne (Option.some.inj hd).symm
  have hsymm : Std.Symm fun upper lower : List (Complex Rat) =>
      Clears upper lower ∧ Clears lower upper := ⟨fun _ _ hab => hab.symm⟩
  exact cell_of_clears (h.cleared.forall hs hr hrs).1 hd

/-- Reduced rows of the same space with the same leading column are equal. -/
theorem IsReduced.cell_eq (h : IsReduced rows) (h' : IsReduced other)
    (hspace : rowSpace rows = rowSpace other) {r s : List (Complex Rat)} (hr : r ∈ rows)
    (hs : s ∈ other) (hrc : leading? r = some c) (hsc : leading? s = some c) :
    cell r = cell s := by
  -- the difference is in the row space and vanishes in every leading column
  have hmem : cell r - cell s ∈ rowSpace rows :=
    Submodule.sub_mem _ (cell_mem_rowSpace hr) (hspace ▸ cell_mem_rowSpace hs)
  refine sub_eq_zero.mp (eq_zero_of_mem_rowSpace h hmem fun t ht d hd => ?_)
  rw [Pi.sub_apply]
  by_cases hne : d = c
  · subst hne
    rw [cell_of_leadsWithOne (h.leadsWithOne r hr) hrc,
      cell_of_leadsWithOne (h'.leadsWithOne s hs) hsc, sub_self]
  · -- a leading column of one of the lists is a leading column of the other
    obtain ⟨hcell, hbefore⟩ := leading?_eq_some_iff.mp hd
    obtain ⟨t', ht', hd'⟩ :=
      exists_leading?_of_mem_rowSpace h' (hspace ▸ cell_mem_rowSpace ht) hcell hbefore
    rw [h.cell_eq_zero hr ht hrc hd hne, h'.cell_eq_zero hs ht' hsc hd' hne, sub_self]

theorem mem_nonzeroRows : row ∈ nonzeroRows rows ↔ row ∈ rows ∧ ∃ c, leading? row = some c := by
  rw [nonzeroRows, List.mem_filter, ← Option.isSome_iff_exists, leading?, List.findIdx?_isSome,
    List.any_eq_not_all_not]
  simp only [Bool.not_not]

theorem mem_of_mem_nonzeroRows (h : IsReduced rows) (h' : IsReduced other)
    (hw : HasWidth n rows) (hw' : HasWidth n other) (hspace : rowSpace rows = rowSpace other)
    (hrow : row ∈ nonzeroRows rows) : row ∈ nonzeroRows other := by
  obtain ⟨hrow, c, hc⟩ := mem_nonzeroRows.mp hrow
  obtain ⟨hcell, hbefore⟩ := leading?_eq_some_iff.mp hc
  obtain ⟨s, hs, hsc⟩ :=
    exists_leading?_of_mem_rowSpace h' (hspace ▸ cell_mem_rowSpace hrow) hcell hbefore
  obtain rfl : row = s :=
    eq_of_cell_eq ((hw row hrow).trans (hw' s hs).symm) (h.cell_eq h' hspace hrow hs hc hsc)
  exact mem_nonzeroRows.mpr ⟨hs, c, hc⟩

/-! ### The order of the rows -/

/-- The row `upper` leads to the left of the row `lower`. -/
def LeadsBefore (upper lower : List (Complex Rat)) : Prop :=
  ∃ b c, leading? upper = some b ∧ leading? lower = some c ∧ b < c

theorem LeadsBefore.asymm {upper lower : List (Complex Rat)} (h : LeadsBefore upper lower) :
    ¬ LeadsBefore lower upper := by
  rintro ⟨c', b', hc', hb', hlt'⟩
  obtain ⟨b, c, hb, hc, hlt⟩ := h
  rw [hb] at hb'
  rw [hc] at hc'
  cases hb'
  cases hc'
  exact Nat.lt_asymm hlt hlt'

theorem pairwise_nonzeroRows (h : IsEchelon rows) : (nonzeroRows rows).Pairwise LeadsBefore := by
  refine (h.staircase.sublist List.filter_sublist).imp_of_mem fun _ hlower hprec => ?_
  obtain ⟨-, c, hc⟩ := mem_nonzeroRows.mp hlower
  obtain ⟨b, hb, hlt⟩ := hprec c hc
  exact ⟨b, c, hb, hc, hlt⟩

theorem LeadsBefore.ne {upper lower : List (Complex Rat)} (h : LeadsBefore upper lower) :
    upper ≠ lower := by
  rintro rfl
  exact h.asymm h

theorem nodup_nonzeroRows (h : IsEchelon rows) : (nonzeroRows rows).Nodup :=
  (pairwise_nonzeroRows h).imp LeadsBefore.ne

/-- **Reduced rows are determined by their row space**, up to rows of zeros. -/
theorem nonzeroRows_eq_of_rowSpace_eq (h : IsReduced rows) (h' : IsReduced other)
    (hw : HasWidth n rows) (hw' : HasWidth n other) (hspace : rowSpace rows = rowSpace other) :
    nonzeroRows rows = nonzeroRows other := by
  have hperm : (nonzeroRows rows).Perm (nonzeroRows other) := by
    refine (List.perm_ext_iff_of_nodup (nodup_nonzeroRows h.toIsEchelon)
      (nodup_nonzeroRows h'.toIsEchelon)).mpr fun row => ⟨fun hrow => ?_, fun hrow => ?_⟩
    · exact mem_of_mem_nonzeroRows h h' hw hw' hspace hrow
    · exact mem_of_mem_nonzeroRows h' h hw' hw hspace.symm hrow
  exact hperm.eq_of_pairwise (fun _ _ _ _ hab hba => absurd hba hab.asymm)
    (pairwise_nonzeroRows h.toIsEchelon) (pairwise_nonzeroRows h'.toIsEchelon)

/-- Rows in echelon form are those that are not zero, followed by rows of zeros. -/
theorem eq_nonzeroRows_append (h : IsEchelon rows) (hw : HasWidth n rows) :
    rows = nonzeroRows rows ++
      List.replicate (rows.length - (nonzeroRows rows).length) (List.replicate n 0) := by
  induction rows with
  | nil => rfl
  | cons row rest ih =>
    obtain ⟨hprec, hstair⟩ := List.pairwise_cons.mp h.staircase
    obtain ⟨-, hone⟩ := List.forall_mem_cons.mp h.leadsWithOne
    cases hrow : leading? row with
    | none =>
      -- no row after a row of zeros leads anywhere
      have hzeros : ∀ r ∈ row :: rest, leading? r = none := List.forall_mem_cons.mpr
        ⟨hrow, fun r hr => leading?_eq_none_of_precedes (hprec r hr) hrow⟩
      have hnil : nonzeroRows (row :: rest) = [] := by
        refine List.eq_nil_iff_forall_not_mem.mpr fun r hr => ?_
        obtain ⟨hmem, c, hc⟩ := mem_nonzeroRows.mp hr
        rw [hzeros r hmem] at hc
        cases hc
      rw [hnil, List.nil_append, List.length_nil, Nat.sub_zero]
      refine List.eq_replicate_iff.mpr ⟨rfl, fun r hr => ?_⟩
      refine eq_of_cell_eq ((hw r hr).trans List.length_replicate.symm) ?_
      rw [leading?_eq_none_iff.mp (hzeros r hr), cell_replicate_zero]
    | some c =>
      have hcons : nonzeroRows (row :: rest) = row :: nonzeroRows rest := by
        refine List.filter_cons_of_pos ?_
        exact (List.mem_filter.mp (mem_nonzeroRows.mpr ⟨List.mem_singleton_self row, c, hrow⟩)).2
      rw [hcons, List.length_cons, List.length_cons, Nat.add_sub_add_right, List.cons_append,
        ← ih ⟨hstair, hone⟩ (List.forall_mem_cons.mp hw).2]

/-- Two lists of as many rows in echelon form are equal if their rows other than zero are. -/
theorem eq_of_nonzeroRows_eq (h : IsEchelon rows) (h' : IsEchelon other)
    (hw : HasWidth n rows) (hw' : HasWidth n other) (hlen : rows.length = other.length)
    (heq : nonzeroRows rows = nonzeroRows other) : rows = other := by
  rw [eq_nonzeroRows_append h hw, heq, hlen, ← eq_nonzeroRows_append h' hw']

/-! ### Reductions of different matrices -/

/-- Reducing two matrices gives the same rows, up to rows of zeros. -/
def SameReduction (m m' : ComplexMatrix Rat) : Prop :=
  ∃ r r', m.reducedRowEchelon = .ok r ∧ m'.reducedRowEchelon = .ok r' ∧
    nonzeroRows r.rows = nonzeroRows r'.rows

variable {m m' r : ComplexMatrix Rat}

theorem hasWidth_of_reducedRowEchelon (hm : m.WellFormed) (h : m.reducedRowEchelon = .ok r) :
    HasWidth m.columnCount r.rows ∧ r.rows.length = m.rows.length := by
  obtain ⟨hr, hshape, -⟩ := hm.reducedRowEchelon h
  obtain ⟨hlen, hcols⟩ := Prod.mk.inj hshape
  exact ⟨hcols ▸ hr.length_row, hlen⟩

theorem sameReduction_of_rowSpace_eq (hm : m.WellFormed) (hm' : m'.WellFormed)
    (hcols : m.columnCount = m'.columnCount) (hspace : rowSpace m.rows = rowSpace m'.rows) :
    SameReduction m m' := by
  obtain ⟨r, hr⟩ := exists_reducedRowEchelon m
  obtain ⟨r', hr'⟩ := exists_reducedRowEchelon m'
  obtain ⟨hreduced, hrspace⟩ := isReduced_of_reducedRowEchelon hm hr
  obtain ⟨hreduced', hrspace'⟩ := isReduced_of_reducedRowEchelon hm' hr'
  refine ⟨r, r', hr, hr', nonzeroRows_eq_of_rowSpace_eq hreduced hreduced'
    (hasWidth_of_reducedRowEchelon hm hr).1 ?_ (hrspace.trans (hspace.trans hrspace'.symm))⟩
  exact hcols ▸ (hasWidth_of_reducedRowEchelon hm' hr').1

/-- Matrices with a row in common have as many columns. -/
theorem columnCount_eq_of_mem (hm : m.WellFormed) (hm' : m'.WellFormed) (h : row ∈ m.rows)
    (h' : row ∈ m'.rows) : m.columnCount = m'.columnCount :=
  (hm.length_row row h).symm.trans (hm'.length_row row h')

theorem columnCount_eq_of_subset (hm : m.WellFormed) (hm' : m'.WellFormed)
    (h : m.rows ⊆ m'.rows) : m.columnCount = m'.columnCount := by
  obtain ⟨row, hrow⟩ := List.exists_mem_of_length_pos hm.rowCount_pos
  exact columnCount_eq_of_mem hm hm' hrow (h hrow)

/-- **The reduced form is the only reduced one of its shape in the row space.** -/
theorem rows_eq_of_isReduced (hm : m.WellFormed) (h : m.reducedRowEchelon = .ok r)
    (hreduced : IsReduced rows) (hlen : rows.length = m.rows.length)
    (hw : HasWidth m.columnCount rows) (hspace : rowSpace rows = rowSpace m.rows) :
    r.rows = rows := by
  obtain ⟨hreduced', hspace'⟩ := isReduced_of_reducedRowEchelon hm h
  obtain ⟨hw', hlen'⟩ := hasWidth_of_reducedRowEchelon hm h
  exact eq_of_nonzeroRows_eq hreduced'.toIsEchelon hreduced.toIsEchelon hw' hw
    (hlen'.trans hlen.symm)
    (nonzeroRows_eq_of_rowSpace_eq hreduced' hreduced hw' hw (hspace'.trans hspace.symm))

/-- **Rows that are reduced already stay as they are.** -/
theorem rows_of_reducedRowEchelon (hm : m.WellFormed) (hreduced : IsReduced m.rows)
    (h : m.reducedRowEchelon = .ok r) : r.rows = m.rows :=
  rows_eq_of_isReduced hm h hreduced rfl hm.length_row rfl

theorem isReduced_of_allZero {rows : Rows Rat} (h : allZero rows) : IsReduced rows := by
  have hzeros := allZero_iff.mp h
  have hechelon := isEchelon_of_leading?_eq_none hzeros
  cases rows with
  | nil => exact ⟨hechelon, List.Pairwise.nil⟩
  | cons row rest =>
    have hpartly : IsPartlyReduced [] (row :: rest) := ⟨hechelon, List.Pairwise.nil⟩
    exact hpartly.of_zero (hzeros row (List.mem_cons_self ..))

/-- Reducing a reduced matrix gives this very matrix, with what it remembers. -/
theorem reducedRowEchelon_of_reducedRowEchelon (hm : m.WellFormed)
    (h : m.reducedRowEchelon = .ok r) : r.reducedRowEchelon = .ok r := by
  obtain ⟨hr, -, -⟩ := hm.reducedRowEchelon h
  obtain ⟨r', hr'⟩ := exists_reducedRowEchelon r
  obtain ⟨-, -, -, -, hrem⟩ := reducedRowEchelon_eq_ok hm h
  obtain ⟨-, -, -, hlabels', hrem'⟩ := reducedRowEchelon_eq_ok hr hr'
  have hrows := rows_of_reducedRowEchelon hr (isReduced_of_reducedRowEchelon hm h).1 hr'
  -- a determinant is remembered only where the first reduction changed nothing, nor does the second
  have hline : m.isZeroLine → r.isZeroLine := fun hline => by
    have hzero : allZero m.rows := (Bool.and_eq_true_iff.mp hline).2
    have hsame := rows_of_reducedRowEchelon hm (isReduced_of_allZero hzero) h
    rw [isZeroLine, rowCount, columnCount, hsame]
    exact hline
  have hrem'' : r'.remembered = r.remembered := by
    rw [hrem']
    split
    · rfl
    · rename_i hnot
      rw [hrem, if_neg fun hm => hnot (hline hm)]
  rw [hr', LabelledMatrix.ext hrows hlabels' hrem'']

/-- **The reduction of a matrix depends on its row space alone.**  So it does not depend on the
order of the rows, on scaling a row, on adding a multiple of a row to another or on repeating a row,
and reducing what is reduced changes nothing. -/
theorem sameReduction_and_idempotent (m : ComplexMatrix Rat) (hm : m.WellFormed) :
    (∀ m', m'.WellFormed → m.columnCount = m'.columnCount →
      rowSpace m.rows = rowSpace m'.rows → SameReduction m m') ∧
    (∀ m', m'.WellFormed → m.rows.Perm m'.rows → SameReduction m m') ∧
    (∀ m' row k, k.value ≠ 0 → m.scaleRow row k = .ok m' → SameReduction m m') ∧
    (∀ m' destination source k, m.addMultiple destination source k = .ok m' →
      SameReduction m m') ∧
    (∀ m', m'.WellFormed → ∀ row ∈ m.rows, (row :: m.rows).Perm m'.rows → SameReduction m m') ∧
    (∀ r, m.reducedRowEchelon = .ok r → r.reducedRowEchelon = .ok r) ∧
    (IsReduced m.rows →
      ∃ r, m.reducedRowEchelon = .ok r ∧ r.rows = m.rows ∧ r.labels = m.labels) := by
  refine ⟨fun m' hm' => sameReduction_of_rowSpace_eq hm hm', ?_, ?_, ?_, ?_,
    fun r => reducedRowEchelon_of_reducedRowEchelon hm, ?_⟩
  · intro m' hm' hperm
    exact sameReduction_of_rowSpace_eq hm hm' (columnCount_eq_of_subset hm hm' hperm.subset)
      (rowSpace_eq_of_perm hperm)
  · intro m' row k hk h
    obtain ⟨hm', hshape⟩ := hm.scaleRow h
    exact sameReduction_of_rowSpace_eq hm hm' (Prod.mk.inj hshape).2.symm
      (rowSpace_of_scaleRow hk h).symm
  · intro m' destination source k h
    obtain ⟨hm', hshape⟩ := hm.addMultiple h
    exact sameReduction_of_rowSpace_eq hm hm' (Prod.mk.inj hshape).2.symm
      (rowSpace_of_addMultiple hm h).symm
  · intro m' hm' row hrow hperm
    have hsubset : m.rows ⊆ m'.rows := fun r hr => hperm.subset (List.mem_cons_of_mem _ hr)
    refine sameReduction_of_rowSpace_eq hm hm' (columnCount_eq_of_subset hm hm' hsubset) ?_
    rw [← rowSpace_eq_of_perm hperm, rowSpace_cons_of_mem (cell_mem_rowSpace hrow)]
  · intro hreduced
    obtain ⟨r, hr⟩ := exists_reducedRowEchelon m
    exact ⟨r, hr, rows_of_reducedRowEchelon hm hreduced hr, (hm.reducedRowEchelon hr).2.2⟩

/-- Two rows: with a row of zeros, exchanged, one of them scaled, added to the other and repeated,
and their reduced form. -/
theorem sameReduction_of_two_rows :
    let a : List (Complex Rat) := [⟨2, 0⟩, ⟨4, 0⟩]
    let b : List (Complex Rat) := [⟨1, 0⟩, ⟨3, 0⟩]
    let m : ComplexMatrix Rat := { rows := [a, b] }
    let e : ComplexMatrix Rat := { rows := [[1, 0], [0, 1]] }
    m.WellFormed ∧ e.WellFormed ∧
      SameReduction m { rows := [[0, 0], a, b] } ∧ SameReduction m { rows := [b, a] } ∧
      SameReduction m { rows := [[⟨0, 2⟩, ⟨0, 4⟩], b] } ∧
      SameReduction m { rows := [a, [⟨7, 0⟩, ⟨15, 0⟩]] } ∧ SameReduction m { rows := [a, b, a] } ∧
      (∃ r, m.reducedRowEchelon = .ok r ∧ r.reducedRowEchelon = .ok r) ∧
      ∃ r, e.reducedRowEchelon = .ok r ∧ r.rows = e.rows := by
  intro a b m e
  have hm : m.WellFormed := by decide
  have he : e.WellFormed := by decide
  obtain ⟨hspace, hperm, hscale, hadd, hrepeat, hidempotent, -⟩ :=
    sameReduction_and_idempotent m hm
  obtain ⟨-, -, -, -, -, -, hreduced⟩ := sameReduction_and_idempotent e he
  have hzero : cell [0, 0] = 0 := cell_replicate_zero 2
  refine ⟨hm, he, hspace _ (by decide) rfl (rowSpace_cons_of_mem ?_).symm,
    hperm _ (by decide) (.swap ..),
    hscale _ 0 (.complex ⟨0, 1⟩) (by decide) (by with_unfolding_all rfl),
    hadd _ 1 0 (.real 3) (by with_unfolding_all rfl),
    hrepeat _ (by decide) a (List.mem_cons_self ..) (.cons _ (.swap ..)), ?_, ?_⟩
  · exact hzero ▸ Submodule.zero_mem _
  · obtain ⟨r, -, hr, -⟩ := hperm m hm (.refl _)
    exact ⟨r, hr, hidempotent r hr⟩
  · obtain ⟨r, hr, hrows, -⟩ := hreduced (by decide +kernel)
    exact ⟨r, hr, hrows⟩

end LinearEquations.LabelledMatrix
