import LinearEquations.Proofs.RowEquivalence
import LinearEquations.Proofs.SolutionSet

/-! # Solutions of reduced rows

Reduced rows with the right hand sides in column `n` have a solution unless one of them leads in
that column, where it says that zero is one (`exists_solves_iff`).  `backSubstitute` makes a
solution of any values: it keeps those of the columns in which no row leads and subtracts from every
other one by how much the row that leads there fails.  Rows above and below are zero in that column,
so they do not notice.

As the values of free columns are arbitrary, there is no free column if there is only one solution
(`exists_leading?_of_unique`).  Each row then gives the value of one column. -/

namespace LinearEquations
open LabelledMatrix
variable {n c : Nat} {row : List (Complex Rat)} {rows : Rows Rat} {x y : Nat → Complex Rat}

/-! ### Back substitution -/

theorem defect_congr (h : ∀ c < n, x c = y c) (a : Nat → Complex Rat) :
    defect n x a = defect n y a := by
  rw [defect_apply, defect_apply]
  congr 1
  exact Finset.sum_congr rfl fun c hc => by rw [h c (Finset.mem_range.mp hc)]

/-- The values `y`, with those of the leading columns changed so that the rows hold. -/
def backSubstitute (n : Nat) (rows : Rows Rat) (y : Nat → Complex Rat) (c : Nat) : Complex Rat :=
  match rows.find? (leading? · = some c) with
  | some row => y c - defect n y (cell row)
  | none => y c

theorem backSubstitute_of_free (h : ∀ row ∈ rows, leading? row ≠ some c) :
    backSubstitute n rows y c = y c := by
  have hnone : rows.find? (leading? · = some c) = none := by simpa using h
  rw [backSubstitute, hnone]

theorem backSubstitute_of_leading (h : IsReduced rows) (hrow : row ∈ rows)
    (hc : leading? row = some c) :
    backSubstitute n rows y c = y c - defect n y (cell row) := by
  cases hfind : rows.find? (leading? · = some c) with
  | none => exact absurd hc (by simpa using List.find?_eq_none.mp hfind row hrow)
  | some other =>
    have hother : leading? other = some c := by simpa using List.find?_some hfind
    rw [backSubstitute, hfind]
    show y c - defect n y (cell other) = _
    rw [h.cell_eq h rfl (List.mem_of_find?_eq_some hfind) hrow hother hc]

theorem lt_of_leading? (hrow : row.length = n + 1) (hc : leading? row = some c)
    (hn : leading? row ≠ some n) : c < n := by
  have hle : c < n + 1 := hrow ▸ lt_length_of_leading? hc
  have hne : c ≠ n := fun heq => hn (heq ▸ hc)
  omega

/-- In the sum over a row only the term of its leading column changes: the other columns are free,
or the row is zero there. -/
theorem backSubstitute_mul_cell (h : IsReduced rows) (hrow : row ∈ rows)
    (hc : leading? row = some c) (b : Nat) :
    backSubstitute n rows y b * cell row b =
      y b * cell row b - if b = c then defect n y (cell row) else 0 := by
  by_cases hb : b = c
  · subst hb
    rw [if_pos rfl, backSubstitute_of_leading h hrow hc,
      cell_of_leadsWithOne (h.leadsWithOne row hrow) hc, mul_one, mul_one]
  · rw [if_neg hb, sub_zero]
    by_cases hfree : ∀ other ∈ rows, leading? other ≠ some b
    · rw [backSubstitute_of_free hfree]
    · push Not at hfree
      obtain ⟨other, hother, hlead⟩ := hfree
      rw [h.cell_eq_zero hrow hother hc hlead hb, mul_zero, mul_zero]

/-- **Back substitution solves the rows**, if none of them leads in the last column. -/
theorem solves_backSubstitute (h : IsReduced rows) (hw : HasWidth (n + 1) rows)
    (hconsistent : ∀ row ∈ rows, leading? row ≠ some n) (y : Nat → Complex Rat) :
    Solves n rows (backSubstitute n rows y) := by
  intro row hrow
  cases hc : leading? row with
  | none => rw [leading?_eq_none_iff.mp hc, map_zero]
  | some c =>
    have hlt : c < n := lt_of_leading? (hw row hrow) hc (hconsistent row hrow)
    have hsum : ∑ b ∈ Finset.range n, backSubstitute n rows y b * cell row b =
        (∑ b ∈ Finset.range n, y b * cell row b) - defect n y (cell row) := by
      rw [Finset.sum_congr rfl fun b _ => backSubstitute_mul_cell h hrow hc b,
        Finset.sum_sub_distrib, Finset.sum_ite_eq', if_pos (Finset.mem_range.mpr hlt)]
    rw [defect_apply, hsum, defect_apply]
    ring

/-- A row that leads in the last column says that zero is one. -/
theorem leading?_ne_of_solves (h : IsReduced rows) (hx : Solves n rows x) (hrow : row ∈ rows) :
    leading? row ≠ some n := by
  intro hn
  have hzero : ∑ c ∈ Finset.range n, x c * cell row c = 0 := by
    refine Finset.sum_eq_zero fun c hc => ?_
    rw [(leading?_eq_some_iff.mp hn).2 c (Finset.mem_range.mp hc), mul_zero]
  have hdefect := hx row hrow
  rw [defect_apply, hzero, cell_of_leadsWithOne (h.leadsWithOne row hrow) hn, zero_sub,
    neg_eq_zero] at hdefect
  exact one_ne_zero hdefect

/-- **Reduced rows have a solution if and only if no row leads in the last column.** -/
theorem exists_solves_iff (h : IsReduced rows) (hw : HasWidth (n + 1) rows) :
    (∃ x, Solves n rows x) ↔ ∀ row ∈ rows, leading? row ≠ some n := by
  constructor
  · rintro ⟨x, hx⟩ row hrow
    exact leading?_ne_of_solves h hx hrow
  · intro hconsistent
    exact ⟨_, solves_backSubstitute h hw hconsistent 0⟩

/-! ### A single solution -/

/-- **If there is only one solution, some row leads in every column.** -/
theorem exists_leading?_of_unique (h : IsReduced rows) (hw : HasWidth (n + 1) rows)
    (hx : Solves n rows x) (hunique : ∀ y, Solves n rows y → ∀ c < n, y c = x c) (hc : c < n) :
    ∃ row ∈ rows, leading? row = some c := by
  by_contra hnone
  have hfree : ∀ row ∈ rows, leading? row ≠ some c := fun row hrow hlead =>
    hnone ⟨row, hrow, hlead⟩
  have hsolves := solves_backSubstitute h hw fun row hrow => leading?_ne_of_solves h hx hrow
  -- two solutions that differ in the free column
  have hvalue : ∀ y : Nat → Complex Rat, y c = x c := fun y => by
    rw [← hunique _ (hsolves y) c hc, backSubstitute_of_free hfree]
  exact zero_ne_one ((hvalue fun _ => 0).trans (hvalue fun _ => 1).symm)

/-- The cells of a row when some row leads in every column. -/
theorem cell_of_leading? (h : IsReduced rows)
    (hall : ∀ c < n, ∃ row ∈ rows, leading? row = some c) (hrow : row ∈ rows)
    (hc : leading? row = some c) {b : Nat} (hb : b < n) :
    cell row b = if b = c then 1 else 0 := by
  by_cases hbc : b = c
  · subst hbc
    rw [if_pos rfl, cell_of_leadsWithOne (h.leadsWithOne row hrow) hc]
  · obtain ⟨other, hother, hlead⟩ := hall b hb
    rw [if_neg hbc, h.cell_eq_zero hrow hother hc hlead hbc]

/-- Each row then has the value of its leading column on the right. -/
theorem cell_eq_value (h : IsReduced rows) (hx : Solves n rows x)
    (hall : ∀ c < n, ∃ row ∈ rows, leading? row = some c) (hrow : row ∈ rows)
    (hc : leading? row = some c) (hlt : c < n) : cell row n = x c := by
  have hdefect := hx row hrow
  have hsum : ∑ b ∈ Finset.range n, x b * cell row b = x c := by
    rw [Finset.sum_eq_single_of_mem c (Finset.mem_range.mpr hlt)]
    · rw [cell_of_leading? h hall hrow hc hlt, if_pos rfl, mul_one]
    · intro b hb hbc
      rw [cell_of_leading? h hall hrow hc (Finset.mem_range.mp hb), if_neg hbc, mul_zero]
  rw [defect_apply, hsum] at hdefect
  exact (sub_eq_zero.mp hdefect).symm

/-- The rows lead in all columns one after another. -/
theorem filterMap_leading?_eq_range (h : IsEchelon rows)
    (hlt : ∀ row ∈ rows, ∀ c, leading? row = some c → c < n)
    (hall : ∀ c < n, ∃ row ∈ rows, leading? row = some c) :
    rows.filterMap leading? = List.range n := by
  have hsorted : (rows.filterMap leading?).Pairwise (· < ·) := by
    refine List.pairwise_filterMap.mpr (h.staircase.imp ?_)
    intro upper lower hprec b hb c hc
    exact hprec.lt hb hc
  have hperm : (rows.filterMap leading?).Perm (List.range n) := by
    refine (List.perm_ext_iff_of_nodup (hsorted.imp Nat.ne_of_lt) List.nodup_range).mpr fun c => ?_
    rw [List.mem_filterMap, List.mem_range]
    constructor
    · rintro ⟨row, hrow, hc⟩
      exact hlt row hrow c hc
    · exact hall c
  exact hperm.eq_of_pairwise (fun _ _ _ _ hab hba => absurd hba (Nat.lt_asymm hab)) hsorted
    List.pairwise_lt_range

end LinearEquations
