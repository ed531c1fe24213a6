import LinearEquations.Proofs.ReducedDoubles
import LinearEquations.Proofs.ScaledPivot

/-! # Staircases of doubles

The rows of an echelon form are meant to be a staircase: the leading column moves to the right from
row to row, and what stands underneath an empty row is empty.  Clearing upward relies on it, for it
ends at the first empty row.

Elimination visits its pivots in columns that increase (`PivotRun`), and the row of a pivot is zero
to the left of it.  So the rows are a staircase unless a pivot is lost when its row is scaled, and a
pivot is lost exactly if its squared modulus is an infinity (`StartsAt`, `PivotRun.staged`).  Then
the reciprocal is zero and the row becomes empty, but the rows underneath keep what they have in
other columns.  A pivot of `1e200` is enough for that.

Rows of finite cells can therefore tell which pivots were lost: they are a staircase exactly if there
are none but at the end (`Staged.pairwise_precedes_iff`). -/

namespace LinearEquations.LabelledMatrix

/-! ### Pivots -/

/-- The cell that a row is scaled by, before it is scaled. -/
structure Pivot (R : Type) where
  column : Nat
  value : Complex R

/-- The same pivot, with another column in front. -/
def Pivot.next {R : Type} (p : Pivot R) : Pivot R := { p with column := p.column + 1 }

section AnyArithmetic
variable {R : Type} [Scalar R]

/-- How `echelonRows` comes to a result, with the pivots from the top to the bottom.  A single column
is not scaled but replaced, as if its pivot were a one. -/
inductive PivotRun : Nat → Rows R → Rows R → List (Pivot R) → Prop where
  | zeroRow {n : Nat} {row : List (Complex R)} (h : leading? row = none) :
      PivotRun (n + 1) [row] [row] []
  | singleRow {n c : Nat} {row : List (Complex R)} {k : Complex R} (hc : leading? row = some c)
      (hk : finiteReciprocal (cell row c) = .ok k) :
      PivotRun (n + 1) [row] [scaledRow k row] [⟨c, cell row c⟩]
  | zeroColumn {rows : Rows R} (h : allZero rows) : PivotRun 1 rows rows []
  | singleColumn {rows : Rows R} (h : ¬ allZero rows) :
      PivotRun 1 rows (echelonColumn rows) [⟨0, 1⟩]
  | emptyColumn {n : Nat} {rows rest : Rows R} {ps : List (Pivot R)}
      (hzero : ∀ row ∈ rows, (row.headD 0).isZero)
      (h : PivotRun (n + 1) (rows.map List.tail) rest ps) :
      PivotRun (n + 2) rows (rest.map (0 :: ·)) (ps.map Pivot.next)
  | pivot {n i : Nat} {first : List (Complex R)} {rows below cleared rest : Rows R} {k : Complex R}
      {ps : List (Pivot R)}
      (hi : rows.findIdx? (fun row => !(row.headD 0).isZero) = some i)
      (hfirst : pivotFirst i rows = first :: below)
      (hk : finiteReciprocal (first.headD 0) = .ok k)
      (hcleared : below.mapM (clearedRow 0 (scaledRow k first)) = .ok cleared)
      (h : PivotRun (n + 1) (cleared.map List.tail) rest ps) :
      PivotRun (n + 2) rows (scaledRow k first :: rest.map (0 :: ·))
        (⟨0, first.headD 0⟩ :: ps.map Pivot.next)

/-- Every run has pivots. -/
theorem EchelonRun.exists_pivotRun {n : Nat} {rows out : Rows R} (h : EchelonRun n rows out)
    (hn : 0 < n) : ∃ ps, PivotRun n rows out ps := by
  induction h with
  | noColumn => exact absurd hn (Nat.lt_irrefl 0)
  | @singleRow n row out h =>
    cases hc : leading? row with
    | none =>
      rw [echelonRow_eq_ok_of_zero (leading?_eq_none_iff_isZero.mp hc)] at h
      cases h
      exact ⟨_, .zeroRow hc⟩
    | some c =>
      rw [echelonRow_of_leading? hc] at h
      obtain ⟨k, hk, h⟩ := bind_eq_ok.mp h
      cases h
      exact ⟨_, .singleRow hc hk⟩
  | @singleColumn rows =>
    by_cases hzero : allZero rows
    · rw [echelonColumn, if_pos hzero]
      exact ⟨_, .zeroColumn hzero⟩
    · exact ⟨_, .singleColumn hzero⟩
  | emptyColumn hzero _ ih =>
    obtain ⟨ps, hps⟩ := ih (Nat.succ_pos _)
    exact ⟨_, .emptyColumn hzero hps⟩
  | pivot hi hfirst hk hcleared _ ih =>
    obtain ⟨ps, hps⟩ := ih (Nat.succ_pos _)
    exact ⟨_, .pivot hi hfirst hk hcleared hps⟩

end AnyArithmetic

/-! ### Rows that start at a pivot -/

variable {row other : List (Complex Float)} {rows out : Rows Float} {p : Pivot Float}
variable {ps : List (Pivot Float)} {k : Complex Float} {b c n : Nat}

/-- The squared modulus of the pivot is an infinity. -/
def Pivot.IsLost (p : Pivot Float) : Prop := ¬ Scalar.isFinite p.value.normSq

instance (p : Pivot Float) : Decidable p.IsLost :=
  inferInstanceAs (Decidable (¬ Scalar.isFinite p.value.normSq = true))

/-- The row is zero to the left of the pivot, and also in its column if the pivot is lost, and only
then.  A row of finite numbers whose pivot is lost is empty. -/
structure StartsAt (row : List (Complex Float)) (p : Pivot Float) : Prop where
  isZero_left : ∀ b < p.column, (cell row b).isZero
  isZero_pivot_iff : (cell row p.column).isZero ↔ p.IsLost
  empty : p.IsLost → (∀ x ∈ row, x.isFinite) → leading? row = none

theorem isZero_zero : (0 : Complex Float).isZero := by decide +kernel

/-- The leading column by the cells. -/
theorem leading?_eq_some_iff_isZero :
    leading? row = some c ↔ ¬ (cell row c).isZero ∧ ∀ b < c, (cell row b).isZero := by
  rw [leading?, List.findIdx?_eq_some_iff_getElem]
  constructor
  · rintro ⟨hc, hpivot, hleft⟩
    refine ⟨by simpa [cell, hc] using hpivot, fun b hb => ?_⟩
    simpa [cell, hb.trans hc] using hleft b hb
  · rintro ⟨hpivot, hleft⟩
    have hc : c < row.length := by
      by_contra hle
      refine hpivot ?_
      rw [cell, List.getD_eq_default _ _ (Nat.le_of_not_lt hle)]
      exact isZero_zero
    refine ⟨hc, by simpa [cell, hc] using hpivot, fun b hb => ?_⟩
    simpa [cell, hb.trans hc] using hleft b hb

theorem StartsAt.leading?_eq (h : StartsAt row p) (hp : ¬ p.IsLost) :
    leading? row = some p.column :=
  leading?_eq_some_iff_isZero.mpr ⟨mt h.isZero_pivot_iff.mp hp, h.isZero_left⟩

theorem StartsAt.le_of_leading? (h : StartsAt row p) (hc : leading? row = some c) :
    p.column ≤ c := by
  by_contra hlt
  exact (leading?_eq_some_iff_isZero.mp hc).1 (h.isZero_left c (Nat.lt_of_not_le hlt))

theorem StartsAt.cons_zero (h : StartsAt row p) : StartsAt (0 :: row) p.next where
  isZero_left b hb := by
    cases b with
    | zero => exact isZero_zero
    | succ b => exact h.isZero_left b (Nat.lt_of_succ_lt_succ hb)
  isZero_pivot_iff := h.isZero_pivot_iff
  empty hlost hfinite := by
    have hrow := h.empty hlost fun x hx => hfinite x (List.mem_cons_of_mem 0 hx)
    rw [leading?_cons_of_isZero isZero_zero, hrow]
    rfl

theorem cell_scaledRow_of_lt (hc : c < row.length) : cell (scaledRow k row) c = cell row c * k := by
  simp [cell, scaledRow, hc]

/-- **The row of a pivot, scaled by its reciprocal.** -/
theorem startsAt_scaledRow (hc : leading? row = some c)
    (hk : finiteReciprocal (cell row c) = .ok k) : StartsAt (scaledRow k row) ⟨c, cell row c⟩ where
  isZero_left b hb := by
    rw [cell_scaledRow_of_lt (hb.trans (lt_length_of_leading? hc))]
    exact Complex.isZero_zero_mul ((leading?_eq_some_iff_isZero.mp hc).2 b hb)
      (isFinite_of_finiteReciprocal hk)
  isZero_pivot_iff := by
    rw [cell_scaledRow_of_lt (lt_length_of_leading? hc)]
    exact isZero_scaled_pivot_iff hk
  empty hlost hfinite := by
    have hzero := isZero_of_finiteReciprocal hk hlost
    refine leading?_eq_none_iff_isZero.mpr (List.forall_mem_map.mpr fun x hx => ?_)
    have hx : (x * k).isFinite := hfinite _ (List.mem_map_of_mem hx)
    exact Complex.isZero_mul_zero (Complex.isFinite_of_isFinite_mul hx).1 hzero

/-! ### Staged rows -/

/-- There is a row for each pivot, from the top to the bottom and from the left to the right, and the
rows underneath are empty. -/
inductive Staged : Rows Float → List (Pivot Float) → Prop where
  | empty {rows : Rows Float} (h : ∀ row ∈ rows, leading? row = none) : Staged rows []
  | cons {row : List (Complex Float)} {rows : Rows Float} {p : Pivot Float}
      {ps : List (Pivot Float)} (hrow : StartsAt row p) (hlt : ∀ q ∈ ps, p.column < q.column)
      (h : Staged rows ps) : Staged (row :: rows) (p :: ps)

theorem Staged.map_cons_zero (h : Staged rows ps) :
    Staged (rows.map (0 :: ·)) (ps.map Pivot.next) := by
  induction h with
  | empty h =>
    refine .empty (List.forall_mem_map.mpr fun row hrow => ?_)
    rw [leading?_cons_of_isZero isZero_zero, h row hrow]
    rfl
  | cons hrow hlt _ ih =>
    exact .cons hrow.cons_zero
      (List.forall_mem_map.mpr fun q hq => Nat.succ_lt_succ (hlt q hq)) ih

/-- **Every result is staged.** -/
theorem PivotRun.staged (h : PivotRun n rows out ps) : Staged out ps := by
  induction h with
  | zeroRow h => exact .empty (List.forall_mem_singleton.mpr h)
  | singleRow hc hk => exact .cons (startsAt_scaledRow hc hk) nofun (.empty nofun)
  | zeroColumn h => exact .empty (allZero_iff.mp h)
  | singleColumn h =>
    obtain ⟨j, hj⟩ := echelonColumn_eq_cons (Bool.eq_false_iff.mpr h)
    rw [hj]
    refine .cons ⟨nofun, ?_, ?_⟩ nofun (.empty fun row hrow => ?_)
    · decide +kernel
    · exact fun hlost => absurd hlost (by decide +kernel)
    · rw [List.eq_of_mem_replicate hrow]
      decide +kernel
  | emptyColumn _ _ ih => exact ih.map_cons_zero
  | @pivot n i first rows below cleared rest k ps hi hfirst hk _ _ ih =>
    have hpivot := (pivotFirst_spec hi hfirst).1
    rw [headD_eq_cell] at hk hpivot ⊢
    have hlead : leading? first = some 0 :=
      leading?_eq_some_iff_isZero.mpr ⟨Bool.eq_false_iff.mp hpivot, nofun⟩
    exact .cons (startsAt_scaledRow hlead hk)
      (List.forall_mem_map.mpr fun q _ => Nat.succ_pos q.column) ih.map_cons_zero

/-- All leading columns are at pivots or to the right of one. -/
theorem Staged.lt_of_leading? (h : Staged rows ps) (hb : ∀ q ∈ ps, b < q.column)
    (hrow : row ∈ rows) (hc : leading? row = some c) : b < c := by
  induction h with
  | empty h => cases hc.symm.trans (h row hrow)
  | cons hstart _ _ ih =>
    obtain ⟨hp, hps⟩ := List.forall_mem_cons.mp hb
    rcases List.mem_cons.mp hrow with rfl | hrow
    · exact hp.trans_le (hstart.le_of_leading? hc)
    · exact ih hps hrow

/-- **Rows whose pivots are not lost are a staircase.** -/
theorem Staged.pairwise_precedes (h : Staged rows ps) (hp : ∀ p ∈ ps, ¬ p.IsLost) :
    rows.Pairwise Precedes := by
  induction h with
  | empty h =>
    refine List.pairwise_of_forall_mem_list fun upper _ lower hlower c hc => ?_
    cases hc.symm.trans (h lower hlower)
  | cons hrow hlt h ih =>
    obtain ⟨hfirst, hrest⟩ := List.forall_mem_cons.mp hp
    refine List.pairwise_cons.mpr ⟨fun other hother c hc => ?_, ih hrest⟩
    exact ⟨_, hrow.leading?_eq hfirst, h.lt_of_leading? hlt hother hc⟩

/-- A pivot that is not lost is in the leading column of a row. -/
theorem Staged.exists_row (h : Staged rows ps) (hp : p ∈ ps) (hkept : ¬ p.IsLost) :
    ∃ row ∈ rows, leading? row = some p.column := by
  induction h with
  | empty => cases hp
  | cons hrow _ _ ih =>
    rcases List.mem_cons.mp hp with rfl | hp
    · exact ⟨_, List.mem_cons_self, hrow.leading?_eq hkept⟩
    · obtain ⟨row, hmem, hlead⟩ := ih hp
      exact ⟨row, List.mem_cons_of_mem _ hmem, hlead⟩

/-- A row of finite numbers that is not empty has a pivot that is not lost. -/
theorem Staged.exists_pivot (h : Staged rows ps) (hrow : row ∈ rows)
    (hfinite : ∀ x ∈ row, x.isFinite) (hc : leading? row = some c) : ∃ p ∈ ps, ¬ p.IsLost := by
  induction h with
  | empty h => cases hc.symm.trans (h row hrow)
  | @cons first rows p ps hstart _ _ ih =>
    rcases List.mem_cons.mp hrow with rfl | hrow
    · refine ⟨p, List.mem_cons_self, fun hlost => ?_⟩
      cases hc.symm.trans (hstart.empty hlost hfinite)
    · obtain ⟨q, hq, hkept⟩ := ih hrow
      exact ⟨q, List.mem_cons_of_mem p hq, hkept⟩

/-- **Which rows of finite numbers are a staircase**: those with no lost pivot above one that is not
lost. -/
theorem Staged.pairwise_precedes_iff (h : Staged rows ps) (hfinite : AllFinite rows) :
    rows.Pairwise Precedes ↔ ps.Pairwise fun p q => p.IsLost → q.IsLost := by
  induction h with
  | empty h =>
    refine iff_of_true (List.pairwise_of_forall_mem_list fun upper _ lower hlower c hc => ?_)
      List.Pairwise.nil
    cases hc.symm.trans (h lower hlower)
  | @cons row rows p ps hrow hlt h ih =>
    obtain ⟨hfirst, hrest⟩ := List.forall_mem_cons.mp hfinite
    rw [List.pairwise_cons, List.pairwise_cons, ih hrest]
    refine and_congr_left' ⟨fun hprecedes q hq hlost => ?_, fun hall other hother c hc => ?_⟩
    · by_contra hkept
      obtain ⟨other, hother, hlead⟩ := h.exists_row hq hkept
      obtain ⟨b, hb, -⟩ := hprecedes other hother _ hlead
      cases hb.symm.trans (hrow.empty hlost hfirst)
    · obtain ⟨q, hq, hkept⟩ := h.exists_pivot hother (hrest other hother) hc
      exact ⟨p.column, hrow.leading?_eq fun hlost => hkept (hall q hq hlost),
        h.lt_of_leading? hlt hother hc⟩

/-! ### Echelon forms -/

variable {m e : ComplexMatrix Float}

/-- **When the echelon form of doubles is a staircase.**  Whatever the numbers, its rows start at the
pivots of a run, whose columns increase.  If no pivot is lost, they are a staircase.  If all cells
are finite, they are a staircase exactly if no lost pivot stands above one that is not lost. -/
theorem rowEchelon_staircase (hm : m.WellFormed) (he : m.rowEchelon = .ok e) :
    (∃ ps, PivotRun m.columnCount m.rows e.rows ps) ∧
      ∀ ps, PivotRun m.columnCount m.rows e.rows ps →
        Staged e.rows ps ∧
        ((∀ p ∈ ps, ¬ p.IsLost) → e.rows.Pairwise Precedes) ∧
        (AllFinite e.rows →
          (e.rows.Pairwise Precedes ↔ ps.Pairwise fun p q => p.IsLost → q.IsLost)) := by
  obtain ⟨hrows, -, -⟩ := rowEchelon_eq_ok hm he
  refine ⟨(echelonRun_of_echelonRows hrows).exists_pivotRun hm.columnCount_pos, fun ps hps => ?_⟩
  exact ⟨hps.staged, hps.staged.pairwise_precedes, hps.staged.pairwise_precedes_iff⟩

/-- Two rows with a first pivot whose squared modulus is `5`. -/
theorem rowEchelon_staircase_of_two_rows :
    let m : ComplexMatrix Float := { rows := [[⟨1, 2⟩, ⟨0.1, 0⟩], [⟨3, 0⟩, ⟨1, -1⟩]] }
    m.WellFormed ∧ ∃ e ps, m.rowEchelon = .ok e ∧ PivotRun m.columnCount m.rows e.rows ps ∧
      Staged e.rows ps ∧ ((∀ p ∈ ps, ¬ p.IsLost) → e.rows.Pairwise Precedes) ∧
      (AllFinite e.rows →
        (e.rows.Pairwise Precedes ↔ ps.Pairwise fun p q => p.IsLost → q.IsLost)) := by
  intro m
  have hm : m.WellFormed := by decide
  obtain ⟨e, he⟩ : ∃ e, m.rowEchelon = .ok e := exists_eq_ok (by decide +kernel)
  obtain ⟨⟨ps, hps⟩, hall⟩ := rowEchelon_staircase hm he
  exact ⟨hm, e, ps, he, hps, hall ps hps⟩

/-- **A staircase may be missed.**  The pivot `1e200` has an infinite squared modulus, and the first
row becomes empty: the second row, which still has a leading cell, is underneath it, and clearing
upward does not get there. -/
theorem exists_rowEchelon_not_staircase :
    let m : ComplexMatrix Float := { rows := [[⟨1e200, 0⟩, ⟨1, 0⟩], [⟨1, 0⟩, ⟨1, 0⟩]] }
    m.WellFormed ∧ AllFinite m.rows ∧
      ∃ e r, m.rowEchelon = .ok e ∧ m.reducedRowEchelon = .ok r ∧ AllFinite e.rows ∧
        e.rows.map leading? = [none, some 1] ∧ r.rows.map leading? = [none, some 1] ∧
        ¬ e.rows.Pairwise Precedes := by
  intro m
  have hfinite : ∀ row ∈ m.rows, ∀ x ∈ row, x.isFinite := by decide +kernel
  obtain ⟨e, he⟩ : ∃ e, m.rowEchelon = .ok e := exists_eq_ok (by decide +kernel)
  obtain ⟨r, hr⟩ : ∃ r, m.reducedRowEchelon = .ok r := exists_eq_ok (by decide +kernel)
  have hechelon : m.rowEchelon.toOption.all fun e =>
      e.rows.all (·.all Complex.isFinite) && e.rows.map leading? == [none, some 1] &&
        !decide (e.rows.Pairwise Precedes) := by decide +kernel
  have hreduced : m.reducedRowEchelon.toOption.all fun r =>
      r.rows.map leading? == [none, some 1] := by decide +kernel
  rw [he] at hechelon
  rw [hr] at hreduced
  simp only [Except.toOption, Option.all_some, Bool.and_eq_true, List.all_eq_true, beq_iff_eq,
    Bool.not_eq_true', decide_eq_false_iff_not] at hechelon hreduced
  exact ⟨by decide, hfinite, e, r, he, hr, hechelon.1.1, hechelon.1.2, hreduced, hechelon.2⟩

end LinearEquations.LabelledMatrix
