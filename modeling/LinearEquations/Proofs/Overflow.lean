import LinearEquations.Proofs.SolveOutcome
import LinearEquations.Proofs.Staircase

/-! # Overflow in the reduction of doubles

The cells of an augmented matrix are finite, and so is every number that a row is multiplied by,
because it is checked.  The products and sums themselves are not checked.  An overflow is therefore
noticed if its place is in the column of a pivot that is still to come, where it becomes a factor;
everywhere else it stays, and a system is solved with infinities in its answer
(`solveTexts_not_finite`).

What overflowed does not become finite again (`Complex.isFinite_of_isFinite_mul`), so the reduced
matrix tells whether anything did (`solveTexts_isFinite`).  There are two exceptions, both where
numbers are thrown away.  The column below a pivot is not computed for its own sake: zeros are put
there, whatever came out (`clearingSteps` leaves it out).  And a single column that remains under all
pivots is replaced by a one over zeros.  This is the column of the right hand sides, and a one in it
is a row that contradicts the others. -/

namespace LinearEquations
namespace LabelledMatrix

/-! ### The steps of a reduction -/

/-- A row is multiplied by `factor`, and the result may be added to another row. -/
structure Step (R : Type) where
  factor : Complex R
  /-- The products and the sums. -/
  numbers : List (Complex R)

section AnyArithmetic
variable {R : Type} [Scalar R]

/-- A row is scaled. -/
def scalingStep (k : Complex R) (row : List (Complex R)) : Step R := ⟨k, scaledRow k row⟩

/-- The step that clears the cell of a row in a column, if it is not zero.  Numbers to the left of
the column `kept` are not counted. -/
def clearingSteps (column kept : Nat) (pivot row : List (Complex R)) : List (Step R) :=
  let entry := row.getD column 0
  if entry.isZero then []
  else
    let multiple := (scaledRow (-entry) pivot).drop kept
    [⟨-entry, multiple ++ addedRow (row.drop kept) multiple⟩]

/-- How `echelonRows` comes to a result, with the steps in their order.  In the column below a pivot
nothing is kept. -/
inductive EchelonSteps : Nat → Rows R → Rows R → List (Step R) → Prop where
  | zeroRow {n : Nat} {row : List (Complex R)} (h : leading? row = none) :
      EchelonSteps (n + 1) [row] [row] []
  | singleRow {n c : Nat} {row : List (Complex R)} {k : Complex R} (hc : leading? row = some c)
      (hk : finiteReciprocal (cell row c) = .ok k) :
      EchelonSteps (n + 1) [row] [scaledRow k row] [scalingStep k row]
  | zeroColumn {rows : Rows R} (h : allZero rows) : EchelonSteps 1 rows rows []
  | singleColumn {rows : Rows R} (h : ¬ allZero rows) : EchelonSteps 1 rows (echelonColumn rows) []
  | emptyColumn {n : Nat} {rows rest : Rows R} {steps : List (Step R)}
      (hzero : ∀ row ∈ rows, (row.headD 0).isZero)
      (h : EchelonSteps (n + 1) (rows.map List.tail) rest steps) :
      EchelonSteps (n + 2) rows (rest.map (0 :: ·)) steps
  | pivot {n i : Nat} {first : List (Complex R)} {rows below cleared rest : Rows R} {k : Complex R}
      {steps : List (Step R)}
      (hi : rows.findIdx? (fun row => !(row.headD 0).isZero) = some i)
      (hfirst : pivotFirst i rows = first :: below)
      (hk : finiteReciprocal (first.headD 0) = .ok k)
      (hcleared : below.mapM (clearedRow 0 (scaledRow k first)) = .ok cleared)
      (h : EchelonSteps (n + 1) (cleared.map List.tail) rest steps) :
      EchelonSteps (n + 2) rows (scaledRow k first :: rest.map (0 :: ·))
        (scalingStep k first :: below.flatMap (clearingSteps 0 1 (scaledRow k first)) ++ steps)

/-- How `clearUpward` comes to a result from the rows done and the rows that remain, with the steps
in their order. -/
inductive UpwardSteps : Rows R → Rows R → Rows R → List (Step R) → Prop where
  | done {rows : Rows R} : UpwardSteps rows [] rows []
  | zeroRow {done rest : Rows R} {row : List (Complex R)} (h : leading? row = none) :
      UpwardSteps done (row :: rest) (done ++ row :: rest) []
  | row {c : Nat} {done cleared rest out : Rows R} {row : List (Complex R)} {steps : List (Step R)}
      (hc : leading? row = some c) (hcleared : done.mapM (clearedRow c row) = .ok cleared)
      (h : UpwardSteps (cleared ++ [row]) rest out steps) :
      UpwardSteps done (row :: rest) out (done.flatMap (clearingSteps c 0 row) ++ steps)

/-- How rows with `n` columns are reduced: elimination, and then clearing upward. -/
inductive ReductionSteps (n : Nat) (rows out : Rows R) : List (Step R) → Prop where
  | intro {middle : Rows R} {down up : List (Step R)} (hdown : EchelonSteps n rows middle down)
      (hup : UpwardSteps [] middle out up) : ReductionSteps n rows out (down ++ up)

/-- The steps go with the pivots. -/
theorem PivotRun.exists_steps {n : Nat} {rows out : Rows R} {ps : List (Pivot R)}
    (h : PivotRun n rows out ps) : ∃ steps, EchelonSteps n rows out steps := by
  induction h with
  | zeroRow h => exact ⟨_, .zeroRow h⟩
  | singleRow hc hk => exact ⟨_, .singleRow hc hk⟩
  | zeroColumn h => exact ⟨_, .zeroColumn h⟩
  | singleColumn h => exact ⟨_, .singleColumn h⟩
  | emptyColumn hzero _ ih =>
    obtain ⟨steps, hsteps⟩ := ih
    exact ⟨_, .emptyColumn hzero hsteps⟩
  | pivot hi hfirst hk hcleared _ ih =>
    obtain ⟨steps, hsteps⟩ := ih
    exact ⟨_, .pivot hi hfirst hk hcleared hsteps⟩

/-- The steps are those of a run. -/
theorem EchelonSteps.echelonRun {n : Nat} {rows out : Rows R} {steps : List (Step R)}
    (h : EchelonSteps n rows out steps) : EchelonRun n rows out := by
  induction h with
  | zeroRow h => exact .singleRow (echelonRow_eq_ok_of_zero (leading?_eq_none_iff_isZero.mp h))
  | singleRow hc hk =>
    refine .singleRow ?_
    rw [echelonRow_of_leading? hc, hk]
    rfl
  | @zeroColumn rows h =>
    have hrun : EchelonRun 1 rows (echelonColumn rows) := .singleColumn
    rwa [echelonColumn, if_pos h] at hrun
  | singleColumn h => exact .singleColumn
  | emptyColumn hzero _ ih => exact .emptyColumn hzero ih
  | pivot hi hfirst hk hcleared _ ih => exact .pivot hi hfirst hk hcleared ih

theorem exists_upwardSteps {done remaining out : Rows R}
    (h : clearUpward done remaining = .ok out) : ∃ steps, UpwardSteps done remaining out steps := by
  induction remaining generalizing done with
  | nil =>
    cases h
    exact ⟨_, .done⟩
  | cons row rest ih =>
    unfold clearUpward at h
    split at h
    · rename_i hnone
      cases h
      exact ⟨_, .zeroRow hnone⟩
    · rename_i c hc
      obtain ⟨cleared, hcleared, h⟩ := bind_eq_ok.mp h
      obtain ⟨steps, hsteps⟩ := ih h
      exact ⟨_, .row hc hcleared hsteps⟩

/-- **Every reduction has its steps.** -/
theorem exists_reductionSteps {m r : ComplexMatrix R} (hm : m.WellFormed)
    (h : m.reducedRowEchelon = .ok r) :
    ∃ steps, ReductionSteps m.columnCount m.rows r.rows steps := by
  obtain ⟨middle, hechelon, hupward, -, -⟩ := reducedRowEchelon_eq_ok hm h
  obtain ⟨ps, hps⟩ := (echelonRun_of_echelonRows hechelon).exists_pivotRun hm.columnCount_pos
  obtain ⟨down, hdown⟩ := hps.exists_steps
  obtain ⟨up, hup⟩ := exists_upwardSteps hupward
  exact ⟨_, .intro hdown hup⟩

end AnyArithmetic

/-! ### Single rows -/

variable {row pivot out : List (Complex Float)} {rows done remaining : Rows Float}
variable {steps : List (Step Float)} {s : Step Float} {k : Complex Float} {n c j : Nat}

/-- No product and no sum of the step overflowed. -/
def Step.IsFinite (s : Step Float) : Prop := ∀ x ∈ s.numbers, x.isFinite

/-- All cells of a row are finite. -/
def FiniteRow (row : List (Complex Float)) : Prop := ∀ x ∈ row, x.isFinite

theorem finiteRow_of_scaledRow (h : FiniteRow (scaledRow k row)) : FiniteRow row := fun _ hx =>
  (Complex.isFinite_of_isFinite_mul (h _ (List.mem_map_of_mem hx))).1

/-- A finite sum of rows has finite terms. -/
theorem finiteRow_of_addedRow {other : List (Complex Float)} (hlen : row.length = other.length)
    (h : FiniteRow (addedRow row other)) : FiniteRow row ∧ FiniteRow other := by
  induction row generalizing other with
  | nil =>
    cases List.length_eq_zero_iff.mp hlen.symm
    exact ⟨List.forall_mem_nil _, List.forall_mem_nil _⟩
  | cons x row ih =>
    obtain ⟨y, rest, rfl⟩ := List.exists_cons_of_length_eq_add_one hlen.symm
    obtain ⟨hsum, hrest⟩ := List.forall_mem_cons.mp h
    obtain ⟨hx, hy⟩ := Complex.isFinite_of_isFinite_add hsum
    obtain ⟨hrow, hother⟩ := ih (Nat.succ.inj hlen) hrest
    exact ⟨List.forall_mem_cons.mpr ⟨hx, hrow⟩, List.forall_mem_cons.mpr ⟨hy, hother⟩⟩

/-- **Clearing a cell.**  The cell is finite and the step has a finite factor; and what is kept of
the row is finite exactly if it was finite before and nothing overflowed. -/
theorem clearedRow_spec (hlen : row.length = pivot.length)
    (h : clearedRow c pivot row = .ok out) (kept : Nat) :
    (row.getD c 0).isFinite ∧ (∀ s ∈ clearingSteps c kept pivot row, s.factor.isFinite) ∧
      (FiniteRow (out.drop kept) ↔
        FiniteRow (row.drop kept) ∧ ∀ s ∈ clearingSteps c kept pivot row, s.IsFinite) := by
  unfold clearedRow at h
  unfold clearingSteps
  dsimp only at h ⊢
  by_cases hzero : (row.getD c 0).isZero
  · rw [if_pos hzero] at h ⊢
    cases h
    exact ⟨Complex.isFinite_of_isZero hzero, List.forall_mem_nil _,
      (and_iff_left (List.forall_mem_nil _)).symm⟩
  · rw [if_neg hzero] at h ⊢
    obtain ⟨k, hk, h⟩ := bind_eq_ok.mp h
    unfold Operand.check at hk
    split at hk
    · rename_i hfinite
      cases hk
      cases h
      have hdrop : (addedRow row (scaledRow (-row.getD c 0) pivot)).drop kept =
          addedRow (row.drop kept) ((scaledRow (-row.getD c 0) pivot).drop kept) :=
        List.drop_zipWith
      have hkept : (row.drop kept).length =
          ((scaledRow (-row.getD c 0) pivot).drop kept).length := by
        rw [List.length_drop, List.length_drop, length_scaledRow, hlen]
      refine ⟨Complex.isFinite_of_isFinite_neg hfinite, List.forall_mem_singleton.mpr hfinite, ?_⟩
      change FiniteRow (List.drop kept (addedRow row (scaledRow (-row.getD c 0) pivot))) ↔ _
      rw [hdrop, List.forall_mem_singleton]
      constructor
      · intro hsum
        obtain ⟨hrow, hmultiple⟩ := finiteRow_of_addedRow hkept hsum
        exact ⟨hrow, List.forall_mem_append.mpr ⟨hmultiple, hsum⟩⟩
      · exact fun hnumbers => (List.forall_mem_append.mp hnumbers.2).2
    · cases hk

/-- The same for rows that are cleared one after another. -/
theorem mapM_clearedRow_spec {cleared : Rows Float} (hw : HasWidth pivot.length rows)
    (h : rows.mapM (clearedRow c pivot) = .ok cleared) (kept : Nat) :
    (∀ row ∈ rows, (row.getD c 0).isFinite) ∧
      (∀ s ∈ rows.flatMap (clearingSteps c kept pivot), s.factor.isFinite) ∧
      (AllFinite (cleared.map (List.drop kept)) ↔ AllFinite (rows.map (List.drop kept)) ∧
        ∀ s ∈ rows.flatMap (clearingSteps c kept pivot), s.IsFinite) := by
  induction mapM_eq_ok.mp h with
  | nil => exact ⟨List.forall_mem_nil _, List.forall_mem_nil _,
      (and_iff_left (List.forall_mem_nil _)).symm⟩
  | @cons row out rows cleared hrow hrows ih =>
    obtain ⟨hlen, hw⟩ := List.forall_mem_cons.mp hw
    obtain ⟨hentry, hfactor, hfinite⟩ := clearedRow_spec hlen hrow kept
    obtain ⟨hentries, hfactors, hall⟩ := ih hw (mapM_eq_ok.mpr hrows)
    refine ⟨List.forall_mem_cons.mpr ⟨hentry, hentries⟩, ?_, ?_⟩
    · rw [List.flatMap_cons]
      exact List.forall_mem_append.mpr ⟨hfactor, hfactors⟩
    · rw [List.flatMap_cons, List.forall_mem_append, List.map_cons, List.map_cons]
      unfold AllFinite at hall ⊢
      rw [List.forall_mem_cons, List.forall_mem_cons, hall]
      exact (and_congr_left' hfinite).trans and_and_and_comm

/-! ### Elimination -/

theorem allFinite_cons : AllFinite (row :: rows) ↔ FiniteRow row ∧ AllFinite rows :=
  List.forall_mem_cons

theorem allFinite_map_cons_zero : AllFinite (rows.map (0 :: ·)) ↔ AllFinite rows := by
  constructor
  · exact fun h row hrow => (List.forall_mem_cons.mp (h _ (List.mem_map_of_mem hrow))).2
  · exact fun h => List.forall_mem_map.mpr fun row hrow =>
      List.forall_mem_cons.mpr ⟨Complex.isFinite_zero, h row hrow⟩

/-- Rows are finite if their first cells and the others are. -/
theorem allFinite_of_map_tail (hhead : ∀ row ∈ rows, (row.headD 0).isFinite)
    (htail : AllFinite (rows.map List.tail)) : AllFinite rows := by
  intro row hrow
  have hrest := htail _ (List.mem_map_of_mem hrow)
  have hfirst := hhead row hrow
  cases row with
  | nil => exact List.forall_mem_nil _
  | cons x row => exact List.forall_mem_cons.mpr ⟨hfirst, hrest⟩

/-- **A pivot clears its column.**  The first cells of the rows are finite because they are checked,
so it is enough that the scaled pivot and what is kept of the other rows are finite. -/
theorem pivotRound_spec {i : Nat} {first : List (Complex Float)} {below cleared : Rows Float}
    (hw : HasWidth n rows) (hi : rows.findIdx? (fun row => !(row.headD 0).isZero) = some i)
    (hfirst : pivotFirst i rows = first :: below)
    (hcleared : below.mapM (clearedRow 0 (scaledRow k first)) = .ok cleared) :
    (∀ s ∈ below.flatMap (clearingSteps 0 1 (scaledRow k first)), s.factor.isFinite) ∧
      (AllFinite rows → (∀ s ∈ below.flatMap (clearingSteps 0 1 (scaledRow k first)), s.IsFinite) →
        AllFinite (cleared.map List.tail)) ∧
      (FiniteRow (scaledRow k first) → AllFinite (cleared.map List.tail) → AllFinite rows ∧
        ∀ s ∈ below.flatMap (clearingSteps 0 1 (scaledRow k first)), s.IsFinite) := by
  have hperm := (pivotFirst_spec hi hfirst).2
  obtain ⟨htop, hbelow, -⟩ := hasWidth_of_pivot hw hi hfirst hcleared
  have hrows : AllFinite rows ↔ FiniteRow first ∧ AllFinite below :=
    (forall_congr' fun row => imp_congr_left hperm.mem_iff.symm).trans allFinite_cons
  have htail : (List.drop 1 : List (Complex Float) → _) = List.tail := funext fun _ =>
    List.drop_one
  obtain ⟨hheads, hfactors, hiff⟩ := mapM_clearedRow_spec (htop ▸ hbelow) hcleared 1
  rw [htail] at hiff
  refine ⟨hfactors, fun hfinite hsteps => hiff.mpr ⟨(hrows.mp hfinite).2.map_tail, hsteps⟩,
    fun hpivot htails => ?_⟩
  obtain ⟨hbelow, hsteps⟩ := hiff.mp htails
  exact ⟨hrows.mpr ⟨finiteRow_of_scaledRow hpivot, allFinite_of_map_tail
    (fun row hrow => (List.headD_eq_getD ..) ▸ hheads row hrow) hbelow⟩, hsteps⟩

/-- A row leads in the column `c`, and there is nothing but zeros underneath. -/
def EndsAt (c : Nat) (rows : Rows Float) : Prop :=
  ∃ above row below, rows = above ++ row :: below ∧ leading? row = some c ∧ allZero below

theorem EndsAt.cons (h : EndsAt c rows) (row : List (Complex Float)) : EndsAt c (row :: rows) := by
  obtain ⟨above, last, below, rfl, hlast, hbelow⟩ := h
  exact ⟨row :: above, last, below, rfl, hlast, hbelow⟩

theorem EndsAt.map_cons_zero (h : EndsAt c rows) : EndsAt (c + 1) (rows.map (0 :: ·)) := by
  obtain ⟨above, last, below, rfl, hlast, hbelow⟩ := h
  refine ⟨above.map (0 :: ·), 0 :: last, below.map (0 :: ·), by simp, ?_, ?_⟩
  · rw [leading?_cons_of_isZero isZero_zero, hlast]
    rfl
  · simpa [allZero, isZero_zero] using hbelow

theorem endsAt_echelonColumn (h : ¬ allZero rows) : EndsAt 0 (echelonColumn rows) := by
  obtain ⟨m, hm⟩ := echelonColumn_eq_cons (Bool.not_eq_true _ ▸ h)
  refine ⟨[], [1], List.replicate m [0], hm, by decide +kernel, ?_⟩
  simp [allZero, isZero_zero]

/-- **Elimination and overflow.**  All factors are finite.  If nothing overflows the result is
finite; if the result is finite nothing overflowed, unless the last column was replaced. -/
theorem EchelonSteps.spec {out : Rows Float} (h : EchelonSteps n rows out steps)
    (hw : HasWidth n rows) :
    (∀ s ∈ steps, s.factor.isFinite) ∧
      (AllFinite rows → (∀ s ∈ steps, s.IsFinite) → AllFinite out) ∧
      (AllFinite out → EndsAt (n - 1) out ∨ (AllFinite rows ∧ ∀ s ∈ steps, s.IsFinite)) := by
  induction h with
  | zeroRow h =>
    exact ⟨List.forall_mem_nil _, fun h _ => h, fun h => .inr ⟨h, List.forall_mem_nil _⟩⟩
  | @singleRow n c row k hc hk =>
    refine ⟨List.forall_mem_singleton.mpr (isFinite_of_finiteReciprocal hk), fun _ h => ?_,
      fun h => .inr ?_⟩
    · exact List.forall_mem_singleton.mpr (List.forall_mem_singleton.mp h)
    · have hout := List.forall_mem_singleton.mp h
      exact ⟨List.forall_mem_singleton.mpr (finiteRow_of_scaledRow hout),
        List.forall_mem_singleton.mpr hout⟩
  | zeroColumn h =>
    exact ⟨List.forall_mem_nil _, fun h _ => h, fun h => .inr ⟨h, List.forall_mem_nil _⟩⟩
  | @singleColumn rows h =>
    refine ⟨List.forall_mem_nil _, fun _ _ => ?_, fun _ => .inl (endsAt_echelonColumn h)⟩
    obtain ⟨m, hm⟩ := echelonColumn_eq_cons (Bool.not_eq_true _ ▸ h)
    rw [hm]
    refine allFinite_cons.mpr
      ⟨List.forall_mem_singleton.mpr Complex.isFinite_one, fun row hrow => ?_⟩
    rw [List.eq_of_mem_replicate hrow]
    exact List.forall_mem_singleton.mpr Complex.isFinite_zero
  | @emptyColumn n rows rest steps hzero _ ih =>
    obtain ⟨hfactors, hforward, hback⟩ := ih hw.map_tail
    refine ⟨hfactors, fun hrows hsteps => ?_, fun hout => ?_⟩
    · exact allFinite_map_cons_zero.mpr (hforward hrows.map_tail hsteps)
    · rcases hback (allFinite_map_cons_zero.mp hout) with hends | ⟨hrows, hsteps⟩
      · exact .inl hends.map_cons_zero
      · exact .inr ⟨allFinite_of_map_tail
          (fun row hrow => Complex.isFinite_of_isZero (hzero row hrow)) hrows, hsteps⟩
  | @pivot n i first rows below cleared rest k steps hi hfirst hk hcleared _ ih =>
    obtain ⟨hfactors', hround, hroundback⟩ := pivotRound_spec hw hi hfirst hcleared
    obtain ⟨-, -, hwidth⟩ := hasWidth_of_pivot hw hi hfirst hcleared
    obtain ⟨hfactors, hforward, hback⟩ := ih hwidth.map_tail
    refine ⟨?_, fun hrows hsteps => ?_, fun hout => ?_⟩
    · exact List.forall_mem_cons.mpr ⟨isFinite_of_finiteReciprocal hk,
        List.forall_mem_append.mpr ⟨hfactors', hfactors⟩⟩
    · obtain ⟨htop, hsteps⟩ := List.forall_mem_cons.mp hsteps
      obtain ⟨hclearing, hsteps⟩ := List.forall_mem_append.mp hsteps
      have hrest := hforward (hround hrows hclearing) hsteps
      exact allFinite_cons.mpr ⟨htop, allFinite_map_cons_zero.mpr hrest⟩
    · obtain ⟨htop, hrest⟩ := allFinite_cons.mp hout
      rcases hback (allFinite_map_cons_zero.mp hrest) with hends | ⟨htails, hsteps⟩
      · exact .inl (hends.map_cons_zero.cons _)
      · obtain ⟨hrows, hclearing⟩ := hroundback htop htails
        exact .inr ⟨hrows,
          List.forall_mem_cons.mpr ⟨htop, List.forall_mem_append.mpr ⟨hclearing, hsteps⟩⟩⟩

/-! ### Clearing upward -/

/-- **Clearing upward and overflow.**  Nothing is thrown away here, so the result is finite exactly
if the rows were finite and nothing overflows. -/
theorem UpwardSteps.spec {out : Rows Float} (h : UpwardSteps done remaining out steps)
    (hd : HasWidth n done) (hr : HasWidth n remaining) :
    (∀ s ∈ steps, s.factor.isFinite) ∧
      (AllFinite out ↔ (AllFinite done ∧ AllFinite remaining) ∧ ∀ s ∈ steps, s.IsFinite) := by
  induction h with
  | done =>
    exact ⟨List.forall_mem_nil _, fun h => ⟨⟨h, List.forall_mem_nil _⟩, List.forall_mem_nil _⟩,
      fun h => h.1.1⟩
  | zeroRow h =>
    exact ⟨List.forall_mem_nil _, fun h => ⟨List.forall_mem_append.mp h, List.forall_mem_nil _⟩,
      fun h => List.forall_mem_append.mpr h.1⟩
  | @row c done cleared rest out row steps hc hcleared _ ih =>
    obtain ⟨hrow, hrest⟩ := List.forall_mem_cons.mp hr
    have hclearedw := hasWidth_of_mapM_clearedRow hrow hd hcleared
    obtain ⟨hfactors, hiff⟩ := ih
      (List.forall_mem_append.mpr ⟨hclearedw, List.forall_mem_singleton.mpr hrow⟩) hrest
    obtain ⟨-, hfactors', hclearing⟩ := mapM_clearedRow_spec (hrow ▸ hd) hcleared 0
    have hdrop : (List.drop 0 : List (Complex Float) → _) = id := rfl
    rw [hdrop, List.map_id, List.map_id] at hclearing
    have hsplit : AllFinite (cleared ++ [row]) ↔ AllFinite cleared ∧ FiniteRow row :=
      List.forall_mem_append.trans (and_congr_right' List.forall_mem_singleton)
    refine ⟨List.forall_mem_append.mpr ⟨hfactors', hfactors⟩, ?_⟩
    rw [hiff, hsplit, hclearing, allFinite_cons, List.forall_mem_append]
    simp only [and_assoc, and_left_comm]

/-- A row with nothing but zeros underneath is still there afterwards. -/
theorem UpwardSteps.exists_mem {out : Rows Float} (h : UpwardSteps done remaining out steps)
    (hends : EndsAt c remaining) : ∃ row ∈ out, leading? row = some c := by
  induction h with
  | done =>
    obtain ⟨above, last, below, hnil, -⟩ := hends
    simp at hnil
  | @zeroRow done rest row h =>
    obtain ⟨above, last, below, hrows, hlast, -⟩ := hends
    exact ⟨last, List.mem_append_right _ (hrows ▸ by simp), hlast⟩
  | @row c' done cleared rest out row steps hc hcleared hrest ih =>
    obtain ⟨above, last, below, hrows, hlast, hbelow⟩ := hends
    cases above with
    | cons first above =>
      cases hrows
      exact ih ⟨above, last, below, rfl, hlast, hbelow⟩
    | nil =>
      cases hrows
      refine ⟨row, ?_, hlast⟩
      -- what is left is empty, so that this is the last row that clears others
      cases hrest with
      | done => simp
      | zeroRow h => simp
      | row hc =>
        have hzero := List.all_eq_true.mp hbelow _ (List.mem_cons_self ..)
        cases hc.symm.trans (leading?_eq_none_iff_isZero.mpr (List.all_eq_true.mp hzero))

/-! ### Reductions -/

/-- What the steps of a reduction tell about its result: every factor is finite, and the result is
finite if nothing overflows; unless a row says that zero is something else, only then. -/
structure TellsOverflow (n : Nat) (out : Rows Float) (steps : List (Step Float)) : Prop where
  factor_isFinite : ∀ s ∈ steps, s.factor.isFinite
  allFinite : (∀ s ∈ steps, s.IsFinite) → AllFinite out
  isFinite_of_allFinite : (∀ row ∈ out, leading? row ≠ some (n - 1)) → AllFinite out →
    ∀ s ∈ steps, s.IsFinite

theorem ReductionSteps.tellsOverflow {out : Rows Float} (h : ReductionSteps n rows out steps)
    (hw : HasWidth n rows) (hfinite : AllFinite rows) : TellsOverflow n out steps := by
  obtain ⟨hdown, hup⟩ := h
  obtain ⟨hfactors, hforward, hback⟩ := hdown.spec hw
  obtain ⟨hfactors', hiff⟩ := hup.spec (List.forall_mem_nil _) (hdown.echelonRun.hasWidth hw)
  refine ⟨List.forall_mem_append.mpr ⟨hfactors, hfactors'⟩, fun hsteps => ?_,
    fun hlast hout => ?_⟩
  · obtain ⟨hdownsteps, hupsteps⟩ := List.forall_mem_append.mp hsteps
    exact hiff.mpr ⟨⟨List.forall_mem_nil _, hforward hfinite hdownsteps⟩, hupsteps⟩
  · obtain ⟨⟨-, hmiddle⟩, hupsteps⟩ := hiff.mp hout
    rcases hback hmiddle with hends | ⟨-, hdownsteps⟩
    · obtain ⟨row, hrow, hlead⟩ := hup.exists_mem hends
      exact absurd hlead (hlast row hrow)
    · exact List.forall_mem_append.mpr ⟨hdownsteps, hupsteps⟩

end LabelledMatrix

open LabelledMatrix

/-! ### Solving -/

/-- What solving reduces is a matrix of finite cells. -/
theorem exists_augmentedMatrix_of_solveTexts {texts : List String} {s : ReducedSystem Float}
    (h : solveTexts texts = .ok s) : ∃ equations a, AreRead texts equations ∧
      LinearSystem.augmentedMatrix ⟨equations⟩ = .ok a ∧ a.WellFormed ∧ AllFinite a.rows ∧
      a.reducedRowEchelon = .ok s.matrix := by
  rcases parseFrom_cases (R := Float) 0 texts with
    ⟨equations, -, hread⟩ | ⟨index, text, cause, hfirst, -⟩
  · rw [AreRead.solveTexts_eq hread, mapError_eq_ok] at h
    obtain ⟨a, ha, h⟩ := bind_eq_ok.mp h
    obtain ⟨matrix, hmatrix, h⟩ := bind_eq_ok.mp h
    cases h
    obtain ⟨unlabelled, hrows, hlabels⟩ := bind_eq_ok.mp ha
    have hwf := (wellFormed_of_ofRows hrows).withLabels hlabels
    obtain ⟨-, rfl⟩ := withLabels_eq_ok.mp hlabels
    obtain ⟨hfinite, -, rfl⟩ := ofRows_eq_ok.mp hrows
    exact ⟨equations, _, hread, ha, hwf, fun row hrow => (hfinite row hrow).1, hmatrix⟩
  · rw [solveTexts_of_isFirstFailure hfirst] at h
    cases h

/-- **When the answer is finite.**  A system that is solved was reduced by steps with finite
factors, from finite cells.  If no product or sum that is kept overflows, all cells of the reduced
matrix are finite; and if no row says that zero is something else, only then. -/
theorem solveTexts_isFinite {texts : List String} {s : ReducedSystem Float}
    (h : solveTexts texts = .ok s) :
    ∃ equations a, AreRead texts equations ∧ LinearSystem.augmentedMatrix ⟨equations⟩ = .ok a ∧
      AllFinite a.rows ∧ (∃ steps, ReductionSteps a.columnCount a.rows s.matrix.rows steps) ∧
      ∀ steps, ReductionSteps a.columnCount a.rows s.matrix.rows steps →
        TellsOverflow a.columnCount s.matrix.rows steps := by
  obtain ⟨equations, a, hread, ha, hwf, hfinite, hreduced⟩ := exists_augmentedMatrix_of_solveTexts h
  exact ⟨equations, a, hread, ha, hfinite, exists_reductionSteps hwf hreduced,
    fun steps hsteps => hsteps.tellsOverflow hwf.length_row hfinite⟩

/-- Two equations that are solved without an overflow. -/
theorem solveTexts_isFinite_of_two_texts :
    ∃ (s : ReducedSystem Float) (equations : List (Equation Float)) (a : ComplexMatrix Float),
      solveTexts ["x + 2y = 3", "x - y = 1"] = .ok s ∧
      LinearSystem.augmentedMatrix ⟨equations⟩ = .ok a ∧
      ∃ steps, ReductionSteps a.columnCount a.rows s.matrix.rows steps ∧
        TellsOverflow a.columnCount s.matrix.rows steps := by
  have hok : (solveTexts (R := Float) ["x + 2y = 3", "x - y = 1"]).toOption.isSome := by
    decide +kernel
  obtain ⟨s, hs⟩ := exists_eq_ok hok
  obtain ⟨equations, a, -, ha, -, ⟨steps, hsteps⟩, hall⟩ := solveTexts_isFinite hs
  exact ⟨s, equations, a, hs, ha, steps, hsteps, hall steps hsteps⟩

theorem start_append_ofList (s : String) (l : List Char) :
    Cursor.start (s ++ String.ofList l) = ⟨0, s.toList ++ l⟩ := by
  rw [Cursor.start, String.toList_append, String.toList_ofList]

/-- **An answer may be infinite.**  The reciprocal of `0.1` is finite, but not its product with the
right hand side `1e308`. -/
theorem solveTexts_not_finite :
    let text := "0.1x = 1" ++ String.ofList (List.replicate 308 '0')
    ∃ s : ReducedSystem Float, solveTexts [text] = .ok s ∧ ¬ AllFinite s.matrix.rows := by
  -- the characters are computed with, because those of the text itself would have to be decoded
  have hparse : ∀ text, Cursor.start text = ⟨0, "0.1x = 1".toList ++ List.replicate 308 '0'⟩ →
      (Equation.parse (R := Float) text).toOption.any fun e =>
        (LinearSystem.solve ⟨[e]⟩).toOption.any fun s =>
          !s.matrix.rows.all (·.all Complex.isFinite) := by
    intro text h
    rw [Equation.parse, h]
    decide +kernel
  intro text
  obtain ⟨e, he, hsolve⟩ := exists_ok_of_any (hparse text (start_append_ofList ..))
  obtain ⟨s, hs, hinfinite⟩ := exists_ok_of_any hsolve
  have hread : AreRead [text] [e] := .cons he .nil
  refine ⟨s, hread.solveTexts_eq.trans (mapError_eq_ok.mpr hs), fun hfinite => ?_⟩
  rw [List.all_eq_true.mpr fun row hrow => List.all_eq_true.mpr (hfinite row hrow)] at hinfinite
  cases hinfinite

end LinearEquations
