import Mathlib.Data.List.Forall2
import Mathlib.Data.List.Perm.Basic
import LinearEquations.LabelledMatrix.Echelon
import LinearEquations.Result

/-! # Runs of the elimination

`EchelonRun` has one constructor for each shape that the recursion of `echelonRows` takes, and holds
of every run that succeeds (`echelonRun_of_echelonRows`).  What is true of all results is then
proved by induction on `EchelonRun`, and nobody unfolds the recursion again.

Nothing here depends on the arithmetic.  The main statement is that reducing a matrix changes
neither its shape nor its labels (`WellFormed.reducedRowEchelon`). -/

namespace LinearEquations.LabelledMatrix

/-- Each row has `n` cells. -/
def HasWidth {K : Type} (n : Nat) (rows : List (List K)) : Prop := ∀ row ∈ rows, row.length = n

/-- A list of checked steps succeeds if each of them does. -/
theorem mapM_eq_ok {E A B : Type} {f : A → Except E B} {l : List A} {out : List B} :
    l.mapM f = .ok out ↔ List.Forall₂ (fun a b => f a = .ok b) l out := by
  induction l generalizing out with
  | nil => simp [pure, Except.pure, eq_comm]
  | cons a l ih =>
    rw [List.mapM_cons, bind_eq_ok, List.forall₂_cons_left_iff]
    constructor
    · rintro ⟨b, hb, h⟩
      obtain ⟨bs, hbs, h⟩ := bind_eq_ok.mp h
      cases h
      exact ⟨b, bs, hb, ih.mp hbs, rfl⟩
    · rintro ⟨b, bs, hb, hbs, rfl⟩
      exact ⟨b, hb, bind_eq_ok.mpr ⟨bs, ih.mpr hbs, rfl⟩⟩

theorem exists_mem_of_forall₂ {A B : Type} {r : A → B → Prop} {l : List A} {out : List B}
    (h : List.Forall₂ r l out) {b : B} (hb : b ∈ out) : ∃ a ∈ l, r a b := by
  induction h with
  | nil => cases hb
  | cons hab _ ih =>
    rcases List.mem_cons.mp hb with rfl | hb
    · exact ⟨_, List.mem_cons_self .., hab⟩
    · obtain ⟨a, ha, hr⟩ := ih hb
      exact ⟨a, List.mem_cons_of_mem _ ha, hr⟩

variable {R : Type} [Scalar R]

/-! ### Lengths of rows -/

@[simp] theorem length_scaledRow (k : Complex R) (row : List (Complex R)) :
    (scaledRow k row).length = row.length := List.length_map ..

theorem length_addedRow {row other : List (Complex R)} (h : row.length = other.length) :
    (addedRow row other).length = row.length := by
  simp [addedRow, h]

theorem length_of_clearedRow {column : Nat} {pivot row out : List (Complex R)}
    (hlen : row.length = pivot.length) (h : clearedRow column pivot row = .ok out) :
    out.length = row.length := by
  simp only [clearedRow] at h
  split at h
  · cases h
    rfl
  · obtain ⟨k, -, h⟩ := bind_eq_ok.mp h
    cases h
    exact length_addedRow (by simpa using hlen)

theorem length_of_echelonRow {row out : List (Complex R)} (h : echelonRow row = .ok out) :
    out.length = row.length := by
  unfold echelonRow at h
  split at h
  · cases h
    rfl
  · obtain ⟨k, -, h⟩ := bind_eq_ok.mp h
    cases h
    simp

theorem hasWidth_of_mapM_clearedRow {column n : Nat} {pivot : List (Complex R)} {rows out : Rows R}
    (hp : pivot.length = n) (hw : HasWidth n rows)
    (h : rows.mapM (clearedRow column pivot) = .ok out) : HasWidth n out := by
  rw [mapM_eq_ok] at h
  induction h with
  | nil => exact hw
  | cons hab _ ih =>
    obtain ⟨ha, hl⟩ := List.forall_mem_cons.mp hw
    exact List.forall_mem_cons.mpr
      ⟨(length_of_clearedRow (ha.trans hp.symm) hab).trans ha, ih hl⟩

theorem HasWidth.map_tail {K : Type} {n : Nat} {rows : List (List K)}
    (h : HasWidth (n + 1) rows) : HasWidth n (rows.map List.tail) := by
  intro row hrow
  obtain ⟨r, hr, rfl⟩ := List.mem_map.mp hrow
  simp [h r hr]

theorem HasWidth.map_cons {K : Type} {n : Nat} {rows : List (List K)} (h : HasWidth n rows)
    (x : K) : HasWidth (n + 1) (rows.map (x :: ·)) := by
  intro row hrow
  obtain ⟨r, hr, rfl⟩ := List.mem_map.mp hrow
  simp [h r hr]

theorem HasWidth.set {K : Type} {n i : Nat} {rows : List (List K)} {row : List K}
    (h : HasWidth n rows) (hrow : row.length = n) : HasWidth n (rows.set i row) := by
  intro r hr
  rcases List.mem_or_eq_of_mem_set hr with hr | rfl
  · exact h r hr
  · exact hrow

theorem HasWidth.length_eq {K : Type} {n i : Nat} {rows : List (List K)} {row : List K}
    (h : HasWidth n rows) (hrow : rows[i]? = some row) : row.length = n :=
  h row (List.mem_of_getElem? hrow)

/-- Any two rows have the same length. -/
theorem HasWidth.length_eq_length {K : Type} {n i j : Nat} {rows : List (List K)}
    {row other : List K} (h : HasWidth n rows) (hrow : rows[i]? = some row)
    (hother : rows[j]? = some other) : row.length = other.length :=
  (h.length_eq hrow).trans (h.length_eq hother).symm

/-! ### The pivot row -/

omit [Scalar R] in
/-- Exchanging the pivot row with the first one rearranges the rows, and the pivot row comes to
stand on top. -/
theorem pivotFirst_eq_cons {i : Nat} {rows : Rows R} (hi : i < rows.length) :
    ∃ below, pivotFirst i rows = rows[i] :: below ∧ (rows[i] :: below).Perm rows := by
  cases rows with
  | nil => exact absurd hi (Nat.not_lt_zero _)
  | cons first rest =>
    cases i with
    | zero => exact ⟨rest, by simp [pivotFirst], List.Perm.refl _⟩
    | succ i =>
      have hi' : i < rest.length := by simpa using hi
      refine ⟨rest.set i first, by simp [pivotFirst, hi'], ?_⟩
      -- `first` takes the place of the pivot row in `rest`
      have hset : (rest.set i first).Perm (first :: rest.eraseIdx i) :=
        List.set_perm_cons_eraseIdx hi' first
      have herase : (rest[i] :: rest.eraseIdx i).Perm rest :=
        List.getElem_cons_eraseIdx_perm hi'
      exact (hset.cons _).trans ((List.Perm.swap _ _ _).trans (herase.cons _))

/-! ### The shapes of the recursion -/

/-- How `echelonRows` comes to a result, for rows with the given number of columns. -/
inductive EchelonRun : Nat → Rows R → Rows R → Prop where
  | noColumn {rows : Rows R} : EchelonRun 0 rows rows
  | singleRow {n : Nat} {row out : List (Complex R)} (h : echelonRow row = .ok out) :
      EchelonRun (n + 1) [row] [out]
  | singleColumn {rows : Rows R} : EchelonRun 1 rows (echelonColumn rows)
  /-- The first column is empty, and the others are reduced. -/
  | emptyColumn {n : Nat} {rows rest : Rows R} (hzero : ∀ row ∈ rows, (row.headD 0).isZero)
      (h : EchelonRun (n + 1) (rows.map List.tail) rest) :
      EchelonRun (n + 2) rows (rest.map (0 :: ·))
  /-- The row `first` with a pivot is moved to the top and scaled by `k`, the column below the pivot
  is cleared, and what is left without the row and the column is reduced. -/
  | pivot {n i : Nat} {first : List (Complex R)} {rows below cleared rest : Rows R} {k : Complex R}
      (hi : rows.findIdx? (fun row => !(row.headD 0).isZero) = some i)
      (hfirst : pivotFirst i rows = first :: below)
      (hk : finiteReciprocal (first.headD 0) = .ok k)
      (hcleared : below.mapM (clearedRow 0 (scaledRow k first)) = .ok cleared)
      (h : EchelonRun (n + 1) (cleared.map List.tail) rest) :
      EchelonRun (n + 2) rows (scaledRow k first :: rest.map (0 :: ·))

theorem echelonRun_of_echelonRows {n : Nat} {rows out : Rows R}
    (h : echelonRows n rows = .ok out) : EchelonRun n rows out := by
  induction n generalizing rows out with
  | zero =>
    cases h
    exact .noColumn
  | succ n ih =>
    unfold echelonRows at h
    -- one row, one column, an empty column, and a column with a pivot
    split at h
    · rename_i hone
      obtain ⟨row, rfl⟩ := List.length_eq_one_iff.mp hone
      obtain ⟨b, bs, hb, hbs, rfl⟩ := List.forall₂_cons_left_iff.mp (mapM_eq_ok.mp h)
      cases hbs
      exact .singleRow hb
    · split at h
      · rename_i hn
        subst hn
        cases h
        exact .singleColumn
      · obtain ⟨m, rfl⟩ : ∃ m, n = m + 1 := ⟨n - 1, by omega⟩
        split at h
        · rename_i hnone
          obtain ⟨rest, hrest, h⟩ := bind_eq_ok.mp h
          cases h
          exact .emptyColumn (by simpa using List.findIdx?_eq_none_iff.mp hnone) (ih hrest)
        · rename_i i hi
          obtain ⟨hlt, -⟩ := List.findIdx?_eq_some_iff_getElem.mp hi
          obtain ⟨below, hfirst, -⟩ := pivotFirst_eq_cons hlt
          rw [hfirst] at h
          obtain ⟨k, hk, h⟩ := bind_eq_ok.mp h
          obtain ⟨cleared, hcleared, h⟩ := bind_eq_ok.mp h
          obtain ⟨rest, hrest, h⟩ := bind_eq_ok.mp h
          cases h
          exact .pivot hi hfirst hk hcleared (ih hrest)

/-- The pivot row is a row with a first cell other than zero, and the rows are the same ones in
another order. -/
theorem pivotFirst_spec {i : Nat} {first : List (Complex R)} {rows below : Rows R}
    (hi : rows.findIdx? (fun row => !(row.headD 0).isZero) = some i)
    (hfirst : pivotFirst i rows = first :: below) :
    (first.headD 0).isZero = false ∧ (first :: below).Perm rows := by
  obtain ⟨hlt, hp, -⟩ := List.findIdx?_eq_some_iff_getElem.mp hi
  obtain ⟨below', hbelow, hperm⟩ := pivotFirst_eq_cons hlt
  cases hbelow.symm.trans hfirst
  exact ⟨by simpa using hp, hperm⟩

/-! ### Shapes of results -/

/-- A column that is not zero becomes a one on top of zeros. -/
theorem echelonColumn_eq_cons {rows : Rows R} (h : allZero rows = false) :
    ∃ m, echelonColumn rows = [1] :: List.replicate m [0] := by
  cases rows with
  | nil => cases h
  | cons row rest =>
    refine ⟨rest.length, ?_⟩
    rw [echelonColumn, h, if_neg Bool.false_ne_true, table, List.length_cons,
      List.range_succ_eq_map (n := rest.length), List.map_cons, List.map_map]
    exact congrArg _ (List.eq_replicate_iff.mpr ⟨by simp, by simp⟩)

theorem length_echelonColumn (rows : Rows R) : (echelonColumn rows).length = rows.length := by
  unfold echelonColumn
  split
  · rfl
  · simp [table]

theorem hasWidth_echelonColumn {rows : Rows R} (h : HasWidth 1 rows) :
    HasWidth 1 (echelonColumn rows) := by
  unfold echelonColumn
  split
  · exact h
  · intro row hrow
    obtain ⟨r, -, rfl⟩ := List.mem_map.mp hrow
    simp

theorem EchelonRun.length_eq {n : Nat} {rows out : Rows R} (h : EchelonRun n rows out) :
    out.length = rows.length := by
  induction h with
  | noColumn => rfl
  | singleRow => rfl
  | singleColumn => exact length_echelonColumn _
  | emptyColumn _ _ ih => simpa using ih
  | @pivot n i first rows below cleared rest k hi hfirst hk hcleared h ih =>
    have hlen : below.length = cleared.length := (mapM_eq_ok.mp hcleared).length_eq
    have hperm := (pivotFirst_spec hi hfirst).2.length_eq
    simp only [List.length_cons, List.length_map] at ih hperm ⊢
    omega

/-- A pivot with the rows it clears, before and after. -/
theorem hasWidth_of_pivot {n i : Nat} {first : List (Complex R)} {rows below cleared : Rows R}
    {k : Complex R} (hw : HasWidth n rows)
    (hi : rows.findIdx? (fun row => !(row.headD 0).isZero) = some i)
    (hfirst : pivotFirst i rows = first :: below)
    (hcleared : below.mapM (clearedRow 0 (scaledRow k first)) = .ok cleared) :
    (scaledRow k first).length = n ∧ HasWidth n below ∧ HasWidth n cleared := by
  have hperm := (pivotFirst_spec hi hfirst).2
  obtain ⟨htop, hbelow⟩ := List.forall_mem_cons.mp fun row hrow => hw row (hperm.mem_iff.mp hrow)
  have htop : (scaledRow k first).length = n := (length_scaledRow _ _).trans htop
  exact ⟨htop, hbelow, hasWidth_of_mapM_clearedRow htop hbelow hcleared⟩

theorem EchelonRun.hasWidth {n : Nat} {rows out : Rows R} (h : EchelonRun n rows out)
    (hw : HasWidth n rows) : HasWidth n out := by
  induction h with
  | noColumn => exact hw
  | singleRow h =>
    intro row hrow
    rw [List.mem_singleton.mp hrow, length_of_echelonRow h]
    exact hw _ (List.mem_singleton_self _)
  | singleColumn => exact hasWidth_echelonColumn hw
  | emptyColumn _ _ ih => exact (ih hw.map_tail).map_cons 0
  | pivot hi hfirst hk hcleared h ih =>
    obtain ⟨htop, -, hwidth⟩ := hasWidth_of_pivot hw hi hfirst hcleared
    exact List.forall_mem_cons.mpr ⟨htop, (ih hwidth.map_tail).map_cons 0⟩

/-- Clearing upward keeps the number of rows and of columns. -/
theorem shape_of_clearUpward {n : Nat} {done remaining out : Rows R} (hd : HasWidth n done)
    (hr : HasWidth n remaining) (h : clearUpward done remaining = .ok out) :
    out.length = done.length + remaining.length ∧ HasWidth n out := by
  induction remaining generalizing done with
  | nil =>
    cases h
    exact ⟨rfl, hd⟩
  | cons row rest ih =>
    obtain ⟨hrow, hrest⟩ := List.forall_mem_cons.mp hr
    unfold clearUpward at h
    split at h
    · cases h
      exact ⟨List.length_append, List.forall_mem_append.mpr ⟨hd, hr⟩⟩
    · obtain ⟨cleared, hcleared, h⟩ := bind_eq_ok.mp h
      have hw := hasWidth_of_mapM_clearedRow hrow hd hcleared
      obtain ⟨hlen, hout⟩ := ih (List.forall_mem_append.mpr
        ⟨hw, List.forall_mem_singleton.mpr hrow⟩) hrest h
      refine ⟨?_, hout⟩
      rw [hlen, List.length_append, ← (mapM_eq_ok.mp hcleared).length_eq, List.length_singleton,
        List.length_cons]
      omega

/-! ### Results as matrices -/

theorem columnCount_eq {K : Type} {n : Nat} {m : LabelledMatrix K} (hne : 0 < m.rowCount)
    (hw : HasWidth n m.rows) : m.columnCount = n := by
  obtain ⟨row, rest, hrows⟩ := List.exists_cons_of_length_pos hne
  have hrow : row.length = n := hw row (by simp [hrows])
  simpa [columnCount, hrows] using hrow

/-- A matrix with as many rows and columns as `m` and with its labels. -/
theorem WellFormed.of_shape {K : Type} {m r : LabelledMatrix K} (hm : m.WellFormed)
    (hlen : r.rows.length = m.rows.length) (hw : HasWidth m.columnCount r.rows)
    (hlabels : r.labels = m.labels) (hrem : r.remembered.isSome → m.remembered.isSome) :
    r.WellFormed ∧ r.shape = m.shape := by
  have hrows : r.rowCount = m.rowCount := hlen
  have hpos : 0 < r.rowCount := hrows ▸ hm.rowCount_pos
  have hcols : r.columnCount = m.columnCount := columnCount_eq hpos hw
  refine ⟨⟨hpos, ?_, ?_, ?_, ?_⟩, ?_⟩
  · exact hcols ▸ hm.columnCount_pos
  · exact hcols ▸ hw
  · rw [hlabels, hcols]
    exact hm.length_labels
  · rw [hrows, hcols]
    exact fun h => hm.square_of_remembered (hrem h)
  · rw [shape, shape, hrows, hcols]

/-- A single row or a single column of zeros: what `rowEchelon` returns as it is. -/
def isZeroLine (m : ComplexMatrix R) : Bool :=
  (m.rowCount = 1 || m.columnCount = 1) && allZero m.rows

theorem echelonRow_eq_ok_of_zero {row : List (Complex R)} (h : ∀ x ∈ row, x.isZero) :
    echelonRow row = .ok row := by
  have hnone : row.find? (!·.isZero) = none := List.find?_eq_none.mpr (by simpa using h)
  simp [echelonRow, hnone]

theorem echelonRows_eq_ok_of_isZeroLine {m : ComplexMatrix R} (hm : m.WellFormed)
    (h : m.isZeroLine) : echelonRows m.columnCount m.rows = .ok m.rows := by
  obtain ⟨n, hn⟩ : ∃ n, m.columnCount = n + 1 :=
    ⟨m.columnCount - 1, by have := hm.columnCount_pos; omega⟩
  simp only [isZeroLine, Bool.and_eq_true, Bool.or_eq_true, decide_eq_true_eq, hn] at h
  obtain ⟨hone, hzero⟩ := h
  rw [hn]
  unfold echelonRows
  by_cases hlen : m.rows.length = 1
  · rw [if_pos hlen]
    obtain ⟨row, hrow⟩ := List.length_eq_one_iff.mp hlen
    rw [hrow] at hzero ⊢
    have hrow : ∀ x ∈ row, x.isZero := by simpa [allZero] using hzero
    exact mapM_eq_ok.mpr (.cons (echelonRow_eq_ok_of_zero hrow) .nil)
  · have hcol : n = 0 := by
      rcases hone with hone | hone
      · exact absurd hone hlen
      · omega
    rw [if_neg hlen, if_pos hcol, echelonColumn, if_pos hzero]

/-- The rows of the echelon form are those of `echelonRows`, also where a matrix is returned as it
is, which is the only way to remember a determinant. -/
theorem rowEchelon_eq_ok {m e : ComplexMatrix R} (hm : m.WellFormed) (h : m.rowEchelon = .ok e) :
    echelonRows m.columnCount m.rows = .ok e.rows ∧ e.labels = m.labels ∧
      e.remembered = if m.isZeroLine then m.remembered else none := by
  unfold rowEchelon at h
  split at h
  · rename_i hzero
    cases h
    exact ⟨echelonRows_eq_ok_of_isZeroLine hm hzero, rfl, (if_pos hzero).symm⟩
  · rename_i hzero
    obtain ⟨rows, hrows, h⟩ := bind_eq_ok.mp h
    cases h
    exact ⟨mapError_eq_ok.mp hrows, rfl, (if_neg hzero).symm⟩

/-- A reduction is an elimination followed by clearing upward. -/
theorem reducedRowEchelon_eq_ok {m r : ComplexMatrix R} (hm : m.WellFormed)
    (h : m.reducedRowEchelon = .ok r) :
    ∃ rows, echelonRows m.columnCount m.rows = .ok rows ∧ clearUpward [] rows = .ok r.rows ∧
      r.labels = m.labels ∧ r.remembered = if m.isZeroLine then m.remembered else none := by
  obtain ⟨e, he, h⟩ := bind_eq_ok.mp h
  obtain ⟨rows, hrows, h⟩ := bind_eq_ok.mp h
  cases h
  obtain ⟨hechelon, hlabels, hrem⟩ := rowEchelon_eq_ok hm he
  exact ⟨e.rows, hechelon, mapError_eq_ok.mp hrows, hlabels, hrem⟩

/-- **Reducing a matrix keeps its shape and its labels.** -/
theorem WellFormed.reducedRowEchelon {m r : ComplexMatrix R} (hm : m.WellFormed)
    (h : m.reducedRowEchelon = .ok r) : r.WellFormed ∧ r.shape = m.shape ∧ r.labels = m.labels := by
  obtain ⟨rows, hrows, hclear, hlabels, hrem⟩ := reducedRowEchelon_eq_ok hm h
  have hrun := echelonRun_of_echelonRows hrows
  obtain ⟨hlen, hw⟩ := shape_of_clearUpward (List.forall_mem_nil _)
    (hrun.hasWidth hm.length_row) hclear
  have hlen : r.rows.length = m.rows.length := by
    rw [hlen, hrun.length_eq, List.length_nil, Nat.zero_add]
  obtain ⟨hwf, hshape⟩ := hm.of_shape hlen hw hlabels fun hs => by
    rw [hrem] at hs
    split at hs
    · exact hs
    · cases hs
  exact ⟨hwf, hshape, hlabels⟩

end LinearEquations.LabelledMatrix
