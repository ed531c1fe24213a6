import LinearEquations.Proofs.FlatElimination

/-! # Laws of blocks

Elimination takes a matrix apart, into its first row, the column below and the rest, and puts the
results together again; cofactors are made of minors and then transposed.  Here is what has to hold
between these operations, whatever the cells are.

Each of them finds its cells at other places of its operands: a minor skips a row and a column,
putting beside counts on after the columns of the first operand, stacking after its rows, and
transposing exchanges the two numbers of a place.  So the laws are proved cell by cell, from the
lemmas that say which cell of a result is which cell of an operand (`cellAt?_without`,
`cellAt?_beside`, `cellAt?_append`, `cellAt?_columns`), and then carried over to arrays by layout.

Operations on transposes do not only have the same results.  Where one side of a law is refused the
other one is, too, and for the same reason with rows and columns exchanged
(`MatrixError.mirror`). -/

namespace LinearEquations

/-- What is wrong with a minor or with two matrices that are joined, as their transposes show it. -/
def MatrixError.mirror {R : Type} : MatrixError R → MatrixError R
  | .indexOutOfRange row column rows columns => .indexOutOfRange column row columns rows
  | .shapeMismatch .concatenate left right => .shapeMismatch .stack left.swap right.swap
  | cause => cause

namespace LabelledMatrix
variable {R : Type} {m n r : ComplexMatrix R} {i j : Nat}

/-! ### Cells of blocks -/

section Cells
variable {K : Type} {rows other : List (List K)}

/-- A cell of rows put on top of others. -/
theorem cellAt?_append (rows other : List (List K)) (r c : Nat) :
    cellAt? (rows ++ other) r c =
      if r < rows.length then cellAt? rows r c else cellAt? other (r - rows.length) c := by
  rw [cellAt?, List.getElem?_append]
  split <;> rfl

/-- Every row is its first cell and the cells after it. -/
theorem zipWith_take_tail (rows : List (List K)) :
    List.zipWith (· ++ ·) (rows.map (List.take 1)) (rows.map List.tail) = rows := by
  rw [List.zipWith_map, List.zipWith_self]
  refine (List.map_congr_left fun row _ => ?_).trans (List.map_id rows)
  rw [← List.drop_one]
  exact List.take_append_drop 1 row

end Cells

/-- The columns of two matrices side by side. -/
theorem columns_beside (hm : m.WellFormed) (hn : n.WellFormed)
    (h : m.beside n = (.ok r : Except (MatrixError R) _)) : r.columns = m.columns ++ n.columns := by
  obtain ⟨hr, hshape⟩ := hm.beside hn h
  obtain ⟨hrows, rfl⟩ := beside_eq_ok h
  -- whether a column is one of the first matrix is decided by the same number on both sides
  refine rows_eq_of_cellAt?_eq ?_ fun c _ i => ?_
  · rw [length_columns, (Prod.mk.inj hshape).2, List.length_append, length_columns, length_columns]
  · rw [cellAt?_columns hr.length_row, cellAt?_beside hm.length_row hrows, cellAt?_append,
      length_columns, cellAt?_columns hm.length_row, cellAt?_columns hn.length_row]

/-- The columns of a minor. -/
theorem columns_minor (hm : m.WellFormed) (h : m.minor i j = .ok r) :
    r.columns = without j i m.columns := by
  obtain ⟨hr, hshape⟩ := hm.minor h
  obtain ⟨-, hj, -, -, rfl⟩ := minor_eq_ok h
  have hlen : j < m.columns.length := hj.trans_eq (length_columns m).symm
  refine rows_eq_of_cellAt?_eq ?_ fun c _ i => ?_
  · rw [length_columns, (Prod.mk.inj hshape).2, length_without hlen, length_columns]
  · rw [cellAt?_columns hr.length_row, cellAt?_without, cellAt?_without,
      cellAt?_columns hm.length_row]

/-! ### Laws of rows -/

/-- The cells alone. -/
def bare (m : ComplexMatrix R) : ComplexMatrix R := { rows := m.rows }

/-- Take a matrix apart and put it together: the first row, and underneath the first column beside
the minor. -/
def reassembled (m : ComplexMatrix R) : Except (MatrixError R) (ComplexMatrix R) := do
  let column : ComplexMatrix R := { rows := m.rows.tail.map (List.take 1) }
  let below ← column.beside (← m.minor 0 0)
  ({ rows := m.rows.take 1 } : ComplexMatrix R).above below

/-- A first row, and others. -/
theorem exists_cons_of_two_le (h : 2 ≤ m.rowCount) :
    ∃ top rest, m.rows = top :: rest ∧ 0 < rest.length := by
  obtain ⟨top, rest, hcons⟩ := List.exists_cons_of_length_pos (Nat.zero_lt_of_lt h)
  have hlen : m.rowCount = rest.length + 1 := congrArg List.length hcons
  exact ⟨top, rest, hcons, by omega⟩

theorem beside_of_eq (h : m.rowCount = n.rowCount) : m.beside n =
    (.ok { rows := List.zipWith (· ++ ·) m.rows n.rows } : Except (MatrixError R) _) := if_pos h

theorem beside_of_ne (h : m.rowCount ≠ n.rowCount) : m.beside n =
    (.error (.shapeMismatch .concatenate m.shape n.shape) : Except (MatrixError R) _) := if_neg h

theorem minor_of_le (h : m.rowCount ≤ i ∨ m.columnCount ≤ j) :
    m.minor i j = .error (.indexOutOfRange i j m.rowCount m.columnCount) :=
  if_pos (by simpa using h)

theorem minor_of_line (hi : i < m.rowCount) (hj : j < m.columnCount)
    (h : m.rowCount = 1 ∨ m.columnCount = 1) : m.minor i j = .error .empty :=
  (if_neg (by simp; omega)).trans (if_pos (by simpa using h))

theorem minor_of_lt (hi : i < m.rowCount) (hj : j < m.columnCount) (hrows : 2 ≤ m.rowCount)
    (hcols : 2 ≤ m.columnCount) : m.minor i j = .ok { rows := without i j m.rows } :=
  (if_neg (by simp; omega)).trans (if_neg (by simp; omega))

/-- A minor that is asked for is outside, or nothing is left, or it is there. -/
theorem minor_cases (hm : m.WellFormed) (i j : Nat) :
    (m.rowCount ≤ i ∨ m.columnCount ≤ j) ∨
      (i < m.rowCount ∧ j < m.columnCount ∧ (m.rowCount = 1 ∨ m.columnCount = 1)) ∨
      (i < m.rowCount ∧ j < m.columnCount ∧ 2 ≤ m.rowCount ∧ 2 ≤ m.columnCount) := by
  have hrows := hm.rowCount_pos
  have hcols := hm.columnCount_pos
  omega

theorem above_of_eq (h : m.columnCount = n.columnCount) : m.above n =
    (.ok { rows := m.rows ++ n.rows } : Except (MatrixError R) _) := if_pos h

theorem above_of_ne (h : m.columnCount ≠ n.columnCount) : m.above n =
    (.error (.shapeMismatch .stack m.shape n.shape) : Except (MatrixError R) _) := if_neg h

/-- The laws of blocks for two matrices. -/
structure BlockLaws (m n : ComplexMatrix R) : Prop where
  reassembled_eq : 2 ≤ m.rowCount → 2 ≤ m.columnCount → m.reassembled = .ok m.bare
  dropColumn_beside : m.columnCount = 1 → (do (← m.beside n).dropColumn) =
    if m.rowCount = n.rowCount then .ok n.bare
    else (.error (.shapeMismatch .concatenate m.shape n.shape) : Except (MatrixError R) _)
  transpose_beside : (do return (← m.beside n).transpose : Except (MatrixError R) _).mapError
    MatrixError.mirror = m.transpose.above n.transpose
  transpose_minor : ∀ i j, (do return (← m.minor i j).transpose).mapError MatrixError.mirror =
    m.transpose.minor j i

theorem WellFormed.reassembled_eq (hm : m.WellFormed) (hrows : 2 ≤ m.rowCount)
    (hcols : 2 ≤ m.columnCount) : m.reassembled = .ok m.bare := by
  obtain ⟨top, rest, hcons, hrest⟩ := exists_cons_of_two_le hrows
  obtain ⟨htop, hw⟩ := List.forall_mem_cons.mp (hcons ▸ hm.length_row)
  have hminor : m.minor 0 0 = .ok { rows := rest.map List.tail } := by
    rw [minor_of_lt hm.rowCount_pos hm.columnCount_pos hrows hcols, hcons]
    exact congrArg Except.ok (LabelledMatrix.ext
      (List.map_congr_left fun row _ => List.eraseIdx_zero) rfl rfl)
  have hcount : ({ rows := [top] } : ComplexMatrix R).columnCount =
      ({ rows := rest } : ComplexMatrix R).columnCount :=
        htop.trans (columnCount_eq (m := ⟨rest, none, none⟩) hrest hw).symm
  rw [reassembled, hminor, ok_bind, hcons, List.tail_cons, beside_of_eq (by simp [rowCount]),
    zipWith_take_tail, ok_bind, bare, hcons]
  exact above_of_eq hcount

theorem WellFormed.dropColumn_beside (hm : m.WellFormed) (hn : n.WellFormed)
    (hcols : m.columnCount = 1) : (do (← m.beside n).dropColumn) =
      if m.rowCount = n.rowCount then .ok n.bare
      else (.error (.shapeMismatch .concatenate m.shape n.shape) : Except (MatrixError R) _) := by
  split
  · rename_i h
    have hcount := (Prod.mk.inj (hm.beside hn (beside_of_eq h)).2).2
    have hpos := hn.columnCount_pos
    have hlen : m.rows.length = n.rows.length := h
    have hw : HasWidth 1 m.rows := hcols ▸ hm.length_row
    rw [beside_of_eq h, ok_bind, LabelledMatrix.dropColumn, if_neg (by omega)]
    refine congrArg Except.ok
      (LabelledMatrix.ext (rows_eq_of_cellAt?_eq ?_ fun r _ c => ?_) rfl rfl)
    · rw [List.length_map, List.length_zipWith, hlen, Nat.min_self]
      rfl
    · rw [FlatMatrix.cellAt?_map_tail, cellAt?_beside hw hlen, if_neg (by omega),
        Nat.add_sub_cancel]
      rfl
  · rename_i h
    rw [beside_of_ne h, error_bind]

theorem WellFormed.transpose_beside (hm : m.WellFormed) (hn : n.WellFormed) :
    (do return (← m.beside n).transpose : Except (MatrixError R) _).mapError MatrixError.mirror =
      m.transpose.above n.transpose := by
  obtain ⟨-, hcols⟩ := Prod.mk.inj hm.transpose.2
  obtain ⟨-, hcols'⟩ := Prod.mk.inj hn.transpose.2
  by_cases h : m.rowCount = n.rowCount
  · have hb := beside_of_eq h
    rw [hb, above_of_eq (by omega)]
    exact congrArg Except.ok (LabelledMatrix.ext (columns_beside hm hn hb) rfl rfl)
  · rw [beside_of_ne h, above_of_ne (by omega), hm.transpose.2, hn.transpose.2]
    rfl

theorem WellFormed.transpose_minor (hm : m.WellFormed) (i j : Nat) :
    (do return (← m.minor i j).transpose).mapError MatrixError.mirror =
      m.transpose.minor j i := by
  obtain ⟨hrows, hcols⟩ := Prod.mk.inj hm.transpose.2
  -- the checks of the transpose come in the other order, but each of them asks for both numbers
  rcases minor_cases hm i j with hout | ⟨hi, hj, hline⟩ | ⟨hi, hj, hp, hq⟩
  · rw [minor_of_le hout, minor_of_le (by omega), hrows, hcols]
    rfl
  · rw [minor_of_line hi hj hline, minor_of_line (by omega) (by omega) (by omega)]
    rfl
  · have hminor := minor_of_lt hi hj hp hq
    rw [hminor, minor_of_lt (by omega) (by omega) (by omega) (by omega)]
    exact congrArg Except.ok (LabelledMatrix.ext (columns_minor hm hminor) rfl rfl)

theorem WellFormed.blockLaws (hm : m.WellFormed) (hn : n.WellFormed) : m.BlockLaws n where
  reassembled_eq := hm.reassembled_eq
  dropColumn_beside := hm.dropColumn_beside hn
  transpose_beside := hm.transpose_beside hn
  transpose_minor := hm.transpose_minor

end LabelledMatrix

/-! ### Laws of arrays -/

namespace FlatMatrix
open LabelledMatrix Checked
variable {R : Type}

/-- The cells alone. -/
def bare (m : FlatMatrix R) : FlatMatrix R := { m with labels := none, remembered := none }

/-- The first column without its first cell. -/
def columnBelow (m : FlatMatrix R) : Checked R (FlatMatrix R) := do
  init 1 (← difference m.rowCount 1) fun _ row => m.index 0 (row + 1)

/-- Take a matrix apart and put it together: the first row, and underneath the first column beside
the minor. -/
def reassembled (m : FlatMatrix R) : Checked R (FlatMatrix R) := do
  let column ← m.columnBelow
  let below ← column.beside (← m.minor 0 0)
  (← m.rowMatrix 0).above below

/-- Two programs end with the same result, or they are refused for the same reason with rows and
columns exchanged.  Neither of them faults. -/
inductive EndAlike {A : Type} : Checked R A → Checked R A → Prop
  | ok (a : A) : EndAlike (.ok a) (.ok a)
  | refused (cause : MatrixError R) : EndAlike (refuse cause) (refuse cause.mirror)

/-- The laws of blocks for two matrices in arrays. -/
structure BlockLaws (m n : FlatMatrix R) : Prop where
  reassembled_eq : 2 ≤ m.rowCount → 2 ≤ m.columnCount → m.reassembled = .ok m.bare
  dropColumn_beside : m.columnCount = 1 → (do (← m.beside n).dropColumn) =
    if m.rowCount = n.rowCount then .ok n.bare
    else refuse (.shapeMismatch .concatenate m.shape n.shape)
  transpose_beside :
    EndAlike (do (← m.beside n).transpose) (do (← m.transpose).above (← n.transpose))
  exists_transpose_beside_iff :
    (∃ r, (do (← m.beside n).transpose) = .ok r) ↔ m.rowCount = n.rowCount
  transpose_minor : ∀ i j,
    EndAlike (do (← m.minor i j).transpose) (do (← m.transpose).minor j i)
  exists_transpose_minor_iff : ∀ i j, (∃ r, (do (← m.minor i j).transpose) = .ok r) ↔
    i < m.rowCount ∧ j < m.columnCount ∧ 2 ≤ m.rowCount ∧ 2 ≤ m.columnCount

theorem endAlike_lift {A B : Type} {f : A → B} {x y : Except (MatrixError R) A}
    (h : x.mapError MatrixError.mirror = y) : EndAlike (lift f x) (lift f y) := by
  subst h
  cases x with
  | ok a => exact .ok (f a)
  | error cause => exact .refused cause

section Layout
variable {m n : ComplexMatrix R} {top : List (Complex R)} {rest : List (List (Complex R))}

theorem cellAt?_map_take (k : Nat) (rows : List (List (Complex R))) (r c : Nat) :
    cellAt? (rows.map (List.take k)) r c = if c < k then cellAt? rows r c else none := by
  simp only [cellAt?, List.getElem?_map, Option.bind_map, Function.comp_def, List.getElem?_take]
  split
  · rfl
  · exact Option.bind_fun_none _

theorem columnBelow_flat (hm : m.WellFormed) (hcons : m.rows = top :: rest)
    (hp : 0 < rest.length) : (⟨rest.map (List.take 1), none, none⟩ : ComplexMatrix R).WellFormed ∧
      m.flat.columnBelow = .ok (⟨rest.map (List.take 1), none, none⟩ : ComplexMatrix R).flat := by
  have hlen : (rest.map (List.take 1)).length = rest.length := List.length_map _
  have hw : HasWidth 1 (rest.map (List.take 1)) := by
    refine List.forall_mem_map.mpr fun row hrow => ?_
    rw [List.length_take, hm.length_row row (hcons ▸ List.mem_cons_of_mem top hrow)]
    exact Nat.min_eq_left hm.columnCount_pos
  have hcount : m.rowCount = rest.length + 1 := congrArg List.length hcons
  refine ⟨wellFormed_plain (hlen ▸ hp) Nat.one_pos hw, ?_⟩
  -- a cell that is left by `take` is in column `0`, the column that the program looks at
  rw [columnBelow, rowCount_flat, difference_eq_ok hm.rowCount_pos, ok_bind, hcount,
    Nat.add_sub_cancel, init_eq_ok hlen hw fun r c x hx => ?_]
  · exact congrArg Except.ok (flat_eq hp hlen hw none none).symm
  · rw [cellAt?_map_take] at hx
    split at hx
    · rename_i hc
      obtain rfl := Nat.lt_one_iff.mp hc
      exact index_flat hm (by rwa [cellAt?, hcons, List.getElem?_cons_succ])
    · cases hx

theorem reassembled_flat (hm : m.WellFormed) (hrows : 2 ≤ m.rowCount) :
    m.flat.reassembled = lift flat m.reassembled := by
  obtain ⟨top, rest, hcons, hrest⟩ := exists_cons_of_two_le hrows
  have htop : m.rows[0]? = some top := by rw [hcons, List.getElem?_cons_zero]
  obtain ⟨hcolumn, hbelow⟩ := columnBelow_flat hm hcons hrest
  have hrow : (⟨[top], none, none⟩ : ComplexMatrix R).WellFormed :=
    wellFormed_plain Nat.one_pos hm.columnCount_pos
      (List.forall_mem_singleton.mpr (hm.length_row top (List.mem_of_getElem? htop)))
  rw [FlatMatrix.reassembled, LabelledMatrix.reassembled, hbelow, ok_bind, hcons]
  refine lift_bind (minor_flat hm) fun minor hminor => ?_
  have hwf := (hm.minor hminor).1
  refine lift_bind (beside_flat hcolumn hwf) fun below hbeside => ?_
  rw [rowMatrix_flat hm htop, ok_bind]
  exact above_flat hrow (hcolumn.beside hwf hbeside).1

theorem transpose_beside_flat (hm : m.WellFormed) (hn : n.WellFormed) :
    (do (← m.flat.beside n.flat).transpose) = lift flat (do return (← m.beside n).transpose) :=
  lift_bind (beside_flat hm hn) fun _ hr => transpose_flat (hm.beside hn hr).1

theorem transpose_minor_flat (hm : m.WellFormed) (i j : Nat) :
    (do (← m.flat.minor i j).transpose) = lift flat (do return (← m.minor i j).transpose) :=
  lift_bind (minor_flat hm) fun _ hr => transpose_flat (hm.minor hr).1

theorem dropColumn_beside_flat (hm : m.WellFormed) (hn : n.WellFormed) :
    (do (← m.flat.beside n.flat).dropColumn) = lift flat (do (← m.beside n).dropColumn) :=
  lift_bind (beside_flat hm hn) fun _ hr => dropColumn_flat (hm.beside hn hr).1

theorem blockLaws_flat (hm : m.WellFormed) (hn : n.WellFormed) : m.flat.BlockLaws n.flat where
  reassembled_eq hrows hcols := by
    rw [reassembled_flat hm hrows, hm.reassembled_eq hrows hcols]
    rfl
  dropColumn_beside hcols := by
    rw [dropColumn_beside_flat hm hn, hm.dropColumn_beside hn hcols]
    split <;> rename_i h
    · rw [if_pos (show m.flat.rowCount = n.flat.rowCount from h)]
      rfl
    · rw [if_neg (show ¬m.flat.rowCount = n.flat.rowCount from h)]
      rfl
  transpose_beside := by
    rw [transpose_beside_flat hm hn, transpose_flat hm, ok_bind, transpose_flat hn, ok_bind,
      above_flat hm.transpose.1 hn.transpose.1]
    exact endAlike_lift (hm.transpose_beside hn)
  exists_transpose_beside_iff := by
    rw [transpose_beside_flat hm hn]
    by_cases h : m.rowCount = n.rowCount
    · rw [beside_of_eq h]
      exact iff_of_true ⟨_, rfl⟩ h
    · rw [beside_of_ne h]
      exact iff_of_false nofun h
  transpose_minor i j := by
    rw [transpose_minor_flat hm, transpose_flat hm, ok_bind, minor_flat hm.transpose.1]
    exact endAlike_lift (hm.transpose_minor i j)
  exists_transpose_minor_iff i j := by
    rw [transpose_minor_flat hm, columnCount_flat, rowCount_flat]
    rcases minor_cases hm i j with hout | ⟨hi, hj, hline⟩ | ⟨hi, hj, hp, hq⟩
    · rw [minor_of_le hout]
      exact iff_of_false nofun (by omega)
    · rw [minor_of_line hi hj hline]
      exact iff_of_false nofun (by omega)
    · rw [minor_of_lt hi hj hp hq]
      exact iff_of_true ⟨_, rfl⟩ ⟨hi, hj, hp, hq⟩

end Layout

/-- **The laws of blocks** hold of all matrices, as rows and in arrays, whatever their cells are. -/
theorem blockLaws_of_wellFormed :
    (∀ m n : ComplexMatrix R, m.WellFormed → n.WellFormed → LabelledMatrix.BlockLaws m n) ∧
    ∀ m n : FlatMatrix R, m.WellFormed → n.WellFormed → m.BlockLaws n := by
  refine ⟨fun m n hm hn => hm.blockLaws hn, fun m n hm hn => ?_⟩
  obtain ⟨a, ha, rfl⟩ := hm.exists_flat
  obtain ⟨b, hb, rfl⟩ := hn.exists_flat
  exact blockLaws_flat ha hb

/-- Two rows of three cells, of which one is no number, beside a column. -/
theorem blockLaws_of_two_rows :
    let m : FlatMatrix Float :=
      { cells := [⟨1, 0⟩, ⟨2, 1⟩, ⟨1 / 0, 0⟩, ⟨4, 0⟩, ⟨0 / 0, 0⟩, ⟨6, -1⟩]
        columnCount := 3, rowCount := 2, labels := some ["x", "y", "rhs"] }
    let n : FlatMatrix Float := { cells := [⟨7, 0⟩, ⟨8, 0⟩], columnCount := 1, rowCount := 2 }
    let rows : ComplexMatrix Float :=
      { rows := [[⟨1, 0⟩, ⟨2, 0⟩, ⟨3, 0⟩], [⟨4, 0⟩, ⟨5, 0⟩, ⟨6, 0⟩]] }
    m.WellFormed ∧ n.WellFormed ∧ m.reassembled = .ok m.bare ∧
      (do (← n.beside m).dropColumn) = .ok m.bare ∧
      EndAlike (do (← m.beside n).transpose) (do (← m.transpose).above (← n.transpose)) ∧
      (∃ r, (do (← m.beside n).transpose) = .ok r) ∧
      EndAlike (do (← m.minor 1 2).transpose) (do (← m.transpose).minor 2 1) ∧
      (∃ r, (do (← m.minor 1 2).transpose) = .ok r) ∧
      (¬∃ r, (do (← m.minor 2 1).transpose) = .ok r) ∧
      rows.WellFormed ∧ rows.reassembled = .ok rows.bare := by
  intro m n rows
  have hm : m.WellFormed := by
    refine ⟨by decide, by decide, rfl, ?_, nofun⟩
    rintro _ ⟨⟩
    rfl
  have hn : n.WellFormed := ⟨by decide, by decide, rfl, nofun, nofun⟩
  have hrows : rows.WellFormed := by decide
  obtain ⟨hlaws, hflat⟩ := blockLaws_of_wellFormed (R := Float)
  have hmn := hflat m n hm hn
  exact ⟨hm, hn, hmn.reassembled_eq (by decide) (by decide),
    (hflat n m hn hm).dropColumn_beside rfl,
    hmn.transpose_beside, hmn.exists_transpose_beside_iff.mpr rfl, hmn.transpose_minor 1 2,
    (hmn.exists_transpose_minor_iff 1 2).mpr (by decide),
    fun h => absurd ((hmn.exists_transpose_minor_iff 2 1).mp h) (by decide), hrows,
    (hlaws rows rows hrows hrows).reassembled_eq (by decide) (by decide)⟩

end FlatMatrix
end LinearEquations
