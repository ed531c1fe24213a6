import LinearEquations.Proofs.FlatViews

/-! # Row operations in arrays

Rows are exchanged and added in the array by a loop over the columns, each round of which changes
the cells of one column.  After a number of rounds the columns so far show the new rows, and the
others still show the old ones (`foldlM_columns`); in this way it does not matter that a row may be
exchanged with itself or added to itself. -/

namespace LinearEquations.FlatMatrix
open LabelledMatrix Checked

/-! ### Loops over columns -/

/-- A loop that keeps a statement about the rounds so far. -/
theorem foldlM_range_of_step {E S : Type} {f : S → Nat → Except E S} {P : Nat → S → Prop} {n : Nat}
    {s : S} (hs : P 0 s)
    (hstep : ∀ k < n, ∀ s, P k s → ∃ s', f s k = .ok s' ∧ P (k + 1) s') :
    ∃ s', (List.range n).foldlM f s = .ok s' ∧ P n s' := by
  induction n with
  | zero => exact ⟨s, rfl, hs⟩
  | succ n ih =>
    obtain ⟨s₁, hs₁, hp₁⟩ := ih fun k hk => hstep k (Nat.lt_succ_of_lt hk)
    obtain ⟨s₂, hs₂, hp₂⟩ := hstep n (Nat.lt_succ_self n) s₁ hp₁
    refine ⟨s₂, ?_, hp₂⟩
    rw [List.range_succ, List.foldlM_append, hs₁, ok_bind, List.foldlM_cons, hs₂]
    rfl

variable {R : Type} {m r : ComplexMatrix R} {p q c d s i j : Nat}
variable {rows rows' : List (List (Complex R))} {row other part : List (Complex R)}
variable {cells : List (Complex R)} {x : Complex R}

/-- The first `k` columns show the cells of `rows'`, and the others those of `rows`. -/
structure ColumnsReplaced (q k : Nat) (rows rows' : List (List (Complex R)))
    (cells : List (Complex R)) : Prop where
  length_eq : cells.length = rows.length * q
  getElem?_eq : ∀ i, ∀ c < q, cells[i * q + c]? = cellAt? (if c < k then rows' else rows) i c

/-- Arrays with the same cells in all places are equal. -/
theorem eq_flatten (hw : HasWidth q rows) (hq : 0 < q)
    (h : ∀ i, ∀ c < q, cells[i * q + c]? = cellAt? rows i c) : cells = rows.flatten := by
  refine List.ext_getElem? fun i => ?_
  have hplace : i / q * q + i % q = i := Nat.div_add_mod' ..
  have hc : i % q < q := Nat.mod_lt i hq
  have hcells := h (i / q) (i % q) hc
  have hrows := getElem?_flatten hw hc (i / q)
  rw [hplace] at hcells hrows
  rw [hcells, hrows]

/-- **A loop over the columns**, each round of which replaces the cells of one column. -/
theorem foldlM_columns {f : List (Complex R) → Nat → Checked R (List (Complex R))} (hq : 0 < q)
    (hw : HasWidth q rows) (hw' : HasWidth q rows')
    (hround : ∀ c < q, ∀ cells, cells.length = rows.length * q →
      (∀ i, cells[i * q + c]? = cellAt? rows i c) →
      ∃ cells', f cells c = .ok cells' ∧ cells'.length = cells.length ∧
        (∀ i, cells'[i * q + c]? = cellAt? rows' i c) ∧
        ∀ i, i % q ≠ c → cells'[i]? = cells[i]?) :
    (List.range q).foldlM f rows.flatten = .ok rows'.flatten := by
  have hstart : ColumnsReplaced q 0 rows rows' rows.flatten :=
    ⟨length_flatten hw, fun i c hc => by rw [if_neg c.not_lt_zero, getElem?_flatten hw hc]⟩
  obtain ⟨cells, hcells, hdone⟩ : ∃ cells, (List.range q).foldlM f rows.flatten = .ok cells ∧
      ColumnsReplaced q q rows rows' cells := by
    refine foldlM_range_of_step (P := fun k => ColumnsReplaced q k rows rows') hstart
      fun c hc cells hcells => ?_
    obtain ⟨cells', hf, hlen, hcolumn, hothers⟩ := hround c hc cells hcells.length_eq fun i => by
      rw [hcells.getElem?_eq i c hc, if_neg (Nat.lt_irrefl c)]
    refine ⟨cells', hf, hlen.trans hcells.length_eq, fun i k hk => ?_⟩
    by_cases hkc : k = c
    · subst hkc
      rw [hcolumn i, if_pos (Nat.lt_succ_self k)]
    · have hmod : (i * q + k) % q = k := by
        rw [Nat.add_comm, Nat.add_mul_mod_self_right, Nat.mod_eq_of_lt hk]
      have hlt : k < c + 1 ↔ k < c := by omega
      rw [hothers _ (hmod.symm ▸ hkc), hcells.getElem?_eq i k hk]
      simp only [hlt]
  have hflat : cells = rows'.flatten := eq_flatten hw' hq fun i c hc => by
    rw [hdone.getElem?_eq i c hc, if_pos hc]
  rw [hcells, hflat]

/-- The cells of a column after one of them is replaced. -/
theorem getElem?_set_column (hlen : cells.length = p * q) (hd : d < p) (hc : c < q) (i : Nat) :
    (cells.set (d * q + c) x)[i * q + c]? = if d = i then some x else cells[i * q + c]? := by
  have hplace : d * q + c < cells.length := hlen.symm ▸ place_lt hd hc
  have hiff : d * q + c = i * q + c ↔ d = i := by
    rw [Nat.add_right_cancel_iff, Nat.mul_right_cancel_iff (Nat.zero_lt_of_lt hc)]
  simp only [List.getElem?_set, hiff, if_pos hplace]

/-- The cells of the other columns stay. -/
theorem getElem?_set_other (hc : c < q) (hi : i % q ≠ c) (x : Complex R) :
    (cells.set (d * q + c) x)[i]? = cells[i]? := by
  refine List.getElem?_set_ne fun heq => hi ?_
  rw [← heq, Nat.add_comm, Nat.add_mul_mod_self_right, Nat.mod_eq_of_lt hc]

theorem assign_eq_ok (hlen : cells.length = p * q) (hd : d < p) (hc : c < q) :
    (assign cells (d * q + c) x : Checked R _) = .ok (cells.set (d * q + c) x) := by
  have hplace : d * q + c < cells.length := hlen.symm ▸ place_lt hd hc
  rw [assign, ensure_eq_ok (decide_eq_true hplace)]
  rfl

/-- Two rows are exchanged cell by cell. -/
theorem foldlM_exchange {a b : List (Complex R)} (hq : 0 < q) (hw : HasWidth q rows)
    (ha : rows[i]? = some a) (hb : rows[j]? = some b) :
    ((List.range q).foldlM (fun cells c => exchange cells (i * q + c) (j * q + c)) rows.flatten :
      Checked R _) = .ok ((rows.set i b).set j a).flatten := by
  obtain ⟨hi, -⟩ := List.getElem?_eq_some_iff.mp ha
  obtain ⟨hj, -⟩ := List.getElem?_eq_some_iff.mp hb
  have hla : a.length = q := hw.length_eq ha
  have hlb : b.length = q := hw.length_eq hb
  refine foldlM_columns hq hw (HasWidth.set (HasWidth.set hw hlb) hla) fun c hc cells hlen h => ?_
  obtain ⟨x, hac⟩ : ∃ x, a[c]? = some x := ⟨_, List.getElem?_eq_getElem (hla.symm ▸ hc)⟩
  obtain ⟨y, hbc⟩ : ∃ y, b[c]? = some y := ⟨_, List.getElem?_eq_getElem (hlb.symm ▸ hc)⟩
  have hx : cells[i * q + c]? = some x := by rw [h, cellAt?, ha, Option.bind_some, hac]
  have hy : cells[j * q + c]? = some y := by rw [h, cellAt?, hb, Option.bind_some, hbc]
  have hlen' : (cells.set (i * q + c) y).length = rows.length * q := List.length_set.trans hlen
  refine ⟨(cells.set (i * q + c) y).set (j * q + c) x, ?_, ?_, fun r => ?_, fun k hk => ?_⟩
  · rw [exchange, fetch_eq_ok hx, ok_bind, fetch_eq_ok hy, ok_bind, assign_eq_ok hlen hi hc,
      ok_bind, assign_eq_ok hlen' hj hc]
  · exact List.length_set.trans List.length_set
  · rw [getElem?_set_column hlen' hj hc, getElem?_set_column hlen hi hc,
      cellAt?_set (List.length_set.symm ▸ hj), cellAt?_set hi, h, hac, hbc]
  · rw [getElem?_set_other hc hk, getElem?_set_other hc hk]

/-- Another row in the place of a row of the array. -/
theorem overwrite_flatten (hw : HasWidth q rows) (hrow : rows[i]? = some row)
    (hpart : part.length = q) :
    (overwrite rows.flatten (i * q) ((i + 1) * q) part : Checked R _) =
      .ok (rows.set i part).flatten := by
  obtain ⟨hi, -⟩ := List.getElem?_eq_some_iff.mp hrow
  obtain ⟨hsplit, hbefore, hlen⟩ := flatten_split hw hrow
  obtain ⟨hsplit', -, -⟩ := flatten_split (HasWidth.set hw hpart)
    (List.getElem?_set_self (a := part) hi)
  have hstop : (i + 1) * q = ((rows.take i).flatten ++ row).length := by
    rw [List.length_append, hbefore, hlen, Nat.succ_mul]
  have hsame : (row.length = part.length : Bool) := by simp [hlen, hpart]
  rw [overwrite, slice_flatten hw hrow, ok_bind, ensure_eq_ok hsame, ok_bind, hsplit',
    List.take_set_of_le (Nat.le_refl i), List.drop_set_of_lt (Nat.lt_succ_self i), hstop, hsplit,
    List.drop_left' rfl, List.append_assoc _ row, ← hbefore, List.take_left' rfl]
  rfl

/-! ### Operations on rows -/

theorem checkRow_flat (m : ComplexMatrix R) (i : Nat) :
    m.flat.checkRow i = lift (fun _ => ()) (m.checkRow i) := by
  unfold FlatMatrix.checkRow LabelledMatrix.checkRow
  rw [rowCount_flat]
  split
  · rename_i hi
    rw [List.getElem?_eq_getElem hi]
    rfl
  · rename_i hi
    rw [List.getElem?_eq_none (Nat.le_of_not_lt hi)]
    rfl

/-- Changing the array into that of other rows. -/
theorem withCells_flat (hm : m.WellFormed) (hlen : rows.length = m.rowCount)
    (hw : HasWidth m.columnCount rows)
    {change : List (Complex R) → Checked R (List (Complex R))}
    (hchange : change m.rows.flatten = .ok rows.flatten) :
    m.flat.withCells change = .ok (m.withRows rows).flat := by
  have hchange : change m.flat.cells = .ok rows.flatten := hchange
  rw [withCells, hchange, ok_bind, columnCount_flat, rowCount_flat, ofCells_flatten hlen hw]
  exact congrArg Except.ok ((if_pos rfl).trans
    (flat_eq hm.rowCount_pos hlen hw m.labels none).symm)

theorem swapRows_flat (hm : m.WellFormed) :
    m.flat.swapRows i j = lift flat (m.swapRows i j) := by
  refine lift_bind (checkRow_flat m i) fun a ha => lift_bind (checkRow_flat m j) fun b hb => ?_
  have ha := checkRow_eq_ok.mp ha
  have hb := checkRow_eq_ok.mp hb
  have hw : HasWidth m.columnCount ((m.rows.set i b).set j a) :=
    HasWidth.set (HasWidth.set hm.length_row (HasWidth.length_eq hm.length_row hb))
      (HasWidth.length_eq hm.length_row ha)
  exact withCells_flat hm (List.length_set.trans List.length_set) hw
    (foldlM_exchange hm.columnCount_pos hm.length_row ha hb)

variable [Scalar R] {k : Operand R}

theorem scaleRow_flat (hm : m.WellFormed) :
    m.flat.scaleRow i k = lift flat (m.scaleRow i k) := by
  refine lift_bind (checkRow_flat m i) fun row hrow => lift_bind (checkOperand_eq k) fun a _ => ?_
  have hrow := checkRow_eq_ok.mp hrow
  have hpart : (scaledRow a row).length = m.columnCount :=
    (length_scaledRow a row).trans (HasWidth.length_eq hm.length_row hrow)
  refine withCells_flat hm List.length_set (HasWidth.set hm.length_row hpart) ?_
  simp only [columnCount_flat, slice_flatten hm.length_row hrow, ok_bind]
  exact overwrite_flatten hm.length_row hrow hpart

/-- A row is added to another one, or to itself, cell by cell. -/
theorem foldlM_add (hq : 0 < q) (hw : HasWidth q rows) (hrow : rows[d]? = some row)
    (hother : rows[s]? = some other) :
    ((List.range q).foldlM (fun cells c => do
      let value ← fetch cells (s * q + c)
      let old ← fetch cells (d * q + c)
      assign cells (d * q + c) (old + value)) rows.flatten : Checked R _) =
      .ok (rows.set d (addedRow row other)).flatten := by
  obtain ⟨hd, -⟩ := List.getElem?_eq_some_iff.mp hrow
  have hlr : row.length = q := hw.length_eq hrow
  have hlo : other.length = q := hw.length_eq hother
  have hsum : (addedRow row other).length = q :=
    (length_addedRow (hlr.trans hlo.symm)).trans hlr
  refine foldlM_columns hq hw (HasWidth.set hw hsum) fun c hc cells hlen h => ?_
  obtain ⟨x, hrowc⟩ : ∃ x, row[c]? = some x := ⟨_, List.getElem?_eq_getElem (hlr.symm ▸ hc)⟩
  obtain ⟨y, hotherc⟩ : ∃ y, other[c]? = some y :=
    ⟨_, List.getElem?_eq_getElem (hlo.symm ▸ hc)⟩
  have hold : cells[d * q + c]? = some x := by rw [h, cellAt?, hrow, Option.bind_some, hrowc]
  have hvalue : cells[s * q + c]? = some y := by
    rw [h, cellAt?, hother, Option.bind_some, hotherc]
  have hcell : (addedRow row other)[c]? = some (x + y) := by
    rw [addedRow, List.getElem?_zipWith, hrowc, hotherc]
  refine ⟨cells.set (d * q + c) (x + y), ?_, List.length_set, fun r => ?_,
    fun k hk => getElem?_set_other hc hk _⟩
  · rw [fetch_eq_ok hvalue, ok_bind, fetch_eq_ok hold, ok_bind, assign_eq_ok hlen hd hc]
  · rw [getElem?_set_column hlen hd hc, cellAt?_set hd, h, hcell]

theorem addRow_flat (hm : m.WellFormed) :
    m.flat.addRow d s = lift flat (m.addRow d s) := by
  refine lift_bind (checkRow_flat m d) fun row hrow => lift_bind (checkRow_flat m s)
    fun other hother => ?_
  have hrow := checkRow_eq_ok.mp hrow
  have hother := checkRow_eq_ok.mp hother
  have hlr : row.length = m.columnCount := HasWidth.length_eq hm.length_row hrow
  have hlo : other.length = m.columnCount := HasWidth.length_eq hm.length_row hother
  have hsum : (addedRow row other).length = m.columnCount :=
    (length_addedRow (hlr.trans hlo.symm)).trans hlr
  exact withCells_flat hm List.length_set (HasWidth.set hm.length_row hsum)
    (foldlM_add hm.columnCount_pos hm.length_row hrow hother)

theorem addMultiple_flat (hm : m.WellFormed) :
    m.flat.addMultiple d s k = lift flat (m.addMultiple d s k) := by
  unfold FlatMatrix.addMultiple LabelledMatrix.addMultiple
  rw [scaleRow_flat hm]
  cases hkept : m.checkRow (R := R) s with
  | error e =>
    have hscaled : m.scaleRow s k = .error e := by rw [LabelledMatrix.scaleRow, hkept, error_bind]
    rw [hscaled]
    rfl
  | ok kept =>
    have hkept := checkRow_eq_ok.mp hkept
    have hlk : kept.length = m.columnCount := HasWidth.length_eq hm.length_row hkept
    have hslice : (slice m.flat.cells (s * m.columnCount) (s * m.columnCount + m.columnCount) :
        Checked R _) = .ok kept := by
      rw [← Nat.succ_mul]
      exact slice_flatten hm.length_row hkept
    rw [ok_bind]
    refine lift_bind rfl fun scaled hscaled => ?_
    obtain ⟨hwf, hshape⟩ := hm.scaleRow hscaled
    refine lift_bind (addRow_flat hwf) fun moved hmoved => ?_
    obtain ⟨hwf', hshape'⟩ := hwf.addRow hmoved
    obtain ⟨hrows, hcols⟩ := Prod.mk.inj (hshape'.trans hshape)
    have hlabels : moved.withRows (moved.rows.set s kept) =
        m.withRows (moved.rows.set s kept) := by
      obtain ⟨_, _, -, -, heq⟩ := scaleRow_eq_ok hscaled
      obtain ⟨_, _, -, -, heq'⟩ := addRow_eq_ok hmoved
      rw [heq', heq]
      rfl
    obtain ⟨hs, -⟩ := List.getElem?_eq_some_iff.mp hkept
    have hs' : s < moved.rows.length := lt_of_lt_of_eq hs hrows.symm
    have hold : moved.rows[s]? = some moved.rows[s] := List.getElem?_eq_getElem hs'
    have hlk' : kept.length = moved.columnCount := hlk.trans hcols.symm
    simp only [columnCount_flat, hslice, ok_bind]
    rw [withCells_flat hwf' List.length_set (HasWidth.set hwf'.length_row hlk')
      (overwrite_flatten hwf'.length_row hold hlk'), hlabels]
    rfl

end LinearEquations.FlatMatrix
