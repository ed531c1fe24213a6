import LinearEquations.Proofs.FlatMatrix
import LinearEquations.Proofs.Shape
import LinearEquations.Proofs.Views

/-! # The layout of a matrix

A matrix is laid out by putting its rows end to end (`LabelledMatrix.flat`).  For well-formed
matrices the operations on arrays never fault, and they give the layout of what the operations on
rows give, with the same errors.

Most operations build a new array cell by cell, and for these one lemma does the work: if every cell
of the expected rows is what the program computes for its place, the array is the layout of these
rows (`init_eq_ok`).  That a program may look at a cell comes from `index_flat`. -/

namespace LinearEquations

/-! ### Programs that succeed -/

section Programs
variable {R A B C S : Type} {E : Type}

@[simp] theorem ok_bind (a : A) (f : A → Except E B) : (Except.ok a >>= f) = f a := rfl

@[simp] theorem error_bind (e : E) (f : A → Except E B) : (Except.error e >>= f) = .error e := rfl

theorem ensure_eq_ok {condition : Bool} (h : condition) :
    (Checked.ensure condition : Checked R Unit) = .ok () := if_pos h

theorem ensure_eq_error {condition : Bool} (h : ¬condition) :
    (Checked.ensure condition : Checked R Unit) = .error .fault := if_neg h

theorem fetch_eq_ok {cells : List A} {i : Nat} {x : A} (h : cells[i]? = some x) :
    (Checked.fetch cells i : Checked R A) = .ok x := by
  rw [Checked.fetch, h]

theorem difference_eq_ok {a b : Nat} (h : b ≤ a) :
    (Checked.difference a b : Checked R Nat) = .ok (a - b) := by
  rw [Checked.difference, ensure_eq_ok (decide_eq_true h)]
  rfl

/-- A loop over the places of a list that reads an element in each round. -/
theorem foldlM_range_eq_ok {f : S → Nat → Except E S} {g : S → A → S} {l : List A}
    (h : ∀ s i x, l[i]? = some x → f s i = .ok (g s x)) (s : S) :
    (List.range l.length).foldlM f s = .ok (l.foldl g s) := by
  induction l generalizing f s with
  | nil => rfl
  | cons x l ih =>
    rw [List.length_cons, List.range_succ_eq_map, List.foldlM_cons, h s 0 x rfl, ok_bind,
      List.foldlM_map, List.foldl_cons]
    exact ih (fun s i y hy => h s (i + 1) y hy) _

/-- A list computed element by element. -/
theorem mapM_range_eq_ok {f : Nat → Except E A} {l : List A}
    (h : ∀ i x, l[i]? = some x → f i = .ok x) : (List.range l.length).mapM f = .ok l := by
  induction l generalizing f with
  | nil => rfl
  | cons x l ih =>
    have hrest : (List.range l.length).mapM (f ∘ Nat.succ) = .ok l :=
      ih fun i y hy => h (i + 1) y hy
    rw [List.length_cons, List.range_succ_eq_map, List.mapM_cons, List.mapM_map, h 0 x rfl,
      ok_bind, hrest]
    rfl

theorem mapM_eq_ok_map {f : A → Except E B} {g : A → B} {l : List A}
    (h : ∀ x ∈ l, f x = .ok (g x)) : l.mapM f = .ok (l.map g) := by
  induction l with
  | nil => rfl
  | cons x l ih =>
    obtain ⟨hx, hl⟩ := List.forall_mem_cons.mp h
    rw [List.mapM_cons, hx, ih hl]
    rfl

/-! ### Results in another form -/

/-- A result or an error of matrices as the end of a program. -/
def Checked.lift (f : A → B) : Except (MatrixError R) A → Checked R B
  | .ok a => .ok (f a)
  | .error e => .error (.refused e)

@[simp] theorem lift_ok (f : A → B) (a : A) :
    Checked.lift f (.ok a : Except (MatrixError R) A) = .ok (f a) := rfl

/-- **Programs step by step**: if a program does the first step of another one and then what it does
next, it does the same. -/
theorem lift_bind {f : A → B} {g : C → S} {x : Except (MatrixError R) A} {y : Checked R B}
    {next : A → Except (MatrixError R) C} {next' : B → Checked R S} (hx : y = Checked.lift f x)
    (h : ∀ a, x = .ok a → next' (f a) = Checked.lift g (next a)) :
    y >>= next' = Checked.lift g (x >>= next) := by
  subst hx
  cases x with
  | error e => rfl
  | ok a => exact h a rfl

end Programs

/-! ### Laying out -/

/-- The number of a cell is smaller than the number of all cells. -/
theorem place_lt {p q r c : Nat} (hr : r < p) (hc : c < q) : r * q + c < p * q :=
  calc r * q + c < r * q + q := Nat.add_lt_add_left hc _
    _ = (r + 1) * q := (Nat.succ_mul ..).symm
    _ ≤ p * q := Nat.mul_le_mul_right _ hr

variable {R : Type}

/-- The rows of a matrix end to end. -/
def LabelledMatrix.flat (m : ComplexMatrix R) : FlatMatrix R :=
  { cells := m.rows.flatten
    columnCount := m.columnCount
    rowCount := m.rowCount
    labels := m.labels
    remembered := m.remembered }

namespace FlatMatrix
open LabelledMatrix Checked

variable {m n r : ComplexMatrix R} {p q c i j : Nat} {rows : List (List (Complex R))}
variable {x : Complex R}

@[simp] theorem columnCount_flat (m : ComplexMatrix R) : m.flat.columnCount = m.columnCount := rfl

@[simp] theorem rowCount_flat (m : ComplexMatrix R) : m.flat.rowCount = m.rowCount := rfl

@[simp] theorem remembered_flat (m : ComplexMatrix R) : m.flat.remembered = m.remembered := rfl

@[simp] theorem shape_flat (m : ComplexMatrix R) : m.flat.shape = m.shape := rfl

@[simp] theorem isSquare_flat (m : ComplexMatrix R) : m.flat.isSquare = m.isSquare := rfl

/-- Rows of a given shape, laid out. -/
theorem flat_eq (hp : 0 < p) (hlen : rows.length = p) (hw : HasWidth q rows)
    (labels : Option (List String)) (remembered : Option (Complex R)) :
    (⟨rows, labels, remembered⟩ : ComplexMatrix R).flat =
      ⟨rows.flatten, q, p, labels, remembered⟩ := by
  subst hlen
  have hcols : (⟨rows, labels, remembered⟩ : ComplexMatrix R).columnCount = q :=
    columnCount_eq hp hw
  rw [flat, hcols]
  rfl

theorem ofCells_flatten (hlen : rows.length = p) (hw : HasWidth q rows) :
    ofCells rows.flatten q p = .ok { cells := rows.flatten, columnCount := q, rowCount := p } := by
  have hcount : rows.flatten.length = q * p := by rw [length_flatten hw, hlen, Nat.mul_comm]
  rw [ofCells, ensure_eq_ok (decide_eq_true hcount)]
  rfl

/-- **What is computed cell by cell.** -/
theorem init_eq_ok {cell : Nat → Nat → Checked R (Complex R)} (hlen : rows.length = p)
    (hw : HasWidth q rows) (h : ∀ r c x, cellAt? rows r c = some x → cell c r = .ok x) :
    init q p cell = .ok { cells := rows.flatten, columnCount := q, rowCount := p } := by
  have hrows : (List.range p).mapM (fun r => (List.range q).mapM fun c => cell c r) =
      .ok rows := by
    subst hlen
    refine mapM_range_eq_ok fun r row hrow => ?_
    rw [← hw row (List.mem_of_getElem? hrow)]
    refine mapM_range_eq_ok fun c x hx => h r c x ?_
    rw [cellAt?, hrow, Option.bind_some, hx]
  rw [init, hrows, ok_bind]
  exact ofCells_flatten hlen hw

/-- A table is computed cell by cell. -/
theorem init_table_eq_ok {cell : Nat → Nat → Checked R (Complex R)} {f : Nat → Nat → Complex R}
    (h : ∀ r < p, ∀ c < q, cell c r = .ok (f c r)) :
    init q p cell =
      .ok { cells := (table q p f).flatten, columnCount := q, rowCount := p } := by
  refine init_eq_ok (length_table q p f) (hasWidth_table q p f) fun r c x hx => ?_
  have hr : r < p := by
    by_contra hle
    rw [cellAt?_of_length_le (by simpa using hle)] at hx
    cases hx
  have hc : c < q := by
    by_contra hle
    rw [cellAt?_of_width_le (hasWidth_table q p f) r (Nat.le_of_not_lt hle)] at hx
    cases hx
  rw [cellAt?_table hr hc] at hx
  exact (h r hr c hc).trans (congrArg Except.ok (Option.some.inj hx))

/-- **A cell of a matrix is in its place.** -/
theorem index_flat (hm : m.WellFormed) (hx : cellAt? m.rows i c = some x) :
    m.flat.index c i = .ok x := by
  have hi : i < m.rowCount := by
    by_contra hle
    cases (cellAt?_of_length_le (Nat.le_of_not_lt hle) c).symm.trans hx
  have hc : c < m.columnCount := by
    by_contra hle
    cases (cellAt?_of_width_le hm.length_row i (Nat.le_of_not_lt hle)).symm.trans hx
  rw [index, columnCount_flat, rowCount_flat, ensure_eq_ok (decide_eq_true hc),
    ensure_eq_ok (decide_eq_true hi)]
  exact fetch_eq_ok ((getElem?_flatten hm.length_row hc i).trans hx)

/-! ### Labels and rearranging -/

theorem withLabels_flat (m : ComplexMatrix R) (labels : List String) :
    m.flat.withLabels labels = lift flat (m.withLabels labels) := by
  unfold FlatMatrix.withLabels LabelledMatrix.withLabels
  rw [columnCount_flat]
  split <;> rfl

theorem withLabelsOf_flat (h : m.columnCount = n.columnCount) :
    m.flat.withLabelsOf n.flat = (⟨m.rows, n.labels, m.remembered⟩ : ComplexMatrix R).flat :=
  if_pos h

theorem transpose_flat (hm : m.WellFormed) : m.flat.transpose = .ok m.transpose.flat := by
  have hinit : init m.rowCount m.columnCount (fun column row => m.flat.index row column) =
      .ok { cells := m.columns.flatten, columnCount := m.rowCount, rowCount := m.columnCount } :=
    init_eq_ok (length_columns m) (hasWidth_columns hm.length_row) fun r c x hx =>
      index_flat hm ((cellAt?_columns hm.length_row r c).symm.trans hx)
  rw [FlatMatrix.transpose, columnCount_flat, rowCount_flat, hinit]
  exact congrArg Except.ok (flat_eq hm.columnCount_pos (length_columns m)
    (hasWidth_columns hm.length_row) none m.remembered).symm

theorem map_flat (hm : m.WellFormed) (f : Complex R → Complex R) :
    m.flat.map f = .ok (m.map f).flat := by
  have hw : HasWidth m.columnCount (m.rows.map (List.map f)) :=
    List.forall_mem_map.mpr fun row hrow => (List.length_map f).trans (hm.length_row row hrow)
  have hlen : (m.rows.map (List.map f)).length = m.rowCount := List.length_map _
  have hcells : m.flat.cells.map f = (m.rows.map (List.map f)).flatten := List.map_flatten
  rw [FlatMatrix.map, columnCount_flat, rowCount_flat, hcells, ofCells_flatten hlen hw]
  exact congrArg Except.ok (flat_eq hm.rowCount_pos hlen hw none none).symm

/-- Leaving out a row and a column where others are left. -/
theorem without_flat (hm : m.WellFormed) (hi : i < m.rowCount) (hj : j < m.columnCount)
    (hrows : m.rowCount ≠ 1) (hcols : m.columnCount ≠ 1) :
    m.flat.without i j = .ok (⟨LabelledMatrix.without i j m.rows, none, none⟩ :
      ComplexMatrix R).flat := by
  obtain ⟨q, hq⟩ : ∃ q, m.columnCount = q + 1 := ⟨m.columnCount - 1, by omega⟩
  have hw : HasWidth (m.columnCount - 1) (LabelledMatrix.without i j m.rows) := by
    rw [hq, Nat.add_sub_cancel]
    exact hasWidth_without (hq ▸ hm.length_row) (hq ▸ hj)
  have hlen : (LabelledMatrix.without i j m.rows).length = m.rowCount - 1 := length_without hi
  have hskip : ∀ k l : Nat, (if k ≤ l then l + 1 else l) = skipping k l := by
    intro k l
    unfold skipping
    split <;> split <;> omega
  rw [FlatMatrix.without, columnCount_flat, rowCount_flat, ensure_eq_ok (by simp; omega), ok_bind,
    difference_eq_ok (by omega), ok_bind, difference_eq_ok (by omega), ok_bind,
    init_eq_ok hlen hw fun r c x hx => ?_]
  · exact congrArg Except.ok (flat_eq (by omega) hlen hw none none).symm
  · rw [hskip, hskip]
    exact index_flat hm ((cellAt?_without i j m.rows r c).symm.trans hx)

theorem minor_flat (hm : m.WellFormed) : m.flat.minor i j = lift flat (m.minor i j) := by
  unfold FlatMatrix.minor LabelledMatrix.minor
  rw [columnCount_flat, rowCount_flat]
  split
  · rfl
  · rename_i hrange
    split
    · rfl
    · rename_i hone
      simp only [Bool.or_eq_true, decide_eq_true_eq, not_or, Nat.not_le] at hrange hone
      exact without_flat hm hrange.1 hrange.2 hone.1 hone.2

/-! ### Joining and splitting -/

theorem beside_flat (hm : m.WellFormed) (hn : n.WellFormed) :
    m.flat.beside n.flat = lift flat (m.beside n) := by
  unfold FlatMatrix.beside LabelledMatrix.beside
  rw [columnCount_flat, rowCount_flat, columnCount_flat, rowCount_flat]
  split
  · rename_i hrows
    have hlen : m.rows.length = n.rows.length := hrows
    have hlen' : (List.zipWith (· ++ ·) m.rows n.rows).length = m.rowCount := by
      rw [List.length_zipWith, ← hlen, Nat.min_self]
      rfl
    have hw := hasWidth_zipWith_append hm.length_row hn.length_row
    rw [init_eq_ok hlen' hw fun r c x hx => ?_]
    · exact congrArg Except.ok (flat_eq hm.rowCount_pos hlen' hw none none).symm
    · rw [cellAt?_beside hm.length_row hlen] at hx
      split
      · rename_i hc
        rw [if_pos hc] at hx
        exact index_flat hm hx
      · rename_i hc
        rw [if_neg hc] at hx
        rw [difference_eq_ok (Nat.le_of_not_lt hc), ok_bind]
        exact index_flat hn hx
  · rfl

theorem above_flat (hm : m.WellFormed) (hn : n.WellFormed) :
    m.flat.above n.flat = lift flat (m.above n) := by
  unfold FlatMatrix.above LabelledMatrix.above
  rw [columnCount_flat, rowCount_flat, columnCount_flat, rowCount_flat]
  split
  · rename_i hcols
    have hw : HasWidth m.columnCount (m.rows ++ n.rows) :=
      List.forall_mem_append.mpr ⟨hm.length_row, hcols ▸ hn.length_row⟩
    have hlen : (m.rows ++ n.rows).length = m.rowCount + n.rowCount := List.length_append
    have hcells : m.flat.cells ++ n.flat.cells = (m.rows ++ n.rows).flatten :=
      List.flatten_append.symm
    rw [hcells, ofCells_flatten hlen hw]
    exact congrArg Except.ok
      (flat_eq (Nat.add_pos_left hm.rowCount_pos _) hlen hw none none).symm
  · rfl

theorem cellAt?_map_tail (rows : List (List (Complex R))) (r c : Nat) :
    cellAt? (rows.map List.tail) r c = cellAt? rows r (c + 1) := by
  simp only [cellAt?, List.getElem?_map, Option.bind_map]
  cases rows[r]? <;> simp

theorem dropColumn_flat (hm : m.WellFormed) : m.flat.dropColumn = lift flat m.dropColumn := by
  unfold FlatMatrix.dropColumn LabelledMatrix.dropColumn
  rw [columnCount_flat, rowCount_flat]
  split
  · rfl
  · rename_i hcols
    obtain ⟨q, hq⟩ : ∃ q, m.columnCount = q + 1 := ⟨m.columnCount - 1, by omega⟩
    have hw : HasWidth (m.columnCount - 1) (m.rows.map List.tail) := by
      rw [hq]
      exact HasWidth.map_tail (hq ▸ hm.length_row)
    have hlen : (m.rows.map List.tail).length = m.rowCount := List.length_map _
    rw [difference_eq_ok (by omega), ok_bind, init_eq_ok hlen hw fun r c x hx =>
      index_flat hm ((cellAt?_map_tail m.rows r c).symm.trans hx)]
    exact congrArg Except.ok (flat_eq hm.rowCount_pos hlen hw none none).symm

theorem rowMatrix_flat (hm : m.WellFormed) {row : List (Complex R)} (hrow : m.rows[i]? = some row) :
    m.flat.rowMatrix i = .ok (⟨[row], none, none⟩ : ComplexMatrix R).flat := by
  have hw : HasWidth m.columnCount [row] :=
    List.forall_mem_singleton.mpr (hm.length_row row (List.mem_of_getElem? hrow))
  rw [FlatMatrix.rowMatrix, columnCount_flat,
    init_eq_ok (show [row].length = 1 from rfl) hw fun r c x hx => ?_]
  · exact congrArg Except.ok (flat_eq Nat.one_pos rfl hw none none).symm
  · cases r with
    | zero => exact index_flat hm (by rwa [cellAt?, hrow])
    | succ r => cases hx

end FlatMatrix
end LinearEquations
