import LinearEquations.Proofs.FlatLayout
import LinearEquations.Scalar.Double

/-! # Operations that keep shape and labels

Row operations and eliminations give a matrix of the shape and with the labels they were given
(`rowOperations_keep`), whatever the arithmetic and whatever the cells.

Elimination does not carry labels along.  It cuts rows and columns off and joins what remains to
zeros, and all of these are made anew, without labels; only where a single row is scaled, or a line
of zeros is given back, they are still there.  The labels of the whole are put on at the end, and
only if the result is as wide as the matrix was, so the labels hang on the shapes: `echelon_spec`
follows them through every branch of the recursion.  The same branches say what is remembered, for
nothing made anew remembers a determinant. -/

namespace LinearEquations.FlatMatrix
open Checked

variable {R : Type} {m n r : FlatMatrix R} {p q i j : Nat}

/-! ### Matrices made anew -/

/-- A matrix without labels that remembers nothing. -/
structure IsFresh (r : FlatMatrix R) (p q : Nat) : Prop where
  rowCount : r.rowCount = p
  columnCount : r.columnCount = q
  labels : r.labels = none
  remembered : r.remembered = none

theorem eq_of_difference {a b d : Nat} (h : (difference a b : Checked R Nat) = .ok d) :
    b ≤ a ∧ d = a - b := by
  unfold difference ensure at h
  split at h
  · rename_i hle
    cases h
    exact ⟨of_decide_eq_true hle, rfl⟩
  · cases h

theorem ofCells_isFresh {cells : List (Complex R)} (h : ofCells cells q p = .ok r) :
    r.IsFresh p q := by
  obtain ⟨_, -, h⟩ := bind_eq_ok.mp h
  cases h
  exact ⟨rfl, rfl, rfl, rfl⟩

theorem init_isFresh {cell : Nat → Nat → Checked R (Complex R)} (h : init q p cell = .ok r) :
    r.IsFresh p q := by
  obtain ⟨_, -, h⟩ := bind_eq_ok.mp h
  exact ofCells_isFresh h

theorem beside_isFresh (h : m.beside n = .ok r) :
    r.IsFresh m.rowCount (m.columnCount + n.columnCount) := by
  unfold beside at h
  split at h
  · exact init_isFresh h
  · cases h

theorem above_isFresh (h : m.above n = .ok r) :
    r.IsFresh (m.rowCount + n.rowCount) m.columnCount := by
  unfold above at h
  split at h
  · exact ofCells_isFresh h
  · cases h

theorem dropColumn_isFresh (h : m.dropColumn = .ok r) :
    2 ≤ m.columnCount ∧ r.IsFresh m.rowCount (m.columnCount - 1) := by
  unfold dropColumn at h
  split at h
  · cases h
  · rename_i hcols
    obtain ⟨q, hq, h⟩ := bind_eq_ok.mp h
    obtain ⟨-, rfl⟩ := eq_of_difference hq
    exact ⟨Nat.le_of_not_lt hcols, init_isFresh h⟩

/-! ### Row operations -/

/-- The same shape and the same labels, or none if there were none. -/
structure Keeps (m r : FlatMatrix R) : Prop where
  rowCount : r.rowCount = m.rowCount
  columnCount : r.columnCount = m.columnCount
  labels : r.labels = m.labels

theorem Keeps.refl (m : FlatMatrix R) : m.Keeps m := ⟨rfl, rfl, rfl⟩

theorem Keeps.trans (h : m.Keeps n) (h' : n.Keeps r) : m.Keeps r where
  rowCount := h'.rowCount.trans h.rowCount
  columnCount := h'.columnCount.trans h.columnCount
  labels := h'.labels.trans h.labels

/-- Labels are taken over by a matrix that is as wide. -/
theorem withLabelsOf_keeps (hrows : r.rowCount = m.rowCount)
    (hcols : r.columnCount = m.columnCount) :
    m.Keeps (r.withLabelsOf m) ∧ (r.withLabelsOf m).remembered = r.remembered := by
  rw [withLabelsOf, if_pos hcols]
  exact ⟨⟨hrows, hcols, rfl⟩, rfl⟩

/-- **Whatever is done to the array, the shape and the labels stay**, and what was remembered is
lost. -/
theorem withCells_keeps {change : List (Complex R) → Checked R (List (Complex R))}
    (h : m.withCells change = .ok r) : m.Keeps r ∧ r.remembered = none := by
  obtain ⟨cells, -, h⟩ := bind_eq_ok.mp h
  obtain ⟨made, hmade, h⟩ := bind_eq_ok.mp h
  cases h
  have hfresh := ofCells_isFresh hmade
  obtain ⟨hkeeps, hrem⟩ := withLabelsOf_keeps hfresh.rowCount hfresh.columnCount
  exact ⟨hkeeps, hrem.trans hfresh.remembered⟩

theorem swapRows_keeps (h : m.swapRows i j = .ok r) : m.Keeps r := by
  obtain ⟨_, -, h⟩ := bind_eq_ok.mp h
  obtain ⟨_, -, h⟩ := bind_eq_ok.mp h
  exact (withCells_keeps h).1

theorem pivotOnTop_keeps (h : m.pivotOnTop i = .ok r) : m.Keeps r := by
  unfold pivotOnTop at h
  split at h
  · cases h
    exact .refl m
  · exact swapRows_keeps h

variable [Scalar R] {k : Operand R}

theorem scaleRow_keeps (h : m.scaleRow i k = .ok r) : m.Keeps r ∧ r.remembered = none := by
  obtain ⟨_, -, h⟩ := bind_eq_ok.mp h
  obtain ⟨_, -, h⟩ := bind_eq_ok.mp h
  exact withCells_keeps h

theorem addRow_keeps (h : m.addRow i j = .ok r) : m.Keeps r := by
  obtain ⟨_, -, h⟩ := bind_eq_ok.mp h
  obtain ⟨_, -, h⟩ := bind_eq_ok.mp h
  exact (withCells_keeps h).1

theorem addMultiple_keeps (h : m.addMultiple i j k = .ok r) : m.Keeps r := by
  obtain ⟨scaled, hscaled, h⟩ := bind_eq_ok.mp h
  obtain ⟨moved, hmoved, h⟩ := bind_eq_ok.mp h
  obtain ⟨_, -, h⟩ := bind_eq_ok.mp h
  exact ((scaleRow_keeps hscaled).1.trans (addRow_keeps hmoved)).trans (withCells_keeps h).1

/-! ### Elimination -/

theorem clearRow_keeps (h : clearRow j i m p = .ok r) : m.Keeps r := by
  obtain ⟨entry, -, h⟩ := bind_eq_ok.mp h
  split at h
  · cases h
    exact .refl m
  · exact addMultiple_keeps h

theorem clear_keeps {rows : List Nat} (h : m.clear j i rows = .ok r) : m.Keeps r := by
  induction rows generalizing m with
  | nil =>
    cases h
    exact .refl _
  | cons row rows ih =>
    obtain ⟨cleared, hcleared, h⟩ := bind_eq_ok.mp ((List.foldlM_cons ..).symm.trans h)
    exact (clearRow_keeps hcleared).trans (ih h)

/-- A single row or a single column of zeros. -/
def IsZeroLine (m : FlatMatrix R) : Prop :=
  (m.rowCount = 1 ∨ m.columnCount = 1) ∧ ∀ x ∈ m.cells, x.isZero

/-- What every branch of the elimination gives: the shape is kept, and a determinant is remembered
by a line of zeros only. -/
structure IsEchelonOf (m r : FlatMatrix R) : Prop where
  rowCount : r.rowCount = m.rowCount
  columnCount : r.columnCount = m.columnCount
  eq_of_remembered : r.remembered.isSome → m.IsZeroLine ∧ r = m

theorem IsEchelonOf.refl (hline : m.rowCount = 1 ∨ m.columnCount = 1)
    (hzero : ∀ x ∈ m.cells, x.isZero) : m.IsEchelonOf m :=
  ⟨rfl, rfl, fun _ => ⟨⟨hline, hzero⟩, rfl⟩⟩

theorem IsEchelonOf.of_remembered (hrows : r.rowCount = m.rowCount)
    (hcols : r.columnCount = m.columnCount) (hrem : r.remembered = none) : m.IsEchelonOf r :=
  ⟨hrows, hcols, fun hsome => by rw [hrem] at hsome; cases hsome⟩

theorem IsFresh.isEchelonOf (h : r.IsFresh m.rowCount m.columnCount) : m.IsEchelonOf r :=
  .of_remembered h.rowCount h.columnCount h.remembered

/-- Zeros to the left of a matrix. -/
theorem zeros_beside_isFresh {left : FlatMatrix R} (hleft : zeros 1 p = .ok left)
    (h : left.beside n = .ok r) : r.IsFresh p (1 + n.columnCount) := by
  have hzeros : left.IsFresh p 1 := init_isFresh hleft
  have hfresh := beside_isFresh h
  rwa [hzeros.rowCount, hzeros.columnCount] at hfresh

/-- The first row of a matrix, on top of zeros and what remains of the other rows. -/
theorem above_zeros_isFresh {left rest underneath top : FlatMatrix R}
    (hbelow : (difference m.rowCount 1 : Checked R Nat) = .ok p) (hleft : zeros 1 p = .ok left)
    (hunderneath : left.beside rest = .ok underneath) (htop : m.rowMatrix 0 = .ok top)
    (h : top.above underneath = .ok r) : r.IsFresh m.rowCount m.columnCount := by
  obtain ⟨hpos, rfl⟩ := eq_of_difference hbelow
  have htop : top.IsFresh 1 m.columnCount := init_isFresh htop
  have hfresh := above_isFresh h
  rwa [htop.rowCount, htop.columnCount, (zeros_beside_isFresh hleft hunderneath).rowCount,
    Nat.add_sub_cancel' hpos] at hfresh

/-- **Elimination keeps the shape, and only a line of zeros remembers a determinant.**  By induction
on the rounds, with the branches of a round in their order. -/
theorem echelon_spec {depth : Nat} (h : m.echelon depth = .ok r) : m.IsEchelonOf r := by
  induction depth generalizing m r with
  | zero => cases h
  | succ depth ih =>
    unfold echelon at h
    split at h
    · rename_i hone
      split at h
      · obtain ⟨k, -, h⟩ := bind_eq_ok.mp h
        obtain ⟨hkeeps, hrem⟩ := scaleRow_keeps h
        exact .of_remembered hkeeps.rowCount hkeeps.columnCount hrem
      · rename_i hzero
        cases h
        exact .refl (.inl hone) (by simpa using List.find?_eq_none.mp hzero)
    · split at h
      · rename_i hone
        split at h
        · rename_i hzero
          cases h
          exact .refl (.inr hone) (by simpa using hzero)
        · exact (hone ▸ init_isFresh h).isEchelonOf
      · obtain ⟨pivot?, -, h⟩ := bind_eq_ok.mp h
        cases pivot? with
        | none =>
          obtain ⟨left, hleft, h⟩ := bind_eq_ok.mp h
          obtain ⟨dropped, hdropped, h⟩ := bind_eq_ok.mp h
          obtain ⟨rest, hrest, h⟩ := bind_eq_ok.mp h
          obtain ⟨hcols, hfresh⟩ := dropColumn_isFresh hdropped
          have hwide : 1 + rest.columnCount = m.columnCount := by
            rw [(ih hrest).columnCount, hfresh.columnCount]
            omega
          exact (hwide ▸ zeros_beside_isFresh hleft h).isEchelonOf
        | some pivot =>
          obtain ⟨swapped, hswapped, h⟩ := bind_eq_ok.mp h
          obtain ⟨_, -, h⟩ := bind_eq_ok.mp h
          obtain ⟨_, -, h⟩ := bind_eq_ok.mp h
          obtain ⟨scaled, hscaled, h⟩ := bind_eq_ok.mp h
          obtain ⟨cleared, hcleared, h⟩ := bind_eq_ok.mp h
          obtain ⟨_, -, h⟩ := bind_eq_ok.mp h
          obtain ⟨rest, -, h⟩ := bind_eq_ok.mp h
          obtain ⟨below, hbelow, h⟩ := bind_eq_ok.mp h
          obtain ⟨left, hleft, h⟩ := bind_eq_ok.mp h
          obtain ⟨underneath, hunderneath, h⟩ := bind_eq_ok.mp h
          obtain ⟨top, htop, h⟩ := bind_eq_ok.mp h
          have hkeeps : m.Keeps cleared :=
            ((pivotOnTop_keeps hswapped).trans (scaleRow_keeps hscaled).1).trans
              (clear_keeps hcleared)
          have hfresh := above_zeros_isFresh hbelow hleft hunderneath htop h
          rw [hkeeps.rowCount, hkeeps.columnCount] at hfresh
          exact hfresh.isEchelonOf

theorem rowEchelon_spec (h : m.rowEchelon = .ok r) :
    m.Keeps r ∧ (r.remembered.isSome → m.IsZeroLine ∧ r = m) := by
  obtain ⟨e, he, h⟩ := bind_eq_ok.mp h
  cases h
  have hspec := echelon_spec he
  obtain ⟨hkeeps, hrem⟩ := withLabelsOf_keeps hspec.rowCount hspec.columnCount
  refine ⟨hkeeps, fun hsome => ?_⟩
  obtain ⟨hzero, rfl⟩ := hspec.eq_of_remembered (hrem ▸ hsome)
  exact ⟨hzero, if_pos rfl⟩

theorem reduceFrom_keeps {count row : Nat} (h : m.reduceFrom count row = .ok r) : m.Keeps r := by
  induction count generalizing m row with
  | zero =>
    cases h
    exact .refl _
  | succ count ih =>
    obtain ⟨leading, -, h⟩ := bind_eq_ok.mp h
    cases leading with
    | none =>
      cases h
      exact .refl _
    | some leading =>
      obtain ⟨cleared, hcleared, h⟩ := bind_eq_ok.mp h
      exact (clear_keeps hcleared).trans (ih h)

/-- **Row operations and eliminations keep the shape and the labels**, in all arithmetic and for all
arguments, and an echelon form remembers a determinant only if it is a line of zeros that is given
back as it was. -/
theorem rowOperations_keep (m : FlatMatrix R) :
    (∀ first second r, m.swapRows first second = .ok r → m.Keeps r) ∧
    (∀ row k r, m.scaleRow row k = .ok r → m.Keeps r) ∧
    (∀ destination source r, m.addRow destination source = .ok r → m.Keeps r) ∧
    (∀ destination source k r, m.addMultiple destination source k = .ok r → m.Keeps r) ∧
    (∀ r, m.rowEchelon = .ok r → m.Keeps r ∧ (r.remembered.isSome → m.IsZeroLine ∧ r = m)) ∧
    ∀ r, m.reducedRowEchelon = .ok r → m.Keeps r := by
  refine ⟨fun _ _ _ h => swapRows_keeps h, fun _ _ _ h => (scaleRow_keeps h).1,
    fun _ _ _ h => addRow_keeps h, fun _ _ _ _ h => addMultiple_keeps h,
    fun _ h => rowEchelon_spec h, fun r h => ?_⟩
  obtain ⟨e, he, h⟩ := bind_eq_ok.mp h
  exact (rowEchelon_spec he).1.trans (reduceFrom_keeps h)

/-- Two rows with labels whose first column needs another pivot, and a zero that remembers its
determinant. -/
theorem rowOperations_keep_of_two_rows :
    let m : FlatMatrix Float := { cells := [⟨0, 0⟩, ⟨2, 0⟩, ⟨0, 1⟩, ⟨3, 0⟩],
                                  columnCount := 2, rowCount := 2, labels := some ["x", "rhs"] }
    let zero : FlatMatrix Float := { cells := [⟨-0.0, 0⟩], columnCount := 1, rowCount := 1,
                                     labels := some ["x"], remembered := some ⟨0, 0⟩ }
    (∃ r, m.swapRows 0 1 = .ok r ∧ m.Keeps r) ∧
    (∃ r, m.scaleRow 0 (.complex ⟨0, 1⟩) = .ok r ∧ m.Keeps r) ∧
    (∃ r, m.addRow 1 1 = .ok r ∧ m.Keeps r) ∧
    (∃ r, m.addMultiple 0 1 (.complex ⟨2, 0⟩) = .ok r ∧ m.Keeps r) ∧
    (∃ r, m.rowEchelon = .ok r ∧ m.Keeps r) ∧
    (∃ r, m.reducedRowEchelon = .ok r ∧ m.Keeps r) ∧
    zero.rowEchelon = .ok zero ∧ zero.IsZeroLine := by
  intro m zero
  obtain ⟨hswap, hscale, hadd, haddMultiple, hechelon, hreduced⟩ := rowOperations_keep m
  obtain ⟨r₁, h₁⟩ := exists_eq_ok (x := m.swapRows 0 1) (by decide +kernel)
  obtain ⟨r₂, h₂⟩ := exists_eq_ok (x := m.scaleRow 0 (.complex ⟨0, 1⟩)) (by decide +kernel)
  obtain ⟨r₃, h₃⟩ := exists_eq_ok (x := m.addRow 1 1) (by decide +kernel)
  obtain ⟨r₄, h₄⟩ := exists_eq_ok (x := m.addMultiple 0 1 (.complex ⟨2, 0⟩)) (by decide +kernel)
  obtain ⟨r₅, h₅⟩ := exists_eq_ok (x := m.rowEchelon) (by decide +kernel)
  obtain ⟨r₆, h₆⟩ := exists_eq_ok (x := m.reducedRowEchelon) (by decide +kernel)
  have hsome : (zero.rowEchelon.toOption.bind (·.remembered)).isSome := by decide +kernel
  obtain ⟨r, h⟩ := exists_eq_ok (x := zero.rowEchelon) (by decide +kernel)
  rw [h] at hsome
  obtain ⟨hzero, rfl⟩ := ((rowOperations_keep zero).2.2.2.2.1 r h).2 hsome
  exact ⟨⟨r₁, h₁, hswap _ _ _ h₁⟩, ⟨r₂, h₂, hscale _ _ _ h₂⟩, ⟨r₃, h₃, hadd _ _ _ h₃⟩,
    ⟨r₄, h₄, haddMultiple _ _ _ _ h₄⟩, ⟨r₅, h₅, (hechelon _ h₅).1⟩, ⟨r₆, h₆, hreduced _ h₆⟩, h,
    hzero⟩

end LinearEquations.FlatMatrix
