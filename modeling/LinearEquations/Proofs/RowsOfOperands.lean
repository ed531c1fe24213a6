import LinearEquations.Proofs.Construction
import LinearEquations.Proofs.FlatViews
import LinearEquations.Scalar.Double

/-! # Matrices of operands

A matrix is read from rows of operands, row by row, into one array: the number of columns is learned
from the first row, and a row is refused for an entry that is not finite before its length is looked
at.  So the first row with something wrong settles the error, whatever follows it, and a list without
such a row can only be refused for being empty (`ofOperands_outcome`). -/

namespace LinearEquations

namespace Operand

/-- Neither an infinity nor something that is no number. -/
def IsFinite {R : Type} [Scalar R] : Operand R → Prop
  | .real x => Scalar.isFinite x
  | .complex a => a.isFinite

/-- The complex number that a cell holds for an operand: a real one gets `+0` as its imaginary
part. -/
inductive Promotes : Operand Float → Complex Float → Prop
  | real (x : Float) : Promotes (.real x) ⟨x, Float.ofBits 0⟩
  | complex (a : Complex Float) : Promotes (.complex a) a

theorem promotes_value (entry : Operand Float) : Promotes entry entry.value := by
  cases entry with
  | real x =>
    have hvalue : (Operand.real x).value = ⟨x, Float.ofBits 0⟩ :=
      congrArg (Complex.mk x) (by decide +kernel)
    exact hvalue ▸ .real x
  | complex a => exact .complex a

theorem isFinite_value (entry : Operand Float) : entry.value.isFinite ↔ entry.IsFinite := by
  cases entry with
  | real x =>
    have hzero : Scalar.isFinite (0 : Float) = true := by decide +kernel
    simp [value, Complex.ofReal, Complex.isFinite, IsFinite, hzero]
  | complex a => exact Iff.rfl

end Operand

namespace LabelledMatrix
variable {R : Type} [Scalar R] {expected start : Nat} {before rest : List (List (Complex R))}
variable {cells : List (Complex R)}

/-! ### The first row with something wrong -/

theorem findIdx?_of_finite (h : ∀ x ∈ cells, x.isFinite) :
    cells.findIdx? (!·.isFinite) = none :=
  List.findIdx?_eq_none_iff.mpr fun x hx => by rw [h x hx, Bool.not_true]

/-- Rows with nothing wrong are passed over. -/
theorem checkRows_append (h : ∀ cells ∈ before, IsGoodRow expected cells) :
    checkRows expected start (before ++ rest) = checkRows expected (start + before.length) rest := by
  induction before generalizing start with
  | nil => rfl
  | cons cells before ih =>
    obtain ⟨⟨hfinite, hlen⟩, hbefore⟩ := List.forall_mem_cons.mp h
    rw [List.cons_append, checkRows, findIdx?_of_finite hfinite, List.length_cons]
    simp only [if_pos hlen, ih hbefore]
    congr 1
    omega

/-- A row with something wrong ends the check. -/
theorem checkRows_cons (h : ¬ IsGoodRow expected cells) :
    checkRows expected start (cells :: rest) = .error (rowError expected start cells) := by
  rw [checkRows, rowError]
  cases hfind : cells.findIdx? (!·.isFinite) with
  | some column => rfl
  | none =>
    have hfinite : ∀ x ∈ cells, x.isFinite := by simpa using List.findIdx?_eq_none_iff.mp hfind
    exact if_neg fun hlen => h ⟨hfinite, hlen⟩

theorem rowError_of_finite (h : ∀ x ∈ cells, x.isFinite) :
    rowError expected start cells = .raggedRows start expected cells.length := by
  rw [rowError, findIdx?_of_finite h]

theorem rowError_append_cons {left right : List (Complex R)} {x : Complex R}
    (hleft : ∀ y ∈ left, y.isFinite) (hx : ¬ x.isFinite) :
    rowError expected start (left ++ x :: right) = .invalidElement start left.length := by
  have hfind : (left ++ x :: right).findIdx? (!·.isFinite) = some left.length := by
    rw [List.findIdx?_append, findIdx?_of_finite hleft, List.findIdx?_cons,
      Bool.eq_false_iff.mpr hx]
    simp
  rw [rowError, hfind]

end LabelledMatrix

namespace FlatMatrix
open LabelledMatrix Checked

variable {entries before after : List (List (Operand Float))} {row : List (Operand Float)}

/-! ### Rows of operands -/

/-- There is a row, the rows have the same length, which is not zero, and all entries are finite. -/
structure IsTable (entries : List (List (Operand Float))) : Prop where
  ne_nil : entries ≠ []
  length_row : ∃ n, 0 < n ∧ ∀ row ∈ entries, row.length = n
  finite : ∀ row ∈ entries, ∀ x ∈ row, x.IsFinite

/-- Finite entries, as many as in the first row. -/
def IsSound (entries : List (List (Operand Float))) (row : List (Operand Float)) : Prop :=
  (∀ x ∈ row, x.IsFinite) ∧ row.length = (entries.headD []).length

/-- The rows `before`, then the first row with an entry that is not finite or a length other than
that of the first of all, then what follows it. -/
structure IsFirstUnsound (entries before : List (List (Operand Float)))
    (row : List (Operand Float)) (after : List (List (Operand Float))) : Prop where
  split : entries = before ++ row :: after
  sound_before : ∀ other ∈ before, IsSound entries other
  unsound : ¬ IsSound entries row

theorem isGoodRow_map_value {width : Nat} (row : List (Operand Float)) :
    IsGoodRow width (row.map Operand.value) ↔ (∀ x ∈ row, x.IsFinite) ∧ row.length = width := by
  rw [IsGoodRow, List.forall_mem_map, List.length_map]
  exact and_congr_left' (forall₂_congr fun x _ => Operand.isFinite_value x)

theorem length_headD_map_value (entries : List (List (Operand Float))) :
    ((entries.map (List.map Operand.value)).headD []).length = (entries.headD []).length := by
  cases entries with
  | nil => rfl
  | cons row rest => exact List.length_map _

/-- Rows are a table if nothing is wrong with any of them and they are not empty. -/
theorem isTable_iff :
    IsTable entries ↔ (∀ row ∈ entries, IsSound entries row) ∧ entries.headD [] ≠ [] := by
  constructor
  · intro h
    obtain ⟨n, hn, hlen⟩ := h.length_row
    obtain ⟨row, rest, rfl⟩ := List.exists_cons_of_ne_nil h.ne_nil
    have hrow : row.length = n := hlen row List.mem_cons_self
    refine ⟨fun other hother => ⟨h.finite other hother, (hlen other hother).trans hrow.symm⟩, ?_⟩
    exact List.ne_nil_of_length_pos (hrow ▸ hn)
  · rintro ⟨hsound, hne⟩
    refine ⟨?_, ⟨_, List.length_pos_iff.mpr hne, fun row hrow => (hsound row hrow).2⟩,
      fun row hrow => (hsound row hrow).1⟩
    rintro rfl
    exact hne rfl

/-- **When rows of operands make a matrix**, and what is in it. -/
theorem labelled_ofOperands_eq_ok {m : ComplexMatrix Float} :
    LabelledMatrix.ofOperands entries = .ok m ↔
      IsTable entries ∧ m = { rows := entries.map (List.map Operand.value) } := by
  rw [LabelledMatrix.ofOperands, ofRows_eq_ok, isTable_iff, ← and_assoc]
  refine and_congr_left' (and_congr ?_ (not_congr ?_))
  · rw [List.forall_mem_map, length_headD_map_value]
    exact forall₂_congr fun row _ => isGoodRow_map_value row
  · rw [← List.length_eq_zero_iff, length_headD_map_value, List.length_eq_zero_iff]

/-- The first row with something wrong settles the error. -/
theorem ofOperands_of_isFirstUnsound (h : IsFirstUnsound entries before row after) :
    FlatMatrix.ofOperands entries =
      refuse (rowError (entries.headD []).length before.length (row.map Operand.value)) := by
  have hgood : ∀ cells ∈ before.map (List.map Operand.value),
      IsGoodRow (entries.headD []).length cells :=
    List.forall_mem_map.mpr fun other hother =>
      (isGoodRow_map_value other).mpr (h.sound_before other hother)
  have hbad : ¬ IsGoodRow (entries.headD []).length (row.map Operand.value) :=
    fun hrow => h.unsound ((isGoodRow_map_value row).mp hrow)
  have hcheck : checkRows (entries.headD []).length 0 (entries.map (List.map Operand.value)) =
      .error (rowError (entries.headD []).length before.length (row.map Operand.value)) := by
    conv_lhs => rw [h.split, List.map_append, List.map_cons, ← h.split]
    rw [checkRows_append hgood, checkRows_cons hbad, List.length_map, Nat.zero_add]
  rw [ofOperands_flat, LabelledMatrix.ofOperands, ofRows, length_headD_map_value, hcheck]
  rfl

theorem headD_of_empty (h : ∀ row ∈ entries, row = []) : entries.headD [] = [] := by
  cases entries with
  | nil => rfl
  | cons row rest => exact h row List.mem_cons_self

/-- A row that is not sound has a first such row before it, or is the first one. -/
theorem exists_isFirstUnsound (hrow : row ∈ entries) (h : ¬ IsSound entries row) :
    ∃ before row after, IsFirstUnsound entries before row after := by
  have hsplit : ∀ rows : List (List (Operand Float)), row ∈ rows → ∃ before first after,
      rows = before ++ first :: after ∧ (∀ other ∈ before, IsSound entries other) ∧
        ¬ IsSound entries first := by
    intro rows hmem
    induction rows with
    | nil => cases hmem
    | cons first rest ih =>
      by_cases hfirst : IsSound entries first
      · have hrest : row ∈ rest := by
          refine (List.mem_cons.mp hmem).resolve_left ?_
          rintro rfl
          exact h hfirst
        obtain ⟨before, bad, after, rfl, hbefore, hbad⟩ := ih hrest
        exact ⟨first :: before, bad, after, rfl, List.forall_mem_cons.mpr ⟨hfirst, hbefore⟩, hbad⟩
      · exact ⟨[], first, rest, rfl, List.forall_mem_nil _, hfirst⟩
  obtain ⟨before, first, after, hentries, hbefore, hfirst⟩ := hsplit entries hrow
  exact ⟨before, first, after, hentries, hbefore, hfirst⟩

/-- Rows that are no table and have nothing wrong in them are empty. -/
theorem forall_eq_nil_iff :
    (∀ row ∈ entries, row = []) ↔
      ¬ IsTable entries ∧ ∀ before row after, ¬ IsFirstUnsound entries before row after := by
  constructor
  · intro h
    refine ⟨fun ht => (isTable_iff.mp ht).2 (headD_of_empty h), fun before row after hrow => ?_⟩
    have hnil : row = [] := h row (hrow.split ▸ by simp)
    exact hrow.unsound ⟨by simp [hnil], by rw [hnil, headD_of_empty h]⟩
  · rintro ⟨hno, hfirst⟩ row hrow
    have hsound : ∀ other ∈ entries, IsSound entries other := fun other hother => by
      by_contra hunsound
      obtain ⟨before, bad, after, h⟩ := exists_isFirstUnsound hother hunsound
      exact hfirst before bad after h
    have hhead : entries.headD [] = [] :=
      by_contra fun hne => hno (isTable_iff.mpr ⟨hsound, hne⟩)
    have hlen := (hsound row hrow).2
    rwa [hhead, List.length_nil, List.length_eq_zero_iff] at hlen

/-- Rows without entries are refused for being empty. -/
theorem ofOperands_of_empty (h : ∀ row ∈ entries, row = []) :
    FlatMatrix.ofOperands entries = refuse .empty := by
  have hcheck : checkRows 0 0 (entries.map (List.map Operand.value)) = .ok () := by
    refine checkRows_eq_ok.mpr (List.forall_mem_map.mpr fun row hrow => ?_)
    rw [h row hrow]
    exact ⟨List.forall_mem_nil _, rfl⟩
  have hlen := length_headD_map_value entries
  rw [headD_of_empty h, List.length_nil] at hlen
  have hempty : ((entries.map (List.map Operand.value)).headD []).isEmpty = true :=
    List.isEmpty_iff.mpr (List.length_eq_zero_iff.mp hlen)
  rw [ofOperands_flat, LabelledMatrix.ofOperands, ofRows, hlen, hcheck]
  simp only [hempty, if_true]
  rfl

theorem ofOperands_eq_ok {m : FlatMatrix Float} :
    FlatMatrix.ofOperands entries = .ok m ↔
      IsTable entries ∧ m = flat { rows := entries.map (List.map Operand.value) } := by
  rw [ofOperands_flat]
  constructor
  · intro h
    cases hl : LabelledMatrix.ofOperands entries with
    | error e => cases hl ▸ h
    | ok l =>
      obtain ⟨htable, rfl⟩ := labelled_ofOperands_eq_ok.mp hl
      cases hl ▸ h
      exact ⟨htable, rfl⟩
  · rintro ⟨htable, rfl⟩
    rw [labelled_ofOperands_eq_ok.mpr ⟨htable, rfl⟩]
    rfl

/-- Only rows without entries are refused for being empty. -/
theorem ofOperands_eq_empty :
    FlatMatrix.ofOperands entries = refuse .empty ↔ ∀ row ∈ entries, row = [] := by
  refine ⟨fun h => forall_eq_nil_iff.mpr ⟨fun ht => ?_, fun before row after hrow => ?_⟩,
    ofOperands_of_empty⟩
  · cases h.symm.trans (ofOperands_eq_ok.mpr ⟨ht, rfl⟩)
  · rw [ofOperands_of_isFirstUnsound hrow, rowError] at h
    split at h <;> cases h

/-- What was read is what the matrix shows as its rows. -/
theorem rows_of_ofOperands {m : FlatMatrix Float} (h : FlatMatrix.ofOperands entries = .ok m) :
    ∃ rows, m.rows = .ok rows ∧ List.Forall₂ (List.Forall₂ Operand.Promotes) entries rows := by
  obtain ⟨htable, rfl⟩ := ofOperands_eq_ok.mp h
  have hrows := labelled_ofOperands_eq_ok.mpr ⟨htable, rfl⟩
  refine ⟨_, rows_flat (wellFormed_of_ofRows hrows), ?_⟩
  rw [List.forall₂_map_right_iff]
  refine List.forall₂_same.mpr fun row _ => ?_
  rw [List.forall₂_map_right_iff]
  exact List.forall₂_same.mpr fun x _ => x.promotes_value

/-- **What comes of rows of operands.**  A table becomes a matrix with exactly these rows.  Otherwise
the first row with something wrong settles the error: its first entry that is not finite, if there
is one, and its length if not; without such a row the rows are empty. -/
theorem ofOperands_outcome (entries : List (List (Operand Float))) :
    ((∃ m, FlatMatrix.ofOperands entries = .ok m) ↔ IsTable entries) ∧
    (∀ m, FlatMatrix.ofOperands entries = .ok m → ∃ rows, m.rows = .ok rows ∧
      List.Forall₂ (List.Forall₂ Operand.Promotes) entries rows) ∧
    (∀ before row after, IsFirstUnsound entries before row after →
      (∀ left x right, row = left ++ x :: right → (∀ y ∈ left, y.IsFinite) → ¬ x.IsFinite →
        FlatMatrix.ofOperands entries = refuse (.invalidElement before.length left.length)) ∧
      ((∀ x ∈ row, x.IsFinite) → FlatMatrix.ofOperands entries =
        refuse (.raggedRows before.length (entries.headD []).length row.length))) ∧
    (FlatMatrix.ofOperands entries = refuse .empty ↔
      ¬ IsTable entries ∧ ∀ before row after, ¬ IsFirstUnsound entries before row after) ∧
    ((∀ row ∈ entries, row = []) ↔
      ¬ IsTable entries ∧ ∀ before row after, ¬ IsFirstUnsound entries before row after) := by
  refine ⟨⟨?_, ?_⟩, fun m => rows_of_ofOperands, fun before row after hrow =>
    ⟨?_, fun hfinite => ?_⟩, ofOperands_eq_empty.trans forall_eq_nil_iff, forall_eq_nil_iff⟩
  · rintro ⟨m, hm⟩
    exact (ofOperands_eq_ok.mp hm).1
  · exact fun htable => ⟨_, ofOperands_eq_ok.mpr ⟨htable, rfl⟩⟩
  · rintro left x right rfl hleft hx
    rw [ofOperands_of_isFirstUnsound hrow, List.map_append, List.map_cons,
      rowError_append_cons (List.forall_mem_map.mpr fun y hy => y.isFinite_value.mpr (hleft y hy))
        fun h => hx (x.isFinite_value.mp h), List.length_map]
  · rw [ofOperands_of_isFirstUnsound hrow,
      rowError_of_finite (List.forall_mem_map.mpr fun y hy => y.isFinite_value.mpr (hfinite y hy)),
      List.length_map]

end FlatMatrix
end LinearEquations
