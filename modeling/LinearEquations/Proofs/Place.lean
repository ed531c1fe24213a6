import LinearEquations.Equation.Cursor
import Mathlib.Tactic.Common

/-! # Places in a text

A place is known by what lies before it and what follows (`Cursor.Follows`), and its offset is the
number of bytes before it.  A slice between two offsets exists only if both of them are places
(`slice?`), and then it is the text between them (`Cursor.Follows.slice?_skip`). -/

namespace LinearEquations

/-! ### Bytes -/

/-- The number of bytes of a text. -/
def byteLength : List Char → Nat
  | [] => 0
  | x :: text => x.utf8Size + byteLength text

@[simp] theorem byteLength_nil : byteLength [] = 0 := rfl

@[simp] theorem byteLength_cons (x : Char) (text : List Char) :
    byteLength (x :: text) = x.utf8Size + byteLength text := rfl

@[simp] theorem byteLength_append (text other : List Char) :
    byteLength (text ++ other) = byteLength text + byteLength other := by
  induction text with
  | nil => exact (Nat.zero_add _).symm
  | cons x text ih => rw [List.cons_append, byteLength_cons, ih, byteLength_cons, Nat.add_assoc]

/-- A text has at least as many bytes as characters. -/
theorem length_le_byteLength (text : List Char) : text.length ≤ byteLength text := by
  induction text with
  | nil => simp
  | cons x text ih =>
    have := x.utf8Size_pos
    simp only [List.length_cons, byteLength_cons]
    omega

theorem size_utf8Encode (text : List Char) : text.utf8Encode.size = byteLength text := by
  induction text with
  | nil => simp
  | cons x text ih =>
    rw [List.utf8Encode_cons, ByteArray.size_append, ih, byteLength_cons,
      List.utf8Encode_singleton, List.size_toByteArray, String.length_utf8EncodeChar]

theorem utf8ByteSize_eq_byteLength (s : String) : s.utf8ByteSize = byteLength s.toList := by
  rw [← size_utf8Encode, ← String.size_toByteArray, ← String.toByteArray_ofList,
    String.ofList_toList]

/-! ### Slices -/

/-- Whether an offset in bytes lies within a text and not inside a character. -/
abbrev IsBoundary (s : String) (i : Nat) : Prop := String.Pos.Raw.IsValid s ⟨i⟩

/-- The part of a text between two offsets in bytes, unless one of them lies outside the text or
inside a character. -/
def slice? (s : String) (start stop : Nat) : Option String :=
  if h : IsBoundary s start ∧ IsBoundary s stop ∧ start ≤ stop then
    some (s.extract (s.pos ⟨start⟩ h.1) (s.pos ⟨stop⟩ h.2.1))
  else none

theorem IsBoundary.le_utf8ByteSize {s : String} {i : Nat} (h : IsBoundary s i) :
    i ≤ s.utf8ByteSize :=
  String.Pos.Raw.IsValid.le_utf8ByteSize h

variable {s : String} {before text after : List Char}

theorem isBoundary_byteLength (h : s.toList = before ++ after) :
    IsBoundary s (byteLength before) := by
  refine String.Pos.Raw.isValid_iff_exists_append.mpr
    ⟨String.ofList before, String.ofList after, ?_, ?_⟩
  · rw [← String.ofList_append, ← h, String.ofList_toList]
  · ext
    simp [String.rawEndPos, utf8ByteSize_eq_byteLength]

/-- **The slice between two places is the text between them.** -/
theorem slice?_eq_some (h : s.toList = before ++ (text ++ after)) :
    slice? s (byteLength before) (byteLength before + byteLength text) =
      some (String.ofList text) := by
  have hstop : IsBoundary s (byteLength before + byteLength text) := by
    have hsplit : s.toList = (before ++ text) ++ after := by rw [h, List.append_assoc]
    rw [← byteLength_append]
    exact isBoundary_byteLength hsplit
  have hbytes : s.toByteArray = before.utf8Encode ++ (text.utf8Encode ++ after.utf8Encode) := by
    rw [← List.utf8Encode_append, ← List.utf8Encode_append, ← h, ← String.toByteArray_ofList,
      String.ofList_toList]
  rw [slice?, dif_pos ⟨isBoundary_byteLength h, hstop, Nat.le_add_right _ _⟩]
  refine congrArg some (String.toByteArray_inj.mp ?_)
  calc s.toByteArray.extract (byteLength before) (byteLength before + byteLength text)
    _ = (text.utf8Encode ++ after.utf8Encode).extract 0 (byteLength text) := by
      rw [hbytes]
      exact ByteArray.extract_append_size_add' (i := 0) (size_utf8Encode before).symm
    _ = text.utf8Encode := ByteArray.extract_append_eq_left (size_utf8Encode text).symm
    _ = (String.ofList text).toByteArray := String.toByteArray_ofList.symm

/-! ### Places -/

namespace Cursor

/-- The place comes after `before` in the text `s`. -/
structure Follows (c : Cursor) (s : String) (before : List Char) : Prop where
  toList_eq : s.toList = before ++ c.rest
  offset_eq : c.offset = byteLength before

/-- The cursor stands at a place of the text `s`. -/
def LiesIn (c : Cursor) (s : String) : Prop := ∃ before, c.Follows s before

variable {c : Cursor}

theorem follows_start (s : String) : (start s).Follows s [] := ⟨rfl, rfl⟩

theorem Follows.isBoundary (h : c.Follows s before) : IsBoundary s c.offset :=
  h.offset_eq ▸ isBoundary_byteLength h.toList_eq

theorem Follows.next {x : Char} (h : c.Follows s before) (hx : c.peek? = some x) :
    c.next.Follows s (before ++ [x]) := by
  obtain ⟨offset, _ | ⟨y, rest⟩⟩ := c
  · cases hx
  · cases hx
    have hoffset : offset = byteLength before := h.offset_eq
    exact ⟨by rw [h.toList_eq, List.append_assoc]; rfl, by simp [Cursor.next, hoffset]⟩

theorem foldl_utf8Size (text : List Char) (offset : Nat) :
    text.foldl (fun offset x => offset + x.utf8Size) offset = offset + byteLength text := by
  induction text generalizing offset with
  | nil => rfl
  | cons x text ih => rw [List.foldl_cons, ih, byteLength_cons, Nat.add_assoc]

theorem Follows.skip (h : c.Follows s before) (p : Char → Bool) :
    (c.skip p).Follows s (before ++ c.run p) where
  toList_eq := by
    rw [h.toList_eq, List.append_assoc, run, Cursor.skip, List.takeWhile_append_dropWhile]
  offset_eq := by rw [Cursor.skip, foldl_utf8Size, h.offset_eq, byteLength_append]

/-- **The slice over a run is the run.** -/
theorem Follows.slice?_skip (h : c.Follows s before) (p : Char → Bool) :
    slice? s c.offset (c.skip p).offset = some (String.ofList (c.run p)) := by
  have htext : s.toList = before ++ (c.run p ++ (c.skip p).rest) := by
    rw [← List.append_assoc]
    exact (h.skip p).toList_eq
  rw [(h.skip p).offset_eq, byteLength_append, h.offset_eq]
  exact slice?_eq_some htext

/-- The slice from a place to the end is what follows the place. -/
theorem LiesIn.slice?_rest (h : c.LiesIn s) :
    slice? s c.offset s.utf8ByteSize = some (String.ofList c.rest) := by
  obtain ⟨before, htext, hoffset⟩ := h
  have hend : s.toList = before ++ (c.rest ++ []) := by rw [htext, List.append_nil]
  rw [utf8ByteSize_eq_byteLength, htext, byteLength_append, hoffset]
  exact slice?_eq_some hend

theorem LiesIn.slice?_skip (h : c.LiesIn s) (p : Char → Bool) :
    slice? s c.offset (c.skip p).offset = some (String.ofList (c.run p)) := by
  obtain ⟨before, h⟩ := h
  exact h.slice?_skip p

theorem LiesIn.next (h : c.LiesIn s) : c.next.LiesIn s := by
  cases hx : c.peek? with
  | none =>
    have hrest : c.rest = [] := List.head?_eq_none_iff.mp hx
    unfold Cursor.next
    rw [hrest]
    exact h
  | some x =>
    obtain ⟨before, h⟩ := h
    exact ⟨_, h.next hx⟩

theorem LiesIn.skip (h : c.LiesIn s) (p : Char → Bool) : (c.skip p).LiesIn s := by
  obtain ⟨before, h⟩ := h
  exact ⟨_, h.skip p⟩

theorem LiesIn.skipBlanks (h : c.LiesIn s) : c.skipBlanks.LiesIn s := h.skip isBlank

theorem LiesIn.accept (h : c.LiesIn s) (x : Char) : (c.accept x).2.LiesIn s := by
  unfold Cursor.accept
  split
  · exact h.next
  · exact h

theorem skip_of_sees {p : Char → Bool} (h : c.peek?.any p) : c.skip p = c.next.skip p := by
  obtain ⟨offset, _ | ⟨x, rest⟩⟩ := c
  · cases h
  · have hx : p x := h
    simp [Cursor.skip, run, Cursor.next, hx]

theorem skip_of_not_sees {p : Char → Bool} (h : ¬ c.peek?.any p) : c.skip p = c := by
  obtain ⟨offset, _ | ⟨x, rest⟩⟩ := c
  · rfl
  · have hx : ¬ p x := h
    simp [Cursor.skip, run, hx]

/-- Fewer characters follow than the text has bytes. -/
theorem LiesIn.remaining_lt (h : c.LiesIn s) : c.remaining < s.utf8ByteSize + 1 := by
  obtain ⟨before, htext, -⟩ := h
  have := length_le_byteLength c.rest
  rw [utf8ByteSize_eq_byteLength, htext, byteLength_append, remaining]
  omega

end Cursor
end LinearEquations
