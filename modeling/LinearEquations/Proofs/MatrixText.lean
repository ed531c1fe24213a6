import LinearEquations.Proofs.FlatViews
import LinearEquations.Proofs.ScalarText

/-! # The text of a matrix is a table

The text of a matrix has a line for each row, and what a reader counts on is that its lines can be
laid over each other: they have the same length in bytes, and the cells of a column begin at the same
place in all of them (`IsTable`).  This holds for all cells, also for those that are not finite.

Two things carry it.  The width of a column is the greatest size among its texts, so padding makes
every cell of the column as long as its widest one, and nothing is taken from a smaller number.  And
the text of a number holds none of the characters by which cells and lines are told apart
(`Complex.isUnmarked_text`), so the parentheses and the ends of lines are those that the matrix put
there, and the texts of the cells are read off between them. -/

namespace LinearEquations

/-! ### Characters of numbers -/

/-- The characters by which the cells and lines of a matrix are told apart. -/
def isMark (c : Char) : Bool := c = '(' || c = ')' || c = '\n'

/-- A text in which no cell and no line ends. -/
def IsUnmarked (text : List Char) : Prop := ∀ c ∈ text, isMark c = false

section Unmarked
variable {c : Char} {s t : List Char}

@[simp] theorem isUnmarked_nil : IsUnmarked [] := List.forall_mem_nil _

@[simp] theorem isUnmarked_cons : IsUnmarked (c :: s) ↔ isMark c = false ∧ IsUnmarked s :=
  List.forall_mem_cons

@[simp] theorem isUnmarked_append : IsUnmarked (s ++ t) ↔ IsUnmarked s ∧ IsUnmarked t :=
  List.forall_mem_append

@[simp] theorem isUnmarked_replicate {n : Nat} (hc : isMark c = false) :
    IsUnmarked (List.replicate n c) := fun _ hd => List.eq_of_mem_replicate hd ▸ hc

theorem isUnmarked_of_isDigit (h : ∀ c ∈ s, c.isDigit) : IsUnmarked s := fun c hc => by
  by_contra hmark
  simp only [isMark, Bool.not_eq_false, Bool.or_eq_true, decide_eq_true_eq] at hmark
  obtain (rfl | rfl) | rfl := hmark <;> exact absurd (h _ hc) (by decide)

theorem IsUnmarked.of_subset (h : IsUnmarked s) (hsub : t ⊆ s) : IsUnmarked t :=
  fun c hc => h c (hsub hc)

theorem IsUnmarked.not_mem (h : IsUnmarked s) (hc : isMark c) : c ∉ s := fun hmem => by
  cases (h c hmem).symm.trans hc

end Unmarked

namespace Decimal

theorem isUnmarked_figures (n : Nat) : IsUnmarked (figures n) :=
  isUnmarked_of_isDigit fun _ => isDigit_of_mem_figures

theorem isUnmarked_positionalText (style : Style) (digits : Nat) (exponent : Int) :
    IsUnmarked (positionalText style digits exponent) := by
  have htake := fun n => (isUnmarked_figures digits).of_subset (List.take_subset n _)
  have hdrop := fun n => (isUnmarked_figures digits).of_subset (List.drop_subset n _)
  have hpoint : isMark '.' = false := rfl
  have hzero : isMark '0' = false := rfl
  unfold positionalText
  dsimp only
  split
  · split <;> simp [isUnmarked_figures, hpoint, hzero]
  · split <;> simp [isUnmarked_figures, htake, hdrop, hpoint, hzero]

theorem isUnmarked_scientificText (style : Style) (digits : Nat) (exponent : Int) :
    IsUnmarked (scientificText style digits exponent) := by
  have htake := (isUnmarked_figures digits).of_subset (List.take_subset 1 _)
  have hdrop := (isUnmarked_figures digits).of_subset (List.drop_subset 1 _)
  have hfraction : IsUnmarked (if ((figures digits).drop 1).isEmpty then []
      else '.' :: (figures digits).drop 1) := by
    split
    · exact isUnmarked_nil
    · exact isUnmarked_cons.mpr ⟨rfl, hdrop⟩
  have hsign : IsUnmarked (if exponent < 0 then ['-'] else if style.plus then ['+'] else []) := by
    split
    · exact isUnmarked_cons.mpr ⟨rfl, isUnmarked_nil⟩
    · split
      · exact isUnmarked_cons.mpr ⟨rfl, isUnmarked_nil⟩
      · exact isUnmarked_nil
  refine isUnmarked_append.mpr ⟨isUnmarked_append.mpr ⟨isUnmarked_append.mpr ⟨htake, hfraction⟩,
    isUnmarked_cons.mpr ⟨rfl, hsign⟩⟩, isUnmarked_figures _⟩

theorem isUnmarked_write (style : Style) (d : Decimal) : IsUnmarked (d.write style).toList := by
  unfold write
  dsimp only
  rw [String.toList_ofList]
  refine isUnmarked_append.mpr ⟨?_, ?_⟩
  · split
    · exact isUnmarked_cons.mpr ⟨rfl, isUnmarked_nil⟩
    · exact isUnmarked_nil
  · split
    · exact isUnmarked_positionalText _ _ _
    · exact isUnmarked_scientificText _ _ _

end Decimal

namespace Scalar
open Decimal
variable {R : Type} [Scalar R]

omit [Scalar R] in
theorem isUnmarked_toString (z : Int) : IsUnmarked (toString z).toList := by
  rw [toList_toString]
  refine isUnmarked_append.mpr ⟨?_, isUnmarked_figures _⟩
  unfold Grammar.minusText
  split
  · exact isUnmarked_cons.mpr ⟨rfl, isUnmarked_nil⟩
  · exact isUnmarked_nil

theorem isUnmarked_write (style : Style) (x : R) : IsUnmarked (write style x).toList := by
  unfold write
  split
  · simp [isMark]
  · split <;> simp [isMark]
  · split
    · exact Decimal.isUnmarked_write _ _
    · rename_i q _ _ _
      have hden : IsUnmarked (toString q.den).toList := isUnmarked_toString (q.den : Int)
      simp only [String.toList_append]
      exact isUnmarked_append.mpr ⟨isUnmarked_append.mpr ⟨isUnmarked_toString _, by simp [isMark]⟩,
        hden⟩

theorem isUnmarked_text (x : R) : IsUnmarked (text x).toList := by
  unfold text
  split
  · split
    · exact isUnmarked_toString _
    · split
      · exact isUnmarked_write _ _
      · exact Decimal.isUnmarked_write _ _
  · exact isUnmarked_write _ _

end Scalar

/-- **The text of a number has no parentheses and is on one line.** -/
theorem Complex.isUnmarked_text {R : Type} [Scalar R] (a : Complex R) :
    IsUnmarked a.text.toList := by
  have hsign : IsUnmarked (if Scalar.isPositive a.im then " + " else " - ").toList := by
    split <;> simp [isMark]
  have hunit : IsUnmarked "i".toList := by simp [isMark]
  unfold Complex.text
  dsimp only
  split
  · exact Scalar.isUnmarked_text _
  · split <;> simp only [String.toList_append, isUnmarked_append, Scalar.isUnmarked_text, hsign,
      hunit, and_self]

namespace LabelledMatrix
variable {texts : List String} {widths : List Nat} {rest : List Char}

/-! ### What is read off a text -/

/-- The lines of a text. -/
def textLines (text : String) : List String := (text.toList.splitOn '\n').map String.ofList

/-- The places in bytes at which a character stands in a text that begins at `start`. -/
def places (c : Char) : (start : Nat) → (text : List Char) → List Nat
  | _, [] => []
  | start, d :: rest =>
    (if d = c then [start] else []) ++ places c (start + d.utf8Size) rest

/-- The texts in the outermost parentheses of a text, unless there is a parenthesis without its
counterpart.  So far `depth` of them are open, and `inner` was read after the outermost one. -/
def enclosed? : (depth : Nat) → (inner text : List Char) → Option (List String)
  | 0, _, [] => some []
  | _ + 1, _, [] => none
  | 0, _, c :: rest =>
    if c = '(' then enclosed? 1 [] rest else if c = ')' then none else enclosed? 0 [] rest
  | depth + 1, inner, c :: rest =>
    if c = '(' then enclosed? (depth + 2) (inner ++ [c]) rest
    else if c = ')' then
      if depth = 0 then (enclosed? 0 [] rest).map (String.ofList inner :: ·)
      else enclosed? depth (inner ++ [c]) rest
    else enclosed? (depth + 1) (inner ++ [c]) rest

/-- A text shows `texts` row by row in a table of `p` lines and `q` columns. -/
structure IsTable (text : String) (p q : Nat) (texts : List String) : Prop where
  length_lines : (textLines text).length = p
  /-- All lines have the same length in bytes. -/
  size : ∃ n, ∀ line ∈ textLines text, line.utf8ByteSize = n
  bars : ∀ line ∈ textLines text, line.toList.head? = some '|' ∧ line.toList.getLast? = some '|'
  /-- The cells of a column begin at the same place in all lines. -/
  aligned : ∃ starts, starts.length = q ∧
    ∀ line ∈ textLines text, places '(' 0 line.toList = starts
  /-- The texts between parentheses, line by line. -/
  cells : ∃ rows, (textLines text).map (fun line => enclosed? 0 [] line.toList) = rows.map some ∧
    HasWidth q rows ∧ rows.flatten = texts

/-! ### A line -/

theorem places_append (c : Char) (start : Nat) (s t : List Char) :
    places c start (s ++ t) = places c start s ++ places c (start + String.utf8Len s) t := by
  induction s generalizing start with
  | nil => rfl
  | cons d s ih =>
    rw [List.cons_append, places, places, ih, List.append_assoc, String.utf8Len_cons,
      Nat.add_assoc, Nat.add_comm d.utf8Size]

theorem places_eq_nil {c : Char} {s : List Char} (h : c ∉ s) (start : Nat) :
    places c start s = [] := by
  induction s generalizing start with
  | nil => rfl
  | cons d s ih =>
    rw [List.mem_cons, not_or] at h
    rw [places, if_neg (Ne.symm h.1), ih h.2, List.nil_append]

/-- Outside of parentheses a text without any is passed over. -/
theorem enclosed?_skip {s : List Char} (h : IsUnmarked s) :
    enclosed? 0 [] (s ++ rest) = enclosed? 0 [] rest := by
  induction s with
  | nil => rfl
  | cons c s ih =>
    obtain ⟨hc, hs⟩ := isUnmarked_cons.mp h
    simp only [isMark, Bool.or_eq_false_iff, decide_eq_false_iff_not] at hc
    rw [List.cons_append, enclosed?, if_neg hc.1.1, if_neg hc.1.2, ih hs]

/-- Inside of parentheses it is kept. -/
theorem enclosed?_keep {s : List Char} (h : IsUnmarked s) (depth : Nat) (inner : List Char) :
    enclosed? (depth + 1) inner (s ++ rest) = enclosed? (depth + 1) (inner ++ s) rest := by
  induction s generalizing inner with
  | nil => rw [List.nil_append, List.append_nil]
  | cons c s ih =>
    obtain ⟨hc, hs⟩ := isUnmarked_cons.mp h
    simp only [isMark, Bool.or_eq_false_iff, decide_eq_false_iff_not] at hc
    rw [List.cons_append, enclosed?, if_neg hc.1.1, if_neg hc.1.2, ih hs, List.append_assoc,
      List.singleton_append]

/-- A text that stands in a column of the given width. -/
structure Fits (width : Nat) (text : String) : Prop where
  size_le : text.utf8ByteSize ≤ width
  isUnmarked : IsUnmarked text.toList

theorem toList_cellText (width : Nat) (text : String) : (cellText width text).toList =
    '(' :: (text.toList ++
      ')' :: List.replicate (width - text.utf8ByteSize + 1) ' ') := by
  simp [cellText]

theorem utf8Len_spaces (n : Nat) : String.utf8Len (List.replicate n ' ') = n := by
  induction n with
  | zero => rfl
  | succ n ih => rw [List.replicate_succ, String.utf8Len_cons, ih]; rfl

/-- **Every cell of a column is as long as the column is wide**, with its parentheses and a space. -/
theorem Fits.utf8Len_cellText {width : Nat} {text : String} (h : Fits width text) :
    String.utf8Len (cellText width text).toList = width + 3 := by
  have hsize := h.size_le
  have hopen : '('.utf8Size = 1 := rfl
  have hclose : ')'.utf8Size = 1 := rfl
  rw [toList_cellText, String.utf8Len_cons, String.utf8Len_append, String.utf8Len_cons,
    utf8Len_spaces, String.utf8Len_toList]
  omega

theorem Fits.places_cellText {width : Nat} {text : String} (h : Fits width text) (start : Nat) :
    places '(' start (cellText width text).toList = [start] := by
  have htail : '(' ∉ text.toList ++
      ')' :: List.replicate (width - text.utf8ByteSize + 1) ' ' := by
    simp [h.isUnmarked.not_mem (c := '(') rfl]
  rw [toList_cellText, places, if_pos rfl, places_eq_nil htail]
  rfl

theorem Fits.enclosed?_cellText {width : Nat} {text : String} (h : Fits width text) :
    enclosed? 0 [] ((cellText width text).toList ++ rest) =
      (enclosed? 0 [] rest).map (text :: ·) := by
  have hspaces : IsUnmarked (List.replicate (width - text.utf8ByteSize + 1) ' ') :=
    isUnmarked_replicate rfl
  rw [toList_cellText, List.cons_append, enclosed?, if_pos rfl, List.append_assoc,
    enclosed?_keep h.isUnmarked, List.nil_append, List.cons_append, enclosed?,
    if_neg (by decide), if_pos rfl, if_pos rfl, enclosed?_skip hspaces, String.ofList_toList]

/-- The places at which columns of the given widths begin. -/
def starts : (start : Nat) → (widths : List Nat) → List Nat
  | _, [] => []
  | start, width :: widths => start :: starts (start + (width + 3)) widths

theorem length_starts (start : Nat) : (starts start widths).length = widths.length := by
  induction widths generalizing start with
  | nil => rfl
  | cons width widths ih => rw [starts, List.length_cons, ih, List.length_cons]

/-- The characters between the bars of a line. -/
def cellsText (widths : List Nat) (texts : List String) : List Char :=
  (List.zipWith cellText widths texts).flatMap String.toList

theorem cellsText_cons (width : Nat) (text : String) :
    cellsText (width :: widths) (text :: texts) =
      (cellText width text).toList ++ cellsText widths texts := rfl

theorem toList_rowText (widths : List Nat) (texts : List String) :
    (rowText widths texts).toList = '|' :: (cellsText widths texts ++ ['|']) := by
  simp [rowText, cellsText]

section Line
variable (h : List.Forall₂ Fits widths texts)
include h

theorem utf8Len_cellsText :
    String.utf8Len (cellsText widths texts) = (widths.map (· + 3)).sum := by
  induction h with
  | nil => rfl
  | cons hfits _ ih =>
    rw [cellsText_cons, String.utf8Len_append, hfits.utf8Len_cellText, ih, List.map_cons,
      List.sum_cons]

theorem places_cellsText (start : Nat) :
    places '(' start (cellsText widths texts) = starts start widths := by
  induction h generalizing start with
  | nil => rfl
  | cons hfits _ ih =>
    rw [cellsText_cons, places_append, hfits.places_cellText, hfits.utf8Len_cellText, ih, starts,
      List.singleton_append]

theorem enclosed?_cellsText :
    enclosed? 0 [] (cellsText widths texts ++ rest) = (enclosed? 0 [] rest).map (texts ++ ·) := by
  induction h with
  | nil => simp [cellsText]
  | cons hfits _ ih =>
    rw [cellsText_cons, List.append_assoc, hfits.enclosed?_cellText, ih, Option.map_map]
    rfl

theorem not_mem_cellsText : '\n' ∉ cellsText widths texts := by
  induction h with
  | nil => exact List.not_mem_nil
  | cons hfits _ ih =>
    rw [cellsText_cons, toList_cellText]
    simp [hfits.isUnmarked.not_mem (c := '\n') rfl, ih]

/-- The length of a line depends on the widths only. -/
theorem utf8ByteSize_rowText :
    (rowText widths texts).utf8ByteSize = (widths.map (· + 3)).sum + 2 := by
  rw [← String.utf8Len_toList, toList_rowText, String.utf8Len_cons, String.utf8Len_append,
    utf8Len_cellsText h]
  rfl

/-- So do the places at which its cells begin. -/
theorem places_rowText : places '(' 0 (rowText widths texts).toList = starts 1 widths := by
  rw [toList_rowText, places, if_neg (by decide), List.nil_append, places_append,
    places_cellsText h, places_eq_nil (by decide), List.append_nil]
  rfl

/-- The texts of the cells are read off the line. -/
theorem enclosed?_rowText : enclosed? 0 [] (rowText widths texts).toList = some texts := by
  rw [toList_rowText, enclosed?, if_neg (by decide), if_neg (by decide), enclosed?_cellsText h]
  simp [enclosed?]

theorem not_mem_rowText : '\n' ∉ (rowText widths texts).toList := by
  simp [toList_rowText, not_mem_cellsText h]

end Line

/-! ### All lines -/

section Lines
variable {t : LabelledMatrix String}

/-- The widths of the columns are enough for every row. -/
theorem WellFormed.fits (ht : t.WellFormed)
    (hunmarked : ∀ row ∈ t.rows, ∀ text ∈ row, IsUnmarked text.toList) {row : List String}
    (hrow : row ∈ t.rows) : List.Forall₂ Fits (t.columns.map width) row := by
  obtain ⟨r, hr⟩ := List.mem_iff_getElem?.mp hrow
  refine List.forall₂_iff_get.mpr ⟨?_, fun c hc hc' => ⟨?_, hunmarked row hrow _ (List.get_mem ..)⟩⟩
  · rw [List.length_map, length_columns, ht.length_row row hrow]
  · have hcell : cellAt? t.columns c r = some (row.get ⟨c, hc'⟩) := by
      rw [cellAt?_columns ht.length_row, cellAt?, hr]
      exact List.getElem?_eq_getElem hc'
    obtain ⟨column, hcolumn, htext⟩ := Option.bind_eq_some_iff.mp hcell
    have hwidth : (t.columns.map width).get ⟨c, hc⟩ = width column := by
      have := List.getElem?_map (f := width) (l := t.columns) (i := c)
      rw [hcolumn, List.getElem?_eq_getElem hc] at this
      exact Option.some.inj this
    rw [hwidth]
    exact FlatMatrix.le_width (List.mem_of_getElem? htext)

theorem textLines_intercalate {lines : List String} (hne : lines ≠ [])
    (h : ∀ line ∈ lines, '\n' ∉ line.toList) : textLines ("\n".intercalate lines) = lines := by
  have hlist : "\n".toList = ['\n'] := rfl
  rw [textLines, String.toList_intercalate, hlist,
    List.splitOn_intercalate '\n' (List.forall_mem_map.mpr h) (by simpa using hne), List.map_map]
  exact List.map_id'' (fun line => String.ofList_toList) lines

/-- **A matrix of texts is written as a table of them**, unless they hold a mark. -/
theorem WellFormed.isTable (ht : t.WellFormed)
    (hunmarked : ∀ row ∈ t.rows, ∀ text ∈ row, IsUnmarked text.toList) :
    IsTable ("\n".intercalate t.lines) t.rowCount t.columnCount t.rows.flatten := by
  have hfits : ∀ row ∈ t.rows, List.Forall₂ Fits (t.columns.map width) row := fun row hrow =>
    ht.fits hunmarked hrow
  have hlines : textLines ("\n".intercalate t.lines) = t.lines :=
    textLines_intercalate
      (List.ne_nil_of_length_pos (List.length_map (rowText _) ▸ ht.rowCount_pos))
      (List.forall_mem_map.mpr fun row hrow => not_mem_rowText (hfits row hrow))
  have hrow : ∀ line ∈ textLines ("\n".intercalate t.lines), ∃ row,
      List.Forall₂ Fits (t.columns.map width) row ∧ rowText (t.columns.map width) row = line := by
    rw [hlines]
    exact List.forall_mem_map.mpr fun row hrow => ⟨row, hfits row hrow, rfl⟩
  refine
    { length_lines := (congrArg List.length hlines).trans (List.length_map _)
      size := ⟨((t.columns.map width).map (· + 3)).sum + 2, fun line hline => ?_⟩
      bars := fun line hline => ?_
      aligned := ⟨starts 1 (t.columns.map width), ?_, fun line hline => ?_⟩
      cells := ⟨t.rows, ?_, ht.length_row, rfl⟩ }
  · obtain ⟨row, hrow, rfl⟩ := hrow line hline
    exact utf8ByteSize_rowText hrow
  · obtain ⟨row, -, rfl⟩ := hrow line hline
    rw [toList_rowText, ← List.cons_append]
    exact ⟨rfl, List.getLast?_concat⟩
  · rw [length_starts, List.length_map, length_columns]
  · obtain ⟨row, hrow, rfl⟩ := hrow line hline
    exact places_rowText hrow
  · rw [hlines, lines, List.map_map]
    exact List.map_congr_left fun row hrow => enclosed?_rowText (hfits row hrow)

end Lines
end LabelledMatrix

namespace FlatMatrix
open LabelledMatrix
variable {R : Type} [Scalar R] {m : FlatMatrix R}

/-- **A matrix is written as a table of the texts of its cells, row by row**, whatever its cells are,
and no padding is taken from a smaller number: that would be a fault. -/
theorem text_isTable (hm : m.WellFormed) : ∃ text, m.text = .ok text ∧
    IsTable text m.rowCount m.columnCount (m.cells.map Complex.text) := by
  obtain ⟨rows, hrows, rfl⟩ := hm.exists_flat
  obtain ⟨ht, hshape⟩ := hrows.map Complex.text
  obtain ⟨hp, hq⟩ := Prod.mk.inj hshape
  have hcells : rows.flat.cells.map Complex.text = (rows.map Complex.text).rows.flatten :=
    List.map_flatten
  have hunmarked : ∀ row ∈ (rows.map Complex.text).rows, ∀ text ∈ row, IsUnmarked text.toList :=
    List.forall_mem_map.mpr fun row _ => List.forall_mem_map.mpr fun a _ =>
      Complex.isUnmarked_text a
  refine ⟨rows.text, text_flat hrows, ?_⟩
  rw [columnCount_flat, rowCount_flat, ← hp, ← hq, hcells]
  exact ht.isTable hunmarked

/-- A column with texts of different sizes, and a cell that is not finite. -/
theorem text_isTable_of_infinite :
    let m : FlatMatrix Float := { cells := [⟨1, 0⟩, ⟨1 / 0, 0⟩, ⟨-2.5, 1⟩, ⟨3, 0⟩],
                                  columnCount := 2, rowCount := 2 }
    let text := "|(1)        (inf) |\n|(-2.5 + i) (3)   |"
    m.WellFormed ∧ m.text = .ok text ∧ IsTable text 2 2 ["1", "inf", "-2.5 + i", "3"] := by
  intro m text
  have hm : m.WellFormed := ⟨by decide, by decide, rfl, nofun, nofun⟩
  have hvalue : m.text.toOption = some text := by decide +kernel
  have hcells : m.cells.map Complex.text = ["1", "inf", "-2.5 + i", "3"] := by decide +kernel
  obtain ⟨other, htext, htable⟩ := text_isTable hm
  obtain rfl : other = text := Option.some.inj (((congrArg Except.toOption htext).symm).trans hvalue)
  exact ⟨hm, htext, hcells ▸ htable⟩

end FlatMatrix
end LinearEquations
