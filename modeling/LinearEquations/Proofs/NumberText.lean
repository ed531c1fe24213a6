import LinearEquations.Proofs.ErrorPlace

/-! # Texts of numbers

A text of digits and points stands for a number wherever neither a digit nor a point follows it
(`Grammar.IsNumberText`).  Literals are put together from such texts, signs and blanks. -/

namespace LinearEquations
open Grammar

variable {R : Type} [Scalar R]

namespace Grammar

/-- Digits and points that say which number is meant. -/
structure IsNumberText (text : List Char) (x : R) : Prop where
  isNumeric : ∀ y ∈ text, Numeral.isNumeric y
  exists_digit : ∃ d ∈ text, d.isDigit
  point : text.count '.' ≤ 1
  nearest : Scalar.ofDecimal? (Nat.ofDigitChars 10 (text.filter Char.isDigit) 0) (places text) =
    some x

variable {text rest : List Char} {x : R}

theorem IsNumberText.number (h : IsNumberText text x) (hstops : Stops Numeral.isNumeric rest) :
    Number (text ++ rest) x rest :=
  ⟨⟨rfl, h.isNumeric, hstops⟩, h.exists_digit, h.point, h.nearest⟩

theorem isNumberText_of_read? {n : Numeral} (hnumeric : ∀ y ∈ text, Numeral.isNumeric y)
    (hread : Numeral.read? text = some n) (h : Scalar.ofDecimal? n.digits n.places = some x) :
    IsNumberText text x := by
  obtain ⟨hdigit, hpoint, rfl⟩ := (read?_eq_some_iff hnumeric).mp hread
  exact ⟨hnumeric, hdigit, hpoint, h⟩

theorem isNumeric_of_isDigit {y : Char} (h : y.isDigit) : Numeral.isNumeric y :=
  Bool.or_eq_true_iff.mpr (.inl h)

/-- Digits alone. -/
theorem isNumberText_of_digits (hdigits : ∀ d ∈ text, d.isDigit) (hne : text ≠ [])
    (h : Scalar.ofDecimal? (Nat.ofDigitChars 10 text 0) 0 = some x) : IsNumberText text x :=
  isNumberText_of_read? (fun d hd => isNumeric_of_isDigit (hdigits d hd))
    ((read?_of_digits hdigits).mpr ⟨hne, rfl⟩) h

/-- Digits before and after a point. -/
theorem isNumberText_of_point {whole fraction : List Char} (hwhole : ∀ d ∈ whole, d.isDigit)
    (hfraction : ∀ d ∈ fraction, d.isDigit) (hne : whole ++ fraction ≠ [])
    (h : Scalar.ofDecimal? (Nat.ofDigitChars 10 (whole ++ fraction) 0) fraction.length = some x) :
    IsNumberText (whole ++ '.' :: fraction) x := by
  refine isNumberText_of_read? ?_ ((read?_of_point hwhole).mpr ⟨hfraction, hne, rfl⟩) h
  refine List.forall_mem_append.mpr ⟨fun d hd => isNumeric_of_isDigit (hwhole d hd), ?_⟩
  exact List.forall_mem_cons.mpr ⟨rfl, fun d hd => isNumeric_of_isDigit (hfraction d hd)⟩

theorem isNumberText_one (h : Scalar.ofDecimal? 1 0 = some x) : IsNumberText ['1'] x :=
  ⟨List.forall_mem_singleton.mpr rfl, ⟨'1', List.mem_singleton_self _, rfl⟩, by decide, h⟩

theorem stops_append {p : Char → Bool} (htext : ∀ y ∈ text, p y = false) (hrest : Stops p rest) :
    Stops p (text ++ rest) := by
  cases text with
  | nil => exact hrest
  | cons y text => exact stops_cons (htext y List.mem_cons_self) _

theorem stops_isNumeric_of_blanks (htext : ∀ y ∈ text, isBlank y)
    (hrest : Stops Numeral.isNumeric rest) : Stops Numeral.isNumeric (text ++ rest) :=
  stops_append (fun y hy => Cursor.isNumeric_eq_false_of_isBlank (htext y hy)) hrest

/-! ### Literals in parts -/

/-- The text of a minus sign or of nothing. -/
def minusText (negative : Bool) : List Char := if negative then ['-'] else []

/-- The text of a sign. -/
def signText (negative : Bool) : List Char := if negative then ['-'] else ['+']

theorem minus_minusText (negative : Bool) (rest : List Char) :
    Minus (minusText negative ++ rest) negative rest := by
  cases negative with
  | false => exact .absent rest
  | true => exact .present rest

theorem sign_signText (negative : Bool) (rest : List Char) :
    Sign (signText negative ++ rest) negative rest := by
  cases negative with
  | false => exact .plus rest
  | true => exact .minus rest

/-- The text of a factor: nothing or the text of a number. -/
def IsFactorText (text : List Char) (x : R) : Prop := text = [] ∧ x = 1 ∨ IsNumberText text x

theorem IsFactorText.factor (h : IsFactorText text x) (hstops : Stops Numeral.isNumeric rest) :
    Factor (text ++ rest) x rest := by
  rcases h with ⟨rfl, rfl⟩ | h
  · exact .absent rest
  · exact .present (h.number hstops)

/-- **A literal is put together from the texts of its parts.** -/
theorem literal_of_parts {b r b₁ b₂ f t b₃ : List Char} {re im : R} (negativeRe negativeIm : Bool)
    (hb : ∀ y ∈ b, isBlank y) (hr : IsNumberText r re) (hb₁ : ∀ y ∈ b₁, isBlank y)
    (hb₂ : ∀ y ∈ b₂, isBlank y) (hf : IsFactorText f im) (ht : ∀ y ∈ t, Cursor.isTimes y)
    (hb₃ : ∀ y ∈ b₃, isBlank y) (rest : List Char) :
    Literal ('(' :: (b ++ (minusText negativeRe ++ (r ++ (b₁ ++ (signText negativeIm ++ (b₂ ++ (f ++
      (t ++ 'i' :: (b₃ ++ ')' :: rest)))))))))) ⟨Cursor.signed negativeRe re,
        Cursor.signed negativeIm im⟩ rest := by
  refine .intro ⟨b, rfl, hb⟩ (minus_minusText negativeRe _) (hr.number ?_) ⟨b₁, rfl, hb₁⟩
    (sign_signText negativeIm _) ⟨b₂, rfl, hb₂⟩ (hf.factor ?_) ⟨t, rfl, ht⟩ ⟨b₃, rfl, hb₃⟩
  · refine stops_isNumeric_of_blanks hb₁ ?_
    cases negativeIm <;> exact stops_cons (by decide) _
  · refine stops_append (fun y hy => ?_) (stops_cons (by decide) _)
    refine Bool.eq_false_iff.mpr fun hnumeric => ?_
    exact Bool.eq_false_iff.mp (isTimes_eq_false_of_isNumeric hnumeric) (ht y hy)

end Grammar
end LinearEquations
