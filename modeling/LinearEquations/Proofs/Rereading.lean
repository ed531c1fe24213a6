import LinearEquations.Proofs.EquationText
import LinearEquations.Proofs.FiniteReading
import LinearEquations.Proofs.ScalarText

/-! # Reading again what was read

An equation that was read from a text has a text of its own, in which numbers are rounded.  This
text is read again, with the same unknowns in the same order (`Equation.parse_text_of_parse`), if
the numbers of the equation are plain (`Equation.IsPlain`): none of them is written with a power of
ten, for which the grammar has no symbol, and no imaginary part that is not zero is left out.

A power of ten makes the text unreadable, or gives it an unknown `e` (`not_parse_text_of_parse`).
Numbers that are plain are read whatever their digits say, because rounding never makes a double so
large that its digits are read as no double at all (`Scalar.isPlainText_text`). -/

namespace LinearEquations
open Grammar

namespace Equation

/-- The coefficient that is written after the sign of a term. -/
def unsigned (a : Complex Float) : Complex Float := if isSubtracted a then -a else a

end Equation

/-! ### Finite scalars -/

namespace Scalar
variable {x : Float}

theorem exists_value_abs (h : isFinite x) : ∃ q, value (Scalar.abs x) = .finite q ∧ 0 ≤ q := by
  obtain ⟨q, hq⟩ := exists_value h
  unfold Scalar.abs
  by_cases hneg : isNegative x
  · have hlt := (isNegative_iff hq).mp hneg
    rw [if_pos hneg]
    exact ⟨-q, ofFloat_neg hq, by linarith⟩
  · have hle := not_lt.mp (mt (isNegative_iff hq).mpr hneg)
    rw [if_neg hneg]
    exact ⟨q, hq, hle⟩

end Scalar

/-! ### Complex numbers -/

namespace Complex
variable {a : Complex Float}

/-- The text of the number has no power of ten, and leaves out no imaginary part but zero. -/
structure IsPlain (a : Complex Float) : Prop where
  positional : 'e' ∉ a.text.toList
  imaginary : (Scalar.value a.im).isNear 0 → Scalar.isZero a.im

instance (a : Complex Float) : Decidable a.IsPlain :=
  decidable_of_iff ('e' ∉ a.text.toList ∧ ((Scalar.value a.im).isNear 0 → Scalar.isZero a.im))
    ⟨fun h => ⟨h.1, h.2⟩, fun h => ⟨h.1, h.2⟩⟩

theorem text_of_isNear (h : (Scalar.value a.im).isNear 0) : a.text = Scalar.text a.re := by
  rw [text]
  exact if_pos h

/-- What is written before the imaginary unit. -/
def factorText (a : Complex Float) : List Char :=
  if (Scalar.value (Scalar.abs a.im)).isNear 1 then [] else (Scalar.text (Scalar.abs a.im)).toList

theorem text_of_not_isNear (h : ¬(Scalar.value a.im).isNear 0) :
    a.text.toList = (Scalar.text a.re).toList ++ ([' '] ++ (signText (!Scalar.isPositive a.im) ++
      ([' '] ++ (a.factorText ++ ['i'])))) := by
  unfold text factorText
  simp only
  rw [if_neg h]
  cases Scalar.isPositive a.im <;> split <;> simp [signText]

theorem exists_factorText (hfinite : a.isFinite) (hplain : 'e' ∉ a.factorText) :
    ∃ x : Float, IsFactorText a.factorText x := by
  unfold factorText at hplain ⊢
  split
  · exact ⟨1, .inl ⟨rfl, rfl⟩⟩
  · rename_i hunit
    rw [if_neg hunit] at hplain
    obtain ⟨q, hq, hnonneg⟩ := Scalar.exists_value_abs (isFinite_iff.mp hfinite).2
    obtain ⟨x, hx⟩ := (Scalar.isPlainText_text hq hplain).exists_number hnonneg
    exact ⟨x, .inr hx⟩

/-- **The text of a number in parentheses is a literal**, if it has an imaginary part and no power
of ten. -/
theorem exists_literal_text (hfinite : a.isFinite) (hplain : 'e' ∉ a.text.toList)
    (him : ¬(Scalar.value a.im).isNear 0) :
    ∃ b : Complex Float, ∀ rest, Literal (("(" ++ a.text ++ ")").toList ++ rest) b rest := by
  rw [text_of_not_isNear him] at hplain
  simp only [List.mem_append, not_or] at hplain
  obtain ⟨hplainRe, -, -, -, hplainIm, -⟩ := hplain
  obtain ⟨q, hq⟩ := Scalar.exists_value (isFinite_iff.mp hfinite).1
  obtain ⟨negative, r, re, htext, hre, -⟩ := Scalar.isPlainText_text hq hplainRe
  obtain ⟨im, hfactor⟩ := exists_factorText hfinite hplainIm
  have hblank : ∀ y ∈ [' '], isBlank y := List.forall_mem_singleton.mpr (by decide)
  have hnil : ∀ {p : Char → Bool}, ∀ y ∈ ([] : List Char), p y := List.forall_mem_nil _
  let negativeIm := !Scalar.isPositive a.im
  refine ⟨⟨Cursor.signed negative re, Cursor.signed negativeIm im⟩, fun rest => ?_⟩
  rw [String.toList_append, String.toList_append, text_of_not_isNear him, htext]
  simpa using literal_of_parts negative negativeIm hnil hre hblank hblank hfactor hnil hnil rest

/-- The text of a real number. -/
theorem isPlainText_of_isZero (hfinite : a.isFinite) (hplain : 'e' ∉ a.text.toList)
    (hreal : Scalar.isZero a.im) :
    ∃ q, Scalar.value a.re = .finite q ∧ IsPlainText a.text.toList q := by
  obtain ⟨q, hq⟩ := Scalar.exists_value (isFinite_iff.mp hfinite).1
  have hnear : (Scalar.value a.im).isNear 0 := by
    rw [show Scalar.value a.im = .finite 0 from of_decide_eq_true hreal]
    decide +kernel
  rw [text_of_isNear hnear] at hplain ⊢
  exact ⟨q, hq, Scalar.isPlainText_text hq hplain⟩

end Complex

/-! ### Terms and right hand sides -/

namespace Grammar
variable {a : Complex Float} {rest : List Char}

/-- Numbers are read from their texts, but for the sign of a real number below zero. -/
theorem exists_magnitude_of_isPlain (hfinite : a.isFinite) (hplain : a.IsPlain)
    (hsign : Scalar.isZero a.im → ¬Scalar.isNegative a.re) (hrest : Stops Numeral.isNumeric rest) :
    ∃ b : Complex Float,
      Magnitude ((if Scalar.isZero a.im then a.text else "(" ++ a.text ++ ")").toList ++ rest)
        b rest := by
  by_cases hreal : Scalar.isZero a.im
  · obtain ⟨q, hq, htext⟩ := Complex.isPlainText_of_isZero hfinite hplain.positional hreal
    have hnonneg := not_lt.mp (mt (Scalar.isNegative_iff hq).mpr (hsign hreal))
    obtain ⟨x, hx⟩ := htext.exists_number hnonneg
    rw [if_pos hreal]
    exact ⟨_, .number (hx.number hrest)⟩
  · obtain ⟨b, hb⟩ := Complex.exists_literal_text hfinite hplain.positional
      (mt hplain.imaginary hreal)
    rw [if_neg hreal]
    exact ⟨b, .literal (hb rest)⟩

theorem isFinite_unsigned (hfinite : a.isFinite) : (Equation.unsigned a).isFinite := by
  unfold Equation.unsigned
  split
  · exact Complex.isFinite_neg hfinite
  · exact hfinite

/-- What is written after the sign of a term is not below zero. -/
theorem not_isNegative_unsigned (hfinite : a.isFinite)
    (hreal : Scalar.isZero (Equation.unsigned a).im) :
    ¬Scalar.isNegative (Equation.unsigned a).re := by
  unfold Equation.unsigned at hreal ⊢
  split
  · rename_i hsubtracted
    obtain ⟨q, hq⟩ := Scalar.exists_value (Complex.isFinite_iff.mp hfinite).1
    have hneg := (Scalar.isNegative_iff hq).mp (Bool.and_eq_true_iff.mp hsubtracted).2
    have hvalue : Scalar.value (-a).re = .finite (-q) := ofFloat_neg hq
    rw [Scalar.isNegative_iff hvalue]
    linarith
  · rename_i hsubtracted
    rw [if_neg hsubtracted] at hreal
    exact fun hneg => hsubtracted (Bool.and_eq_true_iff.mpr ⟨hreal, hneg⟩)

/-- **Coefficients are read**, also those whose text is left out because it is that of one. -/
theorem isReadAs_of_isPlain (hfinite : a.isFinite) (hplain : (Equation.unsigned a).text = "1" ∨
    (Equation.unsigned a).IsPlain) : IsReadAs (fun _ _ => True) a := by
  intro name rest hname hrest
  have hunknown := name_of_isName hname hrest
  change ∃ b, Body ((Equation.coefficientText (Equation.unsigned a)).toList ++ _) name b rest ∧ True
  rw [Equation.coefficientText]
  by_cases hone : (Equation.unsigned a).text = "1"
  · rw [if_pos hone]
    exact ⟨1, .bare hunknown, trivial⟩
  · obtain ⟨b, hb⟩ := exists_magnitude_of_isPlain (isFinite_unsigned hfinite)
      (hplain.resolve_left hone) (not_isNegative_unsigned hfinite) (stops_isNumeric_of_isName hname)
    rw [if_neg hone]
    exact ⟨b, .sized hb (run_nil _) hunknown, trivial⟩

/-- **Right hand sides are read.** -/
theorem exists_rightHandSide_of_isPlain (hfinite : a.isFinite) (hplain : a.IsPlain) :
    ∃ b : Complex Float,
      RightHandSide (if Scalar.isZero a.im then a.text else "(" ++ a.text ++ ")").toList b [] := by
  by_cases hreal : Scalar.isZero a.im
  · obtain ⟨q, -, negative, digits, x, htext, hx, -⟩ :=
      Complex.isPlainText_of_isZero hfinite hplain.positional hreal
    have hsize : Magnitude digits (Complex.ofReal x) [] := by
      have := hx.number (stops_nil _)
      rw [List.append_nil] at this
      exact .number this
    rw [if_pos hreal, htext]
    cases negative with
    | false => exact ⟨_, .plain hsize⟩
    | true => exact ⟨_, .negated (run_nil _) hsize⟩
  · obtain ⟨b, hb⟩ := Complex.exists_literal_text hfinite hplain.positional
      (mt hplain.imaginary hreal)
    have := hb []
    rw [List.append_nil] at this
    rw [if_neg hreal]
    exact ⟨b, .plain (.literal this)⟩

/-! ### Names that are read -/

theorem isLower_toLower {x : Char} (h : x.isAlpha) : x.toLower.isLower := by
  rcases Bool.or_eq_true_iff.mp h with hupper | hlower
  · have hbounds : 65 ≤ x.val.toNat ∧ x.val.toNat ≤ 90 := of_decide_eq_true hupper
    have hlower : x.toLower.val.toNat = x.val.toNat + 32 := by
      have hsum : x.toLower.val = x.val + 32 := by
        unfold Char.toLower
        rw [dif_pos (of_decide_eq_true hupper : 'A'.val ≤ x.val ∧ x.val ≤ 'Z'.val)]
        rfl
      rw [hsum, UInt32.toNat_add]
      change (x.val.toNat + 32) % 2 ^ 32 = _
      omega
    refine Bool.and_eq_true_iff.mpr ⟨decide_eq_true ?_, decide_eq_true ?_⟩
    · change 97 ≤ x.toLower.val.toNat
      omega
    · change x.toLower.val.toNat ≤ 122
      omega
  · rwa [toLower_of_isLower hlower]

theorem Name.isName {s : List Char} {name : String} (h : Name s name rest) : IsName name := by
  obtain ⟨hrun, hletter⟩ := h
  refine ⟨fun hempty => hletter ?_, fun x hx => ?_⟩
  · rw [← String.toList_inj, String.toList_ofList] at hempty
    exact List.map_eq_nil_iff.mp hempty
  · rw [String.toList_ofList] at hx
    obtain ⟨y, hy, rfl⟩ := List.mem_map.mp hx
    exact isLower_toLower (hrun.2.1 y hy)

theorem Term.isName {first : Bool} {s : List Char} {t : String × Complex Float}
    (h : Term first s t rest) : IsName t.1 := by
  have hbody : ∀ {s rest : List Char} {name : String} {a : Complex Float}, Body s name a rest →
      IsName name := by
    intro s rest name a hbody
    cases hbody with
    | bare hname => exact hname.isName
    | sized _ _ hname => exact hname.isName
  cases h with
  | signed _ _ h => exact hbody h
  | bare h => exact hbody h

theorem Terms.isName {first : Bool} {s : List Char} {ts : List (String × Complex Float)}
    (h : Terms first s ts rest) : ∀ t ∈ ts, IsName t.1 := by
  induction h with
  | done => exact List.forall_mem_nil _
  | more hterm _ _ ih => exact List.forall_mem_cons.mpr ⟨hterm.isName, ih⟩

end Grammar

/-! ### Equations -/

namespace Equation

/-- All numbers are written so that they can be read: the coefficients without their signs, unless
the text of one is left out. -/
structure IsPlain (e : Equation Float) : Prop where
  terms : ∀ t ∈ e.terms, (unsigned t.2).text = "1" ∨ (unsigned t.2).IsPlain
  rhs : e.rhs.IsPlain

instance (e : Equation Float) : Decidable e.IsPlain :=
  decidable_of_iff ((∀ t ∈ e.terms, (unsigned t.2).text = "1" ∨ (unsigned t.2).IsPlain) ∧
    e.rhs.IsPlain) ⟨fun h => ⟨h.1, h.2⟩, fun h => ⟨h.1, h.2⟩⟩

theorem setAll_ne_nil {e : Equation Float} {ts : List (String × Complex Float)}
    (h : ts ≠ [] ∨ e.terms ≠ []) : (e.setAll ts).terms ≠ [] := by
  induction ts generalizing e with
  | nil => exact h.resolve_left (absurd rfl)
  | cons t ts ih =>
    refine ih (e := e.set t.1 t.2) (.inr ?_)
    change setTerm t.1 t.2 e.terms ≠ []
    cases e.terms with
    | nil => exact List.cons_ne_nil _ _
    | cons u terms =>
      rw [setTerm]
      split <;> exact List.cons_ne_nil _ _

theorem isName_of_parse {s : String} {e : Equation Float} (h : Equation.parse s = .ok e) :
    e.terms ≠ [] ∧ ∀ t ∈ e.terms, IsName t.1 := by
  obtain ⟨ts, rhs, hequation, rfl⟩ := exists_isEquation_of_parse h
  obtain ⟨-, hterms, -, -, -⟩ := hequation
  refine ⟨setAll_ne_nil (.inl ?_), fun t ht => hterms.isName t (mem_of_mem_setAll_empty ht)⟩
  cases hterms
  exact List.cons_ne_nil _ _

/-- **The text of an equation that was read is read again**, with the same unknowns in the same
order, if its numbers are plain. -/
theorem parse_text_of_parse {s : String} {e : Equation Float} (h : Equation.parse s = .ok e)
    (hplain : e.IsPlain) :
    ∃ e' : Equation Float, Equation.parse e.text = .ok e' ∧ e'.unknowns = e.unknowns := by
  have hfinite := isFinite_of_parse h
  obtain ⟨hne, hnames⟩ := isName_of_parse h
  obtain ⟨rhs, hright⟩ := exists_rightHandSide_of_isPlain hfinite.rhs hplain.rhs
  obtain ⟨ts, hequation, hcorresponds⟩ := exists_isEquation hne
    (fun t ht => ⟨hnames t ht, isReadAs_of_isPlain (hfinite.terms t ht) (hplain.terms t ht)⟩) hright
  have hunknowns := unknowns_eq_of_corresponds hcorresponds
  -- no unknown stands twice in the text, so no term replaces another
  have hset : ((Equation.empty (0 : Complex Float)).setAll ts).terms = ts :=
    terms_setAll (.empty 0) (hunknowns ▸ e.nodup)
  refine ⟨_, parse_of_isEquation hequation, ?_⟩
  rw [unknowns, withRhs, hset, hunknowns]
  rfl

/-- Numbers that are rounded, a coefficient that is written like one, and parentheses. -/
theorem parse_text_of_parse_rounded :
    ∃ e : Equation Float,
      Equation.parse "-1.23456X + (1.00000000001 + 0.00000000001i)y - (2 - .123456i)z = -1234.56" =
        .ok e ∧ e.IsPlain ∧ e.text = "-1.235x + y + (-2 + 0.1235i)z = -1234.56" ∧
        ∃ e' : Equation Float, Equation.parse e.text = .ok e' ∧ e'.unknowns = e.unknowns := by
  obtain ⟨e, he, hchecked⟩ := exists_ok_of_any (p := fun e : Equation Float =>
    e.IsPlain ∧ e.text = "-1.235x + y + (-2 + 0.1235i)z = -1234.56")
    (r := Equation.parse
      "-1.23456X + (1.00000000001 + 0.00000000001i)y - (2 - .123456i)z = -1234.56")
    (by decide +kernel)
  obtain ⟨hplain, htext⟩ := of_decide_eq_true hchecked
  exact ⟨e, he, hplain, htext, parse_text_of_parse he hplain⟩

/-- A number with five digits before the point and some after it is written with a power of ten,
which is not read. -/
theorem not_parse_text_of_parse :
    ∃ e : Equation Float, Equation.parse "x = 12345.678912" = .ok e ∧
      e.text = "x = 1.235e+4" ∧ ∀ e' : Equation Float, Equation.parse e.text ≠ .ok e' := by
  obtain ⟨e, he, hchecked⟩ := exists_ok_of_any (p := fun e : Equation Float =>
    e.text = "x = 1.235e+4") (r := Equation.parse "x = 12345.678912") (by decide +kernel)
  have htext : e.text = "x = 1.235e+4" := of_decide_eq_true hchecked
  have hnone : (Equation.parse "x = 1.235e+4" :
      Except ParseError (Equation Float)).toOption.isNone := by decide +kernel
  obtain ⟨cause, hcause⟩ := exists_eq_error hnone
  refine ⟨e, he, htext, fun e' he' => ?_⟩
  rw [htext, hcause] at he'
  cases he'

end Equation
end LinearEquations
