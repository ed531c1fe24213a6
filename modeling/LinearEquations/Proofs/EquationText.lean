import LinearEquations.Equation.Text
import LinearEquations.Proofs.Reading
import LinearEquations.Proofs.WholeText

/-! # Reading the text of an equation

The text of an equation whose numbers are whole is read as an equal equation
(`Equation.parse_text`).  What is written and what is read have to agree on every sign: a real
coefficient below zero is written by its magnitude after a minus sign that belongs to the term, the
real part of a literal has a sign of its own, a unit is left out, and a zero has no sign at all.

There is one lemma for each symbol of the grammar.  It says that a text is derived as a number that
stands for the same whole number as the one that was written (`IsWhole`), which is why it does not
matter that the two need not be the same double: a zero may have lost its sign. -/

namespace LinearEquations
open Grammar Scalar
open Decimal (figures figures_ne_nil isDigit_of_mem_figures)

/-! ### Whole scalars -/

namespace Scalar
variable {x y : Float} {z : Int} {n : Nat}

theorem isWhole_zero : IsWhole (0 : Float) 0 := ⟨by decide +kernel, by decide⟩

theorem isWhole_one : IsWhole (1 : Float) 1 := ⟨by decide +kernel, by decide⟩

theorem IsWhole.neg (h : IsWhole x z) : IsWhole (-x) (-z) := by
  refine ⟨?_, (Int.natAbs_neg z).symm ▸ h.2⟩
  rw [Rat.intCast_neg]
  exact ofFloat_neg h.1

theorem IsWhole.eq (hx : IsWhole x z) (hy : IsWhole y z) : Scalar.eq x y := by
  rw [Scalar.eq, hx.1, hy.1]
  simp [Extended.eq]

theorem IsWhole.isZero_iff (h : IsWhole x z) : Scalar.isZero x ↔ z = 0 := by
  rw [Scalar.isZero, h.1, decide_eq_true_eq, Extended.finite.injEq]
  exact_mod_cast Iff.rfl

theorem isNegative_iff {q : Rat} (h : value x = .finite q) : isNegative x ↔ q < 0 := by
  rw [isNegative, h]
  exact decide_eq_true_iff

theorem IsWhole.isNegative_iff (h : IsWhole x z) : isNegative x ↔ z < 0 :=
  (Scalar.isNegative_iff h.1).trans Int.cast_lt_zero

theorem IsWhole.isPositive_iff (h : IsWhole x z) : isPositive x ↔ 0 < z := by
  rw [isPositive, h.1]
  exact decide_eq_true_iff.trans (by exact_mod_cast Iff.rfl)

theorem IsWhole.abs (h : IsWhole x z) : IsWhole (Scalar.abs x) z.natAbs := by
  unfold Scalar.abs
  split
  · rename_i hneg
    have := h.isNegative_iff.mp hneg
    rw [show (z.natAbs : Int) = -z by omega]
    exact h.neg
  · rename_i hneg
    have := mt h.isNegative_iff.mpr hneg
    rw [show (z.natAbs : Int) = z by omega]
    exact h

theorem ratAbs_intCast (z : Int) : (z : Rat).abs = z.natAbs := by
  rw [Nat.cast_natAbs]
  rcases le_total 0 z with hz | hz
  · rw [abs_of_nonneg hz]
    exact Rat.abs_of_nonneg (by exact_mod_cast hz)
  · rw [abs_of_nonpos hz, Int.cast_neg]
    exact Rat.abs_of_nonpos (by exact_mod_cast hz)

/-- Whole numbers that are near each other are equal. -/
theorem IsWhole.isNear_iff (h : IsWhole x z) (k : Int) : (value x).isNear k ↔ z = k := by
  have hsub : (z : Rat) - k = (z - k : Int) := (Int.cast_sub ..).symm
  rw [h.1, Extended.isNear, decide_eq_true_eq, hsub, ratAbs_intCast]
  constructor
  · intro hlt
    have : ((z - k).natAbs : Rat) < (1 : Nat) := lt_trans hlt (by norm_num [tolerance])
    have : (z - k).natAbs < 1 := by exact_mod_cast this
    omega
  · rintro rfl
    rw [sub_self]
    norm_num [tolerance]

end Scalar

/-! ### Whole complex numbers -/

namespace Complex
variable {a b : Complex Float} {p q : Int}

/-- Both parts are whole numbers up to `2 ^ 53`. -/
structure IsWhole (a : Complex Float) (p q : Int) : Prop where
  re : Scalar.IsWhole a.re p
  im : Scalar.IsWhole a.im q

theorem IsWhole.neg (h : a.IsWhole p q) : (-a).IsWhole (-p) (-q) := ⟨h.re.neg, h.im.neg⟩

theorem IsWhole.eq (ha : a.IsWhole p q) (hb : b.IsWhole p q) : a.eq b :=
  Bool.and_eq_true_iff.mpr ⟨ha.re.eq hb.re, ha.im.eq hb.im⟩

theorem isWhole_ofReal {x : Float} (h : Scalar.IsWhole x p) : (ofReal x).IsWhole p 0 :=
  ⟨h, Scalar.isWhole_zero⟩

theorem isWhole_one : (1 : Complex Float).IsWhole 1 0 := isWhole_ofReal Scalar.isWhole_one

/-- The imaginary part of a text, with its sign. -/
def imaginaryText (q : Int) : List Char :=
  ' ' :: (if 0 < q then '+' else '-') :: ' ' ::
    ((if q.natAbs = 1 then [] else figures q.natAbs) ++ ['i'])

/-- The text of a complex number with whole parts. -/
def wholeText (p q : Int) : List Char :=
  Scalar.wholeText p ++ if q = 0 then [] else imaginaryText q

theorem wholeText_natCast (n : Nat) : Scalar.wholeText n = figures n := by
  rw [Scalar.wholeText, if_neg (by omega), Int.natAbs_natCast, List.nil_append]

theorem text_of_isWhole (h : a.IsWhole p q) : a.text = String.ofList (wholeText p q) := by
  have hsize := h.im.abs
  have hnear : (Scalar.value a.im).isNear 0 ↔ q = 0 := by simpa using h.im.isNear_iff 0
  have hunit : (Scalar.value (Scalar.abs a.im)).isNear 1 ↔ q.natAbs = 1 := by
    have := hsize.isNear_iff 1
    rw [Int.cast_one] at this
    rw [this]
    omega
  have hre := Scalar.text_of_isWhole h.re
  have him := Scalar.text_of_isWhole hsize
  rw [wholeText_natCast] at him
  rw [← String.toList_inj]
  simp only [text, hnear, hunit, h.im.isPositive_iff, hre, him, wholeText, imaginaryText]
  split
  · simp
  · split <;> split <;> simp

end Complex

/-! ### Numbers and literals -/

namespace Grammar
open Cursor (signed)
variable {rest : List Char} {n : Nat} {p q : Int}

theorem ofDecimal?_natural (hn : n ≤ 2 ^ 53) :
    ∃ x : Float, Scalar.ofDecimal? n 0 = some x ∧ Scalar.IsWhole x n := by
  have hvalue := ofFloat_ofScientific hn
  have hfinite : (Float.ofScientific n true 0).isFinite := by
    rw [isFinite_iff, hvalue]
    rfl
  exact ⟨_, if_pos hfinite, hvalue, hn⟩

/-- **The digits of a number are read as the number.** -/
theorem exists_number (hn : n ≤ 2 ^ 53) (hrest : Stops Numeral.isNumeric rest) :
    ∃ x : Float, Number (figures n ++ rest) x rest ∧ Scalar.IsWhole x n := by
  have hdigits : ∀ x ∈ figures n, x.isDigit := fun x => isDigit_of_mem_figures
  have hnumeric : ∀ x ∈ figures n, Numeral.isNumeric x := fun x hx =>
    Bool.or_eq_true_iff.mpr (.inl (hdigits x hx))
  obtain ⟨x, hx, hwhole⟩ := ofDecimal?_natural hn
  obtain ⟨d, hd⟩ := List.exists_mem_of_ne_nil _ (figures_ne_nil n)
  refine ⟨x, .intro ⟨rfl, hnumeric, hrest⟩ ⟨d, hd, hdigits d hd⟩ ?_ ?_, hwhole⟩
  · rw [count_point_of_digits hdigits]
    exact Nat.zero_le 1
  · rw [List.filter_eq_self.mpr hdigits, places_of_digits hdigits, figures,
      Nat.ofDigitChars_ten_toDigits]
    exact hx

/-- A whole number is a minus sign or nothing, and a number. -/
theorem exists_minus_number (hp : p.natAbs ≤ 2 ^ 53) (hrest : Stops Numeral.isNumeric rest) :
    ∃ (negative : Bool) (x : Float),
      Minus (Scalar.wholeText p ++ rest) negative (figures p.natAbs ++ rest) ∧
        Number (figures p.natAbs ++ rest) x rest ∧ Scalar.IsWhole (signed negative x) p := by
  obtain ⟨x, hx, hwhole⟩ := exists_number hp hrest
  rcases lt_or_ge p 0 with hneg | hpos
  · refine ⟨true, x, ?_, hx, ?_⟩
    · rw [Scalar.wholeText, if_pos hneg]
      exact .present _
    · have := hwhole.neg
      rwa [show -(p.natAbs : Int) = p by omega] at this
  · refine ⟨false, x, ?_, hx, ?_⟩
    · rw [Scalar.wholeText, if_neg (not_lt.mpr hpos)]
      exact .absent _
    · rwa [show (p.natAbs : Int) = p by omega] at hwhole

/-- The magnitude of an imaginary part is read, and one if it is left out. -/
theorem exists_factor (rest : List Char) (hq : q.natAbs ≤ 2 ^ 53) :
    ∃ x : Float, Factor ((if q.natAbs = 1 then [] else figures q.natAbs) ++ 'i' :: rest) x
      ('i' :: rest) ∧ Scalar.IsWhole x q.natAbs := by
  split
  · rename_i hone
    rw [hone]
    exact ⟨1, .absent _, Scalar.isWhole_one⟩
  · have hstops : Stops Numeral.isNumeric ('i' :: rest) := stops_cons (by decide) rest
    obtain ⟨x, hx, hwhole⟩ := exists_number hq hstops
    exact ⟨x, .present hx, hwhole⟩

theorem run_nil (s : List Char) : Run isBlank s s := ⟨[], rfl, List.forall_mem_nil _⟩

theorem run_blank (s : List Char) : Run isBlank (' ' :: s) s :=
  ⟨[' '], rfl, List.forall_mem_singleton.mpr (by decide)⟩

/-- The sign between the parts and the magnitude of the imaginary part. -/
theorem exists_sign_factor (rest : List Char) (hq : q.natAbs ≤ 2 ^ 53) (hne : q ≠ 0) :
    ∃ (negative : Bool) (x : Float), let factor := if q.natAbs = 1 then [] else figures q.natAbs
      Sign ((if 0 < q then '+' else '-') :: ' ' :: (factor ++ 'i' :: rest)) negative
          (' ' :: (factor ++ 'i' :: rest)) ∧
        Factor (factor ++ 'i' :: rest) x ('i' :: rest) ∧
        Scalar.IsWhole (signed negative x) q := by
  obtain ⟨x, hx, hwhole⟩ := exists_factor rest hq
  by_cases hpos : 0 < q
  · refine ⟨false, x, ?_, hx, ?_⟩
    · rw [if_pos hpos]
      exact .plus _
    · rwa [show (q.natAbs : Int) = q by omega] at hwhole
  · refine ⟨true, x, ?_, hx, ?_⟩
    · rw [if_neg hpos]
      exact .minus _
    · have := hwhole.neg
      rwa [show -(q.natAbs : Int) = q by omega] at this

/-- **A complex number in parentheses is read as the number.** -/
theorem exists_literal (rest : List Char) (hp : p.natAbs ≤ 2 ^ 53) (hq : q.natAbs ≤ 2 ^ 53)
    (hne : q ≠ 0) :
    ∃ a : Complex Float,
      Literal ('(' :: (Complex.wholeText p q ++ ')' :: rest)) a rest ∧ a.IsWhole p q := by
  obtain ⟨negativeIm, im, hsign, hfactor, him⟩ := exists_sign_factor (')' :: rest) hq hne
  obtain ⟨negativeRe, re, hminus, hnumber, hre⟩ :=
    exists_minus_number hp (stops_cons (x := ' ') (by decide) _)
  refine ⟨⟨signed negativeRe re, signed negativeIm im⟩, ?_, hre, him⟩
  have htext : Complex.wholeText p q ++ ')' :: rest = Scalar.wholeText p ++
      ' ' :: (if 0 < q then '+' else '-') :: ' ' ::
        ((if q.natAbs = 1 then [] else figures q.natAbs) ++ 'i' :: ')' :: rest) := by
    simp [Complex.wholeText, Complex.imaginaryText, hne]
  rw [htext]
  exact .intro (run_nil _) hminus hnumber (run_blank _) hsign (run_blank _) hfactor
    ⟨[], rfl, List.forall_mem_nil _⟩ (run_nil _)

/-! ### Names -/

/-- The texts that are names of unknowns: letters in lower case, at least one. -/
def IsName (name : String) : Prop := name ≠ "" ∧ ∀ x ∈ name.toList, x.isLower

instance (name : String) : Decidable (IsName name) :=
  decidable_of_iff (name ≠ "" ∧ name.toList.all Char.isLower) (and_congr_right' List.all_eq_true)

theorem isAlpha_of_isLower {x : Char} (h : x.isLower) : x.isAlpha :=
  Bool.or_eq_true_iff.mpr (.inr h)

theorem toLower_of_isLower {x : Char} (h : x.isLower) : x.toLower = x := by
  have hlow : 'a'.val ≤ x.val := of_decide_eq_true (Bool.and_eq_true_iff.mp h).1
  unfold Char.toLower
  refine dif_neg fun hupper => ?_
  exact absurd (UInt32.le_trans hlow hupper.2) (by decide)

variable {name : String} {a : Complex Float}

/-- **A name is read as the name.** -/
theorem name_of_isName (h : IsName name) (hrest : Stops Char.isAlpha rest) :
    Name (name.toList ++ rest) name rest := by
  have hletters : ∀ x ∈ name.toList, x.isAlpha := fun x hx => isAlpha_of_isLower (h.2 x hx)
  have hlower : name.toList.map Char.toLower = name.toList :=
    (List.map_congr_left fun x hx => toLower_of_isLower (h.2 x hx)).trans (List.map_id' _)
  have := Name.intro ⟨rfl, hletters, hrest⟩ (by simpa using h.1)
  rwa [hlower, String.ofList_toList] at this

theorem stops_isNumeric_of_isName (h : IsName name) :
    Stops Numeral.isNumeric (name.toList ++ rest) := by
  obtain ⟨x, letters, heq⟩ := List.exists_cons_of_ne_nil (mt String.toList_eq_nil_iff.mp h.1)
  have hx : x.isLower := h.2 x (heq ▸ List.mem_cons_self ..)
  rw [heq]
  exact stops_cons (isNumeric_eq_false_of_isAlpha (isAlpha_of_isLower hx)) _

/-! ### Magnitudes and bodies -/

/-- **A number is read as the number**, unless it is real and below zero. -/
theorem exists_magnitude (h : a.IsWhole p q) (hsign : q = 0 → 0 ≤ p)
    (hrest : Stops Numeral.isNumeric rest) :
    ∃ b : Complex Float,
      Magnitude ((if Scalar.isZero a.im then a.text else "(" ++ a.text ++ ")").toList ++ rest)
        b rest ∧ b.IsWhole p q := by
  rw [Complex.text_of_isWhole h]
  by_cases hq : q = 0
  · obtain ⟨x, hnumber, hx⟩ := exists_number h.re.2 hrest
    rw [Int.natAbs_of_nonneg (hsign hq)] at hx
    have htext : Complex.wholeText p q = figures p.natAbs := by
      rw [Complex.wholeText, if_pos hq, List.append_nil, Scalar.wholeText,
        if_neg (not_lt.mpr (hsign hq)), List.nil_append]
    rw [if_pos (h.im.isZero_iff.mpr hq), String.toList_ofList, htext]
    exact ⟨_, .number hnumber, hq ▸ Complex.isWhole_ofReal hx⟩
  · obtain ⟨b, hliteral, hb⟩ := exists_literal rest h.re.2 h.im.2 hq
    rw [if_neg (mt h.im.isZero_iff.mp hq)]
    refine ⟨b, .literal ?_, hb⟩
    simpa using hliteral

theorem figures_eq_one_iff : figures n = ['1'] ↔ n = 1 := by
  constructor
  · intro h
    rw [← Nat.ofDigitChars_ten_toDigits (n := n), ← figures, h]
    rfl
  · rintro rfl
    rfl

/-- Only the number one has its text. -/
theorem text_eq_one_iff (h : a.IsWhole p q) : a.text = "1" ↔ p = 1 ∧ q = 0 := by
  rw [Complex.text_of_isWhole h, ← String.toList_inj, String.toList_ofList]
  constructor
  · intro heq
    have hq : q = 0 := by
      by_contra hq
      have hblank : ' ' ∈ Complex.wholeText p q := by
        simp [Complex.wholeText, Complex.imaginaryText, hq]
      rw [heq] at hblank
      exact absurd hblank (by decide)
    rw [Complex.wholeText, if_pos hq, List.append_nil, Scalar.wholeText] at heq
    split at heq
    · exact absurd (List.cons.inj heq).1 (by decide)
    · have := figures_eq_one_iff.mp heq
      exact ⟨by omega, hq⟩
  · rintro ⟨rfl, rfl⟩
    rfl

/-- **An unknown with its coefficient is read as the two.** -/
theorem exists_body (h : a.IsWhole p q) (hsign : q = 0 → 0 ≤ p) (hname : IsName name)
    (hrest : Stops Char.isAlpha rest) :
    ∃ b : Complex Float,
      Body ((Equation.coefficientText a).toList ++ (name.toList ++ rest)) name b rest ∧
        b.IsWhole p q := by
  have hunknown := name_of_isName hname hrest
  by_cases hone : a.text = "1"
  · obtain ⟨rfl, rfl⟩ := (text_eq_one_iff h).mp hone
    rw [Equation.coefficientText, if_pos hone]
    exact ⟨1, .bare hunknown, Complex.isWhole_one⟩
  · obtain ⟨b, hsize, hb⟩ := exists_magnitude h hsign (stops_isNumeric_of_isName hname)
    rw [Equation.coefficientText, if_neg hone]
    exact ⟨b, .sized hsize (run_nil _) hunknown, hb⟩

/-! ### Terms -/

/-- Two numbers that are the same whole number. -/
def SameWhole (b a : Complex Float) : Prop := ∃ p q, b.IsWhole p q ∧ a.IsWhole p q

theorem isSubtracted_iff (h : a.IsWhole p q) : Equation.isSubtracted a ↔ q = 0 ∧ p < 0 := by
  rw [Equation.isSubtracted, Bool.and_eq_true_iff, h.im.isZero_iff, h.re.isNegative_iff]

/-- What follows the sign of a term. -/
theorem exists_unsigned (h : a.IsWhole p q) (hname : IsName name)
    (hrest : Stops Char.isAlpha rest) :
    ∃ b : Complex Float,
      Body ((Equation.coefficientText (if Equation.isSubtracted a then -a else a)).toList ++
        (name.toList ++ rest)) name b rest ∧
        (signed (Equation.isSubtracted a) b).IsWhole p q := by
  have hsubtracted := isSubtracted_iff h
  cases hsign : Equation.isSubtracted a with
  | true =>
    obtain ⟨rfl, hp⟩ := hsubtracted.mp hsign
    obtain ⟨b, hbody, hb⟩ := exists_body h.neg (fun _ => by omega) hname hrest
    refine ⟨b, hbody, ?_⟩
    have := hb.neg
    rwa [neg_neg, neg_neg] at this
  | false =>
    have hpos : q = 0 → 0 ≤ p := by
      intro hq
      by_contra hp
      exact absurd (hsubtracted.mpr ⟨hq, not_le.mp hp⟩) (by simp [hsign])
    exact exists_body h hpos hname hrest

/-- What is written between the sign of a term and its name is read as a number to which the
coefficient stands in the given relation, once the sign is taken into account. -/
def IsReadAs (related : Complex Float → Complex Float → Prop) (a : Complex Float) : Prop :=
  ∀ name rest, IsName name → Stops Char.isAlpha rest →
    ∃ b, Body ((Equation.coefficientText (if Equation.isSubtracted a then -a else a)).toList ++
      (name.toList ++ rest)) name b rest ∧ related (signed (Equation.isSubtracted a) b) a

variable {related : Complex Float → Complex Float → Prop}

/-- The first term has a minus sign or none. -/
theorem exists_first_term (h : IsReadAs related a) (hname : IsName name)
    (hrest : Stops Char.isAlpha rest) :
    ∃ b, Term true ((Equation.termText true name a).toList ++ rest) (name, b) rest ∧
      related b a := by
  obtain ⟨b, hbody, hb⟩ := h name rest hname hrest
  refine ⟨_, ?_, hb⟩
  cases hsign : Equation.isSubtracted a with
  | true =>
    rw [hsign] at hbody
    simpa [Equation.termText, Equation.joint, hsign] using
      Term.signed (.minus _) (run_nil _) hbody
  | false =>
    rw [hsign] at hbody
    simpa [Equation.termText, Equation.joint, hsign, signed] using Term.bare hbody

/-- Every other term has a sign between blanks. -/
theorem exists_later_term (h : IsReadAs related a) (hname : IsName name)
    (hrest : Stops Char.isAlpha rest) :
    ∃ s b, Run isBlank ((Equation.termText false name a).toList ++ rest) s ∧
      Term false s (name, b) rest ∧ related b a := by
  obtain ⟨b, hbody, hb⟩ := h name rest hname hrest
  cases hsign : Equation.isSubtracted a with
  | true =>
    rw [hsign] at hbody hb
    refine ⟨_, _, ?_, .signed (.minus _) (run_blank _) hbody, hb⟩
    simpa [Equation.termText, Equation.joint, hsign] using run_blank _
  | false =>
    rw [hsign] at hbody hb
    refine ⟨_, _, ?_, .signed (.plus _) (run_blank _) hbody, hb⟩
    simpa [Equation.termText, Equation.joint, hsign] using run_blank _

/-- After a term there is a blank. -/
theorem stops_isAlpha_termsText (l : List (String × Complex Float)) (rest : List Char) :
    Stops Char.isAlpha ((Equation.termsText false l).toList ++ ' ' :: rest) := by
  match l with
  | [] => exact stops_cons (by decide) _
  | (name, a) :: l =>
    rw [Equation.termsText, Equation.termText, Equation.joint, if_neg Bool.false_ne_true]
    split <;> simpa using stops_cons (by decide) _

/-- Terms with the same name and related coefficients. -/
def Corresponds (related : Complex Float → Complex Float → Prop) (t u : String × Complex Float) :
    Prop := t.1 = u.1 ∧ related t.2 u.2

/-- **Terms are read as terms that correspond to them**, whatever follows the equals sign. -/
theorem exists_terms (l : List (String × Complex Float))
    (hl : ∀ t ∈ l, IsName t.1 ∧ IsReadAs related t.2) :
    ∃ s ts, Run isBlank ((Equation.termsText false l).toList ++ ' ' :: '=' :: rest) s ∧
      Terms false s ts rest ∧ List.Forall₂ (Corresponds related) ts l := by
  induction l with
  | nil => exact ⟨_, [], run_blank _, .done rest, .nil⟩
  | cons t l ih =>
    obtain ⟨⟨hname, h⟩, hl⟩ := List.forall_mem_cons.mp hl
    obtain ⟨s, ts, hblanks, hterms, hrelated⟩ := ih hl
    obtain ⟨s', b, hblanks', hterm, hb⟩ :=
      exists_later_term h hname (stops_isAlpha_termsText l ('=' :: rest))
    refine ⟨s', (t.1, b) :: ts, ?_, .more hterm hblanks hterms, .cons ⟨rfl, hb⟩ hrelated⟩
    rwa [Equation.termsText, String.toList_append, List.append_assoc]

/-! ### Equations -/

/-- **The right hand side is read as the number.** -/
theorem exists_rightHandSide (h : a.IsWhole p q) :
    ∃ b : Complex Float,
      RightHandSide (if Scalar.isZero a.im then a.text else "(" ++ a.text ++ ")").toList b [] ∧
        b.IsWhole p q := by
  by_cases hneg : q = 0 ∧ p < 0
  · obtain ⟨rfl, hp⟩ := hneg
    obtain ⟨x, hnumber, hx⟩ := exists_number h.re.2 (stops_nil _)
    have hb := (Complex.isWhole_ofReal hx).neg
    rw [show -(p.natAbs : Int) = p by omega] at hb
    refine ⟨_, ?_, hb⟩
    rw [if_pos (h.im.isZero_iff.mpr rfl), Complex.text_of_isWhole h, String.toList_ofList,
      Complex.wholeText, if_pos rfl, Scalar.wholeText, if_pos hp]
    exact .negated (run_nil _) (.number (by simpa using hnumber))
  · obtain ⟨b, hsize, hb⟩ := exists_magnitude h (fun hq => by omega) (stops_nil _)
    rw [List.append_nil] at hsize
    exact ⟨b, .plain hsize, hb⟩

end Grammar

namespace Equation

/-- Setting an unknown that has no term adds one. -/
theorem setTerm_of_notMem {R : Type} {name : String} (a : Complex R)
    {terms : List (String × Complex R)} (h : name ∉ terms.map Prod.fst) :
    setTerm name a terms = terms ++ [(name, a)] := by
  induction terms with
  | nil => rfl
  | cons t terms ih =>
    obtain ⟨hne, hnotMem⟩ := List.ne_and_not_mem_of_not_mem_cons h
    rw [setTerm, if_neg (Ne.symm hne), ih hnotMem, List.cons_append]

/-- Setting unknowns that are all different gives the terms as they are. -/
theorem terms_setAll {R : Type} (e : Equation R) {ts : List (String × Complex R)}
    (h : ((e.terms ++ ts).map Prod.fst).Nodup) : (e.setAll ts).terms = e.terms ++ ts := by
  induction ts generalizing e with
  | nil => exact (List.append_nil _).symm
  | cons t ts ih =>
    have hset : (e.set t.1 t.2).terms = e.terms ++ [t] := by
      refine setTerm_of_notMem t.2 fun hmem => ?_
      rw [List.map_append, List.map_cons] at h
      exact (List.nodup_append.mp h).2.2 _ hmem _ (List.mem_cons_self ..) rfl
    have := ih (e.set t.1 t.2) (by rwa [hset, List.append_assoc])
    rw [hset, List.append_assoc] at this
    exact this

/-- Every unknown has a name, and every coefficient and the right hand side are whole. -/
structure IsWhole (e : Equation Float) : Prop where
  terms : ∀ t ∈ e.terms, IsName t.1 ∧ ∃ p q, t.2.IsWhole p q
  rhs : ∃ p q, e.rhs.IsWhole p q

/-- The text of an equation is derived if its coefficients and its right hand side are. -/
theorem exists_isEquation {e : Equation Float} {rhs : Complex Float}
    {related : Complex Float → Complex Float → Prop} (hterms : e.terms ≠ [])
    (hl : ∀ t ∈ e.terms, IsName t.1 ∧ IsReadAs related t.2)
    (hright : RightHandSide
      (if Scalar.isZero e.rhs.im then e.rhs.text else "(" ++ e.rhs.text ++ ")").toList rhs []) :
    ∃ ts, IsEquation e.text.toList ts rhs ∧ List.Forall₂ (Corresponds related) ts e.terms := by
  obtain ⟨t, l, htl⟩ := List.exists_cons_of_ne_nil hterms
  obtain ⟨⟨hname, ht⟩, hl⟩ := List.forall_mem_cons.mp (htl ▸ hl)
  obtain ⟨s, ts, hblanks, hothers, hrelated⟩ := exists_terms l hl
  obtain ⟨b, hterm, hb⟩ := exists_first_term ht hname (stops_isAlpha_termsText l _)
  refine ⟨(t.1, b) :: ts, ?_, htl ▸ .cons ⟨rfl, hb⟩ hrelated⟩
  have := IsEquation.intro (run_nil _) (.more hterm hblanks hothers) (run_blank _) hright
    (run_nil _)
  simpa [text, htl, termsText] using this

/-- The text of a whole equation is derived, with terms that stand for the same numbers. -/
theorem IsWhole.exists_isEquation {e : Equation Float} (h : e.IsWhole) (hterms : e.terms ≠ []) :
    ∃ ts rhs, IsEquation e.text.toList ts rhs ∧
      List.Forall₂ (Corresponds SameWhole) ts e.terms ∧ rhs.eq e.rhs := by
  obtain ⟨p, q, hrhs⟩ := h.rhs
  obtain ⟨rhs, hright, heq⟩ := exists_rightHandSide hrhs
  have hl : ∀ t ∈ e.terms, IsName t.1 ∧ IsReadAs SameWhole t.2 := by
    intro t ht
    obtain ⟨hname, p, q, hwhole⟩ := h.terms t ht
    refine ⟨hname, fun name rest hname hrest => ?_⟩
    obtain ⟨b, hbody, hb⟩ := exists_unsigned hwhole hname hrest
    exact ⟨b, hbody, p, q, hb, hwhole⟩
  obtain ⟨ts, hequation, hsame⟩ := Equation.exists_isEquation hterms hl hright
  exact ⟨ts, rhs, hequation, hsame, heq.eq hrhs⟩

/-- Terms that correspond have the same unknowns. -/
theorem unknowns_eq_of_corresponds {related : Complex Float → Complex Float → Prop}
    {ts l : List (String × Complex Float)} (h : List.Forall₂ (Corresponds related) ts l) :
    ts.map Prod.fst = l.map Prod.fst := by
  induction h with
  | nil => rfl
  | cons ht _ ih => exact congrArg₂ List.cons ht.1 ih

theorem all_eq_of_sameWhole {ts l : List (String × Complex Float)}
    (h : List.Forall₂ (Corresponds SameWhole) ts l) :
    (List.zipWith (fun s t => s.2.eq t.2) ts l).all id := by
  induction h with
  | nil => rfl
  | cons ht _ ih =>
    obtain ⟨-, p, q, hs, ht⟩ := ht
    exact Bool.and_eq_true_iff.mpr ⟨hs.eq ht, ih⟩

/-- **The text of a whole equation is read as an equal equation**: the same unknowns in the same
order, with equal numbers. -/
theorem parse_text {e : Equation Float} (h : e.IsWhole) (hterms : e.terms ≠ []) :
    ∃ e', Equation.parse e.text = .ok e' ∧ e'.eq e := by
  obtain ⟨ts, rhs, hequation, hsame, heq⟩ := h.exists_isEquation hterms
  have hunknowns := unknowns_eq_of_corresponds hsame
  have hset : ((Equation.empty (0 : Complex Float)).setAll ts).terms = ts :=
    terms_setAll (.empty 0) (hunknowns ▸ e.nodup)
  refine ⟨_, parse_of_isEquation hequation, ?_⟩
  simp only [eq, unknowns, withRhs, hset, hunknowns, all_eq_of_sameWhole hsame, heq, decide_true,
    Bool.and_self]

/-- Signs of all kinds: a unit after a minus sign, a zero that loses its sign, a number whose own
sign is in the parentheses, and a right hand side below zero. -/
def signs : Equation Float where
  terms := [("x", ⟨-1, 0⟩), ("y", ⟨-0.0, 0⟩), ("z", ⟨-2, -1⟩)]
  rhs := ⟨-3, 0⟩
  nodup := by decide

theorem isWhole_signs : signs.IsWhole where
  terms := by
    have hx : Complex.IsWhole ⟨-1, 0⟩ (-1) 0 :=
      ⟨⟨by decide +kernel, by decide⟩, Scalar.isWhole_zero⟩
    have hy : Complex.IsWhole ⟨-0.0, 0⟩ 0 0 :=
      ⟨⟨by decide +kernel, by decide⟩, Scalar.isWhole_zero⟩
    have hz : Complex.IsWhole ⟨-2, -1⟩ (-2) (-1) :=
      ⟨⟨by decide +kernel, by decide⟩, ⟨by decide +kernel, by decide⟩⟩
    simp only [signs, List.forall_mem_cons, List.not_mem_nil, false_implies, implies_true, and_true]
    exact ⟨⟨by decide, _, _, hx⟩, ⟨by decide, _, _, hy⟩, ⟨by decide, _, _, hz⟩⟩
  rhs := ⟨-3, 0, ⟨by decide +kernel, by decide⟩, Scalar.isWhole_zero⟩

theorem parse_text_signs : ∃ e', Equation.parse signs.text = .ok e' ∧ e'.eq signs :=
  parse_text isWhole_signs (List.cons_ne_nil _ _)

end Equation
end LinearEquations
