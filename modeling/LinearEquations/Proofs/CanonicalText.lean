import LinearEquations.Proofs.DoubleRounding
import LinearEquations.Proofs.EquationText
import LinearEquations.Proofs.PrecisionText
import LinearEquations.Proofs.ShortestDecimal

/-! # The forms of a complex number's text

The text of a finite complex number has one of three forms, and which one it has is decided by the
value of the imaginary part alone (`Complex.text_canonical`).  The tests that choose the text of a
part never disagree with the tests that choose the form: a part is written as `0` or as `1` just
where it is near that number, and the part that follows a sign has no sign of its own.

What a part is written as depends on its sign only by a minus sign before it
(`Scalar.areOpposite_text`).  All that the text is made from is therefore shown to be odd or even:
the nearest whole number, the shortest decimal and the significant digits change their signs with
the number, while the choice between them does not change, because products are rounded alike on
both sides of zero. -/

namespace LinearEquations
open Grammar

/-! ### Signs -/

/-- A text with a minus sign before it, unless it says zero. -/
def withMinus (negative : Bool) (body : String) : String :=
  if negative && body ≠ "0" then "-" ++ body else body

/-- The text begins with a digit, so that it has no sign. -/
def StartsWithDigit (body : String) : Prop := ∃ d rest, body.toList = d :: rest ∧ d.isDigit

theorem StartsWithDigit.head?_ne {body : String} (h : StartsWithDigit body) :
    body.toList.head? ≠ some '-' := by
  obtain ⟨d, rest, hbody, hd⟩ := h
  rw [hbody]
  rintro ⟨⟩
  cases hd

theorem withMinus_ne_minus_zero {body : String} (h : StartsWithDigit body) {negative : Bool} :
    withMinus negative body ≠ "-0" := by
  intro heq
  unfold withMinus at heq
  split at heq
  · rename_i hminus
    have hbody : body = "0" := (String.append_right_inj "-").mp heq
    simp [hbody] at hminus
  · exact h.head?_ne (by rw [heq]; rfl)

/-- The minus sign can be taken away. -/
theorem withMinus_injective {negative : Bool} {s t : String} (hs : StartsWithDigit s)
    (ht : StartsWithDigit t) (h : withMinus negative s = withMinus negative t) : s = t := by
  have hminus : ∀ body : String, ("-" ++ body).toList.head? = some '-' := fun body => by simp
  unfold withMinus at h
  split at h <;> split at h
  · exact (String.append_right_inj _).mp h
  · exact absurd (h ▸ hminus s) ht.head?_ne
  · exact absurd (h ▸ hminus t) hs.head?_ne
  · exact h

/-- Two texts differ in nothing but the minus sign, which the first one has if it is `negative`. -/
def AreOpposite (negative : Bool) (s t : String) : Prop :=
  ∃ body, StartsWithDigit body ∧ s = withMinus negative body ∧ t = withMinus (!negative) body

theorem areOpposite_zero (negative : Bool) : AreOpposite negative "0" "0" := by
  refine ⟨"0", ⟨'0', [], rfl, rfl⟩, ?_⟩
  cases negative <;> exact ⟨rfl, rfl⟩

theorem nearest_intCast (z : Int) : nearest z = z := by
  unfold nearest
  rcases lt_or_ge z 0 with hneg | hpos
  · obtain ⟨n, rfl⟩ : ∃ n : Nat, z = -n := ⟨z.natAbs, by omega⟩
    rw [if_pos (by exact_mod_cast hneg), Int.cast_neg, neg_neg, Int.cast_natCast,
      Tie.round_natCast]
  · obtain ⟨n, rfl⟩ := Int.eq_ofNat_of_zero_le hpos
    rw [if_neg (by exact_mod_cast not_lt.mpr hpos)]
    exact_mod_cast Tie.round_natCast .away n

theorem nearest_neg (q : Rat) : nearest (-q) = -nearest q := by
  rcases lt_trichotomy q 0 with hneg | rfl | hpos
  · unfold nearest
    rw [if_neg (by linarith), if_pos hneg, neg_neg]
  · have hzero : nearest 0 = 0 := by exact_mod_cast nearest_intCast 0
    rw [neg_zero, hzero, neg_zero]
  · unfold nearest
    rw [if_pos (by linarith), if_neg (by linarith), neg_neg]

theorem isNearlyWhole_neg (q : Rat) : isNearlyWhole (-q) = isNearlyWhole q := by
  have hdistance : -q - (nearest (-q) : Int) = -(q - nearest q) := by
    rw [nearest_neg, Int.cast_neg]
    ring
  rw [isNearlyWhole, hdistance, isNearlyWhole, Decimal.ratAbs_eq, Decimal.ratAbs_eq,
    abs_neg]

/-- Numbers other than zero change their signs. -/
theorem decide_neg_lt_zero {q : Rat} (hq : q ≠ 0) : decide (-q < 0) = !decide (q < 0) := by
  rcases lt_or_gt_of_ne hq with h | h <;> simp [h, h.le]

namespace Decimal
variable {d : Decimal} {style : Style}

/-- The same decimal with the other sign. -/
def negate (d : Decimal) : Decimal := { d with negative := !d.negative }

/-- The same decimal without its sign. -/
def unsigned (d : Decimal) : Decimal := { d with negative := false }

theorem trimmed_negate (d : Decimal) : d.negate.trimmed = d.trimmed.negate := by
  unfold trimmed
  by_cases h : d.digits = 0
  · rw [if_pos h]
    exact if_pos h
  · rw [if_neg h]
    exact if_neg h

theorem significant_neg (tie : Tie) (precision : Nat) {q : Rat} (hq : q ≠ 0) :
    significant tie precision (-q) = (significant tie precision q).negate := by
  unfold significant
  rw [if_neg hq, if_neg (neg_ne_zero.mpr hq), Rat.abs_neg]
  simp only [decide_neg_lt_zero hq]
  split <;> rfl

theorem exists_figures (n : Nat) : ∃ d rest, figures n = d :: rest ∧ d.isDigit := by
  obtain ⟨d, rest, h⟩ := List.exists_cons_of_ne_nil (figures_ne_nil n)
  exact ⟨d, rest, h, isDigit_of_mem_figures (h ▸ List.mem_cons_self)⟩

theorem negative_significant_eq (tie : Tie) (precision : Nat) {q : Rat} (hq : q ≠ 0) :
    (significant tie precision q).negative = decide (q < 0) := by
  unfold significant
  rw [if_neg hq]
  simp only
  split <;> rfl

theorem head_positionalText (style : Style) (digits : Nat) (exponent : Int) :
    ∃ d rest, positionalText style digits exponent = d :: rest ∧ d.isDigit := by
  obtain ⟨d, rest, hfigures, hd⟩ := exists_figures digits
  unfold positionalText
  simp only
  split
  · exact ⟨d, _, by rw [hfigures]; rfl, hd⟩
  · split
    · rename_i hplaces
      obtain ⟨k, hk⟩ : ∃ k, (figures digits).length - (-exponent).toNat = k + 1 :=
        ⟨(figures digits).length - (-exponent).toNat - 1, by omega⟩
      exact ⟨d, _, by rw [hk, hfigures]; rfl, hd⟩
    · exact ⟨'0', _, rfl, rfl⟩

theorem head_scientificText (style : Style) (digits : Nat) (exponent : Int) :
    ∃ d rest, scientificText style digits exponent = d :: rest ∧ d.isDigit := by
  obtain ⟨d, rest, hfigures, hd⟩ := exists_figures digits
  exact ⟨d, _, by rw [scientificText, hfigures]; rfl, hd⟩

/-- What is written without a sign begins with a digit. -/
theorem startsWithDigit_write (d : Decimal) (style : Style) :
    StartsWithDigit (d.unsigned.write style) := by
  have hbody : ∀ positional : Bool, ∃ x rest, (if positional then
      positionalText style d.digits d.exponent
      else scientificText style d.digits d.unsigned.leadingExponent) = x :: rest ∧ x.isDigit := by
    intro positional
    split
    · exact head_positionalText style d.digits d.exponent
    · exact head_scientificText style d.digits _
  obtain ⟨x, rest, hx, hdigit⟩ := hbody _
  exact ⟨x, rest, String.toList_ofList.trans hx, hdigit⟩

/-- The sign of a decimal that is not zero stands before it. -/
theorem write_eq_withMinus (h : 0 < d.digits) :
    d.write style = withMinus d.negative (d.unsigned.write style) := by
  have hbody : d.unsigned.write style ≠ "0" := write_ne_zero (d := d.unsigned) h
  have hdigits : (d.digits != 0) = true := bne_iff_ne.mpr h.ne'
  cases hnegative : d.negative with
  | false =>
    have hunsigned : d.unsigned = d := by rw [unsigned, ← hnegative]
    rw [hunsigned]
    rfl
  | true =>
    have hsign : withMinus true (d.unsigned.write style) = "-" ++ d.unsigned.write style :=
      if_pos (by simp [hbody])
    rw [hsign]
    unfold write
    simp only [hnegative, hdigits, unsigned, Bool.true_and, Bool.true_or, Bool.false_and, if_true,
      Bool.false_eq_true, if_false, List.nil_append]
    exact String.ofList_append

theorem areOpposite_write (h : 0 < d.digits) (style : Style) :
    AreOpposite d.negative (d.write style) (d.negate.write style) :=
  ⟨_, startsWithDigit_write d style, write_eq_withMinus h, write_eq_withMinus (d := d.negate) h⟩

end Decimal

namespace BinaryFraction
open Decimal

/-- The same binary fraction with the other sign. -/
def negate (b : BinaryFraction) : BinaryFraction := { b with negative := !b.negative }

theorem ofFloat?_neg {x : Float} {b : BinaryFraction} (h : ofFloat? x = some b) :
    ofFloat? (-x) = some b.negate := by
  rw [ofFloat?_eq] at h ⊢
  rw [unpack_neg]
  generalize x.toModel.unpack = f at h ⊢
  cases f with
  | finite s m e hm =>
    cases h
    cases s <;> rfl
  | zero s =>
    cases h
    cases s <;> rfl
  | infinity s => cases h
  | notANumber => cases h

theorem toRat_eq_zero_iff (b : BinaryFraction) : b.toRat = 0 ↔ b.significand = 0 := by
  rw [← abs_eq_zero, Scalar.abs_toRat, magnitude, mul_eq_zero, Nat.cast_eq_zero,
    or_iff_left (two_zpow_pos b.exponent).ne']

/-- The sign of a fraction that is not zero. -/
theorem negative_eq (b : BinaryFraction) (h : b.toRat ≠ 0) :
    b.negative = decide (b.toRat < 0) := by
  have hpos : 0 < b.magnitude := Scalar.abs_toRat b ▸ abs_pos.mpr h
  unfold toRat
  cases b.negative <;> simp [hpos, hpos.le]

theorem withDigits?_negate (b : BinaryFraction) (digits : Nat) :
    b.negate.withDigits? digits = (b.withDigits? digits).map Decimal.negate := by
  have hmagnitude : b.negate.magnitude = b.magnitude := rfl
  have hinterval : b.negate.readInterval = b.readInterval := rfl
  unfold withDigits?
  simp only [hmagnitude, hinterval]
  split
  · rfl
  · split <;> rfl

/-- **The shortest decimal changes its sign with the number.** -/
theorem shortest_negate (b : BinaryFraction) : b.negate.shortest = b.shortest.negate := by
  have hmagnitude : b.negate.magnitude = b.magnitude := rfl
  have hfound : (List.range enoughDigits).findSome? (fun n => b.negate.withDigits? (n + 1)) =
      ((List.range enoughDigits).findSome? fun n => b.withDigits? (n + 1)).map Decimal.negate := by
    rw [List.map_findSome?]
    exact congrArg (List.findSome? · _) (funext fun n => b.withDigits?_negate (n + 1))
  by_cases hzero : b.significand = 0
  · rw [shortest, shortest, if_pos hzero]
    exact if_pos hzero
  · rw [shortest, shortest, if_neg hzero, hfound, hmagnitude, ← trimmed_negate]
    refine (if_neg hzero).trans (congrArg trimmed ?_)
    cases (List.range enoughDigits).findSome? fun n => b.withDigits? (n + 1) <;> rfl

end BinaryFraction

/-! ### Texts of numbers of either sign -/

namespace Scalar
open BinaryFraction Decimal Double
variable {x : Float} {q : Rat}

/-- **Which numbers are written as they are**: those that are whole after being multiplied by the
power of ten and rounded. -/
theorem exists_hasFewPlaces (h : value x = .finite q) :
    ∃ n t, RoundsTo (|q| * 10 ^ decimalPlaces) n t ∧
      (hasFewPlaces x ↔ (n : Rat) * 2 ^ t < 2 ^ 1024 ∧ ((n : Rat) * 2 ^ t).den = 1) := by
  have hpower : value (ofNat (Nat.pow 10 decimalPlaces) : Float) =
      .finite (10 ^ decimalPlaces) := by decide +kernel
  obtain ⟨n, t, hround, hvalue⟩ := isRounding_mul h hpower
  have hpos : (0 : Rat) < 10 ^ decimalPlaces := pow_pos (by norm_num) _
  rw [abs_mul, abs_of_pos hpos] at hround
  refine ⟨n, t, hround, ?_⟩
  rw [hasFewPlaces, show value (x * ofNat (Nat.pow 10 decimalPlaces)) = _ from hvalue,
    valueOfRounded]
  by_cases hlt : (n : Rat) * 2 ^ t < 2 ^ 1024
  · rw [if_pos hlt]
    split_ifs <;> simp [hlt]
  · rw [if_neg hlt]
    simp [hlt]

theorem hasFewPlaces_neg (h : value x = .finite q) : hasFewPlaces (-x) = hasFewPlaces x := by
  obtain ⟨n, t, hround, hfew⟩ := exists_hasFewPlaces h
  obtain ⟨n', t', hround', hfew'⟩ := exists_hasFewPlaces (ofFloat_neg h)
  rw [abs_neg] at hround'
  obtain ⟨rfl, rfl⟩ := hround.unique hround'
  exact Bool.eq_iff_iff.mpr (hfew'.trans hfew.symm)

theorem text_of_finite (h : value x = .finite q) : text x =
    if isNearlyWhole q && q.den ≠ 1 then toString (nearest q)
    else if q.den = 1 || hasFewPlaces x then write plain x
    else toPrecision q significantDigits := by
  rw [text, h]

theorem startsWithDigit_figures (n : Nat) : StartsWithDigit (String.ofList (figures n)) := by
  obtain ⟨d, rest, hfigures, hd⟩ := exists_figures n
  exact ⟨d, rest, String.toList_ofList.trans hfigures, hd⟩

/-- The sign of a whole number stands before it. -/
theorem toString_eq_withMinus {z : Int} {negative : Bool} (h : z ≠ 0 → (negative ↔ z < 0)) :
    toString z = withMinus negative (String.ofList (figures z.natAbs)) := by
  by_cases hzero : z = 0
  · subst hzero
    cases negative <;> rfl
  have hbody : String.ofList (figures z.natAbs) ≠ "0" := by
    intro heq
    exact head?_figures_ne (Int.natAbs_pos.mpr hzero) (by rw [String.ofList_eq.mp heq]; rfl)
  refine String.toList_inj.mp ?_
  rw [toList_toString, withMinus]
  cases negative with
  | false =>
    have hpos : ¬z < 0 := fun hneg => absurd ((h hzero).mpr hneg) (by simp)
    rw [if_neg (by simp), decide_eq_false hpos, String.toList_ofList]
    rfl
  | true =>
    rw [if_pos (by simp [hbody]), decide_eq_true ((h hzero).mp rfl), String.toList_append]
    exact congrArg ('-' :: ·) String.toList_ofList.symm

theorem lt_zero_iff_of_nearest (h : nearest q ≠ 0) : q < 0 ↔ nearest q < 0 := by
  refine ⟨fun hneg => ?_, lt_zero_of_nearest⟩
  have hle : ¬nearest (-q) < 0 := fun hlt => by linarith [lt_zero_of_nearest hlt]
  rw [nearest_neg] at hle
  omega

theorem areOpposite_nearest (q : Rat) :
    AreOpposite (q < 0) (toString (nearest q)) (toString (-nearest q)) := by
  refine ⟨_, startsWithDigit_figures (nearest q).natAbs, toString_eq_withMinus fun hz => ?_, ?_⟩
  · rw [decide_eq_true_eq, lt_zero_iff_of_nearest hz]
  · rw [← Int.natAbs_neg]
    refine toString_eq_withMinus fun hz => ?_
    have hz : nearest q ≠ 0 := neg_ne_zero.mp hz
    rw [Bool.not_eq_true', decide_eq_false_iff_not, lt_zero_iff_of_nearest hz]
    omega

theorem areOpposite_shortest (h : value x = .finite q) (hq : q ≠ 0) :
    AreOpposite (q < 0) (write plain x) (write plain (-x)) := by
  obtain ⟨b, hb, rfl, hwrite⟩ := exists_fraction h
  obtain ⟨b', hb', -, hwrite'⟩ := exists_fraction (ofFloat_neg h)
  obtain rfl : b.negate = b' := Option.some.inj ((ofFloat?_neg hb).symm.trans hb')
  have hpos : 0 < b.shortest.digits :=
    digits_shortest_pos (Nat.pos_of_ne_zero (mt b.toRat_eq_zero_iff.mpr hq))
  have hsign : b.shortest.negative = decide (b.toRat < 0) :=
    ((isCanonical_of_ofFloat? hb).shortest_spec (exponent_le_of_ofFloat? hb)).1.trans
      (b.negative_eq hq)
  rw [hwrite, hwrite', shortest_negate, ← hsign]
  exact areOpposite_write hpos plain

theorem areOpposite_toPrecision {precision : Nat} (hp : 0 < precision) (hq : q ≠ 0) :
    AreOpposite (q < 0) (toPrecision q precision) (toPrecision (-q) precision) := by
  rw [toPrecision, toPrecision, significant_neg .away precision hq,
    ← negative_significant_eq .away precision hq]
  exact areOpposite_write (digits_significant_pos .away hq hp) _

theorem text_of_zero (h : value x = .finite 0) : text x = "0" :=
  (text_eq_zero_iff _).mpr ((isNegligible_iff h).mpr (by rw [abs_zero]; norm_num [tolerance]))

/-- **A sign is all that the texts of a number and of its negation differ in.** -/
theorem areOpposite_text (h : value x = .finite q) : AreOpposite (q < 0) (text x) (text (-x)) := by
  have hneg : value (-x) = .finite (-q) := ofFloat_neg h
  by_cases hq : q = 0
  · subst hq
    rw [neg_zero] at hneg
    rw [text_of_zero h, text_of_zero hneg]
    exact areOpposite_zero _
  rw [text_of_finite h, text_of_finite hneg, isNearlyWhole_neg, Rat.neg_den, hasFewPlaces_neg h,
    nearest_neg]
  split
  · exact areOpposite_nearest q
  split
  · exact areOpposite_shortest h hq
  · exact areOpposite_toPrecision (by decide) hq

theorem text_ne_minus_zero (h : value x = .finite q) : text x ≠ "-0" := by
  obtain ⟨body, hbody, htext, -⟩ := areOpposite_text h
  rw [htext]
  exact withMinus_ne_minus_zero hbody

theorem value_abs (h : value x = .finite q) : value (Scalar.abs x) = .finite |q| := by
  unfold Scalar.abs
  split
  · rename_i hneg
    rw [abs_of_neg ((isNegative_iff h).mp hneg)]
    exact ofFloat_neg h
  · rename_i hneg
    rwa [abs_of_nonneg (not_lt.mp (mt (isNegative_iff h).mpr hneg))]

/-- The text of the absolute value is what follows the sign. -/
theorem text_abs (h : value x = .finite q) : StartsWithDigit (text (Scalar.abs x)) ∧
    text x = withMinus (q < 0) (text (Scalar.abs x)) ∧
    text (-x) = withMinus (!decide (q < 0)) (text (Scalar.abs x)) := by
  obtain ⟨body, hbody, htext, htext_neg⟩ := areOpposite_text h
  have habs : text (Scalar.abs x) = body := by
    unfold Scalar.abs
    split
    · rename_i hneg
      rw [htext_neg, decide_eq_true ((isNegative_iff h).mp hneg)]
      rfl
    · rename_i hneg
      rw [htext, decide_eq_false (mt (isNegative_iff h).mpr hneg)]
      rfl
  rw [habs]
  exact ⟨hbody, htext, htext_neg⟩

theorem text_abs_neg (h : value x = .finite q) :
    text (Scalar.abs (-x)) = text (Scalar.abs x) := by
  have hneg : value (-x) = .finite (-q) := ofFloat_neg h
  by_cases hq : q = 0
  · have habs := value_abs h
    have habs_neg := value_abs hneg
    rw [hq, neg_zero, abs_zero] at habs_neg
    rw [hq, abs_zero] at habs
    rw [text_of_zero habs, text_of_zero habs_neg]
  · obtain ⟨hbody, -, htext⟩ := text_abs h
    obtain ⟨hbody', htext', -⟩ := text_abs hneg
    rw [htext, decide_neg_lt_zero hq] at htext'
    exact (withMinus_injective hbody hbody' htext').symm

end Scalar

/-! ### Texts that say one -/

namespace Decimal

theorem eq_one_of_figures {n : Nat} (h : figures n = ['1']) : n = 1 := by
  have hvalue := ofDigitChars_figures n
  rw [h] at hvalue
  exact hvalue.symm

/-- Digits without a power of ten that say one. -/
theorem eq_one_of_positionalText {digits : Nat} {exponent : Int}
    (h : positionalText plain digits exponent = ['1']) : digits = 1 ∧ exponent = 0 := by
  have hpoint : plain.pointZero = false := rfl
  have hdigits := length_figures_pos digits
  unfold positionalText at h
  simp only [hpoint, Bool.false_eq_true, if_false, List.append_nil] at h
  split at h
  · have hlength := congrArg List.length h
    rw [List.length_append, List.length_replicate, List.length_singleton] at hlength
    obtain rfl : exponent = 0 := by omega
    exact ⟨eq_one_of_figures ((List.append_nil _).symm.trans h), rfl⟩
  · have hmem : '.' ∈ ['1'] := by
      rw [← h]
      split <;> simp
    exact absurd hmem (by decide)

/-- A decimal that is written as `1` is one. -/
theorem eq_one_of_write {d : Decimal} (h : d.write plain = "1") :
    d.negative = false ∧ d.magnitude = 1 := by
  have hlist : minusText (d.negative && d.digits != 0) ++
      positionalText plain d.digits d.exponent = ['1'] := by
    have hbody : (d.digits = 0 || plain.positional d.leadingExponent) = true :=
      Bool.or_true _
    have hzero : plain.signedZero = false := rfl
    have htext := congrArg String.toList h
    unfold write at htext
    simp only [hbody, hzero, Bool.or_false, if_true, String.toList_ofList] at htext
    exact htext
  cases hsign : d.negative && d.digits != 0 with
  | true =>
    rw [hsign] at hlist
    cases hlist
  | false =>
    rw [hsign] at hlist
    obtain ⟨hdigits, hexponent⟩ := eq_one_of_positionalText hlist
    rw [hdigits] at hsign
    refine ⟨by simpa using hsign, ?_⟩
    rw [Decimal.magnitude, hdigits, hexponent]
    norm_num

end Decimal

namespace BinaryFraction
variable {b : BinaryFraction}

/-- The only fractions that a one could be read as are near one. -/
theorem IsCanonical.abs_sub_one_lt (hb : b.IsCanonical) (h : b.readInterval.contains 1) :
    |b.magnitude - 1| < tolerance := by
  have hunit := two_zpow_pos b.exponent
  have hdistance := abs_sub_le_of_contains h
  have hsmall : (2 : Rat) ^ b.exponent ≤ 2 ^ (-51 : Int) := by
    rcases hb.long with hlong | hleast
    · have hlong : (2 : Rat) ^ 52 ≤ b.significand := by exact_mod_cast hlong
      have hmagnitude : 2 ^ 52 * (2 : Rat) ^ b.exponent ≤ b.magnitude :=
        mul_le_mul_of_nonneg_right hlong hunit.le
      have hscaled : (2 : Rat) ^ b.exponent * 2 ^ 51 ≤ 1 := by linarith [(abs_le.mp hdistance).1]
      rwa [zpow_neg, ← one_div, le_div_iff₀ (by positivity)]
    · rw [hleast]
      exact zpow_le_zpow_right₀ one_le_two (by decide)
  have htolerance : (2 : Rat) ^ (-51 : Int) < tolerance := by norm_num [tolerance]
  rw [abs_sub_comm]
  linarith

end BinaryFraction

namespace Scalar
open BinaryFraction Decimal
variable {x : Float} {q : Rat}

theorem eq_one_of_toString {z : Int} (h : toString z = "1") : z = 1 := by
  have hlist : minusText (z < 0) ++ figures z.natAbs = ['1'] := by
    rw [← toList_toString, h]
    rfl
  by_cases hneg : z < 0
  · rw [decide_eq_true hneg] at hlist
    cases hlist
  · rw [decide_eq_false hneg] at hlist
    have hone := eq_one_of_figures hlist
    omega

/-- **What is written as `1` is near one.** -/
theorem abs_sub_one_lt_of_text (h : value x = .finite q) (htext : text x = "1") :
    |q - 1| < tolerance := by
  rw [text_of_finite h] at htext
  split at htext
  · rename_i hnear
    have hnear := of_decide_eq_true (Bool.and_eq_true_iff.mp hnear).1
    rwa [eq_one_of_toString htext, Int.cast_one, ratAbs_eq] at hnear
  split at htext
  · obtain ⟨b, hb, rfl, hwrite⟩ := exists_fraction h
    have hcanonical := isCanonical_of_ofFloat? hb
    rw [hwrite] at htext
    obtain ⟨hnegative, hone⟩ := eq_one_of_write htext
    have hpos : 0 < b.magnitude := by
      refine lt_of_le_of_ne b.magnitude_nonneg fun hzero => ?_
      have hsignificand : b.significand = 0 := by
        rw [← b.toRat_eq_zero_iff, ← abs_eq_zero, abs_toRat, ← hzero]
      rw [shortest, if_pos hsignificand, Decimal.magnitude, Nat.cast_zero, zero_mul] at hone
      exact zero_ne_one hone
    have hreads := hcanonical.contains_shortest hpos
    rw [hone] at hreads
    rw [(hcanonical.shortest_spec (exponent_le_of_ofFloat? hb)).1] at hnegative
    rw [BinaryFraction.toRat, hnegative]
    exact hcanonical.abs_sub_one_lt hreads
  · rename_i hplaces
    have hq : q ≠ 0 := by
      rintro rfl
      exact hplaces rfl
    -- rounded numbers have four digits
    obtain ⟨e, E, m, hshows⟩ := exists_shows hq (p := significantDigits) (by decide)
    have hfigures := hshows.figures
    rw [htext] at hfigures
    exact absurd hfigures (by decide)

end Scalar

/-! ### Complex numbers -/

/-- The sign before an imaginary part. -/
def signBefore (y : Rat) : String := if 0 < y then " + " else " - "

/-- What follows the real part: the sign of the imaginary part `y`, its text without a sign, and the
unit. -/
def imaginaryTail (y : Rat) (body : String) : String :=
  if |y| < tolerance then ""
  else signBefore y ++ ((if |(|y| - 1)| < tolerance then "" else body) ++ "i")

theorem toList_signBefore (y : Rat) :
    (signBefore y).toList = [' ', if 0 < y then '+' else '-', ' '] := by
  unfold signBefore
  split <;> rfl

section Tail
variable {y : Rat} {body : String}

theorem imaginaryTail_eq_empty_iff : imaginaryTail y body = "" ↔ |y| < tolerance := by
  unfold imaginaryTail
  split
  · rename_i h
    exact iff_of_true rfl h
  · rename_i h
    refine iff_of_false (fun heq => ?_) h
    have hlist := congrArg String.toList heq
    rw [String.toList_append, toList_signBefore] at hlist
    cases hlist

/-- The unit stands alone after a sign if the absolute value is near one. -/
theorem imaginaryTail_eq_unit_iff (hbody : StartsWithDigit body) (z : Rat) :
    imaginaryTail y body = signBefore z ++ "i" ↔
      |(|y| - 1)| < tolerance ∧ (0 < y ↔ 0 < z) := by
  have htolerance : tolerance < 1 / 2 := by norm_num [tolerance]
  obtain ⟨d, rest, hlist, hd⟩ := hbody
  have hdigit : d ≠ 'i' := by
    rintro rfl
    cases hd
  rw [← String.toList_inj, String.toList_append, toList_signBefore]
  unfold imaginaryTail
  split
  · rename_i hsmall
    refine iff_of_false (by simp) fun h => ?_
    have := (abs_lt.mp h.1).1
    linarith
  rw [String.toList_append, String.toList_append, toList_signBefore]
  by_cases hunit : |(|y| - 1)| < tolerance
  · rw [if_pos hunit]
    by_cases hy : 0 < y <;> by_cases hz : 0 < z <;> simp [hy, hz, hunit]
  · rw [if_neg hunit, hlist]
    exact iff_of_false (by simp [hdigit]) fun h => hunit h.1

end Tail

namespace Complex
variable {a : Complex Float} {y : Rat}

theorem text_of_finite (him : Scalar.value a.im = .finite y) :
    a.text = Scalar.text a.re ++ imaginaryTail y (Scalar.text (Scalar.abs a.im)) := by
  have hnear : (Scalar.value a.im).isNear 0 ↔ |y| < tolerance := Scalar.isNegligible_iff him
  have hunit : (Scalar.value (Scalar.abs a.im)).isNear 1 ↔ |(|y| - 1)| < tolerance := by
    rw [Scalar.value_abs him, Extended.isNear, decide_eq_true_eq, Decimal.ratAbs_eq]
  have hsign : (if Scalar.isPositive a.im then " + " else " - ") = signBefore y := by
    rw [Scalar.isPositive, him]
    exact if_congr decide_eq_true_iff rfl rfl
  unfold text imaginaryTail
  simp only [hnear, hunit, hsign]
  split
  · exact String.append_empty.symm
  · split <;> simp [String.append_assoc]

theorem abs_sub_one_lt_iff :
    |y - 1| < tolerance ↔ |(|y| - 1)| < tolerance ∧ (0 < y ↔ (0 : Rat) < 1) := by
  have htolerance : tolerance < 1 / 2 := by norm_num [tolerance]
  rcases le_or_gt y 0 with hy | hy
  · refine iff_of_false (fun h => ?_) fun h => hy.not_gt (h.2.mpr one_pos)
    have := (abs_lt.mp h).1
    linarith
  · rw [abs_of_pos hy, and_iff_left (iff_of_true hy one_pos)]

theorem abs_add_one_lt_iff :
    |y + 1| < tolerance ↔ |(|y| - 1)| < tolerance ∧ (0 < y ↔ (0 : Rat) < -1) := by
  have htolerance : tolerance < 1 / 2 := by norm_num [tolerance]
  have hminus : ¬(0 : Rat) < -1 := by norm_num
  rcases le_or_gt y 0 with hy | hy
  · rw [abs_of_nonpos hy, and_iff_left (iff_of_false hy.not_gt hminus), ← abs_neg]
    ring_nf
  · refine iff_of_false (fun h => ?_) fun h => hminus (h.2.mp hy)
    have := (abs_lt.mp h).2
    linarith

/-- The laws of the text of `a`, whose parts have the values `x` and `y`. -/
structure HasCanonicalText (a : Complex Float) (x y : Rat) : Prop where
  /-- The text is that of the real part if and only if the imaginary part is negligible. -/
  eq_real_iff : a.text = Scalar.text a.re ↔ |y| < tolerance
  /-- The imaginary unit is added if and only if the imaginary part is near one. -/
  eq_add_unit_iff : a.text = Scalar.text a.re ++ " + i" ↔ |y - 1| < tolerance
  /-- It is subtracted if and only if the imaginary part is near minus one. -/
  eq_sub_unit_iff : a.text = Scalar.text a.re ++ " - i" ↔ |y + 1| < tolerance
  /-- All others have a factor before the unit, which has no sign and is neither zero nor one. -/
  eq_factor : tolerance ≤ |y| → tolerance ≤ |(|y| - 1)| →
    a.text = Scalar.text a.re ++ signBefore y ++ Scalar.text (Scalar.abs a.im) ++ "i" ∧
      StartsWithDigit (Scalar.text (Scalar.abs a.im)) ∧
      Scalar.text (Scalar.abs a.im) ≠ "0" ∧ Scalar.text (Scalar.abs a.im) ≠ "1"
  /-- There is no negative zero. -/
  real_ne : Scalar.text a.re ≠ "-0"
  /-- The sign of the real part is a minus sign before its text, if that is not zero. -/
  areOpposite_real : AreOpposite (x < 0) (Scalar.text a.re) (Scalar.text (-a.re))
  /-- It changes nothing behind the real part. -/
  neg_real : ∃ tail, a.text = Scalar.text a.re ++ tail ∧
    (⟨-a.re, a.im⟩ : Complex Float).text = Scalar.text (-a.re) ++ tail
  /-- A number without an imaginary part is written as its conjugate is. -/
  conjugate_eq : |y| < tolerance → a.conjugate.text = a.text
  /-- The conjugate has the other sign between its parts. -/
  conjugate_sign : tolerance ≤ |y| → ∃ tail, a.text = Scalar.text a.re ++ signBefore y ++ tail ∧
    a.conjugate.text = Scalar.text a.re ++ signBefore (-y) ++ tail

/-- The factor before the unit is neither zero nor one. -/
theorem factor_spec (him : Scalar.value a.im = .finite y) (hzero : tolerance ≤ |y|)
    (hone : tolerance ≤ |(|y| - 1)|) : StartsWithDigit (Scalar.text (Scalar.abs a.im)) ∧
      Scalar.text (Scalar.abs a.im) ≠ "0" ∧ Scalar.text (Scalar.abs a.im) ≠ "1" := by
  have habs := Scalar.value_abs him
  refine ⟨(Scalar.text_abs him).1, fun htext => ?_, fun htext => ?_⟩
  · have hsmall := (Scalar.isNegligible_iff habs).mp ((Scalar.text_eq_zero_iff _).mp htext)
    rw [abs_abs] at hsmall
    exact hzero.not_gt hsmall
  · exact hone.not_gt (Scalar.abs_sub_one_lt_of_text habs htext)

/-- The tail of the conjugate. -/
theorem text_conjugate (him : Scalar.value a.im = .finite y) : a.conjugate.text =
    Scalar.text a.re ++ imaginaryTail (-y) (Scalar.text (Scalar.abs a.im)) := by
  have hneg : Scalar.value a.conjugate.im = .finite (-y) := ofFloat_neg him
  rw [text_of_finite hneg]
  exact congrArg (fun body => _ ++ imaginaryTail (-y) body) (Scalar.text_abs_neg him)

/-- **The text of a finite complex number has one form only**, which the values of its parts
determine. -/
theorem text_canonical (hfinite : a.isFinite) : ∃ x y, Scalar.value a.re = .finite x ∧
    Scalar.value a.im = .finite y ∧ HasCanonicalText a x y := by
  obtain ⟨x, hre⟩ := Scalar.exists_value (isFinite_iff.mp hfinite).1
  obtain ⟨y, him⟩ := Scalar.exists_value (isFinite_iff.mp hfinite).2
  have htext := text_of_finite him
  have hconjugate := text_conjugate him
  have hempty : imaginaryTail y (Scalar.text (Scalar.abs a.im)) = "" ↔ |y| < tolerance :=
    imaginaryTail_eq_empty_iff
  have hunit := imaginaryTail_eq_unit_iff (y := y) (Scalar.text_abs him).1
  refine ⟨x, y, hre, him, ?_, ?_, ?_, fun hzero hone => ⟨?_, factor_spec him hzero hone⟩,
    Scalar.text_ne_minus_zero hre, Scalar.areOpposite_text hre,
    ⟨_, htext, text_of_finite (a := ⟨-a.re, a.im⟩) him⟩, fun hzero => ?_, fun hzero => ?_⟩
  · rw [← hempty, htext]
    exact String.append_eq_left_iff
  · rw [abs_sub_one_lt_iff, ← hunit, htext]
    exact String.append_right_inj _
  · rw [abs_add_one_lt_iff, ← hunit, htext]
    exact String.append_right_inj _
  · rw [htext, imaginaryTail, if_neg hzero.not_gt, if_neg hone.not_gt]
    simp only [String.append_assoc]
  · have hsmall : |-y| < tolerance := (abs_neg y).symm ▸ hzero
    rw [htext, hconjugate, hempty.mpr hzero, imaginaryTail_eq_empty_iff.mpr hsmall]
  · let factor := if |(|y| - 1)| < tolerance then "" else Scalar.text (Scalar.abs a.im)
    refine ⟨factor ++ "i", ?_, ?_⟩
    · rw [htext, imaginaryTail, if_neg hzero.not_gt, String.append_assoc]
    · rw [hconjugate, imaginaryTail, abs_neg, if_neg hzero.not_gt, String.append_assoc]

theorem text_canonical_of_halves : HasCanonicalText ⟨2.5, -1.5⟩ (5 / 2) (-3 / 2) := by
  have hre : Scalar.value (2.5 : Float) = .finite (5 / 2) := by decide +kernel
  have him : Scalar.value (-1.5 : Float) = .finite (-3 / 2) := by decide +kernel
  obtain ⟨x, y, hx, hy, h⟩ := text_canonical (a := ⟨2.5, -1.5⟩) (by decide +kernel)
  obtain rfl : x = 5 / 2 := Extended.finite.inj (hx.symm.trans hre)
  obtain rfl : y = -3 / 2 := Extended.finite.inj (hy.symm.trans him)
  exact h

end Complex

end LinearEquations
