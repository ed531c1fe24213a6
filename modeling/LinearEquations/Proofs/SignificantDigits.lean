import LinearEquations.Proofs.ScalarText

/-! # Numbers with a given number of significant digits

What `toPrecision` writes: of a number `q` that is not zero, with `10 ^ e ≤ |q| < 10 ^ (e + 1)`, the
multiple of `10 ^ (e - p + 1)` nearest to it, the one farther from zero if there are two.  It has
`p` digits or is `10 ^ (e + 1)`, and in either case it is `digits * 10 ^ (E - p + 1)` with exactly
`p` digits, where `E` is the power of ten of the first of them (`Decimal.exists_significant`).

The text shows the `p` digits in one of four layouts (`Decimal.layout`).  They can be read off it
again, and with its point and its power of ten it stands for the rounded number. -/

namespace LinearEquations
open Grammar

/-! ### Rounding to the nearest whole number -/

/-- `m` is the whole number nearest to `y`, the greater one if there are two. -/
def IsNearest (y : Rat) (m : Nat) : Prop := y - 1 / 2 < m ∧ m ≤ y + 1 / 2

theorem Tie.isNearest_round {y : Rat} (hy : 0 ≤ y) : IsNearest y (Tie.away.round y) := by
  have hnonneg : 0 ≤ y.floor := Rat.le_floor_iff.mpr hy
  have hcast : ((y.floor.toNat : Nat) : Rat) = y.floor := by
    rw [← Int.cast_natCast, Int.toNat_of_nonneg hnonneg]
  have hlow := Rat.floor_le y
  have hhigh : y < y.floor + 1 := by exact_mod_cast Rat.lt_floor_add_one y
  unfold IsNearest Tie.round
  simp only [hcast]
  split
  · constructor <;> linarith
  · rw [if_neg (by simp), Nat.cast_succ, hcast]
    constructor <;> linarith

/-- What lies between two whole numbers is rounded to one between them. -/
theorem IsNearest.le_of_le {y : Rat} {m k : Nat} (h : IsNearest y m) (hk : (k : Rat) ≤ y) :
    k ≤ m := by
  have : (k : Rat) < m + 1 := by linarith [h.1]
  have : k < m + 1 := by exact_mod_cast this
  omega

theorem IsNearest.le_of_lt {y : Rat} {m k : Nat} (h : IsNearest y m) (hk : y < k) : m ≤ k := by
  have : (m : Rat) < k + 1 := by linarith [h.2]
  have : m < k + 1 := by exact_mod_cast this
  omega

theorem IsNearest.eq {y : Rat} {m k : Nat} (h : IsNearest y m) (h' : IsNearest y k) : m = k := by
  have hlow : (m : Rat) < k + 1 := by linarith [h.2, h'.1]
  have hhigh : (k : Rat) < m + 1 := by linarith [h.1, h'.2]
  have hlow : m < k + 1 := by exact_mod_cast hlow
  have hhigh : k < m + 1 := by exact_mod_cast hhigh
  omega

namespace Decimal

/-! ### The power of ten of the first digit -/

theorem ten_zpow_pos (e : Int) : (0 : Rat) < 10 ^ e := zpow_pos (by norm_num) e

theorem lt_exponentOf {x : Rat} (hx : 0 < x) : x < (10 : Rat) ^ (exponentOf x + 1) := by
  unfold exponentOf
  simp only
  split
  · have hnum : (x.num : Rat) < 10 ^ (figures x.num.natAbs).length := by
      have : ((x.num.natAbs : Nat) : Rat) = x.num := by
        rw [Nat.cast_natAbs, abs_of_pos (Rat.num_pos.mpr hx)]
      rw [← this]
      exact_mod_cast lt_pow_figures x.num.natAbs
    have hden : (10 : Rat) ^ ((figures x.den).length - 1) ≤ x.den := by
      exact_mod_cast pow_figures_le x.den_pos
    have hlen := length_figures_pos x.den
    have hexponent : ((figures x.num.natAbs).length : Int) - (figures x.den).length + 1 =
        (figures x.num.natAbs).length - ((figures x.den).length - 1 : Nat) := by omega
    rw [hexponent, zpow_sub₀ (by decide), zpow_natCast, zpow_natCast]
    calc x = x.num / x.den := x.num_div_den.symm
      _ < 10 ^ (figures x.num.natAbs).length / 10 ^ ((figures x.den).length - 1) :=
        div_lt_div₀ hnum hden (by positivity) (by positivity)
  · rename_i hlt
    rw [sub_add_cancel]
    exact not_le.mp hlt

theorem ratAbs_eq (q : Rat) : q.abs = |q| := by
  rcases le_total 0 q with h | h
  · rw [Rat.abs_of_nonneg h, abs_of_nonneg h]
  · rw [Rat.abs_of_nonpos h, abs_of_nonpos h]

/-- The last place of `p` significant digits of `x`. -/
def lastPlace (x : Rat) (p : Nat) : Rat := (10 : Rat) ^ (exponentOf x - p + 1)

variable {x : Rat} {p : Nat}

/-- Counted in last places, a number has `p` digits before the point. -/
theorem between_lastPlace (hx : 0 < x) (hp : 0 < p) :
    ((10 ^ (p - 1) : Nat) : Rat) ≤ x / lastPlace x p ∧ x / lastPlace x p < (10 ^ p : Nat) := by
  have hplace : 0 < lastPlace x p := ten_zpow_pos _
  have hlow : ((10 ^ (p - 1) : Nat) : Rat) * lastPlace x p = 10 ^ exponentOf x := by
    rw [Nat.cast_pow, Nat.cast_ofNat, lastPlace, ← zpow_natCast, ← zpow_add₀ (by decide)]
    congr 1
    omega
  have hhigh : ((10 ^ p : Nat) : Rat) * lastPlace x p = 10 ^ (exponentOf x + 1) := by
    rw [Nat.cast_pow, Nat.cast_ofNat, lastPlace, ← zpow_natCast, ← zpow_add₀ (by decide)]
    congr 1
    omega
  rw [le_div_iff₀ hplace, div_lt_iff₀ hplace, hlow, hhigh]
  exact ⟨exponentOf_le hx, lt_exponentOf hx⟩

theorem length_figures_eq {n : Nat} (hp : 0 < p) (hlow : 10 ^ (p - 1) ≤ n) (hhigh : n < 10 ^ p) :
    (figures n).length = p := by
  have hle := (length_figures_le_iff hp).mpr hhigh
  by_contra hne
  have hlt := lt_pow_figures n
  have hpow := Nat.pow_le_pow_right (n := 10) (by decide)
    (show (figures n).length ≤ p - 1 by omega)
  omega

/-- After a carry one digit less and one power of ten more are the same. -/
theorem carry_eq (hp : 0 < p) : ((10 ^ (p - 1) : Nat) : Rat) * 10 ^ (exponentOf x + 1 - p + 1) =
    (10 ^ p : Nat) * lastPlace x p := by
  have hunit : exponentOf x + 1 - p + 1 = exponentOf x - p + 1 + 1 := by omega
  have hpow : 10 * 10 ^ (p - 1) = 10 ^ p := by
    rw [← Nat.pow_succ', Nat.succ_eq_add_one, Nat.sub_add_cancel hp]
  rw [← hpow, lastPlace, hunit, zpow_add_one₀ (by decide), Nat.cast_mul, Nat.cast_ofNat]
  ring

/-- **Rounding to `p` significant digits.**  The digits are a multiple of the last place that is
nearest to the number; if rounding makes them one more, the power of ten is one more instead. -/
theorem exists_significant {q : Rat} (hq : q ≠ 0) (hp : 0 < p) :
    ∃ (m digits : Nat) (E : Int),
      significant .away p q = ⟨q < 0, digits, E - p + 1⟩ ∧
        (figures digits).length = p ∧ 0 < digits ∧ IsNearest (|q| / lastPlace |q| p) m ∧
        (digits : Rat) * 10 ^ (E - p + 1) = m * lastPlace |q| p := by
  obtain ⟨hlow, hhigh⟩ := between_lastPlace (abs_pos.mpr hq) hp
  have hnearest := Tie.isNearest_round ((Nat.cast_nonneg _).trans hlow)
  have hm_low := hnearest.le_of_le hlow
  have hm_high := hnearest.le_of_lt hhigh
  have hpos : 0 < 10 ^ (p - 1) := Nat.pow_pos (by decide)
  have hround : significant .away p q =
      if Tie.away.round (|q| / lastPlace |q| p) = 10 ^ p then
        ⟨q < 0, 10 ^ (p - 1), exponentOf |q| + 1 - p + 1⟩
      else ⟨q < 0, Tie.away.round (|q| / lastPlace |q| p), exponentOf |q| - p + 1⟩ := by
    rw [significant, if_neg hq, ratAbs_eq]
    have hunit : exponentOf |q| - p + 1 + 1 = exponentOf |q| + 1 - p + 1 := by omega
    simp only [hunit]
    rfl
  rw [hround]
  generalize Tie.away.round (|q| / lastPlace |q| p) = m at *
  by_cases hcarry : m = 10 ^ p
  · refine ⟨m, 10 ^ (p - 1), exponentOf |q| + 1, if_pos hcarry, ?_, hpos, hnearest, ?_⟩
    · exact length_figures_eq hp le_rfl (Nat.pow_lt_pow_right (by decide) (by omega))
    · rw [hcarry]
      exact carry_eq hp
  · refine ⟨m, m, exponentOf |q|, if_neg hcarry, ?_, by omega, hnearest, rfl⟩
    exact length_figures_eq hp hm_low (by omega)

/-! ### Layouts -/

/-- Digits with a point among them, which is left out if nothing follows it. -/
def withPoint (whole fraction : List Char) : List Char :=
  whole ++ if fraction.isEmpty then [] else '.' :: fraction

/-- Digits with the power of ten `leading` of the first of them.  If that is below `-6` or not below
the precision, the point stands behind the first digit and the power of ten is shown.  Otherwise the
point stands where it belongs, with zeros if that is before the first digit. -/
def layout (precision : Nat) (digits : List Char) (leading : Int) : List Char :=
  if leading < -6 ∨ precision ≤ leading then
    withPoint (digits.take 1) (digits.drop 1) ++
      'e' :: (if leading < 0 then '-' else '+') :: figures leading.natAbs
  else if leading < 0 then
    withPoint ['0'] (List.replicate (-leading - 1).toNat '0' ++ digits)
  else withPoint (digits.take (leading.toNat + 1)) (digits.drop (leading.toNat + 1))

variable {digits : Nat} {leading : Int} {negative : Bool} {whole fraction text : List Char}

theorem withPoint_of_ne_nil (h : fraction ≠ []) : withPoint whole fraction =
    whole ++ '.' :: fraction := by
  rw [withPoint, List.isEmpty_eq_false_iff.mpr h]
  rfl

theorem leadingExponent_eq (hlength : (figures digits).length = p) :
    leadingExponent ⟨negative, digits, leading - p + 1⟩ = leading := by
  have := length_figures_pos digits
  simp only [leadingExponent, hlength]
  omega

/-- Without a power of ten the point stands behind `leading + 1` digits. -/
theorem positionalText_eq (hlength : (figures digits).length = p) (hlow : -6 ≤ leading)
    (hhigh : leading < p) : positionalText (rounded p) digits (leading - p + 1) =
      layout p (figures digits) leading := by
  have hpoint : (rounded p).pointZero = false := rfl
  unfold positionalText layout
  simp only [hpoint, Bool.false_eq_true, if_false, List.append_nil, hlength]
  rw [if_neg (show ¬(leading < -6 ∨ (p : Int) ≤ leading) by omega)]
  rcases lt_trichotomy leading (p - 1) with hlt | rfl | hgt
  · rw [if_neg (by omega)]
    rcases lt_or_ge leading 0 with hneg | hpos
    · have hzeros : (-(leading - p + 1)).toNat - p = (-leading - 1).toNat := by omega
      have hne : List.replicate (-leading - 1).toNat '0' ++ figures digits ≠ [] :=
        List.append_ne_nil_of_right_ne_nil _ (figures_ne_nil digits)
      rw [if_neg (by omega), if_pos hneg, hzeros, withPoint_of_ne_nil hne]
      rfl
    · have hplaces : p - (-(leading - p + 1)).toNat = leading.toNat + 1 := by omega
      have hrest : (figures digits).drop (leading.toNat + 1) ≠ [] := by
        rw [ne_eq, List.drop_eq_nil_iff]
        omega
      rw [if_pos (by omega), if_neg (by omega), hplaces, withPoint_of_ne_nil hrest]
  · have := length_figures_pos digits
    have hwhole : ((p : Int) - 1).toNat + 1 = (figures digits).length := by omega
    have hzero : ((p : Int) - 1 - p + 1).toNat = 0 := by omega
    rw [if_pos (by omega), if_neg (by omega), hwhole, hzero, List.take_length, List.drop_length]
    rfl
  · omega

/-- **How rounded numbers are laid out.** -/
theorem write_rounded (hlength : (figures digits).length = p) (hpos : 0 < digits) :
    write (rounded p) ⟨negative, digits, leading - p + 1⟩ =
      String.ofList (minusText negative ++ layout p (figures digits) leading) := by
  have hdigits : digits ≠ 0 := hpos.ne'
  have hsign : (negative && (digits != 0 || (rounded p).signedZero)) = negative := by
    rw [bne_iff_ne.mpr hdigits, Bool.true_or, Bool.and_true]
  have hpositional : (rounded p).positional leading = decide (-6 ≤ leading ∧ leading < p) :=
    (Bool.decide_and ..).symm
  unfold write
  simp only [leadingExponent_eq hlength, hsign, hpositional, decide_eq_false hdigits,
    Bool.false_or, decide_eq_true_eq]
  refine congrArg (fun text => String.ofList (minusText negative ++ text)) ?_
  by_cases hplain : -6 ≤ leading ∧ leading < p
  · rw [if_pos hplain, positionalText_eq hlength hplain.1 hplain.2]
  · have hplus : (rounded p).plus = true := rfl
    have hpower : (if leading < 0 then ['-'] else ['+']) = [if leading < 0 then '-' else '+'] := by
      split <;> rfl
    rw [if_neg hplain, layout, if_pos (by omega), scientificText]
    simp only [hplus, if_true, hpower]
    rw [List.append_assoc]
    rfl

/-- **The text of a rounded number.** -/
theorem exists_toPrecision {q : Rat} (hq : q ≠ 0) (hp : 0 < p) :
    ∃ (m digits : Nat) (E : Int),
      toPrecision q p =
        String.ofList (minusText (q < 0) ++ layout p (figures digits) E) ∧
        (figures digits).length = p ∧ 0 < digits ∧ IsNearest (|q| / lastPlace |q| p) m ∧
        (digits : Rat) * 10 ^ (E - p + 1) = m * lastPlace |q| p := by
  obtain ⟨m, digits, E, hround, hlength, hpos, hm, hvalue⟩ := exists_significant hq hp
  refine ⟨m, digits, E, ?_, hlength, hpos, hm, hvalue⟩
  rw [toPrecision, hround, write_rounded hlength hpos]

/-! ### What the texts say -/

/-- The number after an `e`, and zero if there is no `e`. -/
def powerOfTen : List Char → Int
  | 'e' :: '-' :: digits => -(Nat.ofDigitChars 10 digits 0 : Nat)
  | 'e' :: '+' :: digits => (Nat.ofDigitChars 10 digits 0 : Nat)
  | 'e' :: digits => (Nat.ofDigitChars 10 digits 0 : Nat)
  | _ => 0

/-- The number that a text without a sign stands for: a numeral and a power of ten. -/
def magnitudeOfText? (text : List Char) : Option Rat :=
  (Numeral.read? (text.takeWhile (· ≠ 'e'))).map fun n =>
    n.digits / 10 ^ n.places * 10 ^ powerOfTen (text.dropWhile (· ≠ 'e'))

/-- **The number that a text stands for.** -/
def valueOfText? : List Char → Option Rat
  | '-' :: text => (magnitudeOfText? text).map (-·)
  | text => magnitudeOfText? text

/-- **The significant digits of a text**: those before the power of ten from the first that is not
zero. -/
def significantFigures (text : List Char) : List Char :=
  ((text.takeWhile (· ≠ 'e')).filter Char.isDigit).dropWhile (· = '0')

theorem powerOfTen_figures (leading : Int) :
    powerOfTen ('e' :: (if leading < 0 then '-' else '+') :: figures leading.natAbs) = leading := by
  split
  · change -((Nat.ofDigitChars 10 (figures leading.natAbs) 0 : Nat) : Int) = leading
    rw [ofDigitChars_figures]
    omega
  · change ((Nat.ofDigitChars 10 (figures leading.natAbs) 0 : Nat) : Int) = leading
    rw [ofDigitChars_figures]
    omega

/-- Every layout is made of digits with a point and perhaps a power of ten. -/
theorem exists_parts (leading : Int) (hlength : (figures digits).length = p) :
    ∃ (whole fraction suffix : List Char) (zeros : Nat),
      layout p (figures digits) leading = withPoint whole fraction ++ suffix ∧
        whole ++ fraction = List.replicate zeros '0' ++ figures digits ∧
        (∀ x, suffix.head? = some x → x = 'e') ∧
        powerOfTen suffix - fraction.length = leading - p + 1 := by
  have hpos := length_figures_pos digits
  have hplain : powerOfTen [] = 0 := rfl
  have hsplit := fun k => List.take_append_drop k (figures digits)
  unfold layout
  split
  · refine ⟨_, _, _, 0, rfl, hsplit 1, by rintro _ ⟨⟩; rfl, ?_⟩
    rw [powerOfTen_figures, List.length_drop]
    omega
  · split
    · refine ⟨_, _, [], (-leading - 1).toNat + 1, (List.append_nil _).symm, rfl, nofun, ?_⟩
      rw [hplain, List.length_append, List.length_replicate]
      omega
    · refine ⟨_, _, [], 0, (List.append_nil _).symm, hsplit _, nofun, ?_⟩
      rw [hplain, List.length_drop]
      omega

section Reading
variable {suffix : List Char}

theorem isNumeric_of_mem_withPoint (hdigits : ∀ x ∈ whole ++ fraction, x.isDigit) {x : Char}
    (hx : x ∈ withPoint whole fraction) : Numeral.isNumeric x := by
  rw [withPoint, List.mem_append] at hx
  rcases hx with hx | hx
  · exact isNumeric_of_isDigit (hdigits x (List.mem_append_left _ hx))
  · split at hx
    · cases hx
    · rcases List.mem_cons.mp hx with rfl | hx
      · rfl
      · exact isNumeric_of_isDigit (hdigits x (List.mem_append_right _ hx))

/-- The digits end at the power of ten. -/
theorem longestRun_withPoint (hdigits : ∀ x ∈ whole ++ fraction, x.isDigit)
    (hsuffix : ∀ x, suffix.head? = some x → x = 'e') :
    LongestRun (· ≠ 'e') (withPoint whole fraction) (withPoint whole fraction ++ suffix) suffix := by
  refine ⟨rfl, fun x hx => decide_eq_true ?_, fun x hx => decide_eq_false (not_not.mpr (hsuffix x hx))⟩
  rintro rfl
  cases isNumeric_of_mem_withPoint hdigits hx

theorem read?_withPoint (hdigits : ∀ x ∈ whole ++ fraction, x.isDigit)
    (hne : whole ++ fraction ≠ []) : Numeral.read? (withPoint whole fraction) =
      some ⟨Nat.ofDigitChars 10 (whole ++ fraction) 0, fraction.length⟩ := by
  obtain ⟨hwhole, hfraction⟩ := List.forall_mem_append.mp hdigits
  cases fraction with
  | nil =>
    rw [List.append_nil] at hne ⊢
    exact (congrArg _ (List.append_nil _)).trans ((read?_of_digits hwhole).mpr ⟨hne, rfl⟩)
  | cons d fraction =>
    rw [withPoint_of_ne_nil (List.cons_ne_nil d fraction)]
    exact (read?_of_point hwhole).mpr ⟨hfraction, hne, rfl⟩

theorem filter_withPoint (hdigits : ∀ x ∈ whole ++ fraction, x.isDigit) :
    (withPoint whole fraction).filter Char.isDigit = whole ++ fraction := by
  obtain ⟨hwhole, hfraction⟩ := List.forall_mem_append.mp hdigits
  rw [withPoint, List.filter_append, List.filter_eq_self.mpr hwhole]
  congr 1
  cases fraction with
  | nil => rfl
  | cons d fraction =>
    change ('.' :: d :: fraction).filter Char.isDigit = _
    rw [List.filter_cons_of_neg (by decide), List.filter_eq_self.mpr hfraction]

end Reading

theorem isDigit_of_mem_padded {zeros n : Nat} {x : Char}
    (hx : x ∈ List.replicate zeros '0' ++ figures n) : x.isDigit := by
  rcases List.mem_append.mp hx with hx | hx
  · exact isDigit_of_mem_zeros hx
  · exact isDigit_of_mem_figures hx

/-- The first digit of a number is not zero. -/
theorem head?_figures_ne {n : Nat} (hn : 0 < n) : (figures n).head? ≠ some '0' := by
  induction n using Nat.strongRecOn with
  | _ n ih =>
    rcases Nat.lt_or_ge n 10 with hlt | hge
    · rw [figures, Nat.toDigits_of_lt_base hlt]
      exact fun h => hn.ne' (Nat.digitChar_eq_zero.mp (Option.some.inj h))
    · have hquotient : 0 < n / 10 := by omega
      rw [figures, Nat.toDigits_of_base_le (by decide) hge,
        List.head?_append_of_ne_nil _ Nat.toDigits_ne_nil]
      exact ih (n / 10) (by omega) hquotient

theorem dropWhile_zeros {zeros n : Nat} (hn : 0 < n) :
    (List.replicate zeros '0' ++ figures n).dropWhile (· = '0') = figures n := by
  rw [List.dropWhile_append_of_pos fun x hx => decide_eq_true (List.eq_of_mem_replicate hx)]
  refine Stops.dropWhile_eq fun x hx => decide_eq_false ?_
  rintro rfl
  exact head?_figures_ne hn hx

/-- **The value of a layout.** -/
theorem magnitudeOfText?_layout (hlength : (figures digits).length = p) :
    magnitudeOfText? (layout p (figures digits) leading) =
      some (digits * (10 : Rat) ^ (leading - p + 1)) := by
  obtain ⟨whole, fraction, suffix, zeros, hlayout, hdigits, hsuffix, hpower⟩ :=
    exists_parts leading hlength
  have hall : ∀ x ∈ whole ++ fraction, x.isDigit := fun x hx =>
    isDigit_of_mem_padded (hdigits ▸ hx)
  have hne : whole ++ fraction ≠ [] := by
    rw [hdigits]
    exact List.append_ne_nil_of_right_ne_nil _ (figures_ne_nil digits)
  have hnumber : Nat.ofDigitChars 10 (whole ++ fraction) 0 = digits := by
    rw [hdigits, Nat.ofDigitChars_append, Nat.ofDigitChars_replicate_zero]
    exact ofDigitChars_figures digits
  obtain ⟨htake, hdrop⟩ := longestRun_iff.mp (longestRun_withPoint hall hsuffix)
  rw [hlayout, magnitudeOfText?, htake, hdrop, read?_withPoint hall hne, hnumber, Option.map_some,
    ← hpower, zpow_sub₀ (by decide), zpow_natCast]
  congr 1
  ring

/-- **The significant digits of a layout.** -/
theorem significantFigures_layout (hlength : (figures digits).length = p) (hpos : 0 < digits) :
    significantFigures (layout p (figures digits) leading) = figures digits := by
  obtain ⟨whole, fraction, suffix, zeros, hlayout, hdigits, hsuffix, -⟩ :=
    exists_parts leading hlength
  have hall : ∀ x ∈ whole ++ fraction, x.isDigit := fun x hx =>
    isDigit_of_mem_padded (hdigits ▸ hx)
  obtain ⟨htake, -⟩ := longestRun_iff.mp (longestRun_withPoint hall hsuffix)
  rw [hlayout, significantFigures, htake, filter_withPoint hall, hdigits, dropWhile_zeros hpos]

/-! ### Texts with a sign -/

theorem valueOfText?_minusText {value : Rat} (h : magnitudeOfText? text = some value) :
    valueOfText? (minusText negative ++ text) = some ((if negative then -1 else 1) * value) := by
  have hminus : ∀ rest, magnitudeOfText? ('-' :: rest) = none := fun rest => rfl
  cases negative with
  | false =>
    change valueOfText? text = _
    rw [if_neg Bool.false_ne_true, one_mul, ← h]
    unfold valueOfText?
    split
    · rw [hminus] at h
      cases h
    · rfl
  | true =>
    change (magnitudeOfText? text).map (-·) = _
    rw [h, if_pos rfl, neg_one_mul]
    rfl

theorem significantFigures_minusText :
    significantFigures (minusText negative ++ text) = significantFigures text := by
  cases negative <;> rfl

/-- A text shows the number `q` with `p` significant digits: it stands for the multiple `m` of the
last place that is nearest to `q`, whose first digit has the power of ten `E`. -/
structure Shows (q : Rat) (p : Nat) (text : List Char) (e E : Int) (m : Nat) : Prop where
  le_abs : (10 : Rat) ^ e ≤ |q|
  abs_lt : |q| < (10 : Rat) ^ (e + 1)
  nearest : IsNearest (|q| / (10 : Rat) ^ (e - p + 1)) m
  value : valueOfText? text = some ((if q < 0 then -1 else 1) * (m * (10 : Rat) ^ (e - p + 1)))
  figures : (significantFigures text).length = p
  le_rounded : (10 : Rat) ^ E ≤ m * (10 : Rat) ^ (e - p + 1)
  rounded_lt : m * (10 : Rat) ^ (e - p + 1) < (10 : Rat) ^ (E + 1)
  laidOut : text = minusText (q < 0) ++ layout p (significantFigures text) E

theorem between_of_length (leading : Int) (hp : 0 < p) (hlength : (figures digits).length = p)
    (hpos : 0 < digits) :
    (10 : Rat) ^ leading ≤ digits * 10 ^ (leading - p + 1) ∧
      digits * (10 : Rat) ^ (leading - p + 1) < 10 ^ (leading + 1) := by
  have hunit := ten_zpow_pos (leading - p + 1)
  have hlow : (10 : Rat) ^ (p - 1) ≤ digits := by exact_mod_cast hlength ▸ pow_figures_le hpos
  have hhigh : (digits : Rat) < 10 ^ p := by exact_mod_cast hlength ▸ lt_pow_figures digits
  have hleading : (10 : Rat) ^ leading = 10 ^ (p - 1) * 10 ^ (leading - p + 1) := by
    rw [← zpow_natCast, ← zpow_add₀ (by decide)]
    congr 1
    omega
  have hnext : (10 : Rat) ^ (leading + 1) = 10 ^ p * 10 ^ (leading - p + 1) := by
    rw [← zpow_natCast, ← zpow_add₀ (by decide)]
    congr 1
    omega
  rw [hleading, hnext]
  exact ⟨mul_le_mul_of_nonneg_right hlow hunit.le, mul_lt_mul_of_pos_right hhigh hunit⟩

/-- **Decimals of `p` digits are told apart by their values.** -/
theorem eq_of_mul_zpow_eq {n n' : Nat} {E E' : Int} (hp : 0 < p) (hlength : (figures n).length = p)
    (hlength' : (figures n').length = p) (hn : 0 < n) (hn' : 0 < n')
    (h : (n : Rat) * 10 ^ (E - p + 1) = n' * 10 ^ (E' - p + 1)) : n = n' ∧ E = E' := by
  have hbounds := between_of_length E hp hlength hn
  have hbounds' := between_of_length E' hp hlength' hn'
  rw [← h] at hbounds'
  have hlow := (zpow_lt_zpow_iff_right₀ (by norm_num)).mp (hbounds.1.trans_lt hbounds'.2)
  have hhigh := (zpow_lt_zpow_iff_right₀ (by norm_num)).mp (hbounds'.1.trans_lt hbounds.2)
  obtain rfl : E = E' := by omega
  have := mul_right_cancel₀ (ten_zpow_pos _).ne' h
  exact ⟨by exact_mod_cast this, rfl⟩

/-- **Rounded numbers are shown with their significant digits.** -/
theorem exists_shows {q : Rat} (hq : q ≠ 0) (hp : 0 < p) :
    ∃ e E m, Shows q p (toPrecision q p).toList e E m := by
  have habs := abs_pos.mpr hq
  obtain ⟨m, digits, E, htext, hlength, hpos, hm, hvalue⟩ := exists_toPrecision hq hp
  have hfigures : significantFigures (toPrecision q p).toList = figures digits := by
    rw [htext, String.toList_ofList, significantFigures_minusText,
      significantFigures_layout hlength hpos]
  have hrounded := between_of_length E hp hlength hpos
  rw [hvalue] at hrounded
  refine ⟨exponentOf |q|, E, m, exponentOf_le habs, lt_exponentOf habs, hm, ?_, ?_, hrounded.1,
    hrounded.2, ?_⟩
  · rw [htext, String.toList_ofList, valueOfText?_minusText (magnitudeOfText?_layout hlength),
      hvalue]
    simp only [decide_eq_true_eq]
    rfl
  · rw [hfigures, hlength]
  · rw [hfigures, htext, String.toList_ofList]

end Decimal
end LinearEquations
