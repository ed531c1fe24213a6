import LinearEquations.Proofs.DigitRun

/-! # Significant digits without numbers

The text that `toPrecision` makes of a number can be made from the digits of the number
(`precisionText?`).  The number is written out with `exactDigits` digits after the first and a power
of ten.  The text is split at the power of ten, its digits are rounded (`DigitRun.round`), and they
are laid out, for which they are cut in two.  There is no text if such a cut lies beyond the end.

For a finite double other than zero there always is a text, it is the one of `toPrecision`, and it
shows the double with the digits asked for (`exists_precisionText?_eq`).  The reason is that the digits
of a double end: a double is a whole number times a power of two, and halving a number adds one
digit at its end, so that `exactDigits` digits are more than enough
(`BinaryFraction.IsCanonical.exists_digits`). -/

namespace LinearEquations
open Grammar Decimal

/-! ### Texts and digits -/

/-- A list cut in two, unless it is too short. -/
def splitAt? {A : Type} (k : Nat) (l : List A) : Option (List A × List A) :=
  if k ≤ l.length then some (l.take k, l.drop k) else none

/-- What stands before and after the first `x` of a text. -/
def splitOnce? (x : Char) (text : List Char) : Option (List Char × List Char) :=
  match text.dropWhile (· ≠ x) with
  | [] => none
  | _ :: rest => some (text.takeWhile (· ≠ x), rest)

/-- The whole number that a text says, if it has 32 bits, and zero otherwise. -/
def readInteger (text : List Char) : Int :=
  let negative := text.head? = some '-'
  let digits := if negative || text.head? = some '+' then text.tail else text
  let n : Int := if negative then -Nat.ofDigitChars 10 digits 0 else Nat.ofDigitChars 10 digits 0
  if !digits.isEmpty && digits.all Char.isDigit && -2 ^ 31 ≤ n && n < 2 ^ 31 then n else 0

/-- The digits among the characters of a text. -/
def digitsOf (text : List Char) : List Nat :=
  (text.filter Char.isDigit).map fun x => x.toNat - '0'.toNat

/-- As many digits after the first as the digits of any double need. -/
def exactDigits : Nat := 800

/-- A number with `exactDigits` digits after the first and a power of ten. -/
def exactText (x : Rat) : List Char :=
  ((significant .even (exactDigits + 1) x).write scientific).toList

/-- Digits with a point and perhaps a power of ten; `leading` is the power of ten of the first. -/
def layOut? (precision : Nat) (digits : List Char) (leading : Int) : Option (List Char) :=
  if leading < -6 || precision ≤ leading then
    (splitAt? 1 digits).map fun (first, rest) =>
      first ++ (if rest.isEmpty then [] else ['.']) ++ rest ++
        'e' :: (if leading < 0 then '-' else '+') :: figures leading.natAbs
  else if leading < 0 then
    some ('0' :: '.' :: List.replicate (-leading - 1).toNat '0' ++ digits)
  else
    (splitAt? (leading.toNat + 1) digits).map fun (whole, fraction) =>
      if fraction.isEmpty then whole else whole ++ '.' :: fraction

/-- **A scalar with `precision` significant digits, by its digits.**  What is no number, and zero,
are written as they are. -/
def precisionText? {R : Type} [Scalar R] (precision : Nat) (x : R) : Option (List Char) :=
  match Scalar.value x with
  | .finite q =>
    if q = 0 then some (Scalar.write { plain with signedZero := true } x).toList
    else
      let exact := exactText |q|
      match splitOnce? 'e' exact with
      | none => some exact
      | some (mantissa, power) =>
        let (digits, leading) :=
          DigitRun.round precision (digitsOf mantissa) (readInteger power)
        (layOut? precision (digits.map Nat.digitChar) leading).map
          ((if q < 0 then ['-'] else []) ++ ·)
  | _ => some (Scalar.write plain x).toList

variable {p N : Nat} {leading : Int} {x : Rat}

/-! ### Laying out -/

theorem splitAt?_of_le {A : Type} {k : Nat} {l : List A} (h : k ≤ l.length) :
    splitAt? k l = some (l.take k, l.drop k) := if_pos h

/-- **No cut lies beyond the end.** -/
theorem layOut?_eq {digits : List Char} (hp : 0 < p) (hlength : digits.length = p) :
    layOut? p digits leading = some (layout p digits leading) := by
  unfold layOut? layout
  by_cases hpower : leading < -6 ∨ (p : Int) ≤ leading
  · have hpoint : ∀ whole fraction : List Char,
        whole ++ (if fraction.isEmpty then [] else ['.']) ++ fraction = withPoint whole fraction := by
      intro whole fraction
      cases fraction <;> simp [withPoint]
    rw [if_pos hpower, if_pos (by simpa using hpower), splitAt?_of_le (by omega), Option.map_some]
    simp only [hpoint]
  · rw [if_neg hpower, if_neg (by simpa using hpower)]
    by_cases hneg : leading < 0
    · have hne : List.replicate (-leading - 1).toNat '0' ++ digits ≠ [] :=
        List.append_ne_nil_of_right_ne_nil _ (List.ne_nil_of_length_pos (by omega))
      rw [if_pos hneg, if_pos hneg, withPoint_of_ne_nil hne]
      rfl
    · rw [if_neg hneg, if_neg hneg, splitAt?_of_le (by omega), Option.map_some]
      simp only [withPoint]
      split <;> simp

/-! ### Writing out and splitting -/

theorem Tie.round_natCast (tie : Tie) (n : Nat) : tie.round n = n := by
  unfold Tie.round
  have hfloor : (n : Rat).floor.toNat = n := by
    rw [← Int.cast_natCast, Rat.floor_intCast, Int.toNat_natCast]
  simp only [hfloor, sub_self]
  rw [if_pos (by norm_num)]

theorem length_figures_of_lastPlace (hx : 0 < x) (hp : 0 < p) (h : x = N * lastPlace x p) :
    (figures N).length = p := by
  obtain ⟨hlow, hhigh⟩ := between_lastPlace hx hp
  have hquotient : x / lastPlace x p = N := (div_eq_iff (ten_zpow_pos _).ne').mpr h
  rw [hquotient] at hlow hhigh
  exact length_figures_eq hp (by exact_mod_cast hlow) (by exact_mod_cast hhigh)

/-- The digits of a number, if `exactDigits` after the first are enough. -/
def HasDigits (x : Rat) (N : Nat) : Prop := x = N * lastPlace x (exactDigits + 1)

theorem HasDigits.length (h : HasDigits x N) (hx : 0 < x) :
    (figures N).length = exactDigits + 1 := length_figures_of_lastPlace hx (Nat.succ_pos _) h

theorem HasDigits.significant_eq (h : HasDigits x N) (hx : 0 < x) :
    significant .even (exactDigits + 1) x =
      ⟨false, N, exponentOf x - (exactDigits + 1 : Nat) + 1⟩ := by
  have hplace : lastPlace x (exactDigits + 1) ≠ 0 := (ten_zpow_pos _).ne'
  have hquotient : x / (10 : Rat) ^ (exponentOf x - (exactDigits + 1 : Nat) + 1) = N :=
    (div_eq_iff hplace).mpr h
  have hlt : N < Nat.pow 10 (exactDigits + 1) := h.length hx ▸ lt_pow_figures N
  rw [significant, if_neg hx.ne', ratAbs_eq, abs_of_pos hx]
  simp only [hquotient, Tie.round_natCast]
  rw [if_neg hlt.ne, decide_eq_false hx.not_gt]

theorem HasDigits.pos (h : HasDigits x N) (hx : 0 < x) : 0 < N := by
  refine Nat.pos_of_ne_zero ?_
  rintro rfl
  rw [HasDigits, Nat.cast_zero, zero_mul] at h
  exact hx.ne' h

theorem exactText_eq (h : HasDigits x N) (hx : 0 < x) :
    exactText x = withPoint ((figures N).take 1) ((figures N).drop 1) ++
      'e' :: (minusText (exponentOf x < 0) ++ figures (exponentOf x).natAbs) := by
  have hN : N ≠ 0 := (h.pos hx).ne'
  have hpower : (if exponentOf x < 0 then ['-'] else if scientific.plus then ['+'] else []) =
      minusText (exponentOf x < 0) := by
    rw [minusText]
    simp only [decide_eq_true_eq]
    rfl
  rw [exactText, h.significant_eq hx, write, String.toList_ofList]
  simp only [leadingExponent_eq (h.length hx), scientificText, hpower, Bool.false_and,
    Bool.false_eq_true, if_false, decide_eq_false hN, Bool.false_or, List.nil_append]
  rw [if_neg (show ¬scientific.positional _ from Bool.false_ne_true), List.append_assoc]
  rfl

theorem splitOnce?_of_longestRun {text rest : List Char} {c : Char}
    (h : LongestRun (· ≠ c) text (text ++ c :: rest) (c :: rest)) :
    splitOnce? c (text ++ c :: rest) = some (text, rest) := by
  obtain ⟨htake, hdrop⟩ := longestRun_iff.mp h
  rw [splitOnce?, hdrop, htake]

theorem splitOnce?_exactText (h : HasDigits x N) (hx : 0 < x) :
    splitOnce? 'e' (exactText x) = some (withPoint ((figures N).take 1) ((figures N).drop 1),
      minusText (exponentOf x < 0) ++ figures (exponentOf x).natAbs) := by
  rw [exactText_eq h hx]
  refine splitOnce?_of_longestRun (longestRun_withPoint (fun d hd => ?_) fun c hc => ?_)
  · rw [List.take_append_drop] at hd
    exact isDigit_of_mem_figures hd
  · exact (Option.some.inj hc).symm

theorem readInteger_eq {e : Int} (hlow : -2 ^ 31 ≤ e) (hhigh : e < 2 ^ 31) :
    readInteger (minusText (e < 0) ++ figures e.natAbs) = e := by
  have hdigits : (figures e.natAbs).all Char.isDigit := List.all_eq_true.mpr fun d hd =>
    isDigit_of_mem_figures hd
  have hne := List.isEmpty_eq_false_iff.mpr (figures_ne_nil e.natAbs)
  have hnatural : ∀ n : Int, n = e → (if !(figures e.natAbs).isEmpty &&
      (figures e.natAbs).all Char.isDigit && -2 ^ 31 ≤ n && n < 2 ^ 31 then n else 0) = e := by
    rintro n rfl
    rw [hne, hdigits, decide_eq_true hlow, decide_eq_true hhigh]
    rfl
  by_cases hneg : e < 0
  · rw [decide_eq_true hneg]
    refine hnatural (-Nat.ofDigitChars 10 (figures e.natAbs) 0) ?_
    rw [ofDigitChars_figures]
    omega
  · have hhead : ∀ x, x.isDigit = false → (figures e.natAbs).head? ≠ some x := by
      intro x hx heq
      exact Bool.eq_false_iff.mp hx (isDigit_of_mem_figures (List.mem_of_mem_head? heq))
    rw [decide_eq_false hneg]
    change readInteger (figures e.natAbs) = e
    unfold readInteger
    simp only [hhead '-' rfl, hhead '+' rfl, decide_false, Bool.or_false, Bool.false_eq_true,
      if_false]
    refine hnatural (Nat.ofDigitChars 10 (figures e.natAbs) 0) ?_
    rw [ofDigitChars_figures]
    omega

/-- The digits that a number is written out with. -/
theorem digitsOf_withPoint (N : Nat) :
    digitsOf (withPoint ((figures N).take 1) ((figures N).drop 1)) =
      (figures N).map fun x => x.toNat - '0'.toNat := by
  have hsplit := List.take_append_drop 1 (figures N)
  rw [digitsOf, filter_withPoint fun d hd => isDigit_of_mem_figures (hsplit ▸ hd), hsplit]

theorem value_figures (N : Nat) :
    DigitRun.value ((figures N).map fun x => x.toNat - '0'.toNat) = N := by
  rw [DigitRun.value, List.foldl_map, ← Nat.ofDigitChars_eq_foldl]
  exact ofDigitChars_figures N

theorem isRun_figures (N : Nat) :
    DigitRun.IsRun ((figures N).map fun x => x.toNat - '0'.toNat) := by
  intro d hd
  obtain ⟨c, hc, rfl⟩ := List.mem_map.mp hd
  have := (toNat_of_isNumeric (isNumeric_of_isDigit (isDigit_of_mem_figures hc))).2
  change c.toNat - 48 < 10
  omega

/-! ### The digits of doubles -/

/-- A whole number of small enough units needs no more than `exactDigits` digits after the first. -/
theorem hasDigits_of_le {M : Nat} {j : Int} (h : x = M * (10 : Rat) ^ j)
    (hj : exponentOf x - (exactDigits + 1 : Nat) + 1 ≤ j) : ∃ N, HasDigits x N := by
  obtain ⟨k, hk⟩ : ∃ k : Nat, j = exponentOf x - (exactDigits + 1 : Nat) + 1 + k :=
    ⟨_, (by omega : j = _ + ((j - (exponentOf x - (exactDigits + 1 : Nat) + 1)).toNat : Int))⟩
  refine ⟨M * 10 ^ k, ?_⟩
  rw [HasDigits, lastPlace]
  generalize exponentOf x - (exactDigits + 1 : Nat) + 1 = place at hk
  rw [h, hk, zpow_add₀ (by decide), zpow_natCast, Nat.cast_mul, Nat.cast_pow, Nat.cast_ofNat]
  ring

namespace BinaryFraction
variable {b : BinaryFraction}

theorem exponentOf_lt {k : Int} (hx : 0 < x) (h : x < (10 : Rat) ^ k) : exponentOf x < k :=
  (zpow_lt_zpow_iff_right₀ (by norm_num)).mp ((exponentOf_le hx).trans_lt h)

/-- The power of ten of the first digit of a double. -/
theorem IsCanonical.exponentOf_bounds (hb : b.IsCanonical) (hexponent : b.exponent ≤ 971)
    (hpos : 0 < b.magnitude) :
    -1076 < exponentOf b.magnitude ∧ exponentOf b.magnitude < 309 := by
  constructor
  · have hsignificand : (1 : Rat) ≤ b.significand := by
      have : b.significand ≠ 0 := by
        intro hzero
        rw [magnitude, hzero, Nat.cast_zero, zero_mul] at hpos
        exact hpos.false
      exact_mod_cast Nat.one_le_iff_ne_zero.mpr this
    have hleast : (10 : Rat) ^ (-1074 : Int) ≤ b.magnitude := by
      calc (10 : Rat) ^ (-1074 : Int)
          ≤ 2 ^ (-1074 : Int) := by
            rw [zpow_neg, zpow_neg]
            exact inv_anti₀ (two_zpow_pos _) (zpow_le_zpow_left₀ (by decide) two_pos.le (by norm_num))
        _ ≤ 2 ^ b.exponent := zpow_le_zpow_right₀ one_le_two hb.le
        _ ≤ b.magnitude := le_mul_of_one_le_left (two_zpow_pos _).le hsignificand
    have := (zpow_lt_zpow_iff_right₀ (by norm_num)).mp (hleast.trans_lt (lt_exponentOf hpos))
    omega
  · have hgreatest : (2 ^ 53 - 1) * (2 : Rat) ^ (971 : Int) < 10 ^ (309 : Int) := by
      have hnat : (2 ^ 53 - 1) * 2 ^ 971 < 10 ^ 309 := by decide +kernel
      have hcast : ((2 ^ 53 - 1 : Nat) : Rat) = 2 ^ 53 - 1 := by norm_num
      rw [← hcast, zpow_ofNat, zpow_ofNat]
      exact_mod_cast hnat
    exact exponentOf_lt hpos ((hb.magnitude_le hexponent).trans_lt hgreatest)

theorem five_pow_le {k : Nat} (hk : k ≤ 1074) : 2 ^ 53 * 5 ^ k ≤ 10 ^ 801 := by
  obtain ⟨n, hn, hgreatest⟩ : ∃ n, 1074 ≤ n ∧ 2 ^ 53 * 5 ^ n ≤ 10 ^ 801 :=
    ⟨1074, le_rfl, by decide +kernel⟩
  exact (Nat.mul_le_mul_left _ (Nat.pow_le_pow_right (by decide) (hk.trans hn))).trans hgreatest

/-- **The digits of a double end.** -/
theorem IsCanonical.exists_digits (hb : b.IsCanonical) (hexponent : b.exponent ≤ 971)
    (hpos : 0 < b.magnitude) : ∃ N, HasDigits b.magnitude N := by
  obtain ⟨-, hhigh⟩ := hb.exponentOf_bounds hexponent hpos
  rcases le_total 0 b.exponent with hwhole | hfraction
  · obtain ⟨k, hk⟩ := Int.eq_ofNat_of_zero_le hwhole
    refine hasDigits_of_le (M := b.significand * 2 ^ k) (j := 0) ?_ (by unfold exactDigits; omega)
    rw [magnitude, hk, zpow_zero, mul_one, Nat.cast_mul, Nat.cast_pow]
    rfl
  · obtain ⟨k, hk⟩ := Int.eq_ofNat_of_zero_le (Int.neg_nonneg.mpr hfraction)
    obtain hk : b.exponent = -k := by omega
    have hlow := hb.le
    have hunit : b.magnitude = (b.significand * 5 ^ k : Nat) * (10 : Rat) ^ (-k : Int) := by
      have hten : (10 : Rat) ^ k = 2 ^ k * 5 ^ k := by rw [← mul_pow]; norm_num
      rw [magnitude, hk, zpow_neg, zpow_neg, zpow_natCast, zpow_natCast, hten, mul_inv]
      push_cast
      field_simp
    refine hasDigits_of_le hunit ?_
    by_contra hlong
    -- otherwise the double would be at least `10 ^ (801 - k)`
    have hle : (10 : Rat) ^ (801 : Int) ≤ (b.significand * 5 ^ k : Nat) := by
      have hfirst : (10 : Rat) ^ (801 - k : Int) ≤ b.magnitude :=
        (zpow_le_zpow_right₀ (by norm_num) (by unfold exactDigits at hlong; omega)).trans
          (exponentOf_le hpos)
      rw [hunit, sub_eq_add_neg, zpow_add₀ (by decide)] at hfirst
      exact le_of_mul_le_mul_right hfirst (ten_zpow_pos _)
    have hle : 10 ^ 801 ≤ b.significand * 5 ^ k := by
      rw [zpow_ofNat] at hle
      exact_mod_cast hle
    have hlt := Nat.mul_lt_mul_of_pos_right hb.lt (show 0 < 5 ^ k from Nat.pow_pos (by decide))
    exact absurd (hle.trans_lt (hlt.trans_le (five_pow_le (by omega)))) (Nat.lt_irrefl _)

end BinaryFraction

/-! ### The text by digits -/

variable {q : Rat}

theorem HasDigits.div_pow (h : HasDigits x N) {k : Nat} (hk : exactDigits + 1 = p + (k + 1)) :
    (N : Rat) / 10 ^ (k + 1) = x / lastPlace x p := by
  have hplace : lastPlace x p = lastPlace x (exactDigits + 1) * 10 ^ (k + 1) := by
    rw [lastPlace, lastPlace, ← zpow_natCast, ← zpow_add₀ (by decide), hk]
    congr 1
    omega
  have hpos : lastPlace x (exactDigits + 1) ≠ 0 := (ten_zpow_pos _).ne'
  have hx : x / lastPlace x p = N * lastPlace x (exactDigits + 1) / lastPlace x p :=
    congrArg (· / lastPlace x p) h
  rw [hx, hplace, mul_comm, mul_div_mul_left _ _ hpos]

/-- **Rounding the digits of a number rounds the number.** -/
theorem exists_round (h : HasDigits |q| N) (hq : q ≠ 0) (hp : 0 < p) (hle : p ≤ exactDigits) :
    ∃ digits E, DigitRun.round p ((figures N).map fun x => x.toNat - '0'.toNat)
        (exponentOf |q|) = (digits, E) ∧ digits.length = p ∧
      toPrecision q p =
        String.ofList (minusText (q < 0) ++ layout p (digits.map Nat.digitChar) E) := by
  have habs := abs_pos.mpr hq
  obtain ⟨k, hk⟩ : ∃ k, exactDigits + 1 = p + (k + 1) := ⟨exactDigits - p, by omega⟩
  have hlength : ((figures N).map fun x => x.toNat - '0'.toNat).length = p + (k + 1) := by
    rw [List.length_map, h.length habs, hk]
  obtain ⟨m, hnearest, hdigits, hrun, hcases⟩ :=
    DigitRun.round_spec (exponentOf |q|) hp (isRun_figures N) hlength
  rw [value_figures, h.div_pow hk] at hnearest
  obtain ⟨m', n, E, htext, hn, hpos, hnearest', hvalue⟩ := exists_toPrecision hq hp
  obtain rfl := hnearest'.eq hnearest
  generalize DigitRun.round p ((figures N).map fun x => x.toNat - '0'.toNat) (exponentOf |q|) =
    rounded at *
  obtain ⟨digits, E'⟩ := rounded
  have hlow : 10 ^ (p - 1) ≤ m' := hnearest.le_of_le (between_lastPlace habs hp).1
  have hfirst : 10 ^ (p - 1) ≤ DigitRun.value digits ∧
      (DigitRun.value digits : Rat) * 10 ^ (E' - p + 1) = m' * lastPlace |q| p := by
    rcases hcases with ⟨rfl, rfl⟩ | ⟨rfl, hone, rfl⟩
    · exact ⟨hlow, rfl⟩
    · exact ⟨hone.ge, hone ▸ carry_eq hp⟩
  have hfigures := length_figures_eq hp hfirst.1 (hdigits ▸ hrun.value_lt)
  have hnonzero : 0 < DigitRun.value digits := (Nat.pow_pos (by decide)).trans_le hfirst.1
  obtain ⟨rfl, rfl⟩ := eq_of_mul_zpow_eq hp hfigures hn hnonzero hpos (hfirst.2.trans hvalue.symm)
  refine ⟨digits, E', rfl, hdigits, ?_⟩
  rw [htext, hrun.figures_value (hdigits.trans (Nat.sub_add_cancel hp).symm) hfirst.1]

variable {R : Type} [Scalar R] {a : R}

/-- **The text by digits is the text by numbers**, for all numbers whose digits end soon enough. -/
theorem precisionText?_of_hasDigits (ha : Scalar.value a = .finite q) (hq : q ≠ 0)
    (h : HasDigits |q| N) (hlow : -2 ^ 31 ≤ exponentOf |q|) (hhigh : exponentOf |q| < 2 ^ 31)
    (hp : 0 < p) (hle : p ≤ exactDigits) :
    precisionText? p a = some (toPrecision q p).toList := by
  obtain ⟨digits, E, hround, hlength, htext⟩ := exists_round h hq hp hle
  have hdigits : (digits.map Nat.digitChar).length = p := (List.length_map _).trans hlength
  have hsign : (if q < 0 then ['-'] else []) = minusText (q < 0) := by
    rw [minusText]
    simp only [decide_eq_true_eq]
  unfold precisionText?
  rw [ha]
  simp only [if_neg hq, splitOnce?_exactText h (abs_pos.mpr hq), digitsOf_withPoint,
    readInteger_eq hlow hhigh, hround, layOut?_eq hp hdigits, Option.map_some, hsign, htext,
    String.toList_ofList]

/-- **Significant digits of doubles.**  For every finite double other than zero and every precision
up to `exactDigits` the digits are cut only where they can be cut, and the text shows the double
with the digits asked for. -/
theorem exists_precisionText?_eq {x : Float} {q : Rat} (hx : Scalar.value x = .finite q)
    (hq : q ≠ 0) {p : Nat} (hp : 0 < p) (hle : p ≤ exactDigits) :
    ∃ text e E m, precisionText? p x = some text ∧ text = (toPrecision q p).toList ∧
      Shows q p text e E m := by
  obtain ⟨b, hb, rfl, -⟩ := Scalar.exists_fraction hx
  have hcanonical := BinaryFraction.isCanonical_of_ofFloat? hb
  have hexponent := BinaryFraction.exponent_le_of_ofFloat? hb
  have hpos : 0 < b.magnitude := Scalar.abs_toRat b ▸ abs_pos.mpr hq
  obtain ⟨N, hN⟩ := hcanonical.exists_digits hexponent hpos
  obtain ⟨hlow, hhigh⟩ := hcanonical.exponentOf_bounds hexponent hpos
  rw [← Scalar.abs_toRat b] at hN hlow hhigh
  obtain ⟨e, E, m, hshows⟩ := exists_shows hq hp
  exact ⟨_, e, E, m, precisionText?_of_hasDigits hx hq hN (by omega) (by omega) hp hle, rfl, hshows⟩

/-- A double halfway between two numbers with four digits. -/
theorem exists_precisionText?_of_tie :
    Scalar.value (0.015625 : Float) = .finite (1 / 64) ∧ toPrecision (1 / 64) 4 = "0.01563" ∧
      ∃ text e E m, precisionText? 4 (0.015625 : Float) = some text ∧
        text = (toPrecision (1 / 64) 4).toList ∧ Shows (1 / 64) 4 text e E m := by
  have hvalue : Scalar.value (0.015625 : Float) = .finite (1 / 64) := by decide +kernel
  exact ⟨hvalue, by decide +kernel,
    exists_precisionText?_eq hvalue (by norm_num) (by decide) (by decide)⟩

end LinearEquations
