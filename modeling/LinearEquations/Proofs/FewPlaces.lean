import LinearEquations.Proofs.CanonicalText
import LinearEquations.Proofs.ReadBack

/-! # Numbers that are written as they are

A number with at most four decimal places is meant to be written as it is, and all others with four
significant digits.  What decides is not the shortest decimal of the number but its product with
`10 ^ 4`: the number is written as it is if the product is whole after rounding
(`Scalar.text_of_rounded_product`).

The shortest decimal has at most four places if and only if some `k / 10 ^ 4` is read as the number,
which means that it is less than half of the last bit away.  The last bit of the product is `2 ^ 13`
or `2 ^ 14` times that of the number, depending on whether the significand times `10 ^ 4` reaches
`2 ^ 66`, while distances grow by the factor `10 ^ 4`, which lies between the two.  Up to `2 ^ 66` a
whole product is therefore more than is needed for four places
(`BinaryFraction.IsCanonical.places_of_den_product`), and from there on it is less
(`BinaryFraction.IsCanonical.den_product_of_places`).  Neither holds the other way round. -/

namespace LinearEquations
open Double

namespace BinaryFraction
variable {b : BinaryFraction} {n k : Nat} {t : Int}

theorem magnitude_mul (b : BinaryFraction) (m : Nat) :
    b.magnitude * m = (b.significand * m : Nat) * 2 ^ b.exponent := by
  rw [magnitude, Nat.cast_mul]
  ring

theorem den_of_exponent (h : 0 ≤ b.exponent) : b.toRat.den = 1 := by
  obtain ⟨j, hj⟩ := Int.eq_ofNat_of_zero_le h
  have hmagnitude : b.magnitude = (b.significand * 2 ^ j : Nat) := by
    rw [magnitude, hj, zpow_natCast]
    push_cast
    rfl
  unfold toRat
  rw [hmagnitude]
  split
  · rw [Rat.neg_den, Rat.den_natCast]
  · exact Rat.den_natCast _

end BinaryFraction

theorem isNearlyWhole_of_den {q : Rat} (h : q.den = 1) : isNearlyWhole q := by
  have hnearest : (nearest q : Rat) = q := by
    rw [← (Rat.den_eq_one_iff q).mp h, nearest_intCast]
  rw [isNearlyWhole, hnearest, sub_self, decide_eq_true_eq]
  norm_num [tolerance]

namespace BinaryFraction
variable {b : BinaryFraction} {n k : Nat} {t : Int}

theorem IsCanonical.magnitude_lt (hb : b.IsCanonical) (h : b.exponent ≤ 0) :
    b.magnitude < 2 ^ 53 := by
  have hunit : (2 : Rat) ^ b.exponent ≤ 1 := zpow_le_one_of_nonpos₀ one_le_two h
  have hlt : (b.significand : Rat) < 2 ^ 53 := by exact_mod_cast hb.lt
  exact (mul_le_of_le_one_right (Nat.cast_nonneg _) hunit).trans_lt hlt

/-- A fraction that is not nearly whole is neither tiny nor large. -/
theorem IsCanonical.bounds_of_not_isNearlyWhole (hb : b.IsCanonical)
    (h : ¬isNearlyWhole b.toRat) : 2 ^ 52 ≤ b.significand ∧ b.exponent < 0 := by
  refine ⟨hb.long.resolve_right fun hleast => h ?_,
    not_le.mp fun hexponent => h (isNearlyWhole_of_den (den_of_exponent hexponent))⟩
  have hlt : (b.significand : Rat) < 2 ^ 53 := by exact_mod_cast hb.lt
  have hsmall : |b.toRat| < tolerance := by
    rw [Scalar.abs_toRat, magnitude, hleast]
    calc (b.significand : Rat) * 2 ^ (-1074 : Int) < 2 ^ 53 * 2 ^ (-1074 : Int) :=
          mul_lt_mul_of_pos_right hlt (zpow_pos two_pos _)
      _ = 2 ^ (-1021 : Int) := by rw [← zpow_natCast, ← zpow_add₀ two_ne_zero]; rfl
      _ ≤ 2 ^ (-30 : Int) := zpow_le_zpow_right₀ one_le_two (by decide)
      _ < tolerance := by norm_num [tolerance]
  exact (Scalar.isNearlyWhole_iff_of_nearest (Scalar.nearest_eq_zero hsmall)).mpr hsmall

/-! ### The product -/

/-- Distances are multiplied by `10 ^ 4`, too. -/
theorem abs_product_sub (v : Rat) (k : Nat) : |v * 10 ^ decimalPlaces - k| =
    |(k : Rat) / 10 ^ decimalPlaces - v| * 10000 := by
  have hpower : (10 : Rat) ^ decimalPlaces = 10000 := by norm_num [decimalPlaces]
  have hscaled : v * 10000 - k = -(((k : Rat) / 10000 - v) * 10000) := by
    field_simp
    ring
  rw [hpower, hscaled, abs_neg, abs_mul]
  norm_num

/-- The last place of the product lies 13 or 14 binary digits before that of the fraction. -/
theorem IsCanonical.exponent_product (hb : b.IsCanonical) (hlong : 2 ^ 52 ≤ b.significand)
    (h : RoundsTo (b.magnitude * 10 ^ decimalPlaces) n t) :
    t = b.exponent + if 2 ^ 66 ≤ b.significand * 10000 then 14 else 13 := by
  have hunit : (0 : Rat) < 2 ^ b.exponent := zpow_pos two_pos _
  have hproduct : b.magnitude * 10 ^ decimalPlaces =
      (b.significand * 10000 : Nat) * 2 ^ b.exponent := by
    rw [← magnitude_mul]
    norm_num [decimalPlaces]
  have hle := hb.le
  have hlt := hb.lt
  -- the significand of the product has 66 or 67 digits, 53 of which are kept
  have hplace : ∀ j : Nat, 2 ^ (52 + j) ≤ b.significand * 10000 →
      b.significand * 10000 < 2 ^ (53 + j) → t = b.exponent + j := by
    intro j hlow hhigh
    have hlow : (2 : Rat) ^ 52 * 2 ^ j ≤ (b.significand * 10000 : Nat) := by
      rw [← pow_add]
      exact_mod_cast hlow
    have hhigh : ((b.significand * 10000 : Nat) : Rat) < 2 ^ 53 * 2 ^ j := by
      rw [← pow_add]
      exact_mod_cast hhigh
    refine h.exponent_eq (by omega) ?_ ?_ <;>
      rw [hproduct, zpow_add₀ two_ne_zero, zpow_natCast, mul_comm (2 ^ b.exponent), ← mul_assoc]
    · exact mul_le_mul_of_nonneg_right hlow hunit.le
    · exact mul_lt_mul_of_pos_right hhigh hunit
  split
  · exact hplace 14 (by omega) (by omega)
  · exact hplace 13 (by omega) (by omega)

/-- **From `2 ^ 66` on a number with few places has a whole product.** -/
theorem IsCanonical.den_product_of_places (hb : b.IsCanonical) (hlong : 2 ^ 52 ≤ b.significand)
    (h : RoundsTo (b.magnitude * 10 ^ decimalPlaces) n t)
    (hhigh : 2 ^ 66 ≤ b.significand * 10000) (hplaces : -decimalPlaces ≤ b.shortest.exponent) :
    ((n : Rat) * 2 ^ t).den = 1 := by
  have hunit : (0 : Rat) < 2 ^ b.exponent := zpow_pos two_pos _
  have hsignificand : 0 < b.significand := by omega
  have hpos : 0 < b.magnitude := mul_pos (by exact_mod_cast hsignificand) hunit
  obtain ⟨k, hk⟩ := hb.exists_contains_of_exponent hpos hplaces
  have hplace : (2 : Rat) ^ t = 2 ^ b.exponent * 16384 := by
    rw [hb.exponent_product hlong h, if_pos hhigh, zpow_add₀ two_ne_zero]
    norm_num
  refine h.den_eq_one (k := k) ?_
  rw [abs_product_sub, hplace]
  linarith [abs_sub_le_of_contains hk]

/-- **Up to `2 ^ 66` a whole product is that of a number that is read as the fraction.** -/
theorem IsCanonical.contains_of_den_product (hb : b.IsCanonical) (hlong : 2 ^ 52 ≤ b.significand)
    (h : RoundsTo (b.magnitude * 10 ^ decimalPlaces) n t)
    (hlow : b.significand * 10000 < 2 ^ 66) (hk : (n : Rat) * 2 ^ t = k) :
    b.readInterval.contains ((k : Rat) / 10 ^ decimalPlaces) := by
  have hunit : (0 : Rat) < 2 ^ b.exponent := zpow_pos two_pos _
  have hplace : (2 : Rat) ^ t = 2 ^ b.exponent * 8192 := by
    rw [hb.exponent_product hlong h, if_neg hlow.not_ge, zpow_add₀ two_ne_zero]
    norm_num
  have hdistance := h.abs_sub_le
  by_cases hleast : b.significand = 2 ^ 52
  · -- the interval is shorter below a power of two, but the product of one is exact
    have hexact : b.magnitude * 10 ^ decimalPlaces = (2 ^ 39 * 10000 : Nat) * 2 ^ t := by
      rw [hplace, magnitude, hleast]
      push_cast
      norm_num [decimalPlaces]
      ring
    have hn : n = 2 ^ 39 * 10000 := by
      refine h.mantissa_eq ?_
      rw [hexact, sub_self, abs_zero, hplace]
      positivity
    have hself : (k : Rat) / 10 ^ decimalPlaces = b.magnitude := by
      rw [← hk, hn, ← hexact, mul_div_cancel_right₀ _ (by norm_num [decimalPlaces])]
    rw [hself]
    exact b.contains_magnitude
  · rw [hk, abs_product_sub, hplace] at hdistance
    have hnear : |(k : Rat) / 10 ^ decimalPlaces - b.magnitude| < 2 ^ b.exponent / 2 := by linarith
    exact (contains_iff_of_not_isPowerOfTwo fun h => hleast h.1).mpr
      ⟨hnear.le, fun heq => absurd heq hnear.ne⟩

/-- Only positive numbers are read as a fraction that is long enough. -/
theorem pos_of_contains (hlong : 2 ^ 52 ≤ b.significand) {y : Rat}
    (h : b.readInterval.contains y) : 0 < y := by
  have hunit : (0 : Rat) < 2 ^ b.exponent := zpow_pos two_pos _
  have hlong : (2 : Rat) ^ 52 ≤ b.significand := by exact_mod_cast hlong
  have hscaled : (2 : Rat) ^ 52 * 2 ^ b.exponent ≤ b.magnitude :=
    mul_le_mul_of_nonneg_right hlong hunit.le
  linarith [(abs_le.mp (abs_sub_le_of_contains h)).1]

/-- No product is just below a power of two: the only one that is long enough is `2 ^ 66`, and the
multiple of `10 ^ 4` below it is 6464 away. -/
theorem add_lt_two_pow {m j : Nat} (hlong : 2 ^ 52 ≤ m) (hlow : m * 10000 < 2 ^ 66)
    (hlt : m * 10000 < 2 ^ j) : m * 10000 + 5000 < 2 ^ j := by
  have hfrom : 65 < j := (Nat.pow_lt_pow_iff_right (by decide)).mp (show 2 ^ 65 < 2 ^ j by omega)
  have hbelow : m * 10000 + 5000 < 2 ^ 66 := by
    by_contra hnear
    omega
  exact hbelow.trans_le (Nat.pow_le_pow_right two_pos hfrom)

/-- No number below the least one with four places is so near to it that it is read as it. -/
theorem le_magnitude_of_contains (hlong : 2 ^ 52 ≤ b.significand)
    (hlow : b.significand * 10000 < 2 ^ 66) (hexponent : b.exponent < 0)
    (hk : b.readInterval.contains ((k : Rat) / 10 ^ decimalPlaces)) :
    (10 : Rat) ^ (-decimalPlaces : Int) ≤ b.magnitude := by
  have hpower : (10 : Rat) ^ decimalPlaces = 10000 := by norm_num [decimalPlaces]
  have hunit : (0 : Rat) < 2 ^ b.exponent := zpow_pos two_pos _
  have hpos := pos_of_contains hlong hk
  have hdistance := (abs_le.mp (abs_sub_le_of_contains hk)).2
  rw [hpower] at hpos hdistance
  have hone : (1 : Rat) ≤ k := by
    have hpos : (0 : Rat) < k := by linarith
    exact_mod_cast hpos
  rw [zpow_neg, zpow_natCast, hpower, ← one_div]
  by_contra hlt
  have hlt : b.magnitude * 10000 < 1 := by linarith [not_le.mp hlt]
  have hge : 1 ≤ b.magnitude * 10000 + 5000 * 2 ^ b.exponent := by linarith
  -- in multiples of the last bit, one is a power of two
  obtain ⟨j, hj⟩ : ∃ j : Nat, b.exponent = -j := ⟨(-b.exponent).toNat, by omega⟩
  have hproduct : b.magnitude * 10000 = (b.significand * 10000 : Nat) * 2 ^ b.exponent :=
    b.magnitude_mul 10000
  have hinverse : (2 : Rat) ^ j * 2 ^ b.exponent = 1 := by
    rw [hj, zpow_neg, zpow_natCast]
    exact mul_inv_cancel₀ (by positivity)
  rw [hproduct, ← hinverse] at hlt hge
  rw [← add_mul] at hge
  have hlt : ((b.significand * 10000 : Nat) : Rat) < 2 ^ j := lt_of_mul_lt_mul_right hlt hunit.le
  have hge : (2 : Rat) ^ j ≤ (b.significand * 10000 : Nat) + 5000 :=
    le_of_mul_le_mul_right hge hunit
  have hlt : b.significand * 10000 < 2 ^ j := by exact_mod_cast hlt
  have hge : 2 ^ j ≤ b.significand * 10000 + 5000 := by exact_mod_cast hge
  exact (add_lt_two_pow hlong hlow hlt).not_ge hge

/-- **Up to `2 ^ 66` only numbers with few places have a whole product.** -/
theorem IsCanonical.places_of_den_product (hb : b.IsCanonical) (hlong : 2 ^ 52 ≤ b.significand)
    (hexponent : b.exponent < 0) (h : RoundsTo (b.magnitude * 10 ^ decimalPlaces) n t)
    (hlow : b.significand * 10000 < 2 ^ 66) (hwhole : ((n : Rat) * 2 ^ t).den = 1) :
    -decimalPlaces ≤ b.shortest.exponent := by
  obtain ⟨k, hk⟩ : ∃ k : Nat, (n : Rat) * 2 ^ t = k := by
    have hnonneg : 0 ≤ ((n : Rat) * 2 ^ t).num :=
      Rat.num_nonneg.mpr (mul_nonneg (Nat.cast_nonneg n) (zpow_pos two_pos t).le)
    obtain ⟨k, hk⟩ := Int.eq_ofNat_of_zero_le hnonneg
    have hnum := (Rat.den_eq_one_iff _).mp hwhole
    exact ⟨k, by rw [← hnum, hk, Int.cast_natCast]⟩
  have hcontains := hb.contains_of_den_product hlong h hlow hk
  exact (hb.exponent_shortest_iff
    (le_magnitude_of_contains hlong hlow hexponent hcontains)).mpr ⟨k, hcontains⟩

/-- The product with `10 ^ 4` is whole after rounding. -/
def HasWholeProduct (b : BinaryFraction) : Prop :=
  ∃ n t, RoundsTo (b.magnitude * 10 ^ decimalPlaces) n t ∧ ((n : Rat) * 2 ^ t).den = 1

end BinaryFraction

/-! ### Texts -/

namespace Scalar
open BinaryFraction Decimal
variable {x : Float} {b : BinaryFraction}

theorem value_of_ofFloat? (hb : ofFloat? x = some b) : value x = .finite b.toRat := by
  change Extended.ofFloat x = _
  rw [Extended.ofFloat, hb]

theorem write_of_ofFloat? (hb : ofFloat? x = some b) (style : Style) :
    write style x = b.shortest.write style := by
  obtain ⟨b', hb', -, hwrite⟩ := exists_fraction (value_of_ofFloat? hb)
  obtain rfl : b = b' := Option.some.inj (hb.symm.trans hb')
  exact hwrite style

/-- Numbers that are nearly whole are written as whole numbers. -/
theorem text_of_isNearlyWhole (hb : ofFloat? x = some b) (hnear : isNearlyWhole b.toRat)
    (hle : |b.toRat| ≤ 2 ^ 53) : text x = toString (nearest b.toRat) := by
  have hvalue := value_of_ofFloat? hb
  by_cases hden : b.toRat.den = 1
  · have hint : (b.toRat.num : Rat) = b.toRat := (Rat.den_eq_one_iff _).mp hden
    have hwhole : IsWhole x b.toRat.num := by
      refine ⟨by rw [hint, hvalue], ?_⟩
      rw [← hint, ← Int.cast_abs] at hle
      have hle : |b.toRat.num| ≤ 2 ^ 53 := by exact_mod_cast hle
      rw [Int.abs_eq_natAbs] at hle
      omega
    have hnearest : nearest b.toRat = b.toRat.num := by
      rw [← hint, nearest_intCast, Rat.num_intCast]
    rw [text_of_isWhole hwhole, hnearest, ← String.toList_inj, String.toList_ofList,
      toList_toString, wholeText, Grammar.minusText]
    simp
  · rw [text_of_finite hvalue, if_pos (by simp [hnear, hden])]

/-- What is too large to have places is written with the digits of its shortest decimal. -/
theorem text_of_large (hb : ofFloat? x = some b) (hlarge : 2 ^ 53 < |b.toRat|) :
    text x = b.shortest.write plain := by
  have hexponent : 0 ≤ b.exponent := by
    by_contra hneg
    have hlt := (isCanonical_of_ofFloat? hb).magnitude_lt (not_le.mp hneg).le
    rw [abs_toRat] at hlarge
    exact hlt.not_gt hlarge
  have hden := den_of_exponent hexponent
  rw [text_of_finite (value_of_ofFloat? hb), if_neg (by simp [hden]), if_pos (by simp [hden]),
    write_of_ofFloat? hb]

/-- What is not nearly whole is written as it is if its product is whole after rounding. -/
theorem hasFewPlaces_iff (hb : ofFloat? x = some b) (hexponent : b.exponent < 0) :
    hasFewPlaces x ↔ b.HasWholeProduct := by
  obtain ⟨n, t, hround, hfew⟩ := exists_hasFewPlaces (value_of_ofFloat? hb)
  rw [abs_toRat] at hround
  have hfinite : (n : Rat) * 2 ^ t < 2 ^ 1024 := by
    have hlt := (isCanonical_of_ofFloat? hb).magnitude_lt hexponent.le
    have hproduct : b.magnitude * 10 ^ decimalPlaces ≤ 2 ^ (67 : Int) := by
      norm_num [decimalPlaces]
      linarith
    refine (hround.le_two_zpow (by decide) hproduct).trans_lt ?_
    rw [← zpow_natCast]
    exact zpow_lt_zpow_right₀ one_lt_two (by decide)
  rw [hfew, and_iff_right hfinite]
  refine ⟨fun hwhole => ⟨n, t, hround, hwhole⟩, ?_⟩
  rintro ⟨n', t', hround', hwhole⟩
  obtain ⟨rfl, rfl⟩ := hround.unique hround'
  exact hwhole

/-- **How a double is written.**  Numbers that are nearly whole are written as whole numbers up to
`2 ^ 53`, and all that are larger with the digits of the shortest decimal.  The others are written
with their shortest decimal if the rounded product with `10 ^ 4` is whole, and with four significant
digits if it is not.  From `2 ^ 66` on, a shortest decimal with at most four places is enough for a
whole product, and up to there it is necessary. -/
theorem text_of_rounded_product (hb : ofFloat? x = some b) :
    (isNearlyWhole b.toRat → |b.toRat| ≤ 2 ^ 53 → text x = toString (nearest b.toRat)) ∧
    (2 ^ 53 < |b.toRat| → text x = b.shortest.write plain) ∧
    (¬isNearlyWhole b.toRat → b.shortest.IsShortest |b.toRat| ∧
      (b.HasWholeProduct → text x = b.shortest.write plain) ∧
      (¬b.HasWholeProduct → text x = toPrecision b.toRat 4) ∧
      (2 ^ 66 ≤ b.significand * 10 ^ 4 → -4 ≤ b.shortest.exponent → b.HasWholeProduct) ∧
      (b.significand * 10 ^ 4 < 2 ^ 66 → b.HasWholeProduct → -4 ≤ b.shortest.exponent)) := by
  refine ⟨text_of_isNearlyWhole hb, text_of_large hb, fun hnear => ?_⟩
  have hcanonical := isCanonical_of_ofFloat? hb
  obtain ⟨hlong, hexponent⟩ := hcanonical.bounds_of_not_isNearlyWhole hnear
  have hden : b.toRat.den ≠ 1 := fun h => hnear (isNearlyWhole_of_den h)
  have hne : b.toRat ≠ 0 := fun h => hden (by rw [h]; rfl)
  have htext : text x = if hasFewPlaces x then write plain x else toPrecision b.toRat 4 := by
    rw [text_of_finite (value_of_ofFloat? hb), if_neg (by simp [hnear])]
    simp only [hden, decide_false, Bool.false_or, significantDigits]
  rw [write_of_ofFloat? hb] at htext
  have hproduct := hasFewPlaces_iff hb hexponent
  obtain ⟨n, t, hround, -⟩ := exists_hasFewPlaces (value_of_ofFloat? hb)
  rw [abs_toRat] at hround
  refine ⟨isShortest_shortest hb hne, fun hwhole => ?_, fun hnot => ?_, fun hhigh hplaces => ?_, ?_⟩
  · rw [htext, if_pos (hproduct.mpr hwhole)]
  · rw [htext, if_neg (mt hproduct.mp hnot)]
  · exact ⟨n, t, hround, hcanonical.den_product_of_places hlong hround hhigh hplaces⟩
  · rintro hlow ⟨n, t, hround, hwhole⟩
    exact hcanonical.places_of_den_product hlong hexponent hround hlow hwhole

theorem text_of_seven_eighths : text 0.875 = "0.875" := by
  have hb : ofFloat? 0.875 = some ⟨false, 7 * 2 ^ 50, -53⟩ := by decide +kernel
  obtain ⟨-, hwhole, -, hplaces, -⟩ := (text_of_rounded_product hb).2.2 (by decide +kernel)
  rw [hwhole (hplaces (by decide) (by decide +kernel))]
  decide +kernel

/-- Four places are not enough for a number to be written as it is, and one that is written as it is
may have more of them: the shortest decimal of the first number is `3e-4`, and that of the second
one has nineteen places. -/
theorem not_text_of_few_places :
    (∃ b, ofFloat? 0.0003 = some b ∧ ¬isNearlyWhole b.toRat ∧ b.shortest = ⟨false, 3, -4⟩ ∧
      text 0.0003 = "0.0003000") ∧
    ∃ b, ofFloat? 0.0009000000000000001 = some b ∧ ¬isNearlyWhole b.toRat ∧
      b.shortest = ⟨false, 9000000000000001, -19⟩ ∧
      text 0.0009000000000000001 = "0.0009000000000000001" := by
  refine ⟨⟨⟨false, 5534023222112865, -64⟩, ?_⟩, ⟨⟨false, 8301034833169299, -63⟩, ?_⟩⟩ <;>
    decide +kernel

end Scalar
end LinearEquations
