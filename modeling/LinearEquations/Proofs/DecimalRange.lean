import LinearEquations.Proofs.DoubleRounding

/-! # Which decimals are read as doubles

Decimals are read by rounding them to the nearest double (`isRounding_ofScientific`): a short one is
a quotient of two doubles that are exact, and any other one a quotient of whole numbers that is
rounded once.  A decimal is read as a finite double if it lies below `Double.limit`, halfway between
the greatest double and the power of two after it (`isFinite_ofScientific`). -/

namespace LinearEquations
open Float.Model Float.Model.UnpackedFloat Double

/-! ### How decimals are read -/

namespace Double
variable {digits places : Nat}

/-- A decimal with more places than any double is nearly zero. -/
theorem div_le_of_places (hsmall : 2048 + digits.log2 < places) :
    (digits : Rat) / 10 ^ places ≤ 2 ^ (-1075 : Int) := by
  have hdigits : (digits : Rat) ≤ 2 ^ (digits.log2 + 1) := by
    exact_mod_cast Nat.lt_log2_self.le
  have hplaces : (2 : Rat) ^ (digits.log2 + 1) * 2 ^ 1075 ≤ 10 ^ places := by
    rw [← pow_add]
    calc (2 : Rat) ^ (digits.log2 + 1 + 1075) ≤ 2 ^ places :=
          pow_le_pow_right₀ one_le_two (by omega)
      _ ≤ 10 ^ places := pow_le_pow_left₀ two_pos.le (by norm_num) _
  have hunit : (0 : Rat) < 2 ^ 1075 := pow_pos two_pos 1075
  have htens : (0 : Rat) < 10 ^ places := pow_pos (by norm_num) places
  rw [zpow_neg, zpow_ofNat, div_le_iff₀ htens, inv_mul_eq_div, le_div_iff₀ hunit]
  exact (mul_le_mul_of_nonneg_right hdigits hunit.le).trans hplaces

/-- **A long decimal is a quotient of whole numbers that is rounded.** -/
theorem isRounding_packed_ofScientific (digits places : Nat) :
    IsRounding (digits / 10 ^ places)
      (packedValue (UnpackedFloat.ofScientific Format.binary64 digits (Int.negOfNat places))) := by
  have hbits : (2 : Int) ^ Format.binary64.exponentBits = 2048 := rfl
  rw [Int.negOfNat_eq]
  unfold UnpackedFloat.ofScientific
  by_cases hzero : digits = 0
  · rw [dif_pos hzero, hzero, Nat.cast_zero, zero_div]
    exact isRounding_packed_zero _
  have hpos : 0 < digits := Nat.pos_of_ne_zero hzero
  rw [dif_neg hzero, if_neg (by simp only [hbits, Int.ofNat_eq_natCast]; omega)]
  by_cases hsmall : -Int.ofNat places < -(2 ^ Format.binary64.exponentBits + digits.log2)
  · rw [if_pos hsmall]
    rw [hbits, Int.ofNat_eq_natCast] at hsmall
    rw [packedValue_zero]
    exact isRounding_of_le (by positivity) (div_le_of_places (by omega))
  rw [if_neg hsmall]
  by_cases hwhole : 0 ≤ -Int.ofNat places
  · obtain rfl : places = 0 := by
      simp only [Int.ofNat_eq_natCast] at hwhole
      omega
    -- a product with one, for which the digits are made long enough
    have hshift : digits <<< 53 = digits * 2 ^ 53 := Nat.shiftLeft_eq ..
    have hlong : 2 ^ 52 ≤ digits <<< 53 * 1 ∨ (-53 : Int) + 0 ≤ -1074 := .inl (by omega)
    have hround := isRounding_packed_mul .positive .positive
      (show 0 < digits <<< 53 by omega) Nat.one_pos hlong
    have hvalue : ((digits <<< 53 * 1 : Nat) : Rat) * 2 ^ (-53 + 0 : Int) = digits / 10 ^ 0 := by
      rw [hshift]
      push_cast
      field_simp
      norm_num
    rw [hvalue, show (Sign.positive * Sign.positive).apply 1 = 1 from rfl, Int.cast_one,
      one_mul] at hround
    rw [if_pos hwhole]
    exact hround
  · have hpower : ((10 ^ (- -Int.ofNat places).toNat : Nat) : Rat) = 10 ^ places := by simp
    have hround := isRounding_packed_div .positive .positive hpos
      (show 0 < 10 ^ (- -Int.ofNat places).toNat from Nat.pow_pos (by decide)) 0 0
    rw [show (Sign.positive / Sign.positive).apply 1 = 1 from rfl, Int.cast_one, one_mul, sub_zero,
      zpow_zero, mul_one, hpower] at hround
    rw [if_neg hwhole]
    exact hround

end Double

/-- Whole numbers with at most 53 binary digits are doubles. -/
theorem ofFloat_toFloat {n : Nat} (hlt : n < 2 ^ 53) :
    Extended.ofFloat n.toUInt64.toFloat = .finite n := by
  rcases Nat.eq_zero_or_pos n with rfl | hpos
  · decide +kernel
  obtain ⟨m, e, hm, -, -, -, -, hvalue, hround⟩ := round_natural .positive hpos hlt
  rw [ofFloat_eq, unpack_toFloat hpos hlt, hround]
  exact congrArg Extended.finite hvalue

/-- The powers of ten up to `10 ^ 22` are doubles. -/
theorem ofFloat_power {places : Nat} (h : places < 23) :
    Extended.ofFloat Float.exactlyRepresentablePowersOfTen[places] = .finite (10 ^ places) := by
  have hall : ∀ places : Fin 23,
      Extended.ofFloat Float.exactlyRepresentablePowersOfTen[places] =
        .finite (10 ^ (places : Nat)) := by decide +kernel
  exact hall ⟨places, h⟩

/-- **Decimals are read by rounding them to the nearest double.** -/
theorem isRounding_ofScientific (digits places : Nat) : IsRounding (digits / 10 ^ places)
    (Extended.ofFloat (Float.ofScientific digits true places)) := by
  by_cases hshort : digits < 2 ^ 53 ∧ places ≤ 22
  · rw [Float.ofScientific, dif_pos hshort]
    exact isRounding_div (ofFloat_toFloat hshort.1) (ofFloat_power (Nat.lt_succ_of_le hshort.2))
      (by positivity)
  · rw [ofFloat_eq, Float.ofScientific, dif_neg hshort]
    exact isRounding_packed_ofScientific digits places

/-! ### Which decimals are finite -/

namespace Double

/-- The least number that is too large to be read as a double. -/
def limit : Rat := 2 ^ 1024 - 2 ^ 970

theorem two_pow_lt_limit {k : Nat} (hk : k ≤ 970) : (2 : Rat) ^ k < limit := by
  rw [limit, lt_sub_iff_add_lt]
  have hle : (2 : Rat) ^ k ≤ 2 ^ 970 := pow_le_pow_right₀ one_le_two hk
  have hlt : (2 : Rat) ^ (970 + 1) < 2 ^ 1024 := pow_lt_pow_right₀ one_lt_two (by decide)
  rw [pow_succ, mul_two] at hlt
  exact (add_le_add_left hle _).trans_lt hlt

/-- **Numbers below the limit are not rounded to an infinity.** -/
theorem RoundsTo.lt_two_pow {v : Rat} {n : Nat} {t : Int} (h : RoundsTo v n t) (hv : v < limit) :
    (n : Rat) * 2 ^ t < 2 ^ 1024 := by
  have hlimit : v + 2 ^ 970 < 2 ^ 1024 := lt_sub_iff_add_lt.mp hv
  have ht : t ≤ 971 := by
    rcases h.long_or_least with hlong | hleast
    · have hlow : (2 : Rat) ^ (52 + t) < 2 ^ (1024 : Int) := by
        rw [zpow_add₀ two_ne_zero]
        have hbelow : v < 2 ^ 1024 := hv.trans_le (sub_le_self _ (pow_pos two_pos 970).le)
        exact hlong.trans_lt hbelow
      have := (zpow_lt_zpow_iff_right₀ one_lt_two).mp hlow
      omega
    · omega
  have hhalf : (2 : Rat) ^ t / 2 ≤ 2 ^ 970 := by
    rw [half_zpow rfl, ← zpow_natCast (2 : Rat)]
    exact zpow_le_zpow_right₀ one_le_two (Int.sub_le_sub_right ht 1)
  exact (h.le_add.trans (add_le_add_right hhalf v)).trans_lt hlimit

end Double

/-- **Decimals below the limit are read as finite doubles.** -/
theorem isFinite_ofScientific {digits places : Nat}
    (h : (digits : Rat) / 10 ^ places < Double.limit) :
    (Extended.ofFloat (Float.ofScientific digits true places)).isFinite := by
  obtain ⟨n, t, hround, hvalue⟩ := isRounding_ofScientific digits places
  rw [abs_of_nonneg (by positivity)] at hround
  rw [hvalue]
  exact isFinite_valueOfRounded _ (hround.lt_two_pow h)

theorem exists_ofDecimal?_eq_some {digits places : Nat}
    (h : (digits : Rat) / 10 ^ places < Double.limit) :
    ∃ x : Float, Scalar.ofDecimal? digits places = some x := by
  refine ⟨_, if_pos ?_⟩
  rw [isFinite_iff]
  exact isFinite_ofScientific h

end LinearEquations
