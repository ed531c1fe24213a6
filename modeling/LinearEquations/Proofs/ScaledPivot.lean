import LinearEquations.Proofs.DoubleArithmetic

/-! # Pivots times their reciprocals

Elimination multiplies the row of a pivot by the reciprocal of the pivot, for the pivot to become a
one.  Over doubles it becomes something else in general.  If the squared modulus of the pivot is
finite, it becomes a number that is not zero: the two products that are added up for its real part
are squares over the squared modulus, up to rounding, and one of them is at least `1 / 16`
(`Double.exists_term`).  If the squared modulus is an infinity, the reciprocal is zero, and so is
everything finite in the row that is multiplied by it.

So a pivot stays different from zero exactly if its squared modulus is finite
(`LabelledMatrix.isZero_scaled_pivot_iff`). -/

namespace LinearEquations

variable {p k x : Complex Float} {a b d : Rat}

/-! ### Zeros and infinities -/

namespace Complex

theorem isZero_iff_values : k.isZero ↔
    Extended.ofFloat k.re = .finite 0 ∧ Extended.ofFloat k.im = .finite 0 := by
  rw [isZero, Bool.and_eq_true]
  exact and_congr decide_eq_true_iff decide_eq_true_iff

theorem exists_values (h : x.isFinite) : ∃ a b, Extended.ofFloat x.re = .finite a ∧
    Extended.ofFloat x.im = .finite b := by
  obtain ⟨hre, him⟩ := isFinite_iff.mp h
  obtain ⟨a, ha⟩ := Scalar.exists_value hre
  obtain ⟨b, hb⟩ := Scalar.exists_value him
  exact ⟨a, b, ha, hb⟩

theorem isFinite_of_values (hre : Extended.ofFloat x.re = .finite a)
    (him : Extended.ofFloat x.im = .finite b) : x.isFinite := by
  refine isFinite_iff.mpr ⟨?_, ?_⟩
  · change (Extended.ofFloat x.re).isFinite = true
    rw [hre]
    rfl
  · change (Extended.ofFloat x.im).isFinite = true
    rw [him]
    rfl

theorem isFinite_of_isZero (h : k.isZero) : k.isFinite :=
  isFinite_of_values (isZero_iff_values.mp h).1 (isZero_iff_values.mp h).2

/-- A finite number times zero. -/
theorem isZero_mul_zero (hx : x.isFinite) (hk : k.isZero) : (x * k).isZero := by
  obtain ⟨a, b, ha, hb⟩ := exists_values hx
  obtain ⟨hre, him⟩ := isZero_iff_values.mp hk
  exact isZero_iff_values.mpr
    ⟨ofFloat_sub_zero (ofFloat_mul_zero ha hre) (ofFloat_mul_zero hb him),
      ofFloat_add_zero (ofFloat_mul_zero ha him) (ofFloat_mul_zero hb hre)⟩

/-- Zero times a finite number. -/
theorem isZero_zero_mul (hx : x.isZero) (hk : k.isFinite) : (x * k).isZero := by
  obtain ⟨hre, him⟩ := isZero_iff_values.mp hx
  obtain ⟨a, b, ha, hb⟩ := exists_values hk
  exact isZero_iff_values.mpr
    ⟨ofFloat_sub_zero (ofFloat_zero_mul hre ha) (ofFloat_zero_mul him hb),
      ofFloat_add_zero (ofFloat_zero_mul hre hb) (ofFloat_zero_mul him ha)⟩

theorem isFinite_of_isFinite_neg (h : (-x).isFinite) : x.isFinite := by
  obtain ⟨hre, him⟩ := isFinite_iff.mp h
  exact isFinite_iff.mpr ⟨LinearEquations.isFinite_of_isFinite_neg hre,
    LinearEquations.isFinite_of_isFinite_neg him⟩

theorem isFinite_of_isFinite_add {y : Complex Float} (h : (x + y).isFinite) :
    x.isFinite ∧ y.isFinite := by
  obtain ⟨hre, him⟩ := isFinite_iff.mp h
  obtain ⟨hxre, hyre⟩ := LinearEquations.isFinite_of_isFinite_add hre
  obtain ⟨hxim, hyim⟩ := LinearEquations.isFinite_of_isFinite_add him
  exact ⟨isFinite_iff.mpr ⟨hxre, hxim⟩, isFinite_iff.mpr ⟨hyre, hyim⟩⟩

/-- **What is not finite stays so, whatever it is multiplied by.**  The real part alone takes all
parts of both factors. -/
theorem isFinite_of_isFinite_mul (h : (x * k).isFinite) : x.isFinite ∧ k.isFinite := by
  obtain ⟨hfirst, hsecond⟩ := isFinite_of_isFinite_sub (isFinite_iff.mp h).1
  obtain ⟨hxre, hkre⟩ := LinearEquations.isFinite_of_isFinite_mul hfirst
  obtain ⟨hxim, hkim⟩ := LinearEquations.isFinite_of_isFinite_mul hsecond
  exact ⟨isFinite_iff.mpr ⟨hxre, hxim⟩, isFinite_iff.mpr ⟨hkre, hkim⟩⟩

end Complex

/-! ### The greater part -/

namespace Double
variable {y z n : Float} {v : Rat}

/-- What is rounded to a number is near to it, and has its sign. -/
theorem IsRounding.exists_of_isFinite {r : Extended} (h : IsRounding v r) (hr : r.isFinite) :
    ∃ q, r = .finite q ∧ IsNear |v| |q| ∧ 0 ≤ v * q := by
  obtain ⟨w, hw, rfl⟩ := h.exists_isNear
  by_cases hlt : w < 2 ^ 1024
  · rw [valueOfRounded, if_pos hlt]
    refine ⟨_, rfl, ?_⟩
    by_cases hv : v < 0
    · rw [decide_eq_true hv, if_pos rfl, abs_neg, abs_of_nonneg hw.nonneg]
      exact ⟨hw, mul_nonneg_of_nonpos_of_nonpos hv.le (neg_nonpos.mpr hw.nonneg)⟩
    · rw [decide_eq_false hv, if_neg Bool.false_ne_true, abs_of_nonneg hw.nonneg]
      exact ⟨hw, mul_nonneg (not_lt.mp hv) hw.nonneg⟩
  · rw [valueOfRounded, if_neg hlt] at hr
    cases hr

/-- A part of the reciprocal has the sign of its numerator. -/
theorem exists_quotient (hz : Extended.ofFloat z = .finite v)
    (hn : Extended.ofFloat n = valueOfRounded false d) (h : IsNormSq a b d) (hne : d ≠ 0)
    (hfinite : d < 2 ^ 1024) (hv : |v| ≤ max |a| |b|) :
    ∃ q, Extended.ofFloat (z / n) = .finite q ∧ v * q = |v| * |q| ∧ IsNear |v / d| |q| := by
  have hd : 0 < d := lt_of_le_of_ne h.nonneg hne.symm
  have hnumber := isFinite_quotient hz hn h hne hv
  rw [valueOfRounded, if_pos hfinite, if_neg Bool.false_ne_true] at hn
  obtain ⟨q, hq, hnear, hsign⟩ := (isRounding_div hz hn hne).exists_of_isFinite hnumber
  refine ⟨q, hq, ?_, hnear⟩
  have hnonneg : 0 ≤ v * q := by
    have hscaled := mul_nonneg hsign hd.le
    have hcancel : v / d * q * d = v * q := by field_simp
    rwa [hcancel] at hscaled
  rw [← abs_mul, abs_of_nonneg hnonneg]

/-- **A part of the pivot times the part of the reciprocal that it is the numerator of.**  The
product is not negative, and the one of the greater part is not zero. -/
theorem exists_term (hy : Extended.ofFloat y = .finite v) (hz : Extended.ofFloat z = .finite v)
    (hn : Extended.ofFloat n = valueOfRounded false d) (h : IsNormSq a b d) (hne : d ≠ 0)
    (hfinite : d < 2 ^ 1024) (hv : |v| ≤ max |a| |b|) :
    ∃ t, Extended.ofFloat (y * (z / n)) = .finite t ∧ 0 ≤ t ∧
      (|v| = max |a| |b| → 2 ^ (-1074 : Int) ≤ t) := by
  obtain ⟨q, hq, hproduct, hnear⟩ := exists_quotient hz hn h hne hfinite hv
  have hd : 0 < d := lt_of_le_of_ne h.nonneg hne.symm
  have hround := isRounding_mul hy hq
  rw [hproduct] at hround
  obtain ⟨t, ht, hvalue⟩ := hround.exists_isNear_of_nonneg
    (mul_nonneg (abs_nonneg v) (abs_nonneg q))
  have hquotient : |v / d| = |v| / d := by rw [abs_div, abs_of_pos hd]
  rw [hquotient] at hnear
  have hfour := h.le_four_mul hne
  have height := h.le_eight_mul
  -- the product is a square over the squared modulus, up to a factor of two
  have hle : |v| * |q| ≤ 2 ^ (3 : Int) := by
    have hsquare : |v| * |v| ≤ 4 * d := (mul_self_le_mul_self (abs_nonneg v) hv).trans
      (by rw [← sq]; exact hfour)
    calc |v| * |q| ≤ |v| * (2 * (|v| / d)) :=
          mul_le_mul_of_nonneg_left hnear.le_two_mul (abs_nonneg v)
      _ = 2 * (|v| * |v|) / d := by ring
      _ ≤ 2 * (4 * d) / d := by gcongr
      _ = 2 ^ (3 : Int) := by
        rw [mul_div_assoc, mul_div_assoc, div_self hne]
        norm_num
  have hlt : t < 2 ^ 1024 := by
    refine (ht.le_two_zpow (by decide) hle).trans_lt ?_
    rw [← zpow_natCast]
    exact zpow_lt_zpow_right₀ one_lt_two (by decide)
  rw [valueOfRounded, if_pos hlt, if_neg Bool.false_ne_true] at hvalue
  refine ⟨t, hvalue, ht.nonneg, fun hmax => ht.least_le fun hzero => ?_⟩
  have hq0 : |q| ≠ 0 := by
    rw [ne_eq, hnear.eq_zero_iff, not_le, ← hquotient]
    exact h.lt_abs_div hne hfinite hmax
  have hlow : 1 / 16 ≤ |v| * |q| := by
    have hsquare : d ≤ 8 * (|v| * |v|) := by rw [← sq, hmax]; exact height
    calc (1 : Rat) / 16 = d / (16 * d) := by field_simp
      _ ≤ 8 * (|v| * |v|) / (16 * d) := by gcongr
      _ = |v| * (|v| / d) / 2 := by
        field_simp
        ring
      _ ≤ |v| * (2 * |q|) / 2 := by
        have hdouble := hnear.le_two_mul_self hq0
        gcongr
      _ = |v| * |q| := by ring
  have hleast : (2 : Rat) ^ (-1075 : Int) < 2 ^ (-4 : Int) :=
    zpow_lt_zpow_right₀ one_lt_two (by decide)
  have hsixteen : (2 : Rat) ^ (-4 : Int) = 1 / 16 := by norm_num
  have hsmall := (ht.eq_zero_iff.mp hzero).trans_lt hleast
  rw [hsixteen] at hsmall
  exact absurd hlow (not_le.mpr hsmall)

end Double

/-! ### Scaled pivots -/

open Double

/-- The reciprocal of a number that has a finite one. -/
structure IsReciprocal (p k : Complex Float) (a b d : Rat) : Prop where
  re : Extended.ofFloat p.re = .finite a
  im : Extended.ofFloat p.im = .finite b
  isNormSq : IsNormSq a b d
  normSq : Extended.ofFloat p.normSq = valueOfRounded false d
  ne_zero : d ≠ 0
  isFinite : k.isFinite
  eq : k = ⟨(1 * p.conjugate).re / p.normSq, (1 * p.conjugate).im / p.normSq⟩

theorem exists_isReciprocal (h : LabelledMatrix.finiteReciprocal p = .ok k) :
    ∃ a b d, IsReciprocal p k a b d := by
  obtain ⟨k', hk', h⟩ := bind_eq_ok.mp h
  have hcheck : k'.isFinite ∧ k' = k := by
    unfold Operand.check at h
    split at h
    · exact ⟨‹_›, Except.ok.inj h⟩
    · cases h
  obtain ⟨hfinite, rfl⟩ := hcheck
  have hp : p.isFinite := by
    by_contra hno
    have hrefused : (Operand.complex p).check = .error (.invalidOperand (.complex p)) :=
      if_neg hno
    rw [Complex.reciprocal, Complex.dividedBy, hrefused] at hk'
    cases hk'
  obtain ⟨a, b, ha, hb⟩ := Complex.exists_values hp
  obtain ⟨d, hd, hnorm⟩ := Complex.exists_normSq ha hb
  rw [Complex.reciprocal_eq hp] at hk'
  split at hk'
  · cases hk'
  · rename_i hzero
    exact ⟨a, b, d, ha, hb, hd, hnorm, mt (Complex.isZero_normSq_iff hnorm).mpr hzero, hfinite,
      (Except.ok.inj hk').symm⟩

theorem isFinite_normSq_iff (h : Extended.ofFloat p.normSq = valueOfRounded false d) :
    Scalar.isFinite p.normSq ↔ d < 2 ^ 1024 := by
  change (Extended.ofFloat p.normSq).isFinite = true ↔ _
  rw [h, valueOfRounded]
  by_cases hlt : d < 2 ^ 1024
  · rw [if_pos hlt]
    exact iff_of_true rfl hlt
  · rw [if_neg hlt]
    exact iff_of_false Bool.false_ne_true hlt

/-- **A pivot with a finite squared modulus is not scaled to zero.** -/
theorem IsReciprocal.not_isZero_mul (h : IsReciprocal p k a b d) (hfinite : d < 2 ^ 1024) :
    ¬ (p * k).isZero := by
  obtain ⟨hnumerator, hnumerator'⟩ := Complex.value_one_mul_conjugate h.re h.im
  have hminus : |(-b)| ≤ max |a| |b| := (abs_neg b).trans_le (le_max_right _ _)
  obtain ⟨t, ht, hnonneg, hlarge⟩ := exists_term h.re hnumerator h.normSq h.isNormSq h.ne_zero
    hfinite (le_max_left _ _)
  obtain ⟨t', ht', hnonneg', hlarge'⟩ := exists_term (ofFloat_neg h.im) hnumerator' h.normSq
    h.isNormSq h.ne_zero hfinite hminus
  obtain rfl := h.eq
  -- the second product is subtracted, and its opposite is the one that is not negative
  have hopposite : Extended.ofFloat (p.im * ((1 * p.conjugate).im / p.normSq)) =
      .finite (-t') := by
    have hneg := ofFloat_mul_of_neg (y := (1 * p.conjugate).im / p.normSq)
      (ofFloat_neg_eq p.im) rfl
    rw [ht'] at hneg
    have hback := congrArg Extended.neg hneg
    rw [Extended.neg_neg] at hback
    exact hback.symm
  have hsum : 2 ^ (-1074 : Int) ≤ t - -t' := by
    rcases le_total |a| |b| with hle | hle
    · linarith [hlarge' ((abs_neg b).trans (max_eq_right hle).symm)]
    · linarith [hlarge (max_eq_left hle).symm]
  have hpos : (0 : Rat) < 2 ^ (-1074 : Int) := zpow_pos two_pos _
  obtain ⟨w, hw, hvalue⟩ :=
    (isRounding_sub ht hopposite).exists_isNear_of_nonneg (hpos.le.trans hsum)
  intro hzero
  have hre := (Complex.isZero_iff_values.mp hzero).1
  have hw0 := (valueOfRounded_eq_zero_iff false).mp (hvalue.symm.trans hre)
  have hhalf : (2 : Rat) ^ (-1075 : Int) < 2 ^ (-1074 : Int) :=
    zpow_lt_zpow_right₀ one_lt_two (by decide)
  linarith [hw.eq_zero_iff.mp hw0]

/-- If the squared modulus is an infinity, the reciprocal is zero. -/
theorem IsReciprocal.isZero (h : IsReciprocal p k a b d) (hlarge : ¬ d < 2 ^ 1024) :
    k.isZero := by
  obtain ⟨hnumerator, hnumerator'⟩ := Complex.value_one_mul_conjugate h.re h.im
  have hinfinite := h.normSq
  rw [valueOfRounded, if_neg hlarge] at hinfinite
  rw [h.eq]
  exact Complex.isZero_iff_values.mpr
    ⟨ofFloat_div_infinite hnumerator hinfinite, ofFloat_div_infinite hnumerator' hinfinite⟩

namespace LabelledMatrix

theorem isFinite_of_finiteReciprocal (h : finiteReciprocal p = .ok k) : k.isFinite := by
  obtain ⟨a, b, d, hk⟩ := exists_isReciprocal h
  exact hk.isFinite

/-- **A pivot is scaled to zero if its squared modulus is an infinity**, and only then. -/
theorem isZero_scaled_pivot_iff (h : finiteReciprocal p = .ok k) :
    (p * k).isZero ↔ ¬ Scalar.isFinite p.normSq := by
  obtain ⟨a, b, d, hk⟩ := exists_isReciprocal h
  rw [isFinite_normSq_iff hk.normSq]
  constructor
  · exact fun hzero hfinite => hk.not_isZero_mul hfinite hzero
  · exact fun hlarge => Complex.isZero_mul_zero (Complex.isFinite_of_values hk.re hk.im)
      (hk.isZero hlarge)

/-- Then the reciprocal is zero. -/
theorem isZero_of_finiteReciprocal (h : finiteReciprocal p = .ok k)
    (hinfinite : ¬ Scalar.isFinite p.normSq) : k.isZero := by
  obtain ⟨a, b, d, hk⟩ := exists_isReciprocal h
  exact hk.isZero (mt (isFinite_normSq_iff hk.normSq).mpr hinfinite)

end LabelledMatrix
end LinearEquations
