import LinearEquations.Proofs.DoubleRounding

/-! # Reciprocals of doubles

A complex number is inverted by means of its squared modulus, and with doubles that has half the
range of exponents of the number itself.  It is zero for all numbers whose parts have squares of at
most `2 ^ -1075`, which are rounded to zero, and these numbers have no reciprocal.  All others have
one, and it is finite; it is not zero either, as long as the squared modulus is finite
(`Complex.reciprocal_of_finite_parts`).

Every operation rounds, so that the squared modulus is known up to a factor only.  With `M` for the
greater part it lies between `M ^ 2 / 4` and `8 * M ^ 2` (`Double.IsNear`, `exists_normSq`), which
is enough: quotients by it are between `1 / (8 * M)` and `4 / M`. -/

namespace LinearEquations
open Float.Model Float.Model.UnpackedFloat

namespace Double
variable {v w : Rat} {r : Extended}

/-- What is known of the number `w` that a number `v` is rounded to, if both are not negative. -/
structure IsNear (v w : Rat) : Prop where
  nonneg : 0 ≤ w
  least_le : w ≠ 0 → 2 ^ (-1074 : Int) ≤ w
  eq_zero_iff : w = 0 ↔ v ≤ 2 ^ (-1075 : Int)
  le_two_mul : w ≤ 2 * v
  le_two_mul_self : w ≠ 0 → v ≤ 2 * w
  le_two_zpow : ∀ {k : Int}, -1074 ≤ k → v ≤ 2 ^ k → w ≤ 2 ^ k

theorem RoundsTo.isNear {n : Nat} {t : Int} (h : RoundsTo v n t) (hv : 0 ≤ v) :
    IsNear v (n * 2 ^ t) := by
  have hunit : (0 : Rat) < 2 ^ t := zpow_pos two_pos t
  have hzero : (n : Rat) * 2 ^ t = 0 ↔ n = 0 := by
    rw [mul_eq_zero, Nat.cast_eq_zero, or_iff_left hunit.ne']
  refine ⟨mul_nonneg (Nat.cast_nonneg n) hunit.le, fun hne => ?_, hzero.trans h.eq_zero_iff,
    h.le_two_mul hv, fun hne => h.le_two_mul_rounded (mt hzero.mpr hne), h.le_two_zpow⟩
  have hone : (1 : Rat) ≤ n := by exact_mod_cast Nat.pos_of_ne_zero (mt hzero.mpr hne)
  exact (zpow_le_zpow_right₀ one_le_two h.le_exponent).trans (le_mul_of_one_le_left hunit.le hone)

theorem IsRounding.exists_isNear (h : IsRounding v r) :
    ∃ w, IsNear |v| w ∧ r = valueOfRounded (v < 0) w := by
  obtain ⟨n, t, hround, hr⟩ := h
  exact ⟨_, hround.isNear (abs_nonneg v), hr⟩

theorem IsRounding.exists_isNear_of_nonneg (h : IsRounding v r) (hv : 0 ≤ v) :
    ∃ w, IsNear v w ∧ r = valueOfRounded false w := by
  obtain ⟨w, hw, hr⟩ := h.exists_isNear
  rw [abs_of_nonneg hv] at hw
  rw [decide_eq_false (not_lt.mpr hv)] at hr
  exact ⟨w, hw, hr⟩

theorem valueOfRounded_eq_zero_iff (negative : Bool) :
    valueOfRounded negative w = .finite 0 ↔ w = 0 := by
  unfold valueOfRounded
  split
  · cases negative <;> simp
  · rename_i hlarge
    refine iff_of_false nofun ?_
    rintro rfl
    exact hlarge (by positivity)

end Double

open Double
variable {x y : Float} {p q : Rat}

/-! ### Infinities -/

theorem unpack_of_infinite (h : Extended.ofFloat x = .infinite false) :
    x.toModel.unpack = .infinity .positive := by
  rw [ofFloat_eq] at h
  cases hx : x.toModel.unpack with
  | infinity s =>
    rw [hx] at h
    cases s with
    | positive => rfl
    | negative => cases h
  | zero s =>
    rw [hx] at h
    cases h
  | finite s m e hm =>
    rw [hx] at h
    cases h
  | notANumber =>
    rw [hx] at h
    cases h

theorem packedValue_infinity (s : Sign) :
    packedValue (.infinity s) = .infinite (BinaryFraction.isMinus s) :=
  packedValue_of_fits (f := .infinity s) trivial

/-- A sum with an infinity is that infinity, unless the other one is the opposite infinity. -/
theorem ofFloat_infinite_add (hx : Extended.ofFloat x = .infinite false)
    (hy : Extended.ofFloat y = .infinite false ∨ ∃ q, Extended.ofFloat y = .finite q) :
    Extended.ofFloat (x + y) = .infinite false := by
  rw [ofFloat_add_eq, unpack_of_infinite hx]
  rcases hy with hy | ⟨q, hy⟩
  · rw [unpack_of_infinite hy]
    exact packedValue_infinity .positive
  · rcases unpack_cases hy with ⟨-, s, hs⟩ | ⟨s, m, e, hm, hs, -⟩ <;> rw [hs] <;>
      exact packedValue_infinity .positive

theorem ofFloat_add_infinite (hx : Extended.ofFloat x = .finite p)
    (hy : Extended.ofFloat y = .infinite false) :
    Extended.ofFloat (x + y) = .infinite false := by
  rw [ofFloat_add_eq, unpack_of_infinite hy]
  rcases unpack_cases hx with ⟨-, s, hs⟩ | ⟨s, m, e, hm, hs, -⟩ <;> rw [hs] <;>
    exact packedValue_infinity .positive

/-- A number divided by an infinity is zero. -/
theorem ofFloat_div_infinite (hx : Extended.ofFloat x = .finite p)
    (hy : Extended.ofFloat y = .infinite false) : Extended.ofFloat (x / y) = .finite 0 := by
  have hquotient : ∃ s, UnpackedFloat.div Format.binary64 x.toModel.unpack
      (.infinity .positive) = .zero s := by
    rcases unpack_cases hx with ⟨-, s, hs⟩ | ⟨s, m, e, hm, hs, -⟩
    · exact ⟨s / .positive, by rw [hs]; rfl⟩
    · exact ⟨s / .positive, by rw [hs]; rfl⟩
  obtain ⟨s, hs⟩ := hquotient
  rw [ofFloat_div_eq, unpack_of_infinite hy, hs, packedValue_zero]

/-! ### The squared modulus -/

theorem exists_square (hx : Extended.ofFloat x = .finite p) :
    ∃ w, IsNear (p ^ 2) w ∧ Extended.ofFloat (x * x) = valueOfRounded false w := by
  have hround := isRounding_mul hx hx
  rw [← sq] at hround
  exact hround.exists_isNear_of_nonneg (sq_nonneg p)

/-- The square of the greater one of two numbers. -/
theorem sq_max_abs (p q : Rat) : max |p| |q| ^ 2 = max (p ^ 2) (q ^ 2) := by
  rcases le_total |p| |q| with h | h
  · rw [max_eq_right h, sq_abs, max_eq_right (sq_le_sq.mpr h)]
  · rw [max_eq_left h, sq_abs, max_eq_left (sq_le_sq.mpr h)]

/-- A number `d` stands for the sum of the squares of two numbers, up to rounding. -/
structure IsNormSq (p q d : Rat) : Prop where
  nonneg : 0 ≤ d
  eq_zero_iff : d = 0 ↔ p ^ 2 ≤ 2 ^ (-1075 : Int) ∧ q ^ 2 ≤ 2 ^ (-1075 : Int)
  le_four_mul : d ≠ 0 → max |p| |q| ^ 2 ≤ 4 * d
  le_eight_mul : d ≤ 8 * max |p| |q| ^ 2
  le_two_zpow : ∀ {k : Int}, -1074 ≤ k → max |p| |q| ^ 2 ≤ 2 ^ k → d ≤ 2 ^ (k + 1)

section Sum
variable {u w d : Rat} (hu : IsNear (p ^ 2) u) (hw : IsNear (q ^ 2) w)
include hu hw

theorem least_le_add (h : u + w ≠ 0) : 2 ^ (-1074 : Int) ≤ u + w := by
  by_cases hzero : u = 0
  · rw [hzero, zero_add] at h ⊢
    exact hw.least_le h
  · linarith [hu.least_le hzero, hw.nonneg]

/-- The sum of the rounded squares is zero if both are. -/
theorem add_eq_zero_iff_le :
    u + w = 0 ↔ p ^ 2 ≤ 2 ^ (-1075 : Int) ∧ q ^ 2 ≤ 2 ^ (-1075 : Int) := by
  rw [add_eq_zero_iff_of_nonneg hu.nonneg hw.nonneg, hu.eq_zero_iff, hw.eq_zero_iff]

theorem sq_max_le (h : u + w ≠ 0) : max |p| |q| ^ 2 ≤ 2 * (u + w) := by
  have hleast := least_le_add hu hw h
  have hhalf : (2 : Rat) ^ (-1075 : Int) ≤ 2 ^ (-1074 : Int) :=
    zpow_le_zpow_right₀ one_le_two (by decide)
  -- a square that is rounded to zero is less than the other one after rounding
  have hpart : ∀ {v r : Rat}, IsNear v r → r ≤ u + w → v ≤ 2 * (u + w) := by
    intro v r hr hle
    by_cases hzero : r = 0
    · linarith [hr.eq_zero_iff.mp hzero, hu.nonneg, hw.nonneg]
    · linarith [hr.le_two_mul_self hzero]
  rw [sq_max_abs]
  exact max_le (hpart hu (le_add_of_nonneg_right hw.nonneg))
    (hpart hw (le_add_of_nonneg_left hu.nonneg))

theorem add_le_sq_max : u + w ≤ 4 * max |p| |q| ^ 2 := by
  rw [sq_max_abs]
  linarith [hu.le_two_mul, hw.le_two_mul, le_max_left (p ^ 2) (q ^ 2), le_max_right (p ^ 2) (q ^ 2)]

theorem add_le_two_zpow {k : Int} (hk : -1074 ≤ k) (h : max |p| |q| ^ 2 ≤ 2 ^ k) :
    u + w ≤ 2 ^ (k + 1) := by
  rw [sq_max_abs] at h
  rw [zpow_add_one₀ two_ne_zero, mul_two]
  exact add_le_add (hu.le_two_zpow hk ((le_max_left _ _).trans h))
    (hw.le_two_zpow hk ((le_max_right _ _).trans h))

/-- The squares are rounded. -/
theorem isNormSq_add : IsNormSq p q (u + w) where
  nonneg := add_nonneg hu.nonneg hw.nonneg
  eq_zero_iff := add_eq_zero_iff_le hu hw
  le_four_mul h := by linarith [sq_max_le hu hw h, hu.nonneg, hw.nonneg]
  le_eight_mul := by linarith [add_le_sq_max hu hw, sq_nonneg (max |p| |q|)]
  le_two_zpow := add_le_two_zpow hu hw

/-- Their sum is rounded, too. -/
theorem isNormSq_of_isNear (hd : IsNear (u + w) d) : IsNormSq p q d := by
  have hzero : d = 0 ↔ u + w = 0 := by
    have hhalf : (2 : Rat) ^ (-1075 : Int) < 2 ^ (-1074 : Int) :=
      zpow_lt_zpow_right₀ one_lt_two (by decide)
    rw [hd.eq_zero_iff]
    refine ⟨fun hle => ?_, fun heq => heq ▸ (zpow_pos two_pos _).le⟩
    by_contra hne
    linarith [least_le_add hu hw hne]
  refine ⟨hd.nonneg, hzero.trans (add_eq_zero_iff_le hu hw), fun hne => ?_, ?_, fun hk h => ?_⟩
  · linarith [sq_max_le hu hw (mt hzero.mpr hne), hd.le_two_mul_self hne]
  · linarith [add_le_sq_max hu hw, hd.le_two_mul]
  · exact hd.le_two_zpow (by omega) (add_le_two_zpow hu hw hk h)

end Sum

namespace Complex
variable {b : Complex Float}

/-- **The squared modulus.** -/
theorem exists_normSq (hre : Extended.ofFloat b.re = .finite p)
    (him : Extended.ofFloat b.im = .finite q) :
    ∃ d, IsNormSq p q d ∧ Extended.ofFloat b.normSq = valueOfRounded false d := by
  obtain ⟨u, hu, hre⟩ := exists_square hre
  obtain ⟨w, hw, him⟩ := exists_square him
  by_cases hfinite : u < 2 ^ 1024
  · rw [valueOfRounded, if_pos hfinite] at hre
    by_cases hfinite' : w < 2 ^ 1024
    · rw [valueOfRounded, if_pos hfinite'] at him
      obtain ⟨d, hd, hsum⟩ :=
        (isRounding_add hre him).exists_isNear_of_nonneg (add_nonneg hu.nonneg hw.nonneg)
      exact ⟨d, isNormSq_of_isNear hu hw hd, hsum⟩
    · rw [valueOfRounded, if_neg hfinite'] at him
      refine ⟨u + w, isNormSq_add hu hw, (ofFloat_add_infinite hre him).trans ?_⟩
      rw [valueOfRounded,
        if_neg (not_lt.mpr ((not_lt.mp hfinite').trans (le_add_of_nonneg_left hu.nonneg)))]
  · rw [valueOfRounded, if_neg hfinite] at hre
    refine ⟨u + w, isNormSq_add hu hw, (ofFloat_infinite_add hre ?_).trans ?_⟩
    · rw [him, valueOfRounded]
      split
      · exact .inr ⟨_, rfl⟩
      · exact .inl rfl
    · rw [valueOfRounded,
        if_neg (not_lt.mpr ((not_lt.mp hfinite).trans (le_add_of_nonneg_right hw.nonneg)))]

end Complex

/-! ### Factors of one -/

theorem ofFloat_one_mul (hx : Extended.ofFloat x = .finite 1)
    (hy : Extended.ofFloat y = .finite q) : Extended.ofFloat (x * y) = .finite q := by
  have hcomm : UnpackedFloat.mul Format.binary64 x.toModel.unpack y.toModel.unpack =
      UnpackedFloat.mul Format.binary64 y.toModel.unpack x.toModel.unpack := by
    rw [unpack_of_one hx]
    rcases unpack_cases hy with ⟨-, s, hs⟩ | ⟨s, m, e, hm, hs, -⟩ <;> rw [hs]
    · cases s <;> rfl
    · change roundWithAccuracy _ (.positive * s) (2 ^ 52 * m) (-52 + e) _ =
        roundWithAccuracy _ (s * .positive) (m * 2 ^ 52) (e + -52) _
      rw [Nat.mul_comm, Int.add_comm]
      cases s <;> rfl
  rw [ofFloat_mul_eq, hcomm, ← ofFloat_mul_eq]
  exact ofFloat_mul_one hy hx

/-! ### The reciprocal -/

namespace Complex
variable {b : Complex Float}

/-- The conjugate, as the numerator of the reciprocal. -/
theorem value_one_mul_conjugate (hre : Extended.ofFloat b.re = .finite p)
    (him : Extended.ofFloat b.im = .finite q) :
    Extended.ofFloat (1 * b.conjugate).re = .finite p ∧
      Extended.ofFloat (1 * b.conjugate).im = .finite (-q) := by
  obtain ⟨hone, hzero⟩ := eq_one_iff.mp (show (1 : Complex Float).eq 1 by decide +kernel)
  have hminus := ofFloat_neg him
  exact ⟨ofFloat_sub_zero (ofFloat_one_mul hone hre) (ofFloat_zero_mul hzero hminus),
    ofFloat_add_zero (ofFloat_one_mul hone hminus) (ofFloat_zero_mul hzero hre)⟩

/-- Finite numbers are accepted, so that only the squared modulus decides. -/
theorem reciprocal_eq (hfinite : b.isFinite) : b.reciprocal =
    if Scalar.isZero b.normSq then .error .divisionByZero
    else .ok ⟨(1 * b.conjugate).re / b.normSq, (1 * b.conjugate).im / b.normSq⟩ := by
  have hcheck : (Operand.complex b).check = .ok b := if_pos hfinite
  rw [reciprocal, dividedBy, hcheck]
  by_cases hzero : Scalar.isZero b.normSq
  · rw [if_pos hzero]
    exact if_pos hzero
  · rw [if_neg hzero]
    exact if_neg hzero

end Complex

section Quotient
variable {z n : Float} {v d : Rat}

/-- If the squared modulus is not zero, the greater part is not too small. -/
theorem IsNormSq.le_max (h : IsNormSq p q d) (hne : d ≠ 0) : 2 ^ (-538 : Int) ≤ max |p| |q| := by
  by_contra hlt
  have hsmall : max |p| |q| ^ 2 ≤ (2 ^ (-538 : Int)) ^ 2 :=
    pow_le_pow_left₀ (le_max_of_le_left (abs_nonneg p)) (not_le.mp hlt).le 2
  have hpower : ((2 : Rat) ^ (-538 : Int)) ^ 2 ≤ 2 ^ (-1075 : Int) := by
    rw [← zpow_natCast, ← zpow_mul]
    exact zpow_le_zpow_right₀ one_le_two (by decide)
  have hle := hsmall.trans hpower
  rw [sq_max_abs] at hle
  exact hne (h.eq_zero_iff.mpr ⟨(le_max_left _ _).trans hle, (le_max_right _ _).trans hle⟩)

/-- The parts of a number divided by its squared modulus are not too large. -/
theorem IsNormSq.abs_div_le (h : IsNormSq p q d) (hne : d ≠ 0) (hv : |v| ≤ max |p| |q|) :
    |v / d| ≤ 2 ^ (540 : Int) := by
  have hd : 0 < d := lt_of_le_of_ne h.nonneg hne.symm
  have hunit : (2 : Rat) ^ (538 : Int) * 2 ^ (-538 : Int) = 1 := by
    rw [← zpow_add₀ two_ne_zero]
    rfl
  have hfour : (2 : Rat) ^ (540 : Int) = 2 ^ (538 : Int) * 4 := by
    rw [show (540 : Int) = 538 + 2 from rfl, zpow_add₀ two_ne_zero]
    norm_num
  have hpos : (0 : Rat) < 2 ^ (538 : Int) := zpow_pos two_pos _
  have hlarge := h.le_max hne
  have hsq := h.le_four_mul hne
  rw [abs_div, abs_of_pos hd, div_le_iff₀ hd, hfour]
  generalize (2 : Rat) ^ (538 : Int) = c at *
  generalize max |p| |q| = M at *
  calc |v| ≤ M := hv
    _ = c * 2 ^ (-538 : Int) * M := by rw [hunit, one_mul]
    _ ≤ c * M * M := by
      rw [mul_assoc, mul_assoc]
      exact mul_le_mul_of_nonneg_left (mul_le_mul_of_nonneg_right hlarge ((abs_nonneg v).trans hv))
        hpos.le
    _ = c * M ^ 2 := by ring
    _ ≤ c * (4 * d) := mul_le_mul_of_nonneg_left hsq hpos.le
    _ = c * 4 * d := by ring

/-- The greater part divided by a finite squared modulus is not too small. -/
theorem IsNormSq.lt_abs_div (h : IsNormSq p q d) (hne : d ≠ 0) (hfinite : d < 2 ^ 1024)
    (hv : |v| = max |p| |q|) : 2 ^ (-1075 : Int) < |v / d| := by
  have hd : 0 < d := lt_of_le_of_ne h.nonneg hne.symm
  have hM : 0 < max |p| |q| := (zpow_pos two_pos _).trans_le (h.le_max hne)
  have hlt : max |p| |q| < 2 ^ (513 : Int) := by
    have hsquare : (4 : Rat) * 2 ^ 1024 = (2 ^ (513 : Int)) ^ 2 := by
      rw [← zpow_natCast, ← zpow_natCast, ← zpow_mul, show (4 : Rat) = 2 ^ (2 : Int) from rfl,
        ← zpow_add₀ two_ne_zero]
      rfl
    refine lt_of_pow_lt_pow_left₀ 2 (zpow_pos two_pos _).le ?_
    calc max |p| |q| ^ 2 ≤ 4 * d := h.le_four_mul hne
      _ < 4 * 2 ^ 1024 := mul_lt_mul_of_pos_left hfinite (by norm_num)
      _ = (2 ^ (513 : Int)) ^ 2 := hsquare
  have hunit : (2 : Rat) ^ (-1075 : Int) * (8 * 2 ^ (513 : Int)) ≤ 1 := by
    rw [show (8 : Rat) = 2 ^ (3 : Int) from rfl, ← zpow_add₀ two_ne_zero, ← zpow_add₀ two_ne_zero]
    exact zpow_le_one_of_nonpos₀ one_le_two (by decide)
  have height := h.le_eight_mul
  have hpos : (0 : Rat) < 2 ^ (-1075 : Int) := zpow_pos two_pos _
  rw [abs_div, abs_of_pos hd, lt_div_iff₀ hd, hv]
  generalize (2 : Rat) ^ (-1075 : Int) = c at *
  generalize max |p| |q| = M at *
  calc c * d ≤ c * (8 * M ^ 2) := mul_le_mul_of_nonneg_left height hpos.le
    _ = c * (8 * M) * M := by ring
    _ < c * (8 * 2 ^ (513 : Int)) * M :=
      mul_lt_mul_of_pos_right (mul_lt_mul_of_pos_left (by linarith) hpos) hM
    _ ≤ 1 * M := mul_le_mul_of_nonneg_right hunit hM.le
    _ = M := one_mul M

/-- A squared modulus is not zero if the greater part is not too small, -/
theorem IsNormSq.ne_zero (h : IsNormSq p q d) (hlow : 2 ^ (-537 : Int) ≤ max |p| |q|) : d ≠ 0 := by
  intro hzero
  obtain ⟨hp, hq⟩ := h.eq_zero_iff.mp hzero
  have hle : max |p| |q| ^ 2 ≤ 2 ^ (-1075 : Int) := sq_max_abs p q ▸ max_le hp hq
  have hsquare : ((2 : Rat) ^ (-537 : Int)) ^ 2 ≤ max |p| |q| ^ 2 :=
    pow_le_pow_left₀ (zpow_pos two_pos _).le hlow 2
  rw [← zpow_natCast, ← zpow_mul] at hsquare
  have hexponent := (zpow_le_zpow_iff_right₀ one_lt_two).mp (hsquare.trans hle)
  exact absurd hexponent (by decide)

/-- and finite if it is not too large. -/
theorem IsNormSq.lt_two_pow (h : IsNormSq p q d) (hhigh : max |p| |q| ≤ 2 ^ (511 : Int)) :
    d < 2 ^ 1024 := by
  have hsquare : max |p| |q| ^ 2 ≤ 2 ^ (1022 : Int) := by
    refine (pow_le_pow_left₀ (le_max_of_le_left (abs_nonneg p)) hhigh 2).trans_eq ?_
    rw [← zpow_natCast, ← zpow_mul]
    rfl
  refine (h.le_two_zpow (by decide) hsquare).trans_lt ?_
  rw [← zpow_natCast]
  exact zpow_lt_zpow_right₀ one_lt_two (by decide)

variable (hz : Extended.ofFloat z = .finite v) (hn : Extended.ofFloat n = valueOfRounded false d)
include hz hn

theorem isFinite_quotient (h : IsNormSq p q d) (hne : d ≠ 0) (hv : |v| ≤ max |p| |q|) :
    (Extended.ofFloat (z / n)).isFinite := by
  by_cases hfinite : d < 2 ^ 1024
  · rw [valueOfRounded, if_pos hfinite] at hn
    obtain ⟨w, hw, hvalue⟩ := (isRounding_div hz hn hne).exists_isNear
    rw [hvalue]
    have hle := hw.le_two_zpow (by decide) (h.abs_div_le hne hv)
    refine isFinite_valueOfRounded _ (hle.trans_lt ?_)
    rw [← zpow_natCast]
    exact zpow_lt_zpow_right₀ one_lt_two (by decide)
  · rw [valueOfRounded, if_neg hfinite] at hn
    rw [ofFloat_div_infinite hz hn]
    rfl

theorem quotient_ne_zero (h : IsNormSq p q d) (hne : d ≠ 0) (hfinite : d < 2 ^ 1024)
    (hv : |v| = max |p| |q|) : Extended.ofFloat (z / n) ≠ .finite 0 := by
  rw [valueOfRounded, if_pos hfinite] at hn
  obtain ⟨w, hw, hvalue⟩ := (isRounding_div hz hn hne).exists_isNear
  rw [hvalue, ne_eq, valueOfRounded_eq_zero_iff, hw.eq_zero_iff, not_le]
  exact h.lt_abs_div hne hfinite hv

end Quotient

namespace Complex
variable {b : Complex Float}

theorem isZero_normSq_iff {d : Rat} (hnorm : Extended.ofFloat b.normSq = valueOfRounded false d) :
    Scalar.isZero b.normSq ↔ d = 0 := by
  change decide (Extended.ofFloat b.normSq = .finite 0) = true ↔ _
  rw [hnorm, decide_eq_true_eq, valueOfRounded_eq_zero_iff]

/-- The outcome, by the number `d` that the squared modulus stands for. -/
theorem reciprocal_cases {d : Rat} (hre : Extended.ofFloat b.re = .finite p)
    (him : Extended.ofFloat b.im = .finite q) (hd : IsNormSq p q d)
    (hnorm : Extended.ofFloat b.normSq = valueOfRounded false d) :
    d = 0 ∧ b.reciprocal = .error .divisionByZero ∨
      d ≠ 0 ∧ ∃ k, b.reciprocal = .ok k ∧ k.isFinite ∧ (d < 2 ^ 1024 → ¬k.isZero) := by
  obtain ⟨hnumerator, hnumerator'⟩ := value_one_mul_conjugate hre him
  have hminus : |(-q)| ≤ max |p| |q| := (abs_neg q).trans_le (le_max_right _ _)
  have hparts : b.isFinite := by
    change ((Extended.ofFloat b.re).isFinite && (Extended.ofFloat b.im).isFinite) = true
    rw [hre, him]
    rfl
  rw [reciprocal_eq hparts]
  by_cases hzero : d = 0
  · exact .inl ⟨hzero, if_pos ((isZero_normSq_iff hnorm).mpr hzero)⟩
  refine .inr ⟨hzero, _, if_neg (mt (isZero_normSq_iff hnorm).mp hzero), ?_, fun hfinite => ?_⟩
  · exact Bool.and_eq_true_iff.mpr
      ⟨isFinite_quotient hnumerator hnorm hd hzero (le_max_left _ _),
        isFinite_quotient hnumerator' hnorm hd hzero hminus⟩
  · intro hboth
    obtain ⟨hboth, hboth'⟩ := Bool.and_eq_true_iff.mp hboth
    rcases le_total |p| |q| with hle | hle
    · exact quotient_ne_zero hnumerator' hnorm hd hzero hfinite
        ((abs_neg q).trans (max_eq_right hle).symm) (of_decide_eq_true hboth')
    · exact quotient_ne_zero hnumerator hnorm hd hzero hfinite (max_eq_left hle).symm
        (of_decide_eq_true hboth)

/-- **Which doubles have a reciprocal.**  Numbers whose squared modulus is rounded to zero have
none, which are those with parts whose squares are at most `2 ^ -1075`.  All others have a finite
one.  It is not zero if the greater part is between `2 ^ -537` and `2 ^ 511`. -/
theorem reciprocal_of_finite_parts {x y : Rat} (hre : Scalar.value b.re = .finite x)
    (him : Scalar.value b.im = .finite y) :
    (b.reciprocal = .error .divisionByZero ↔ Scalar.isZero b.normSq) ∧
      (b.reciprocal = .error .divisionByZero ↔
        x ^ 2 ≤ 2 ^ (-1075 : Int) ∧ y ^ 2 ≤ 2 ^ (-1075 : Int)) ∧
      (∀ e, b.reciprocal = .error e → e = .divisionByZero) ∧
      (∀ k, b.reciprocal = .ok k → k.isFinite) ∧
      (2 ^ (-537 : Int) ≤ max |x| |y| → max |x| |y| ≤ 2 ^ (511 : Int) →
        ∃ k, b.reciprocal = .ok k ∧ k.isFinite ∧ ¬k.isZero) := by
  obtain ⟨d, hd, hnorm⟩ := exists_normSq hre him
  rw [isZero_normSq_iff hnorm, ← hd.eq_zero_iff]
  rcases reciprocal_cases hre him hd hnorm with
    ⟨hzero, hresult⟩ | ⟨hzero, k, hresult, hfinite, hne⟩
  · rw [hresult]
    exact ⟨iff_of_true rfl hzero, iff_of_true rfl hzero, fun e he => (Except.error.inj he).symm,
      nofun, fun hlow => absurd hzero (hd.ne_zero hlow)⟩
  · rw [hresult]
    exact ⟨iff_of_false nofun hzero, iff_of_false nofun hzero, nofun,
      fun k' hk' => Except.ok.inj hk' ▸ hfinite,
      fun _ hhigh => ⟨k, rfl, hfinite, hne (hd.lt_two_pow hhigh)⟩⟩

theorem reciprocal_of_three_four : ∃ k, (⟨3, 4⟩ : Complex Float).reciprocal = .ok k ∧
    k.isFinite ∧ ¬k.isZero := by
  have hre : Scalar.value (3 : Float) = .finite 3 := by decide +kernel
  have him : Scalar.value (4 : Float) = .finite 4 := by decide +kernel
  have hmax : max |(3 : Rat)| |4| = 2 ^ (2 : Int) := by norm_num
  refine (reciprocal_of_finite_parts hre him).2.2.2.2 ?_ ?_ <;> rw [hmax]
  · exact zpow_le_zpow_right₀ one_le_two (by decide)
  · exact zpow_le_zpow_right₀ one_le_two (by decide)

/-- The numbers between `2 ^ -1000` and `2 ^ 1000` do not all have a reciprocal, nor one that is not
zero: the square of `1e-200` is rounded to zero, and that of `1e200` to an infinity. -/
theorem reciprocal_of_extreme_parts :
    let small : Complex Float := ⟨1e-200, 0⟩
    let large : Complex Float := ⟨1e200, 0⟩
    (∀ a ∈ [small, large], a.isFinite ∧ ¬a.isZero ∧
      (Extended.finite (2 ^ (-1000 : Int))).lt (Scalar.value a.re) ∧
      (Scalar.value a.re).lt (.finite (2 ^ (1000 : Int)))) ∧
    small.reciprocal = .error .divisionByZero ∧
    ∃ k, large.reciprocal = .ok k ∧ k.isZero := by
  intro small large
  refine ⟨by decide +kernel, ?_, ?_⟩
  · exact (reciprocal_eq (by decide +kernel)).trans (if_pos (by decide +kernel))
  · exact ⟨_, (reciprocal_eq (by decide +kernel)).trans (if_neg (by decide +kernel)),
      by decide +kernel⟩

end Complex
end LinearEquations
