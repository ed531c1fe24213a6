import LinearEquations.LabelledMatrix.Echelon
import LinearEquations.Proofs.FiniteReading
import LinearEquations.Result
import Mathlib.Algebra.Order.Field.Rat
import Mathlib.Data.Nat.Cast.Order.Field
import Mathlib.Tactic.Linarith

/-! # Doubles times one

Arithmetic with doubles rounds, but not where one operand is a zero or a one.  A zero has either
sign, and a one has only one mantissa and exponent (`unpack_of_one`); with these, the operations on
signs, mantissas and exponents can be followed for all other operands, also for those below the
normal range.

For complex numbers it follows that the reciprocal of a one is a one
(`exists_finiteReciprocal_of_eq_one`), and that a one changes no finite number that it is multiplied
with (`Complex.mul_eq_self`), up to the signs of zeros. -/

namespace LinearEquations
open Float.Model Float.Model.UnpackedFloat

variable {x y : Float} {q : Rat}

/-! ### Finite numbers, unpacked -/

/-- A double with a finite value is a zero or has a mantissa and an exponent. -/
theorem unpack_cases (h : Extended.ofFloat x = .finite q) :
    (q = 0 ∧ ∃ s, x.toModel.unpack = .zero s) ∨
      ∃ s m e hm, x.toModel.unpack = .finite s m e hm ∧ q = (s.apply m : Int) * (2 : Rat) ^ e := by
  rw [ofFloat_eq] at h
  cases hx : x.toModel.unpack with
  | zero s =>
    rw [hx] at h
    exact .inl ⟨(Extended.finite.inj h).symm, s, rfl⟩
  | finite s m e hm =>
    rw [hx] at h
    exact .inr ⟨s, m, e, hm, rfl, (Extended.finite.inj h).symm⟩
  | infinity s =>
    rw [hx] at h
    cases h
  | notANumber =>
    rw [hx] at h
    cases h

theorem exists_unpack_of_zero (h : Extended.ofFloat x = .finite 0) :
    ∃ s, x.toModel.unpack = .zero s := by
  rcases unpack_cases h with ⟨-, hzero⟩ | ⟨s, m, e, hm, -, hvalue⟩
  · exact hzero
  · have hpower : (2 : Rat) ^ e ≠ 0 := zpow_ne_zero e two_ne_zero
    have hmantissa : ((s.apply m : Int) : Rat) ≠ 0 := by
      cases s <;> simp [Sign.apply, hm.ne']
    exact absurd hvalue.symm (mul_ne_zero hmantissa hpower)

/-- The only mantissa of full length that is a power of two is the least one. -/
theorem unpack_of_one (h : Extended.ofFloat x = .finite 1) :
    x.toModel.unpack = .finite .positive (2 ^ 52) (-52) (by decide) := by
  have hfits := Double.fits_toModel x
  rcases unpack_cases h with ⟨hzero, -⟩ | ⟨s, m, e, hm, hx, hvalue⟩
  · exact absurd hzero one_ne_zero
  · rw [hx] at hfits ⊢
    obtain ⟨hlt, hlow, -, hlong⟩ := hfits
    have hpos : (0 : Rat) < m * 2 ^ e := mul_pos (Nat.cast_pos.mpr hm) (zpow_pos two_pos e)
    cases s with
    | negative =>
      have hproduct : (1 : Rat) = -(m * 2 ^ e) := by simpa [Sign.apply] using hvalue
      linarith
    | positive =>
      have hproduct : (1 : Rat) = m * 2 ^ e := by simpa [Sign.apply] using hvalue
      obtain ⟨n, rfl | rfl⟩ := e.eq_nat_or_neg
      · have hone : m * 2 ^ n = 1 := by
          rw [zpow_natCast] at hproduct
          exact_mod_cast hproduct.symm
        have hm : m = 1 := Nat.eq_one_of_mul_eq_one_right hone
        omega
      · have hm : m = 2 ^ n := by
          rw [zpow_neg, zpow_natCast, eq_comm, mul_inv_eq_one₀ (pow_ne_zero n two_ne_zero)]
            at hproduct
          exact_mod_cast hproduct
        have hn : n < 53 := (Nat.pow_lt_pow_iff_right Nat.one_lt_two).mp (hm ▸ hlt)
        have hn' : 52 ≤ n := by
          rcases hlong with hlong | hlong
          · exact (Nat.pow_le_pow_iff_right Nat.one_lt_two).mp (hm ▸ hlong)
          · omega
        obtain rfl : n = 52 := by omega
        exact Double.finite_congr hm rfl

/-! ### Exact operations

The result of an operation is packed into bits; where it fits, nothing is lost. -/

theorem ofFloat_congr (h : x.toModel.unpack = y.toModel.unpack) :
    Extended.ofFloat x = Extended.ofFloat y := by
  rw [ofFloat_eq, ofFloat_eq, h]

theorem ofFloat_of_unpack_zero {s : Sign} (h : x.toModel.unpack = .zero s) :
    Extended.ofFloat x = .finite 0 := by
  rw [ofFloat_eq, h]
  rfl

/-- A product is packed into the bits of a double. -/
theorem unpack_mul {f : UnpackedFloat} (hf : Double.Fits f)
    (h : UnpackedFloat.mul Format.binary64 x.toModel.unpack y.toModel.unpack = f) :
    (x * y).toModel.unpack = f := by
  subst h
  exact Double.unpack_pack hf

theorem unpack_add {f : UnpackedFloat} (hf : Double.Fits f)
    (h : UnpackedFloat.add Format.binary64 x.toModel.unpack y.toModel.unpack = f) :
    (x + y).toModel.unpack = f := by
  subst h
  exact Double.unpack_pack hf

theorem unpack_sub {f : UnpackedFloat} (hf : Double.Fits f)
    (h : UnpackedFloat.sub Format.binary64 x.toModel.unpack y.toModel.unpack = f) :
    (x - y).toModel.unpack = f := by
  subst h
  exact Double.unpack_pack hf

theorem unpack_div {f : UnpackedFloat} (hf : Double.Fits f)
    (h : UnpackedFloat.div Format.binary64 x.toModel.unpack y.toModel.unpack = f) :
    (x / y).toModel.unpack = f := by
  subst h
  exact Double.unpack_pack hf

/-- **A double times one.**  The mantissa becomes longer by zeros, which are shifted out again. -/
theorem ofFloat_mul_one (hx : Extended.ofFloat x = .finite q)
    (hy : Extended.ofFloat y = .finite 1) : Extended.ofFloat (x * y) = .finite q := by
  rw [← hx]
  refine ofFloat_congr (unpack_mul (Double.fits_toModel x) ?_)
  have hfits := Double.fits_toModel x
  rw [unpack_of_one hy]
  rcases unpack_cases hx with ⟨-, s, hs⟩ | ⟨s, m, e, hm, hs, -⟩
  · rw [hs]
    cases s <;> rfl
  · rw [hs] at hfits ⊢
    obtain ⟨hlt, hlow, -, hlong⟩ := hfits
    have hsign : s * .positive = s := by cases s <;> rfl
    have hround := Double.roundWithAccuracy_exact s hm hlt hlow hlong 52
    change roundWithAccuracy Format.binary64 (s * .positive) (m * 2 ^ 52) (e - 52) .exact = _
    rw [hsign]
    exact hround

theorem ofFloat_mul_zero (hx : Extended.ofFloat x = .finite q)
    (hy : Extended.ofFloat y = .finite 0) : Extended.ofFloat (x * y) = .finite 0 := by
  obtain ⟨t, ht⟩ := exists_unpack_of_zero hy
  rcases unpack_cases hx with ⟨-, s, hs⟩ | ⟨s, m, e, hm, hs, -⟩
  · exact ofFloat_of_unpack_zero (unpack_mul (f := .zero (s * t)) trivial (by rw [hs, ht]; rfl))
  · exact ofFloat_of_unpack_zero (unpack_mul (f := .zero (s * t)) trivial (by rw [hs, ht]; rfl))

theorem ofFloat_zero_mul (hx : Extended.ofFloat x = .finite 0)
    (hy : Extended.ofFloat y = .finite q) : Extended.ofFloat (x * y) = .finite 0 := by
  obtain ⟨s, hs⟩ := exists_unpack_of_zero hx
  rcases unpack_cases hy with ⟨-, t, ht⟩ | ⟨t, m, e, hm, ht, -⟩
  · exact ofFloat_of_unpack_zero (unpack_mul (f := .zero (s * t)) trivial (by rw [hs, ht]; rfl))
  · exact ofFloat_of_unpack_zero (unpack_mul (f := .zero (s * t)) trivial (by rw [hs, ht]; rfl))

/-- Of two zeros the sum is a zero, with one sign or the other. -/
theorem ofFloat_add_zero (hx : Extended.ofFloat x = .finite q)
    (hy : Extended.ofFloat y = .finite 0) : Extended.ofFloat (x + y) = .finite q := by
  obtain ⟨t, ht⟩ := exists_unpack_of_zero hy
  rcases unpack_cases hx with ⟨rfl, s, hs⟩ | ⟨s, m, e, hm, hs, -⟩
  · refine ofFloat_of_unpack_zero (s := if s == t then s else .positive) (unpack_add trivial ?_)
    rw [hs, ht]
    cases s <;> cases t <;> rfl
  · rw [← hx]
    exact ofFloat_congr (unpack_add (Double.fits_toModel x) (by rw [hs, ht]; rfl))

theorem ofFloat_zero_add (hx : Extended.ofFloat x = .finite 0)
    (hy : Extended.ofFloat y = .finite q) : Extended.ofFloat (x + y) = .finite q := by
  obtain ⟨s, hs⟩ := exists_unpack_of_zero hx
  rcases unpack_cases hy with ⟨rfl, t, ht⟩ | ⟨t, m, e, hm, ht, -⟩
  · refine ofFloat_of_unpack_zero (s := if s == t then s else .positive) (unpack_add trivial ?_)
    rw [hs, ht]
    cases s <;> cases t <;> rfl
  · rw [← hy]
    exact ofFloat_congr (unpack_add (Double.fits_toModel y) (by rw [hs, ht]; rfl))

theorem ofFloat_sub_zero (hx : Extended.ofFloat x = .finite q)
    (hy : Extended.ofFloat y = .finite 0) : Extended.ofFloat (x - y) = .finite q := by
  obtain ⟨t, ht⟩ := exists_unpack_of_zero hy
  rcases unpack_cases hx with ⟨rfl, s, hs⟩ | ⟨s, m, e, hm, hs, -⟩
  · refine ofFloat_of_unpack_zero (s := if s == -t then s else .positive) (unpack_sub trivial ?_)
    rw [hs, ht]
    cases s <;> cases t <;> rfl
  · rw [← hx]
    exact ofFloat_congr (unpack_sub (Double.fits_toModel x) (by rw [hs, ht]; rfl))

theorem ofFloat_one_div_one (hx : Extended.ofFloat x = .finite 1)
    (hy : Extended.ofFloat y = .finite 1) : Extended.ofFloat (x / y) = .finite 1 := by
  rw [← hx]
  refine ofFloat_congr (unpack_div (Double.fits_toModel x) ?_)
  rw [unpack_of_one hx, unpack_of_one hy]
  exact Double.div_one .positive (Nat.le_refl _) (by decide) (by decide) (by decide)

theorem ofFloat_zero_div_one (hx : Extended.ofFloat x = .finite 0)
    (hy : Extended.ofFloat y = .finite 1) : Extended.ofFloat (x / y) = .finite 0 := by
  obtain ⟨s, hs⟩ := exists_unpack_of_zero hx
  refine ofFloat_of_unpack_zero (s := s / .positive) (unpack_div trivial ?_)
  rw [hs, unpack_of_one hy]
  rfl

/-! ### Complex numbers -/

namespace Complex
variable {a k p : Complex Float}

theorem scalar_eq_of_value (hx : Extended.ofFloat x = .finite q)
    (hy : Extended.ofFloat y = .finite q) : Scalar.eq x y := by
  change (Extended.ofFloat x).eq (Extended.ofFloat y) = true
  rw [hx, hy]
  simp [Extended.eq]

/-- A one has the parts one and zero. -/
theorem eq_one_iff : k.eq 1 ↔
    Extended.ofFloat k.re = .finite 1 ∧ Extended.ofFloat k.im = .finite 0 := by
  have hone : Extended.ofFloat 1 = .finite 1 := by decide +kernel
  have hzero : Extended.ofFloat 0 = .finite 0 := by decide +kernel
  change ((Extended.ofFloat k.re).eq (Extended.ofFloat 1) &&
    (Extended.ofFloat k.im).eq (Extended.ofFloat 0)) = true ↔ _
  rw [hone, hzero]
  simp only [Extended.eq, Bool.and_eq_true, decide_eq_true_eq]
  constructor
  · rintro ⟨⟨hre, -⟩, him, -⟩
    exact ⟨hre, him⟩
  · rintro ⟨hre, him⟩
    rw [hre, him]
    exact ⟨⟨rfl, nofun⟩, rfl, nofun⟩

/-- A zero is equal to every zero. -/
theorem zero_eq (ha : a.isZero) : (0 : Complex Float).eq a := by
  have hzero : Extended.ofFloat 0 = .finite 0 := by decide +kernel
  obtain ⟨hre, him⟩ := Bool.and_eq_true_iff.mp ha
  exact Bool.and_eq_true_iff.mpr ⟨scalar_eq_of_value hzero (of_decide_eq_true hre),
    scalar_eq_of_value hzero (of_decide_eq_true him)⟩

/-- **A finite number times one.** -/
theorem mul_eq_self (ha : a.isFinite) (hk : k.eq 1) : (a * k).eq a := by
  obtain ⟨hone, hzero⟩ := eq_one_iff.mp hk
  obtain ⟨hre, him⟩ := Bool.and_eq_true_iff.mp ha
  obtain ⟨q, hq⟩ := Scalar.exists_value hre
  obtain ⟨r, hr⟩ := Scalar.exists_value him
  have hre : Extended.ofFloat (a.re * k.re - a.im * k.im) = .finite q :=
    ofFloat_sub_zero (ofFloat_mul_one hq hone) (ofFloat_mul_zero hr hzero)
  have him : Extended.ofFloat (a.re * k.im + a.im * k.re) = .finite r :=
    ofFloat_zero_add (ofFloat_mul_zero hq hzero) (ofFloat_mul_one hr hone)
  exact Bool.and_eq_true_iff.mpr ⟨scalar_eq_of_value hre hq, scalar_eq_of_value him hr⟩

end Complex

/-- A one is finite. -/
theorem Complex.isFinite_of_eq_one {p : Complex Float} (hp : p.eq 1) : p.isFinite := by
  obtain ⟨hre, him⟩ := eq_one_iff.mp hp
  change ((Extended.ofFloat p.re).isFinite && (Extended.ofFloat p.im).isFinite) = true
  rw [hre, him]
  rfl

/-- **The reciprocal of a one is a one.** -/
theorem LabelledMatrix.exists_finiteReciprocal_of_eq_one {p : Complex Float} (hp : p.eq 1) :
    ∃ k, finiteReciprocal p = .ok k ∧ k.eq 1 := by
  obtain ⟨hre, him⟩ := Complex.eq_one_iff.mp hp
  obtain ⟨hone, hzero⟩ := Complex.eq_one_iff.mp (show (1 : Complex Float).eq 1 by decide +kernel)
  have hnorm : Extended.ofFloat p.normSq = .finite 1 :=
    ofFloat_add_zero (ofFloat_mul_one hre hre) (ofFloat_mul_zero him him)
  have hnonzero : ¬ Scalar.isZero p.normSq := by
    change ¬ decide (Extended.ofFloat p.normSq = .finite 0) = true
    rw [hnorm]
    decide
  have hminus : Extended.ofFloat (-p.im) = .finite 0 := ofFloat_neg him
  let numerator : Complex Float := 1 * p.conjugate
  have hnumerator : Extended.ofFloat numerator.re = .finite 1 ∧
      Extended.ofFloat numerator.im = .finite 0 :=
    ⟨ofFloat_sub_zero (ofFloat_mul_one hone hre) (ofFloat_zero_mul hzero hminus),
      ofFloat_add_zero (ofFloat_mul_zero hone hminus) (ofFloat_mul_one hzero hre)⟩
  let k : Complex Float := ⟨numerator.re / p.normSq, numerator.im / p.normSq⟩
  have hk : k.eq 1 := Complex.eq_one_iff.mpr
    ⟨ofFloat_one_div_one hnumerator.1 hnorm, ofFloat_zero_div_one hnumerator.2 hnorm⟩
  have hcheck : ∀ {a : Complex Float}, a.eq 1 → (Operand.complex a).check = .ok a := fun ha =>
    if_pos (Complex.isFinite_of_eq_one ha)
  have hreciprocal : p.reciprocal = .ok k := by
    refine bind_eq_ok.mpr ⟨p, hcheck hp, ?_⟩
    rw [if_neg hnonzero]
    rfl
  exact ⟨k, bind_eq_ok.mpr ⟨k, hreciprocal, hcheck hk⟩, hk⟩

end LinearEquations
