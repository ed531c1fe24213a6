import LinearEquations.Proofs.DecimalRange
import LinearEquations.Proofs.ShortestDecimal

/-! # Decimals that are read as a double

The interval of a fraction consists of the numbers that are rounded to it
(`BinaryFraction.IsCanonical.contains_iff_roundsTo`), and decimals are read by rounding them to the
nearest double.  Together this says what the search for the shortest decimal is about: it is read as
the number, and no decimal with fewer digits is (`BinaryFraction.isShortest_shortest`). -/

namespace LinearEquations
open Float.Model Float.Model.UnpackedFloat Double

/-! ### What is rounded to a fraction -/

namespace BinaryFraction
variable {b : BinaryFraction} {y : Rat} {n : Nat} {t : Int}

/-- The fraction is the least one of its exponent, and there are smaller exponents. -/
def IsPowerOfTwo (b : BinaryFraction) : Prop := b.significand = 2 ^ 52 ∧ -1074 < b.exponent

theorem IsPowerOfTwo.magnitude_eq (h : b.IsPowerOfTwo) : b.magnitude = 2 ^ 52 * 2 ^ b.exponent := by
  rw [magnitude, h.1]
  norm_num

/-- Below a power of two the interval has half of the usual length. -/
theorem contains_iff_of_isPowerOfTwo (h : b.IsPowerOfTwo) : b.readInterval.contains y ↔
    b.magnitude - 2 ^ b.exponent / 4 ≤ y ∧ y ≤ b.magnitude + 2 ^ b.exponent / 2 := by
  have hunit := two_zpow_pos b.exponent
  have hlower : b.readInterval.lower = b.magnitude - 2 ^ b.exponent / 4 := by
    unfold readInterval
    simp only
    rw [if_pos (by simp [h.1, h.2])]
  have hclosed : b.readInterval.closed = true :=
    decide_eq_true (show b.significand % 2 = 0 by rw [h.1]; decide)
  rw [Interval.contains_iff, hlower, upper_eq, hclosed]
  constructor
  · rintro (⟨hlow, hhigh⟩ | ⟨-, rfl | rfl⟩)
    · exact ⟨hlow.le, hhigh.le⟩
    · exact ⟨le_rfl, by linarith⟩
    · exact ⟨by linarith, le_rfl⟩
  · rintro ⟨hlow, hhigh⟩
    rcases hlow.eq_or_lt with rfl | hlow
    · exact .inr ⟨rfl, .inl rfl⟩
    rcases hhigh.eq_or_lt with rfl | hhigh
    · exact .inr ⟨rfl, .inr rfl⟩
    · exact .inl ⟨hlow, hhigh⟩

/-- All other intervals reach half of the last bit to both sides. -/
theorem contains_iff_of_not_isPowerOfTwo (h : ¬b.IsPowerOfTwo) : b.readInterval.contains y ↔
    |y - b.magnitude| ≤ 2 ^ b.exponent / 2 ∧
      (|y - b.magnitude| = 2 ^ b.exponent / 2 → b.significand % 2 = 0) := by
  have hunit := two_zpow_pos b.exponent
  have hlower : b.readInterval.lower = b.magnitude - 2 ^ b.exponent / 2 := by
    unfold readInterval
    simp only
    exact congrArg (b.magnitude - ·) (if_neg fun hboth =>
      h ⟨of_decide_eq_true (Bool.and_eq_true_iff.mp hboth).1,
        of_decide_eq_true (Bool.and_eq_true_iff.mp hboth).2⟩)
  have hclosed : b.readInterval.closed = true ↔ b.significand % 2 = 0 := decide_eq_true_iff
  rw [Interval.contains_iff, hlower, upper_eq, hclosed]
  constructor
  · rintro (⟨hlow, hhigh⟩ | ⟨heven, hends⟩)
    · have hlt : |y - b.magnitude| < 2 ^ b.exponent / 2 :=
        abs_lt.mpr ⟨by linarith, by linarith⟩
      exact ⟨hlt.le, fun heq => absurd heq hlt.ne⟩
    · refine ⟨abs_le.mpr ?_, fun _ => heven⟩
      rcases hends with rfl | rfl <;> constructor <;> linarith
  · rintro ⟨hle, heven⟩
    rcases hle.eq_or_lt with heq | hlt
    · refine .inr ⟨heven heq, ?_⟩
      rcases abs_eq (by linarith) |>.mp heq with habove | hbelow
      · exact .inr (by linarith)
      · exact .inl (by linarith)
    · obtain ⟨hlow, hhigh⟩ := abs_lt.mp hlt
      exact .inl ⟨by linarith, by linarith⟩

/-- A fraction is at least one of its last bits away from the next power of two. -/
theorem IsCanonical.magnitude_add_le (hb : b.IsCanonical) :
    b.magnitude + 2 ^ b.exponent ≤ 2 ^ 53 * 2 ^ b.exponent := by
  have hlt : (b.significand : Rat) + 1 ≤ 2 ^ 53 := by exact_mod_cast hb.lt
  rw [magnitude, ← add_one_mul]
  exact mul_le_mul_of_nonneg_right hlt (two_zpow_pos _).le

/-- The last bit of a number just below a power of two is half as large. -/
theorem IsPowerOfTwo.roundsTo_of_lt (h : b.IsPowerOfTwo)
    (hlow : b.magnitude - 2 ^ b.exponent / 4 ≤ y) (hlt : y < b.magnitude) :
    RoundsTo y (2 ^ 53) (b.exponent - 1) ∧
      ((2 ^ 53 : Nat) : Rat) * 2 ^ (b.exponent - 1) = b.magnitude := by
  have hunit := two_zpow_pos b.exponent
  have hhalf : (2 : Rat) ^ (b.exponent - 1) = 2 ^ b.exponent / 2 := (RoundsTo.half_zpow rfl).symm
  have hmagnitude := h.magnitude_eq
  have hvalue : ((2 ^ 53 : Nat) : Rat) * 2 ^ (b.exponent - 1) = b.magnitude := by
    rw [hhalf, hmagnitude]
    push_cast
    ring
  have hexponent := h.2
  refine ⟨⟨by omega, .inl ?_, ?_, ?_, fun _ => by decide⟩, hvalue⟩
  · rw [hhalf]
    linarith
  · rw [hhalf]
    linarith
  · rw [hvalue, hhalf, abs_of_neg (by linarith)]
    linarith

/-- **What belongs to the interval is rounded to the fraction.** -/
theorem IsCanonical.roundsTo_of_contains (hb : b.IsCanonical) (h : b.readInterval.contains y) :
    ∃ n t, RoundsTo y n t ∧ (n : Rat) * 2 ^ t = b.magnitude := by
  have hunit := two_zpow_pos b.exponent
  have hhigh := hb.magnitude_add_le
  have hle := abs_sub_le_of_contains h
  obtain ⟨hbelow, habove⟩ := abs_le.mp hle
  by_cases hpower : b.IsPowerOfTwo
  · have hlow := ((contains_iff_of_isPowerOfTwo hpower).mp h).1
    rcases le_or_gt b.magnitude y with hge | hlt
    · have hlong : 2 ^ 52 * (2 : Rat) ^ b.exponent ≤ y := hpower.magnitude_eq ▸ hge
      have heven : b.significand % 2 = 0 := by rw [hpower.1]; decide
      exact ⟨b.significand, b.exponent, ⟨hb.le, .inl hlong, by linarith, hle, fun _ => heven⟩, rfl⟩
    · exact ⟨_, _, hpower.roundsTo_of_lt hlow hlt⟩
  · have heven := ((contains_iff_of_not_isPowerOfTwo hpower).mp h).2
    refine ⟨b.significand, b.exponent, ⟨hb.le, ?_, by linarith, hle, heven⟩, rfl⟩
    refine or_iff_not_imp_right.mpr fun hleast => ?_
    -- the significand is longer than the least one
    have hlong : (2 : Rat) ^ 52 + 1 ≤ b.significand := by
      have hlong := hb.long.resolve_right hleast
      have hne : b.significand ≠ 2 ^ 52 := fun heq => hpower ⟨heq, by have := hb.le; omega⟩
      exact_mod_cast Nat.lt_of_le_of_ne hlong (Ne.symm hne)
    have hscaled : (2 ^ 52 + 1) * 2 ^ b.exponent ≤ b.magnitude :=
      mul_le_mul_of_nonneg_right hlong hunit.le
    linarith

/-- A fraction determines what is rounded to it, but for the place of a power of two. -/
theorem IsCanonical.eq_or_of_rounded (hb : b.IsCanonical) (h : RoundsTo y n t)
    (hvalue : (n : Rat) * 2 ^ t = b.magnitude) :
    t = b.exponent ∧ n = b.significand ∨ t = b.exponent - 1 ∧ b.IsPowerOfTwo := by
  have hle := h.le
  have hlong := h.long
  have hlow := h.le_exponent
  have hbelow := hb.le
  have hshort := hb.lt
  have hblong := hb.long
  rcases le_or_gt t b.exponent with hbefore | hafter
  · obtain ⟨j, hj⟩ : ∃ j : Nat, t = b.exponent - j := ⟨(b.exponent - t).toNat, by omega⟩
    have hn : n = b.significand * 2 ^ j := by
      rw [hj, magnitude, ← mul_two_pow b.significand j] at hvalue
      have := mul_right_cancel₀ (two_zpow_pos _).ne' hvalue
      exact_mod_cast this
    rcases j with _ | _ | j
    · exact .inl ⟨by omega, by simpa using hn⟩
    · exact .inr ⟨by omega, by omega, by omega⟩
    · have hn : n = b.significand * 4 * 2 ^ j := by
        rw [hn]
        ring
      have := Nat.le_mul_of_pos_right (b.significand * 4) (Nat.two_pow_pos j)
      omega
  · obtain ⟨j, hj⟩ : ∃ j : Nat, b.exponent = t - (j + 1 : Nat) :=
      ⟨(t - b.exponent - 1).toNat, by omega⟩
    have hn : b.significand = n * 2 ^ (j + 1) := by
      rw [magnitude, hj, ← mul_two_pow n (j + 1)] at hvalue
      have := mul_right_cancel₀ (two_zpow_pos _).ne' hvalue
      exact_mod_cast this.symm
    have hn : b.significand = n * 2 * 2 ^ j := by
      rw [hn]
      ring
    have := Nat.le_mul_of_pos_right (n * 2) (Nat.two_pow_pos j)
    omega

/-- **What is rounded to a fraction belongs to its interval.** -/
theorem IsCanonical.contains_of_roundsTo (hb : b.IsCanonical) (h : RoundsTo y n t)
    (hvalue : (n : Rat) * 2 ^ t = b.magnitude) : b.readInterval.contains y := by
  have hunit := two_zpow_pos b.exponent
  have hdistance := h.abs_sub_le
  have heven := h.even
  rw [hvalue] at hdistance heven
  obtain ⟨hbelow, habove⟩ := abs_le.mp hdistance
  rcases hb.eq_or_of_rounded h hvalue with ⟨rfl, rfl⟩ | ⟨ht, hpower⟩
  · by_cases hpower : b.IsPowerOfTwo
    · have hlong := h.long_or_least.resolve_right (by have := hpower.2; omega)
      have hmagnitude := hpower.magnitude_eq
      exact (contains_iff_of_isPowerOfTwo hpower).mpr ⟨by linarith, by linarith⟩
    · exact (contains_iff_of_not_isPowerOfTwo hpower).mpr ⟨hdistance, heven⟩
  · have hhalf : (2 : Rat) ^ (b.exponent - 1) = 2 ^ b.exponent / 2 := (RoundsTo.half_zpow rfl).symm
    rw [ht, hhalf] at hbelow habove
    exact (contains_iff_of_isPowerOfTwo hpower).mpr ⟨by linarith, by linarith⟩

/-- **The interval of a fraction consists of what is rounded to it.** -/
theorem IsCanonical.contains_iff_roundsTo (hb : b.IsCanonical) : b.readInterval.contains y ↔
    ∃ n t, RoundsTo y n t ∧ (n : Rat) * 2 ^ t = b.magnitude :=
  ⟨hb.roundsTo_of_contains, fun ⟨_, _, h, hvalue⟩ => hb.contains_of_roundsTo h hvalue⟩

end BinaryFraction
/-! ### The shortest decimal -/

namespace Decimal

/-- The double that a decimal is read as, without its sign. -/
def read? (d : Decimal) : Option Float :=
  Scalar.ofDecimal? (d.digits * 10 ^ d.exponent.toNat) (-d.exponent).toNat

/-- The decimal is read as a double with the value `q`, but for its sign. -/
def IsReadAs (d : Decimal) (q : Rat) : Prop := ∃ y, d.read? = some y ∧ Scalar.value y = .finite q

/-- The decimal is read as a double with the value `q`, and none with fewer digits is. -/
def IsShortest (d : Decimal) (q : Rat) : Prop :=
  d.IsReadAs q ∧
    ∀ d' : Decimal, d'.IsReadAs q → (figures d.digits).length ≤ (figures d'.digits).length

theorem magnitude_eq_div (d : Decimal) : d.magnitude =
    (d.digits * 10 ^ d.exponent.toNat : Nat) / 10 ^ (-d.exponent).toNat := by
  rw [magnitude]
  rcases le_or_gt 0 d.exponent with hexponent | hexponent
  · obtain ⟨j, hj⟩ := Int.eq_ofNat_of_zero_le hexponent
    simp [hj]
  · obtain ⟨j, hj⟩ : ∃ j : Nat, d.exponent = -j := ⟨(-d.exponent).toNat, by omega⟩
    simp [hj, div_eq_mul_inv]

end Decimal

namespace BinaryFraction
open Decimal
variable {b : BinaryFraction} {x : Float}

/-- The double that a fraction belongs to is below `2 ^ 1024`. -/
theorem magnitude_lt_of_ofFloat? (hb : ofFloat? x = some b) : b.magnitude < 2 ^ 1024 := by
  have hcanonical := isCanonical_of_ofFloat? hb
  exact (lt_two_pow_iff hcanonical.lt hcanonical.long).mpr (exponent_le_of_ofFloat? hb)

/-- **The decimals that are read as a double are those in its interval.** -/
theorem isReadAs_iff_contains (hb : ofFloat? x = some b) (d : Decimal) :
    d.IsReadAs b.magnitude ↔ b.readInterval.contains d.magnitude := by
  have hround := isRounding_ofScientific (d.digits * 10 ^ d.exponent.toNat) (-d.exponent).toNat
  have hread : d.read? = if (Float.ofScientific (d.digits * 10 ^ d.exponent.toNat) true
      (-d.exponent).toNat).isFinite then some (Float.ofScientific (d.digits * 10 ^ d.exponent.toNat)
        true (-d.exponent).toNat) else none := rfl
  rw [← d.magnitude_eq_div] at hround
  rw [IsReadAs, hread, (isCanonical_of_ofFloat? hb).contains_iff_roundsTo]
  generalize Float.ofScientific _ true _ = y at hround
  obtain ⟨n, t, hround, hvalue⟩ := hround
  have hnonneg : 0 ≤ d.magnitude := mul_nonneg (Nat.cast_nonneg _) (ten_zpow_pos _).le
  rw [abs_of_nonneg hnonneg] at hround
  rw [decide_eq_false hnonneg.not_gt, valueOfRounded] at hvalue
  constructor
  · rintro ⟨y', hy', hfinite⟩
    obtain rfl : y = y' := by
      split at hy'
      · exact Option.some.inj hy'
      · cases hy'
    refine ⟨n, t, hround, ?_⟩
    have heq := hvalue.symm.trans hfinite
    split at heq
    · exact Extended.finite.inj heq
    · cases heq
  · rintro ⟨n', t', hround', hmagnitude⟩
    obtain ⟨rfl, rfl⟩ := hround.unique hround'
    have hlt := magnitude_lt_of_ofFloat? hb
    rw [if_pos (hmagnitude ▸ hlt)] at hvalue
    have hfinite : Scalar.value y = .finite b.magnitude := by
      rw [← hmagnitude]
      exact hvalue
    refine ⟨y, if_pos ?_, hfinite⟩
    rw [isFinite_iff, show Extended.ofFloat y = _ from hfinite]
    rfl

/-- **The shortest decimal is the shortest one that is read as the double.** -/
theorem isShortest_shortest (hb : ofFloat? x = some b) (hne : b.toRat ≠ 0) :
    b.shortest.IsShortest |b.toRat| := by
  have hcanonical := isCanonical_of_ofFloat? hb
  have hpos : 0 < b.magnitude := Scalar.abs_toRat b ▸ abs_pos.mpr hne
  rw [Scalar.abs_toRat]
  refine ⟨(isReadAs_iff_contains hb _).mpr (hcanonical.contains_shortest hpos), fun d hd => ?_⟩
  exact hcanonical.length_figures_shortest_le hpos ((isReadAs_iff_contains hb d).mp hd)

end BinaryFraction

end LinearEquations
