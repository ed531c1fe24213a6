import LinearEquations.Proofs.ExactUnit
import Mathlib.Algebra.Order.Field.Basic
import Mathlib.Tactic.FieldSimp
import Mathlib.Tactic.Linarith
import Mathlib.Tactic.LinearCombination
import Mathlib.Tactic.Ring

/-! # Rounding of doubles

The result of an operation is the exact one, rounded: the nearest multiple of a power of two, the
even one of two (`RoundsTo`).  The power is such that the number has 53 binary digits, unless that
were less than `2 ^ -1074`.  What is not below `2 ^ 1024` after rounding is an infinity.

Inside an operation the exact result is a mantissa with two more bits, the first bit behind its last
place and whether there are others behind that one (`Represents`).  Shifting keeps what is
represented, so that only the last step, the rounding of the mantissa, loses anything.  A mantissa
that becomes too long by it is a power of two and can be shifted once more. -/

namespace LinearEquations
open Float.Model Float.Model.UnpackedFloat

namespace Double
variable {em : ExtendedMantissa} {m n : Nat} {e t : Int} {v f : Rat} {accuracy : Accuracy}

/-! ### Mantissas with a rest -/

/-- What the bits behind the last place of a mantissa say of the rest. -/
def IsRest (round sticky : Bool) (f : Rat) : Prop :=
  match round, sticky with
  | false, false => f = 0
  | false, true => 0 < f ∧ f < 1 / 2
  | true, false => f = 1 / 2
  | true, true => 1 / 2 < f ∧ f < 1

/-- The number is the mantissa, with a rest as its bits say, times a power of two. -/
def Represents (em : ExtendedMantissa) (e : Int) (v : Rat) : Prop :=
  ∃ f, IsRest em.roundBit em.stickyBit f ∧ v = (em.mantissa + f) * (2 : Rat) ^ e

theorem IsRest.bounds {round sticky : Bool} (h : IsRest round sticky f) : 0 ≤ f ∧ f < 1 := by
  cases round <;> cases sticky <;> simp only [IsRest] at h
  · norm_num [h]
  · constructor <;> linarith
  · norm_num [h]
  · constructor <;> linarith

/-- The last bit of a mantissa becomes the first one of the rest. -/
theorem IsRest.half {round sticky : Bool} (h : IsRest round sticky f) (m : Nat) :
    IsRest (m % 2 != 0) (round || sticky) (((m % 2 : Nat) + f) / 2) := by
  obtain ⟨hlow, hhigh⟩ := h.bounds
  rcases Nat.mod_two_eq_zero_or_one m with hbit | hbit
  · rw [hbit, Nat.cast_zero, zero_add]
    cases round <;> cases sticky <;> simp only [IsRest] at h
    · exact div_eq_zero_iff.mpr (.inl h)
    all_goals constructor <;> linarith
  · rw [hbit, Nat.cast_one]
    cases round <;> cases sticky <;> simp only [IsRest] at h
    · rw [h, add_zero]
      rfl
    all_goals constructor <;> linarith

theorem Represents.shiftRightOne (h : Represents em e v) :
    Represents em.shiftRightOne (e + 1) v := by
  obtain ⟨f, hf, rfl⟩ := h
  refine ⟨_, hf.half em.mantissa, ?_⟩
  have hsplit : (em.mantissa : Rat) = 2 * (em.mantissa / 2 : Nat) + (em.mantissa % 2 : Nat) := by
    exact_mod_cast (Nat.div_add_mod em.mantissa 2).symm
  change _ = (((em.mantissa / 2 : Nat) : Rat) + _) * _
  rw [zpow_add_one₀ two_ne_zero, hsplit]
  ring

/-- **Shifting keeps what is represented.** -/
theorem Represents.shift (h : Represents em e v) (k : Nat) : Represents (em >>> k) (e + k) v := by
  induction k with
  | zero => rwa [Nat.cast_zero, Int.add_zero]
  | succ k ih =>
    rw [Nat.cast_succ, ← Int.add_assoc]
    exact ih.shiftRightOne

theorem represents_exact (m : Nat) (e : Int) :
    Represents (.ofMantissaAndAccuracy m .exact) e (m * (2 : Rat) ^ e) :=
  ⟨0, rfl, by rw [add_zero]; rfl⟩

theorem Represents.bounds (h : Represents em e v) :
    em.mantissa * (2 : Rat) ^ e ≤ v ∧ v < (em.mantissa + 1) * (2 : Rat) ^ e := by
  obtain ⟨f, hf, rfl⟩ := h
  obtain ⟨hlow, hhigh⟩ := hf.bounds
  have hunit : (0 : Rat) < 2 ^ e := zpow_pos two_pos e
  exact ⟨mul_le_mul_of_nonneg_right (by linarith) hunit.le,
    mul_lt_mul_of_pos_right (by linarith) hunit⟩

/-- The rounded mantissa is the nearest whole number, and the even one of two. -/
theorem IsRest.rounded {round sticky : Bool} (h : IsRest round sticky f) (m : Nat) :
    |m + f - (ExtendedMantissa.mk m round sticky).roundedMantissa| ≤ 1 / 2 ∧
      (|m + f - (ExtendedMantissa.mk m round sticky).roundedMantissa| = 1 / 2 →
        (ExtendedMantissa.mk m round sticky).roundedMantissa % 2 = 0) := by
  cases round <;> cases sticky <;> simp only [IsRest] at h
  · change |m + f - (m : Nat)| ≤ 1 / 2 ∧ (|m + f - (m : Nat)| = 1 / 2 → _)
    rw [add_sub_cancel_left, h, abs_zero]
    exact ⟨by norm_num, fun heq => absurd heq (by norm_num)⟩
  · change |m + f - (m : Nat)| ≤ 1 / 2 ∧ (|m + f - (m : Nat)| = 1 / 2 → _)
    rw [add_sub_cancel_left, abs_of_pos h.1]
    exact ⟨h.2.le, fun heq => absurd heq h.2.ne⟩
  · change |m + f - (m + m % 2 : Nat)| ≤ 1 / 2 ∧ (_ → (m + m % 2) % 2 = 0)
    refine ⟨?_, fun _ => by omega⟩
    rcases Nat.mod_two_eq_zero_or_one m with hbit | hbit <;> rw [hbit, h] <;> norm_num [abs_le]
  · have hrest : |(m : Rat) + f - (m + 1 : Nat)| < 1 / 2 := by
      rw [abs_lt, Nat.cast_succ]
      constructor <;> linarith
    exact ⟨hrest.le, fun heq => absurd heq hrest.ne⟩

theorem Represents.rounded (h : Represents em e v) :
    |v - em.roundedMantissa * (2 : Rat) ^ e| ≤ 2 ^ e / 2 ∧
      (|v - em.roundedMantissa * (2 : Rat) ^ e| = 2 ^ e / 2 → em.roundedMantissa % 2 = 0) := by
  obtain ⟨f, hf, rfl⟩ := h
  have hunit : (0 : Rat) < 2 ^ e := zpow_pos two_pos e
  obtain ⟨hle, heven⟩ := hf.rounded em.mantissa
  have hscaled : |(em.mantissa + f) * (2 : Rat) ^ e - em.roundedMantissa * (2 : Rat) ^ e| =
      |em.mantissa + f - em.roundedMantissa| * 2 ^ e := by
    rw [← sub_mul, abs_mul, abs_of_pos hunit]
  rw [hscaled, div_eq_inv_mul, ← one_div]
  exact ⟨mul_le_mul_of_nonneg_right hle hunit.le,
    fun heq => heven (mul_right_cancel₀ hunit.ne' heq)⟩

/-! ### Rounding -/

theorem mantissa_ofMantissaAndAccuracy (m : Nat) (accuracy : Accuracy) :
    (ExtendedMantissa.ofMantissaAndAccuracy m accuracy).mantissa = m := by
  match accuracy with
  | .exact | .inexact .lt | .inexact .eq | .inexact .gt => rfl

/-- Zeros behind a mantissa change nothing but the exponent. -/
theorem mul_two_pow (m k : Nat) (e : Int) :
    ((m * 2 ^ k : Nat) : Rat) * 2 ^ (e - k) = m * 2 ^ e := by
  rw [zpow_sub₀ two_ne_zero, zpow_natCast]
  push_cast
  field_simp

/-- **Rounding to the nearest.**  The number `n * 2 ^ t` is the multiple of `2 ^ t` that is nearest
to `v`, the even one of two, and `2 ^ t` is the last of 53 binary digits of `v` unless that is too
small. -/
structure RoundsTo (v : Rat) (n : Nat) (t : Int) : Prop where
  le_exponent : -1074 ≤ t
  long_or_least : 2 ^ 52 * (2 : Rat) ^ t ≤ v ∨ t = -1074
  lt : v < 2 ^ 53 * (2 : Rat) ^ t
  abs_sub_le : |v - n * (2 : Rat) ^ t| ≤ 2 ^ t / 2
  even : |v - n * (2 : Rat) ^ t| = 2 ^ t / 2 → n % 2 = 0

/-- A mantissa that is long enough is shifted to the exponent of its last place. -/
theorem exists_shift (accuracy : Accuracy) (h : 2 ^ 52 ≤ m ∨ e ≤ -1074) :
    ∃ k : Nat, shiftToTargetExponent Format.binary64 m e accuracy =
        (ExtendedMantissa.ofMantissaAndAccuracy m accuracy >>> k, e + k) ∧
      e + k = max (m.log2 + 1 + e - 53) (-1074) := by
  refine ⟨(max (m.log2 + 1 + e - 53) (-1074) - e).toNat, rfl, ?_⟩
  rcases h with h | h
  · have := (Nat.le_log2 (k := 52) (by omega)).mpr h
    omega
  · omega

/-- **The first shift rounds.** -/
theorem Represents.exists_roundsTo (h : Represents (.ofMantissaAndAccuracy m accuracy) e v)
    (hlong : 2 ^ 52 ≤ m ∨ e ≤ -1074) :
    ∃ em t, shiftToTargetExponent Format.binary64 m e accuracy = (em, t) ∧
      RoundsTo v em.roundedMantissa t := by
  obtain ⟨k, hshift, ht⟩ := exists_shift accuracy hlong
  refine ⟨_, _, hshift, ?_⟩
  obtain ⟨hhalf, heven⟩ := (h.shift k).rounded
  obtain ⟨hlow, hhigh⟩ := h.bounds
  rw [mantissa_ofMantissaAndAccuracy] at hlow hhigh
  generalize e + k = t at ht hhalf heven
  have hunit : (0 : Rat) < 2 ^ e := zpow_pos two_pos e
  refine ⟨by omega, ?_, ?_, hhalf, heven⟩
  · by_cases hleast : t = -1074
    · exact .inr hleast
    · have hm : 0 < m := by
        rcases Nat.eq_zero_or_pos m with rfl | hm
        · have : (0 : Nat).log2 = 0 := rfl
          omega
        · exact hm
      have hfirst : (2 : Rat) ^ m.log2 ≤ m := by exact_mod_cast Nat.log2_self_le hm.ne'
      refine .inl (le_trans ?_ hlow)
      calc (2 : Rat) ^ 52 * 2 ^ t = 2 ^ m.log2 * 2 ^ e := by
            rw [← zpow_natCast, ← zpow_natCast, ← zpow_add₀ two_ne_zero, ← zpow_add₀ two_ne_zero]
            congr 1
            omega
        _ ≤ m * 2 ^ e := mul_le_mul_of_nonneg_right hfirst hunit.le
  · have hlast : (m : Rat) + 1 ≤ 2 ^ (m.log2 + 1) := by exact_mod_cast Nat.lt_log2_self
    calc v < (m + 1) * 2 ^ e := hhigh
      _ ≤ 2 ^ (m.log2 + 1) * 2 ^ e := mul_le_mul_of_nonneg_right hlast hunit.le
      _ = (2 : Rat) ^ ((m.log2 + 1 : Nat) + e) := by rw [zpow_add₀ two_ne_zero, zpow_natCast]
      _ ≤ (2 : Rat) ^ (53 + t) := zpow_le_zpow_right₀ one_le_two (by omega)
      _ = 2 ^ 53 * (2 : Rat) ^ t := by rw [zpow_add₀ two_ne_zero]; norm_num

namespace RoundsTo

theorem le_add (h : RoundsTo v n t) : n * (2 : Rat) ^ t ≤ v + 2 ^ t / 2 := by
  linarith [(abs_le.mp h.abs_sub_le).1]

theorem sub_le (h : RoundsTo v n t) : v ≤ n * (2 : Rat) ^ t + 2 ^ t / 2 := by
  linarith [(abs_le.mp h.abs_sub_le).2]

/-- Rounding goes up to the next power of two at most. -/
theorem le (h : RoundsTo v n t) : n ≤ 2 ^ 53 := by
  have hunit : (0 : Rat) < 2 ^ t := zpow_pos two_pos t
  have hscaled : (n : Rat) * 2 ^ t < (2 ^ 53 + 1) * 2 ^ t := by linarith [h.le_add, h.lt]
  have hlt : (n : Rat) < 2 ^ 53 + 1 := lt_of_mul_lt_mul_right hscaled hunit.le
  exact Nat.lt_succ_iff.mp (by exact_mod_cast hlt)

/-- What has 53 digits has them after rounding, too. -/
theorem long (h : RoundsTo v n t) : 2 ^ 52 ≤ n ∨ t = -1074 := by
  refine h.long_or_least.imp_left fun hlong => ?_
  have hunit : (0 : Rat) < 2 ^ t := zpow_pos two_pos t
  have hscaled : (2 : Rat) ^ 52 * 2 ^ t < (n + 1) * 2 ^ t := by linarith [h.sub_le]
  have hlt : (2 : Rat) ^ 52 < n + 1 := lt_of_mul_lt_mul_right hscaled hunit.le
  exact Nat.lt_succ_iff.mp (by exact_mod_cast hlt)

/-- A number with 53 digits down to one place does not have more of them down to another. -/
theorem exponent_le_of_long {t t' : Int} (hlong : 2 ^ 52 * (2 : Rat) ^ t' ≤ v)
    (hlt : v < 2 ^ 53 * (2 : Rat) ^ t) : t' ≤ t := by
  have hscaled := hlong.trans_lt hlt
  have hpower : (2 : Rat) ^ (52 + t') < 2 ^ (53 + t) := by
    rw [zpow_add₀ two_ne_zero, zpow_add₀ two_ne_zero]
    exact_mod_cast hscaled
  have := (zpow_lt_zpow_iff_right₀ one_lt_two).mp hpower
  omega

/-- The last place is determined by the number. -/
theorem exponent_le (h : RoundsTo v n t) {n' : Nat} {t' : Int} (h' : RoundsTo v n' t') :
    t' ≤ t := by
  rcases h'.long_or_least with hlong | hleast
  · exact exponent_le_of_long hlong h.lt
  · exact hleast.trans_le h.le_exponent

/-- The last place of a number with 53 digits. -/
theorem exponent_eq (h : RoundsTo v n t) {t' : Int} (hle : -1074 ≤ t')
    (hlong : 2 ^ 52 * (2 : Rat) ^ t' ≤ v) (hlt : v < 2 ^ 53 * (2 : Rat) ^ t') : t = t' := by
  refine le_antisymm ?_ (exponent_le_of_long hlong h.lt)
  rcases h.long_or_least with hlong | hleast
  · exact exponent_le_of_long hlong hlt
  · exact hleast.trans_le hle

/-- A multiple of the last place that is nearer than half of it is what the number is rounded to. -/
theorem mantissa_eq (h : RoundsTo v n t) {m : Nat} (hm : |v - m * (2 : Rat) ^ t| < 2 ^ t / 2) :
    n = m := by
  have hunit : (0 : Rat) < 2 ^ t := zpow_pos two_pos t
  obtain ⟨hlow, hhigh⟩ := abs_lt.mp hm
  have hle : (n : Rat) * 2 ^ t < (m + 1) * 2 ^ t := by linarith [h.le_add]
  have hge : (m : Rat) * 2 ^ t < (n + 1) * 2 ^ t := by linarith [h.sub_le]
  have hle : (n : Rat) < m + 1 := lt_of_mul_lt_mul_right hle hunit.le
  have hge : (m : Rat) < n + 1 := lt_of_mul_lt_mul_right hge hunit.le
  have hle : n < m + 1 := by exact_mod_cast hle
  have hge : m < n + 1 := by exact_mod_cast hge
  omega

/-- **What is near a whole number is rounded to a whole number.** -/
theorem den_eq_one (h : RoundsTo v n t) {k : Nat} (hk : |v - k| < (2 : Rat) ^ t / 2) :
    ((n : Rat) * 2 ^ t).den = 1 := by
  rcases le_or_gt 0 t with ht | ht
  · obtain ⟨j, rfl⟩ := Int.eq_ofNat_of_zero_le ht
    rw [zpow_natCast]
    exact_mod_cast Rat.den_natCast (n * 2 ^ j)
  · obtain ⟨j, hj⟩ : ∃ j : Nat, 0 - (j : Int) = t := ⟨(-t).toNat, by omega⟩
    have hmultiple := mul_two_pow k j 0
    rw [hj, zpow_zero, mul_one] at hmultiple
    rw [← hmultiple] at hk
    rw [h.mantissa_eq hk, hmultiple]
    exact Rat.den_natCast k

/-- Two neighbours are not both nearest: they would be equally far, and only one is even. -/
theorem mantissa_le (h : RoundsTo v n t) {n' : Nat} (h' : RoundsTo v n' t) : n' ≤ n := by
  have hunit : (0 : Rat) < 2 ^ t := zpow_pos two_pos t
  by_contra hlt
  have hnext : (n : Rat) + 1 ≤ n' := by exact_mod_cast not_le.mp hlt
  have hscaled : (n : Rat) * 2 ^ t + 2 ^ t ≤ n' * 2 ^ t := by
    rw [← add_one_mul]
    exact mul_le_mul_of_nonneg_right hnext hunit.le
  have hlow := h.sub_le
  have hhigh := h'.le_add
  have htie : |v - n * (2 : Rat) ^ t| = 2 ^ t / 2 := by
    rw [abs_of_nonneg (by linarith)]
    linarith
  have htie' : |v - n' * (2 : Rat) ^ t| = 2 ^ t / 2 := by
    rw [abs_of_nonpos (by linarith)]
    linarith
  have hone : n' = n + 1 := by
    have hscaled : (n' : Rat) * 2 ^ t ≤ (n + 1) * 2 ^ t := by linarith
    have : (n' : Rat) ≤ n + 1 := le_of_mul_le_mul_right hscaled hunit
    have : n' ≤ n + 1 := by exact_mod_cast this
    omega
  have := h.even htie
  have := h'.even htie'
  omega

/-- **A number is rounded to one double only.** -/
theorem unique (h : RoundsTo v n t) {n' : Nat} {t' : Int} (h' : RoundsTo v n' t') :
    n' = n ∧ t' = t := by
  obtain rfl := le_antisymm (h.exponent_le h') (h'.exponent_le h)
  exact ⟨le_antisymm (h.mantissa_le h') (h'.mantissa_le h), rfl⟩

theorem half_zpow {k j : Int} (h : k - 1 = j) : (2 : Rat) ^ k / 2 = 2 ^ j := by
  rw [← h, zpow_sub_one₀ two_ne_zero, div_eq_mul_inv]

/-- What is not rounded to zero is at least one half of its last place. -/
theorem half_le (h : RoundsTo v n t) (hn : n ≠ 0) : 2 ^ t / 2 ≤ v := by
  have hunit : (0 : Rat) < 2 ^ t := zpow_pos two_pos t
  rcases h.long_or_least with hlong | -
  · linarith
  · have hone : (2 : Rat) ^ t ≤ n * 2 ^ t :=
      le_mul_of_one_le_left hunit.le (by exact_mod_cast Nat.pos_of_ne_zero hn)
    linarith [h.le_add]

/-- **What is rounded to zero**: the numbers up to one half of the least double. -/
theorem eq_zero_iff (h : RoundsTo v n t) : n = 0 ↔ v ≤ 2 ^ (-1075 : Int) := by
  have hhalf : (2 : Rat) ^ (-1074 : Int) / 2 = 2 ^ (-1075 : Int) := half_zpow rfl
  constructor
  · intro hzero
    have hunit : (0 : Rat) < 2 ^ t := zpow_pos two_pos t
    have hle := h.sub_le
    rw [hzero, Nat.cast_zero, zero_mul, zero_add] at hle
    rcases h.long_or_least with hlong | rfl
    · linarith
    · rwa [hhalf] at hle
  · intro hle
    by_contra hne
    have hlow := h.half_le hne
    have ht : t = -1074 := by
      have hunits : (2 : Rat) ^ t ≤ 2 ^ (-1074 : Int) := by linarith
      exact le_antisymm ((zpow_le_zpow_iff_right₀ one_lt_two).mp hunits) h.le_exponent
    have hle : v ≤ 2 ^ t / 2 := by
      rw [ht, hhalf]
      exact hle
    -- the number lies halfway between zero and the least double, and zero is even
    have hunit : (0 : Rat) < 2 ^ t := zpow_pos two_pos t
    have hscaled : (n : Rat) * 2 ^ t ≤ 1 * 2 ^ t := by linarith [h.le_add]
    have hone : (n : Rat) ≤ 1 := le_of_mul_le_mul_right hscaled hunit
    have hone : n = 1 := le_antisymm (by exact_mod_cast hone) (Nat.pos_of_ne_zero hne)
    have htie : |v - n * 2 ^ t| = 2 ^ t / 2 := by
      rw [hone, Nat.cast_one, one_mul, abs_of_nonpos (by linarith)]
      linarith
    have heven := h.even htie
    omega

/-- Rounding at most doubles a number. -/
theorem le_two_mul (h : RoundsTo v n t) (hv : 0 ≤ v) : n * (2 : Rat) ^ t ≤ 2 * v := by
  by_cases hn : n = 0
  · rw [hn, Nat.cast_zero, zero_mul]
    linarith
  · linarith [h.le_add, h.half_le hn]

/-- Rounding halves a number at most, unless it is rounded to zero. -/
theorem le_two_mul_rounded (h : RoundsTo v n t) (hn : n ≠ 0) :
    v ≤ 2 * (n * (2 : Rat) ^ t) := by
  have hunit : (0 : Rat) < 2 ^ t := zpow_pos two_pos t
  have hone : (2 : Rat) ^ t ≤ n * 2 ^ t :=
    le_mul_of_one_le_left hunit.le (by exact_mod_cast Nat.pos_of_ne_zero hn)
  linarith [h.sub_le]

/-- Rounding does not go beyond a power of two. -/
theorem le_two_zpow (h : RoundsTo v n t) {k : Int} (hk : -1074 ≤ k) (hv : v ≤ 2 ^ k) :
    n * (2 : Rat) ^ t ≤ 2 ^ k := by
  have hunit : (0 : Rat) < 2 ^ t := zpow_pos two_pos t
  rcases le_or_gt t k with hle | hlt
  · obtain ⟨j, rfl⟩ : ∃ j : Nat, k = j + t := ⟨(k - t).toNat, by omega⟩
    rw [zpow_add₀ two_ne_zero, zpow_natCast] at hv ⊢
    have hscaled : (n : Rat) * 2 ^ t < (2 ^ j + 1) * 2 ^ t := by linarith [h.le_add]
    have hn : (n : Rat) < 2 ^ j + 1 := lt_of_mul_lt_mul_right hscaled hunit.le
    have hn : n ≤ 2 ^ j := Nat.lt_succ_iff.mp (by exact_mod_cast hn)
    exact mul_le_mul_of_nonneg_right (by exact_mod_cast hn) hunit.le
  · rcases h.long_or_least with hlong | hleast
    · have : (2 : Rat) ^ k < 2 ^ t := zpow_lt_zpow_right₀ one_lt_two hlt
      linarith
    · omega

end RoundsTo

/-- A rounded number as a mantissa and an exponent. -/
def ofRounded (s : Sign) (n : Nat) (t : Int) : UnpackedFloat :=
  if h : n = 0 then .zero s
  else if n = 2 ^ 53 then .finite s (2 ^ 52) (t + 1) (Nat.two_pow_pos 52)
  else .finite s n t (Nat.pos_of_ne_zero h)

/-- The second shift only shortens a power of two. -/
theorem shift_rounded (hn : n ≤ 2 ^ 53) (ht : -1074 ≤ t) :
    shiftToTargetExponent Format.binary64 n t .exact =
      if n = 2 ^ 53 then (⟨2 ^ 52, false, false⟩, t + 1) else (⟨n, false, false⟩, t) := by
  have hshift : ∀ k : Nat, (max (n.log2 + 1 + t - 53) (-1074) - t).toNat = k →
      shiftToTargetExponent Format.binary64 n t .exact =
        ((⟨n, false, false⟩ : ExtendedMantissa) >>> k, t + k) := by
    rintro k rfl
    rfl
  split
  · rename_i hcarry
    have hlog : n.log2 = 53 := hcarry ▸ Nat.log2_two_pow
    rw [hshift 1 (by omega), hcarry]
    exact Prod.ext (shift_exact (2 ^ 52) 1) rfl
  · have hlog : n.log2 ≤ 52 := by
      rcases Nat.eq_zero_or_pos n with rfl | hpos
      · exact Nat.zero_le 52
      · exact Nat.le_of_lt_succ ((Nat.log2_lt hpos.ne').mpr (by omega))
    rw [hshift 0 (by omega)]
    exact Prod.ext rfl (Int.add_zero t)

/-- **Inside an operation the result is rounded to the nearest.** -/
theorem Represents.exists_roundWithAccuracy (s : Sign)
    (h : Represents (.ofMantissaAndAccuracy m accuracy) e v) (hlong : 2 ^ 52 ≤ m ∨ e ≤ -1074) :
    ∃ n t, RoundsTo v n t ∧
      roundWithAccuracy Format.binary64 s m e accuracy = ofRounded s n t := by
  obtain ⟨em, t, hshift, hround⟩ := h.exists_roundsTo hlong
  refine ⟨em.roundedMantissa, t, hround, ?_⟩
  unfold roundWithAccuracy
  rw [hshift]
  change (match shiftToTargetExponent Format.binary64 em.roundedMantissa t .exact with
    | (x, e) => if h : x.mantissa = 0 then UnpackedFloat.zero s
      else .finite s x.mantissa e (Nat.pos_of_ne_zero h)) = _
  rw [shift_rounded hround.le hround.le_exponent]
  generalize em.roundedMantissa = n
  unfold ofRounded
  by_cases hcarry : n = 2 ^ 53
  · subst hcarry
    rfl
  · rw [if_neg hcarry]
    by_cases hzero : n = 0
    · rw [dif_pos hzero]
      exact dif_pos hzero
    · rw [dif_neg hzero, if_neg hcarry]
      exact dif_neg hzero

/-! ### Values of rounded numbers -/

/-- The value of a number that was rounded to `w`, but for its sign: from `2 ^ 1024` on it is an
infinity. -/
def valueOfRounded (negative : Bool) (w : Rat) : Extended :=
  if w < 2 ^ 1024 then .finite (if negative then -w else w) else .infinite negative

theorem isFinite_valueOfRounded (negative : Bool) {w : Rat} (h : w < 2 ^ 1024) :
    (valueOfRounded negative w).isFinite := by
  rw [valueOfRounded, if_pos h]
  rfl

theorem pack_of_large (s : Sign) (hm : 0 < m) (ht : 972 ≤ t) :
    UnpackedFloat.pack Format.binary64 (.finite s m t hm) =
      packedInfinity Format.binary64 s := by
  have hbiased : t + Format.binary64.exponentBias +
      Format.binary64.mantissaBitsWithoutImplicit = t + 1075 := add_assoc t 1023 52
  unfold UnpackedFloat.pack
  simp only [hbiased]
  exact if_pos (show 2 ^ 11 ≤ (t + 1075).toNat + 1 by omega)

/-- What is as long as it can be is below `2 ^ 1024` if its exponent is not too large. -/
theorem lt_two_pow_iff (hlt : m < 2 ^ 53) (hlong : 2 ^ 52 ≤ m ∨ t = -1074) :
    (m : Rat) * 2 ^ t < 2 ^ 1024 ↔ t ≤ 971 := by
  have hunit : (0 : Rat) < 2 ^ t := zpow_pos two_pos t
  constructor
  · intro h
    rcases hlong with hlong | rfl
    · have hlow : (2 : Rat) ^ 52 * 2 ^ t ≤ m * 2 ^ t :=
        mul_le_mul_of_nonneg_right (by exact_mod_cast hlong) hunit.le
      rw [← zpow_natCast, ← zpow_add₀ two_ne_zero] at hlow
      rw [← zpow_natCast (2 : Rat) 1024] at h
      have := (zpow_lt_zpow_iff_right₀ one_lt_two).mp (hlow.trans_lt h)
      omega
    · decide
  · intro h
    calc (m : Rat) * 2 ^ t < 2 ^ 53 * 2 ^ t :=
          mul_lt_mul_of_pos_right (by exact_mod_cast hlt) hunit
      _ = (2 : Rat) ^ (53 + t) := by rw [zpow_add₀ two_ne_zero]; norm_num
      _ ≤ (2 : Rat) ^ (1024 : Int) := zpow_le_zpow_right₀ one_le_two (by omega)
      _ = 2 ^ 1024 := zpow_natCast 2 1024

/-- The value that the result of an operation has as a double. -/
def packedValue (f : UnpackedFloat) : Extended :=
  Extended.ofUnpacked (UnpackedFloat.unpack Format.binary64 (UnpackedFloat.pack Format.binary64 f))

theorem packedValue_of_fits {f : UnpackedFloat} (h : Fits f) :
    packedValue f = Extended.ofUnpacked f := congrArg Extended.ofUnpacked (unpack_pack h)

theorem packedValue_zero (s : Sign) : packedValue (.zero s) = .finite 0 :=
  packedValue_of_fits (f := .zero s) trivial

theorem packedValue_finite (s : Sign) (hm : 0 < m) (hlt : m < 2 ^ 53) (ht : -1074 ≤ t)
    (hlong : 2 ^ 52 ≤ m ∨ t = -1074) : packedValue (.finite s m t hm) =
      valueOfRounded (BinaryFraction.isMinus s) (m * 2 ^ t) := by
  unfold valueOfRounded
  by_cases hhigh : t ≤ 971
  · have hfits : Fits (.finite s m t hm) := ⟨hlt, ht, hhigh, hlong⟩
    rw [if_pos ((lt_two_pow_iff hlt hlong).mpr hhigh), packedValue_of_fits hfits]
    change Extended.finite ((s.apply m : Int) * 2 ^ t) = _
    cases s <;> simp [Sign.apply, BinaryFraction.isMinus]
  · rw [if_neg (mt (lt_two_pow_iff hlt hlong).mp hhigh), packedValue,
      pack_of_large s hm (by omega), packedInfinity]
    exact congrArg Extended.ofUnpacked (unpack_packComponents s _ _)

/-- **The value of a rounded number.** -/
theorem RoundsTo.packedValue_eq (s : Sign) (h : RoundsTo v n t) : packedValue (ofRounded s n t) =
    valueOfRounded (BinaryFraction.isMinus s) (n * 2 ^ t) := by
  unfold ofRounded
  by_cases hzero : n = 0
  · rw [dif_pos hzero, packedValue_zero, hzero, valueOfRounded, Nat.cast_zero, zero_mul,
      if_pos (by positivity), neg_zero, ite_self]
  rw [dif_neg hzero]
  by_cases hcarry : n = 2 ^ 53
  · have hlow := h.le_exponent
    have hvalue : ((2 ^ 52 : Nat) : Rat) * 2 ^ (t + 1) = (2 ^ 53 : Nat) * 2 ^ t := by
      rw [zpow_add_one₀ two_ne_zero]
      push_cast
      ring
    rw [if_pos hcarry, hcarry, ← hvalue]
    exact packedValue_finite s _ (by decide) (by omega) (.inl le_rfl)
  · rw [if_neg hcarry]
    exact packedValue_finite s _ (lt_of_le_of_ne h.le hcarry) h.le_exponent h.long

/-! ### Operations -/

/-- **The value is that of the double nearest to `v`.** -/
def IsRounding (v : Rat) (value : Extended) : Prop :=
  ∃ n t, RoundsTo |v| n t ∧ value = valueOfRounded (v < 0) (n * 2 ^ t)

/-- **What is at most one half of the least double is rounded to zero.** -/
theorem isRounding_of_le (hv : 0 ≤ v) (hle : v ≤ 2 ^ (-1075 : Int)) :
    IsRounding v (.finite 0) := by
  have hhalf : (2 : Rat) ^ (-1074 : Int) / 2 = 2 ^ (-1075 : Int) := RoundsTo.half_zpow rfl
  have hunit : (0 : Rat) < 2 ^ (-1074 : Int) := zpow_pos two_pos _
  refine ⟨0, -1074, ⟨le_rfl, .inr rfl, ?_, ?_, fun _ => rfl⟩, ?_⟩
  · rw [abs_of_nonneg hv]
    linarith
  · rwa [Nat.cast_zero, zero_mul, sub_zero, abs_abs, abs_of_nonneg hv, hhalf]
  · rw [Nat.cast_zero, zero_mul, valueOfRounded, if_pos (by positivity), if_neg (by simpa using hv)]

/-- Zero is exact. -/
theorem isRounding_zero : IsRounding 0 (.finite 0) :=
  isRounding_of_le le_rfl (zpow_pos two_pos _).le

theorem isRounding_packed_zero (s : Sign) : IsRounding 0 (packedValue (.zero s)) :=
  packedValue_zero s ▸ isRounding_zero

/-- A result that is not zero has a mantissa and the sign of the exact one. -/
theorem isRounding_of_roundsTo (s : Sign) (hpos : 0 < v) (h : RoundsTo v n t) :
    IsRounding (s.apply 1 * v) (packedValue (ofRounded s n t)) := by
  rw [h.packedValue_eq]
  refine ⟨n, t, ?_, ?_⟩
  · cases s <;> simpa [Sign.apply, abs_of_pos hpos] using h
  · have hsign : decide ((s.apply 1 : Rat) * v < 0) = BinaryFraction.isMinus s := by
      cases s <;> simp [Sign.apply, BinaryFraction.isMinus, hpos, hpos.le]
    rw [hsign]

theorem apply_eq (s : Sign) (z : Int) : s.apply z = s.apply 1 * z := by
  cases s <;> simp [Sign.apply]

theorem apply_mul (s₁ s₂ : Sign) : (s₁ * s₂).apply 1 = s₁.apply 1 * s₂.apply 1 := by
  cases s₁ <;> cases s₂ <;> rfl

theorem apply_div (s₁ s₂ : Sign) : (s₁ / s₂).apply 1 = s₁.apply 1 * s₂.apply 1 := by
  cases s₁ <;> cases s₂ <;> rfl

/-- A sign is its own inverse. -/
theorem apply_one_mul_self (s : Sign) : s.apply 1 * s.apply 1 = 1 := by cases s <;> rfl

/-- What fits is not rounded. -/
theorem roundsTo_of_fits (hlt : m < 2 ^ 53) (ht : -1074 ≤ t) (hlong : 2 ^ 52 ≤ m ∨ t = -1074) :
    RoundsTo (m * 2 ^ t) m t := by
  have hunit : (0 : Rat) < 2 ^ t := zpow_pos two_pos t
  refine ⟨ht, ?_, ?_, ?_, fun heq => ?_⟩
  · exact hlong.imp_left fun h => mul_le_mul_of_nonneg_right (by exact_mod_cast h) hunit.le
  · exact mul_lt_mul_of_pos_right (by exact_mod_cast hlt) hunit
  · rw [sub_self, abs_zero]
    exact (half_pos hunit).le
  · rw [sub_self, abs_zero] at heq
    exact absurd heq (half_pos hunit).ne

/-- A quotient of whole numbers without its fraction, with what its accuracy says of that. -/
theorem represents_quotient (m : Nat) {d : Nat} (hd : 0 < d) (e : Int) :
    Represents (.ofMantissaAndAccuracy (m / d) (accuracyOfFraction (m % d) d)) e
      (m / d * (2 : Rat) ^ e) := by
  have hd' : (0 : Rat) < d := by exact_mod_cast hd
  have hdivision : (m : Rat) = d * (m / d : Nat) + (m % d : Nat) := by
    exact_mod_cast (Nat.div_add_mod m d).symm
  refine ⟨(m % d : Nat) / d, ?_, ?_⟩
  · have hlt : ((m % d : Nat) : Rat) < d := by exact_mod_cast Nat.mod_lt m hd
    generalize m % d = r at hlt
    unfold accuracyOfFraction
    by_cases hzero : r = 0
    · rw [if_pos hzero, hzero, Nat.cast_zero, zero_div]
      rfl
    rw [if_neg hzero]
    have hpos : (0 : Rat) < r := by exact_mod_cast Nat.pos_of_ne_zero hzero
    rcases hcompare : compare (2 * r) d with _ | _ | _
    · have hhalf : 2 * (r : Rat) < d := by exact_mod_cast Nat.compare_eq_lt.mp hcompare
      exact ⟨div_pos hpos hd', by rw [div_lt_iff₀ hd']; linarith⟩
    · have hhalf : 2 * (r : Rat) = d := by exact_mod_cast Nat.compare_eq_eq.mp hcompare
      change (r : Rat) / d = 1 / 2
      rw [div_eq_iff hd'.ne']
      linarith
    · have hhalf : (d : Rat) < 2 * r := by exact_mod_cast Nat.compare_eq_gt.mp hcompare
      exact ⟨by rw [lt_div_iff₀ hd']; linarith, (div_lt_one hd').mpr hlt⟩
  · rw [mantissa_ofMantissaAndAccuracy]
    congr 1
    rw [div_eq_iff hd'.ne', add_mul, div_mul_cancel₀ _ hd'.ne', mul_comm]
    exact hdivision

/-- The dividend is made long enough before it is divided. -/
theorem exists_div (s₁ s₂ : Sign) {m₁ m₂ : Nat} (e₁ e₂ : Int) (hm₁ : 0 < m₁) (hm₂ : 0 < m₂) :
    ∃ (k : Nat) (e : Int), e + k = e₁ - e₂ ∧
      e ≤ Format.binary64.targetExponent (totalExponent m₁ e₁ - totalExponent m₂ e₂) ∧
      UnpackedFloat.div Format.binary64 (.finite s₁ m₁ e₁ hm₁) (.finite s₂ m₂ e₂ hm₂) =
        roundWithAccuracy Format.binary64 (s₁ / s₂) (m₁ * 2 ^ k / m₂) e
          (accuracyOfFraction (m₁ * 2 ^ k % m₂) m₂) := by
  let target := min (e₁ - e₂) (Format.binary64.targetExponent
    (totalExponent m₁ e₁ - totalExponent m₂ e₂))
  have htarget : target ≤ e₁ - e₂ := min_le_left _ _
  refine ⟨(e₁ - e₂ - target).toNat, target, by omega, min_le_right _ _, ?_⟩
  rw [← Nat.shiftLeft_eq]
  rfl

/-- The quotient of a dividend that was made long enough is long enough. -/
theorem long_quotient {m₁ m₂ k : Nat} {e₁ e₂ : Int} (hm₁ : 0 < m₁) (hm₂ : 0 < m₂)
    (hk : e + k = e₁ - e₂)
    (he : e ≤ Format.binary64.targetExponent (totalExponent m₁ e₁ - totalExponent m₂ e₂)) :
    2 ^ 52 ≤ m₁ * 2 ^ k / m₂ ∨ e ≤ -1074 := by
  change e ≤ max (m₁.log2 + 1 + e₁ - (m₂.log2 + 1 + e₂) - 53) (-1074) at he
  rcases le_max_iff.mp he with he | he
  · refine .inl ((Nat.le_div_iff_mul_le hm₂).mpr ?_)
    calc 2 ^ 52 * m₂ ≤ 2 ^ 52 * 2 ^ (m₂.log2 + 1) := Nat.mul_le_mul_left _ Nat.lt_log2_self.le
      _ = 2 ^ (52 + (m₂.log2 + 1)) := (Nat.pow_add 2 52 _).symm
      _ ≤ 2 ^ (m₁.log2 + k) := Nat.pow_le_pow_right two_pos (by omega)
      _ = 2 ^ m₁.log2 * 2 ^ k := Nat.pow_add 2 _ _
      _ ≤ m₁ * 2 ^ k := Nat.mul_le_mul_right _ (Nat.log2_self_le hm₁.ne')
  · exact .inr he

/-- Operands are added at the least of their exponents. -/
theorem apply_shiftLeft (s : Sign) (m : Nat) {f : Int} (h : f ≤ e) :
    (s.apply (m <<< (e - f).toNat : Nat) : Int) * (2 : Rat) ^ f = (s.apply m : Int) * 2 ^ e := by
  have hf : f = e - (e - f).toNat := by omega
  have hshift := mul_two_pow m (e - f).toNat e
  rw [← hf, ← Nat.shiftLeft_eq] at hshift
  rw [apply_eq s (_ : Nat), apply_eq s m, Int.cast_mul, Int.cast_mul, mul_assoc, mul_assoc,
    Int.cast_natCast, Int.cast_natCast, hshift]

/-- A mantissa is made long enough before it is rounded. -/
theorem exists_round (s : Sign) (hm : 0 < m) (e : Int) :
    ∃ n t, RoundsTo (m * (2 : Rat) ^ e) n t ∧
      UnpackedFloat.round Format.binary64 s m e = ofRounded s n t := by
  let k := (e - max (m.log2 + 1 + e - 53) (-1074)).toNat
  have hlong : 2 ^ 52 ≤ m * 2 ^ k ∨ e - k ≤ -1074 := by
    by_cases hleast : e - k ≤ -1074
    · exact .inr hleast
    · refine .inl ?_
      calc 2 ^ 52 ≤ 2 ^ (m.log2 + k) := Nat.pow_le_pow_right two_pos (by omega)
        _ = 2 ^ m.log2 * 2 ^ k := Nat.pow_add 2 _ _
        _ ≤ m * 2 ^ k := Nat.mul_le_mul_right _ (Nat.log2_self_le hm.ne')
  obtain ⟨n, t, hround, hresult⟩ :=
    (represents_exact (m * 2 ^ k) (e - k)).exists_roundWithAccuracy s hlong
  rw [mul_two_pow] at hround
  rw [← Nat.shiftLeft_eq] at hresult
  exact ⟨n, t, hround, hresult⟩

theorem isRounding_round (s : Sign) (hm : 0 < m) (e : Int) :
    IsRounding (s.apply 1 * (m * 2 ^ e))
      (packedValue (UnpackedFloat.round Format.binary64 s m e)) := by
  obtain ⟨n, t, hround, hresult⟩ := exists_round s hm e
  rw [hresult]
  exact isRounding_of_roundsTo s (mul_pos (by exact_mod_cast hm) (zpow_pos two_pos e)) hround

/-- A whole number times a power of two is rounded to the nearest. -/
theorem isRounding_normalize (z e : Int) (s : Sign) :
    IsRounding (z * (2 : Rat) ^ e)
      (packedValue (UnpackedFloat.normalize Format.binary64 z e s)) := by
  unfold UnpackedFloat.normalize
  rcases lt_trichotomy z 0 with hneg | rfl | hpos
  · have habs : ((-z).toNat : Rat) = -z := by
      rw [← Int.cast_natCast, Int.toNat_of_nonneg (by omega), Int.cast_neg]
    have := isRounding_round .negative (m := (-z).toNat) (by omega) e
    rw [habs] at this
    rw [Int.compare_eq_lt.mpr hneg]
    simpa [Sign.apply] using this
  · rw [Int.cast_zero, zero_mul]
    exact isRounding_packed_zero s
  · have habs : (z.toNat : Rat) = z := by
      rw [← Int.cast_natCast, Int.toNat_of_nonneg hpos.le]
    have := isRounding_round .positive (m := z.toNat) (by omega) e
    rw [habs] at this
    rw [Int.compare_eq_gt.mpr hpos]
    simpa [Sign.apply] using this

/-- A product of mantissas of which one is long enough. -/
theorem isRounding_packed_mul (s₁ s₂ : Sign) {m₁ m₂ : Nat} {e₁ e₂ : Int} (hm₁ : 0 < m₁)
    (hm₂ : 0 < m₂) (hlong : 2 ^ 52 ≤ m₁ * m₂ ∨ e₁ + e₂ ≤ -1074) :
    IsRounding ((s₁ * s₂).apply 1 * ((m₁ * m₂ : Nat) * 2 ^ (e₁ + e₂)))
      (packedValue (UnpackedFloat.mul Format.binary64 (.finite s₁ m₁ e₁ hm₁)
        (.finite s₂ m₂ e₂ hm₂))) := by
  obtain ⟨n, t, hround, hresult⟩ :=
    (represents_exact (m₁ * m₂) (e₁ + e₂)).exists_roundWithAccuracy (s₁ * s₂) hlong
  have hpos : (0 : Rat) < (m₁ * m₂ : Nat) * 2 ^ (e₁ + e₂) :=
    mul_pos (by exact_mod_cast Nat.mul_pos hm₁ hm₂) (zpow_pos two_pos _)
  change IsRounding _ (packedValue (roundWithAccuracy _ _ _ _ _))
  rw [hresult]
  exact isRounding_of_roundsTo _ hpos hround

/-- A quotient of mantissas. -/
theorem isRounding_packed_div (s₁ s₂ : Sign) {m₁ m₂ : Nat} (hm₁ : 0 < m₁) (hm₂ : 0 < m₂)
    (e₁ e₂ : Int) : IsRounding ((s₁ / s₂).apply 1 * ((m₁ : Rat) / m₂ * 2 ^ (e₁ - e₂)))
      (packedValue (UnpackedFloat.div Format.binary64 (.finite s₁ m₁ e₁ hm₁)
        (.finite s₂ m₂ e₂ hm₂))) := by
  obtain ⟨k, e, hk, he, hdiv⟩ := exists_div s₁ s₂ e₁ e₂ hm₁ hm₂
  obtain ⟨n, t, hround, hresult⟩ :=
    (represents_quotient (m₁ * 2 ^ k) hm₂ e).exists_roundWithAccuracy (s₁ / s₂)
      (long_quotient hm₁ hm₂ hk he)
  have hquotient : ((m₁ * 2 ^ k : Nat) : Rat) / m₂ * 2 ^ e = m₁ / m₂ * 2 ^ (e₁ - e₂) := by
    rw [← hk, zpow_add₀ two_ne_zero, zpow_natCast]
    push_cast
    ring
  have hpos : (0 : Rat) < m₁ / m₂ * 2 ^ (e₁ - e₂) :=
    mul_pos (div_pos (by exact_mod_cast hm₁) (by exact_mod_cast hm₂)) (zpow_pos two_pos _)
  rw [hquotient] at hround
  rw [hdiv, hresult]
  exact isRounding_of_roundsTo _ hpos hround

end Double

open Double
variable {x y : Float} {p q : Rat}

theorem ofFloat_mul_eq (x y : Float) : Extended.ofFloat (x * y) =
    packedValue (UnpackedFloat.mul Format.binary64 x.toModel.unpack y.toModel.unpack) :=
  ofFloat_eq _

theorem ofFloat_div_eq (x y : Float) : Extended.ofFloat (x / y) =
    packedValue (UnpackedFloat.div Format.binary64 x.toModel.unpack y.toModel.unpack) :=
  ofFloat_eq _

theorem ofFloat_add_eq (x y : Float) : Extended.ofFloat (x + y) =
    packedValue (UnpackedFloat.add Format.binary64 x.toModel.unpack y.toModel.unpack) :=
  ofFloat_eq _

/-- The value of a double is rounded already. -/
theorem isRounding_self (hx : Extended.ofFloat x = .finite q) : IsRounding q (.finite q) := by
  rcases unpack_cases hx with ⟨rfl, -⟩ | ⟨s, m, e, hm, hs, hq⟩
  · exact isRounding_zero
  have hfits := fits_toModel x
  rw [hs] at hfits
  have hpacked : packedValue (ofRounded s m e) = .finite q := by
    rw [ofRounded, dif_neg hm.ne', if_neg hfits.1.ne, packedValue_of_fits hfits, ← hs, ← hx,
      ofFloat_eq]
  have hpos : (0 : Rat) < m * 2 ^ e := mul_pos (by exact_mod_cast hm) (zpow_pos two_pos e)
  have hround := isRounding_of_roundsTo s hpos
    (roundsTo_of_fits hfits.1 hfits.2.1 hfits.2.2.2)
  have hvalue : q = s.apply 1 * (m * 2 ^ e) := by
    rw [hq, apply_eq, Int.cast_mul, mul_assoc, Int.cast_natCast]
  rwa [hpacked, ← hvalue] at hround

/-- **Products are rounded to the nearest.** -/
theorem isRounding_mul (hx : Extended.ofFloat x = .finite p)
    (hy : Extended.ofFloat y = .finite q) : IsRounding (p * q) (Extended.ofFloat (x * y)) := by
  rcases unpack_cases hx with ⟨rfl, -⟩ | ⟨s₁, m₁, e₁, hm₁, hs₁, hp⟩
  · rw [zero_mul, ofFloat_zero_mul hx hy]
    exact isRounding_zero
  rcases unpack_cases hy with ⟨rfl, -⟩ | ⟨s₂, m₂, e₂, hm₂, hs₂, hq⟩
  · rw [mul_zero, ofFloat_mul_zero hx hy]
    exact isRounding_zero
  have hfits₁ := fits_toModel x
  have hfits₂ := fits_toModel y
  rw [hs₁] at hfits₁
  rw [hs₂] at hfits₂
  -- one of the mantissas is long enough, or both exponents are the least
  have hlong : 2 ^ 52 ≤ m₁ * m₂ ∨ e₁ + e₂ ≤ -1074 := by
    rcases hfits₁.2.2.2 with hlong | hleast
    · exact .inl (hlong.trans (Nat.le_mul_of_pos_right m₁ hm₂))
    rcases hfits₂.2.2.2 with hlong | hleast'
    · exact .inl (hlong.trans (Nat.le_mul_of_pos_left m₂ hm₁))
    · exact .inr (by omega)
  have hproduct : p * q = (s₁ * s₂).apply 1 * ((m₁ * m₂ : Nat) * (2 : Rat) ^ (e₁ + e₂)) := by
    rw [hp, hq, apply_eq s₁, apply_eq s₂, apply_mul, zpow_add₀ two_ne_zero]
    push_cast
    ring
  rw [hproduct, ofFloat_mul_eq, hs₁, hs₂]
  exact isRounding_packed_mul s₁ s₂ hm₁ hm₂ hlong

/-- **Quotients are rounded to the nearest.** -/
theorem isRounding_div (hx : Extended.ofFloat x = .finite p)
    (hy : Extended.ofFloat y = .finite q) (hne : q ≠ 0) :
    IsRounding (p / q) (Extended.ofFloat (x / y)) := by
  rcases unpack_cases hy with ⟨hzero, -⟩ | ⟨s₂, m₂, e₂, hm₂, hs₂, hq⟩
  · exact absurd hzero hne
  rcases unpack_cases hx with ⟨rfl, s, hs⟩ | ⟨s₁, m₁, e₁, hm₁, hs₁, hp⟩
  · rw [zero_div, ofFloat_div_eq, hs, hs₂]
    exact isRounding_packed_zero (s / s₂)
  have hquotient : p / q = (s₁ / s₂).apply 1 * ((m₁ : Rat) / m₂ * 2 ^ (e₁ - e₂)) := by
    have hdividend : (m₁ : Rat) / m₂ * 2 ^ (e₁ - e₂) * (m₂ * 2 ^ e₂) = m₁ * 2 ^ e₁ := by
      have hm₂ : (m₂ : Rat) ≠ 0 := by exact_mod_cast hm₂.ne'
      rw [zpow_sub₀ two_ne_zero]
      field_simp
    have hsign : ((s₂.apply 1 : Int) : Rat) * (s₂.apply 1 : Int) = 1 := by
      exact_mod_cast apply_one_mul_self s₂
    rw [div_eq_iff hne, hp, hq, apply_eq s₁, apply_eq s₂, apply_div]
    push_cast
    linear_combination (-(s₁.apply 1 : Rat) * (s₂.apply 1) * (s₂.apply 1)) * hdividend -
      (s₁.apply 1 : Rat) * (m₁ * 2 ^ e₁) * hsign
  rw [hquotient, ofFloat_div_eq, hs₁, hs₂]
  exact isRounding_packed_div s₁ s₂ hm₁ hm₂ e₁ e₂

/-- **Sums are rounded to the nearest.** -/
theorem isRounding_add (hx : Extended.ofFloat x = .finite p)
    (hy : Extended.ofFloat y = .finite q) : IsRounding (p + q) (Extended.ofFloat (x + y)) := by
  rcases unpack_cases hx with ⟨rfl, -⟩ | ⟨s₁, m₁, e₁, hm₁, hs₁, hp⟩
  · rw [zero_add, ofFloat_zero_add hx hy]
    exact isRounding_self hy
  rcases unpack_cases hy with ⟨rfl, -⟩ | ⟨s₂, m₂, e₂, hm₂, hs₂, hq⟩
  · rw [add_zero, ofFloat_add_zero hx hy]
    exact isRounding_self hx
  have hsum : p + q = (s₁.apply (m₁ <<< (e₁ - min e₁ e₂).toNat : Nat) +
      s₂.apply (m₂ <<< (e₂ - min e₁ e₂).toNat : Nat) : Int) * (2 : Rat) ^ min e₁ e₂ := by
    rw [Int.cast_add, add_mul, apply_shiftLeft s₁ m₁ (min_le_left _ _),
      apply_shiftLeft s₂ m₂ (min_le_right _ _), hp, hq]
  rw [hsum, ofFloat_add_eq, hs₁, hs₂]
  exact isRounding_normalize _ _ _

end LinearEquations
