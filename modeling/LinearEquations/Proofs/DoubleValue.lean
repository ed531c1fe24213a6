import LinearEquations.Scalar.Double
import Mathlib.Algebra.Field.Rat
import Mathlib.Algebra.Order.Ring.Rat
import Mathlib.Data.Nat.Cast.Field
import Mathlib.Tactic.Common

/-! # Values of doubles

The operations on doubles are defined on signs, mantissas and exponents, whereas values are read off
the bits.  `ofFloat_eq` says that both are the same number, so that facts about values can be proved
where the operations are defined. -/

namespace LinearEquations
open Float.Model Float.Model.UnpackedFloat

/-! ### Values and bits -/

namespace BinaryFraction

/-- Whether a sign is a minus. -/
def isMinus : Sign → Bool
  | .negative => true
  | .positive => false

/-- The binary fraction that an unpacked double is. -/
def ofUnpacked? : UnpackedFloat → Option BinaryFraction
  | .finite s m e _ => some ⟨isMinus s, m, e⟩
  | .zero s => some ⟨isMinus s, 0, -1074⟩
  | .infinity _ | .notANumber => none

theorem toNat_unpackExponent (b : BitVec Format.binary64.numBits) :
    (unpackExponent b).toNat = b.toNat / 2 ^ 52 % 2 ^ 11 := by
  rw [← Nat.shiftRight_eq_div_pow]
  exact (BitVec.toNat_cast ..).trans (BitVec.extractLsb_toNat ..)

theorem toNat_unpackMantissa (b : BitVec Format.binary64.numBits) :
    (unpackMantissa b).toNat = b.toNat % 2 ^ 52 :=
  (BitVec.toNat_cast ..).trans (BitVec.extractLsb_toNat ..)

theorem toNat_unpackSign (b : BitVec Format.binary64.numBits) :
    (unpackSign b).toNat = b.toNat / 2 ^ 63 % 2 := by
  rw [← Nat.shiftRight_eq_div_pow]
  exact (BitVec.toNat_cast ..).trans (BitVec.extractLsb_toNat ..)

theorem toNat_append_one {n : Nat} (m : BitVec n) : (1#1 ++ m).toNat = 2 ^ n + m.toNat := by
  rw [BitVec.toNat_append, ← Nat.shiftLeft_add_eq_or_of_lt m.isLt, Nat.shiftLeft_eq]
  exact congrArg (· + m.toNat) (Nat.one_mul _)

theorem isMinus_ofBitVec (b : BitVec 1) : isMinus (Sign.ofBitVec b) = decide (b.toNat = 1) := by
  revert b
  decide

/-- **Reading a value off the bits is unpacking.** -/
theorem ofBits?_eq (b : BitVec Format.binary64.numBits) :
    ofBits? b.toNat = ofUnpacked? (UnpackedFloat.unpack Format.binary64 b) := by
  have hsign := isMinus_ofBitVec (unpackSign b)
  rw [toNat_unpackSign] at hsign
  unfold ofBits?
  simp only [Nat.pow_eq]
  rw [← toNat_unpackExponent, ← toNat_unpackMantissa, ← hsign]
  unfold UnpackedFloat.unpack
  by_cases hspecial : unpackExponent b = -1#_
  · rw [if_pos hspecial, hspecial, if_pos (by decide)]
    by_cases hmantissa : unpackMantissa b = 0#_
    · rw [if_pos hmantissa]
      rfl
    · rw [if_neg hmantissa]
      rfl
  · have hne : (unpackExponent b).toNat ≠ specialExponent := fun h =>
      hspecial (BitVec.eq_of_toNat_eq h)
    rw [if_neg hspecial, if_neg hne]
    by_cases hzero : unpackExponent b = 0#_
    · rw [if_pos hzero, hzero, if_pos (by decide)]
      by_cases hmantissa : unpackMantissa b = 0#_
      · rw [dif_pos hmantissa, hmantissa]
        rfl
      · rw [dif_neg hmantissa]
        rfl
    · have hne : (unpackExponent b).toNat ≠ 0 := fun h => hzero (BitVec.eq_of_toNat_eq h)
      rw [if_neg hzero, if_neg hne]
      change _ = some (BinaryFraction.mk _ (1#1 ++ unpackMantissa b).toNat _)
      rw [toNat_append_one]
      rfl

end BinaryFraction

/-- The value of an unpacked double. -/
def Extended.ofUnpacked : UnpackedFloat → Extended
  | .finite s m e _ => .finite ((s.apply m : Int) * (2 : Rat) ^ e)
  | .zero _ => .finite 0
  | .infinity s => .infinite (BinaryFraction.isMinus s)
  | .notANumber => .nan

theorem ofFloat?_eq (x : Float) :
    BinaryFraction.ofFloat? x = BinaryFraction.ofUnpacked? x.toModel.unpack :=
  BinaryFraction.ofBits?_eq x.toBits.toBitVec

/-- **The value of a double is that of its sign, mantissa and exponent.** -/
theorem ofFloat_eq (x : Float) : Extended.ofFloat x = Extended.ofUnpacked x.toModel.unpack := by
  have hnan : x.isNaN = x.toModel.unpack.isNaN := rfl
  have hlt : decide (x < 0) = x.toModel.unpack.lt (.zero .positive) :=
    Bool.eq_iff_iff.mpr (decide_eq_true_iff.trans decide_eq_true_iff)
  rw [Extended.ofFloat, ofFloat?_eq, hnan, hlt]
  cases x.toModel.unpack with
  | finite s m e hm =>
    refine congrArg Extended.finite ?_
    cases s <;>
      simp [BinaryFraction.toRat, BinaryFraction.magnitude, Sign.apply, BinaryFraction.isMinus]
  | zero s =>
    refine congrArg Extended.finite ?_
    cases s <;> simp [BinaryFraction.toRat, BinaryFraction.magnitude]
  | infinity s => cases s <;> rfl
  | notANumber => rfl

/-! ### Packing -/

namespace Double

/-- The number fits into the bits of a double: its mantissa is as long as it can be, unless the
exponent is the least one. -/
def Fits : UnpackedFloat → Prop
  | .finite _ m e _ => m < 2 ^ 53 ∧ -1074 ≤ e ∧ e ≤ 971 ∧ (2 ^ 52 ≤ m ∨ e = -1074)
  | _ => True

theorem finite_congr {s : Sign} {m n : Nat} {e f : Int} {hm : 0 < m} {hn : 0 < n} (h : m = n)
    (h' : e = f) : UnpackedFloat.finite s m e hm = .finite s n f hn := by
  subst h h'
  rfl

/-- The number with the given parts. -/
def ofParts (s : Sign) (e : BitVec 11) (m : BitVec 52) : UnpackedFloat :=
  if e = -1#_ then (if m = 0#_ then .infinity s else .notANumber)
  else if e = 0#_ then
    if h : m = 0#_ then .zero s
    else .finite s m.toNat (-1074) (Nat.pos_of_ne_zero fun hm => h (BitVec.eq_of_toNat_eq hm))
  else .finite s (2 ^ 52 + m.toNat) (e.toNat - 1075) (Nat.add_pos_left (by decide) _)

theorem unpack_eq_ofParts (b : BitVec Format.binary64.numBits) :
    UnpackedFloat.unpack Format.binary64 b =
      ofParts (Sign.ofBitVec (unpackSign b)) (unpackExponent b) (unpackMantissa b) := by
  unfold UnpackedFloat.unpack ofParts
  by_cases hspecial : unpackExponent b = -1#_
  · rw [if_pos hspecial, if_pos hspecial]
  · rw [if_neg hspecial, if_neg hspecial]
    by_cases hzero : unpackExponent b = 0#_
    · rw [if_pos hzero, if_pos hzero, hzero]
      rfl
    · rw [if_neg hzero, if_neg hzero]
      exact finite_congr (BinaryFraction.toNat_append_one _) rfl

theorem fits_unpack (b : BitVec Format.binary64.numBits) :
    Fits (UnpackedFloat.unpack Format.binary64 b) := by
  have hmantissa : (unpackMantissa b).toNat < 2 ^ 52 := (unpackMantissa b).isLt
  have hexponent : (unpackExponent b).toNat < 2 ^ 11 := (unpackExponent b).isLt
  rw [unpack_eq_ofParts]
  unfold ofParts
  by_cases hspecial : unpackExponent b = -1#_
  · rw [if_pos hspecial]
    by_cases hm : unpackMantissa b = 0#_
    · rw [if_pos hm]
      trivial
    · rw [if_neg hm]
      trivial
  · rw [if_neg hspecial]
    by_cases hzero : unpackExponent b = 0#_
    · rw [if_pos hzero]
      by_cases hm : unpackMantissa b = 0#_
      · rw [dif_pos hm]
        trivial
      · rw [dif_neg hm]
        exact ⟨by omega, by decide, by decide, .inr rfl⟩
    · rw [if_neg hzero]
      have hspecial : (unpackExponent b).toNat ≠ 2047 := fun h =>
        hspecial (BitVec.eq_of_toNat_eq h)
      have hzero : (unpackExponent b).toNat ≠ 0 := fun h => hzero (BitVec.eq_of_toNat_eq h)
      exact ⟨by omega, by omega, by omega, .inl (by omega)⟩

theorem unpackSign_packComponents {spec : Format} (s : Sign) (e : BitVec spec.exponentBits)
    (m : BitVec spec.mantissaBitsWithoutImplicit) :
    unpackSign (packComponents spec s e m) = s.toBitVec := by
  refine BitVec.eq_of_getLsbD_eq fun i hi => ?_
  obtain rfl : i = 0 := by omega
  delta unpackSign packComponents
  simp [BitVec.getLsbD_append, BitVec.getElem_append]

theorem ofBitVec_toBitVec (s : Sign) : Sign.ofBitVec s.toBitVec = s := by cases s <;> rfl

/-- The parts that were packed are unpacked again. -/
theorem unpack_packComponents (s : Sign) (e : BitVec 11) (m : BitVec 52) :
    UnpackedFloat.unpack Format.binary64 (packComponents Format.binary64 s e m) =
      ofParts s e m := by
  rw [unpack_eq_ofParts, unpackExponent_packComponents, unpackMantissa_packComponents,
    unpackSign_packComponents, ofBitVec_toBitVec]

theorem pack_finite (s : Sign) {m : Nat} {e : Int} (hm : 0 < m) (hlt : m < 2 ^ 53)
    (hlow : -1074 ≤ e) (hhigh : e ≤ 971) :
    UnpackedFloat.pack Format.binary64 (.finite s m e hm) =
      packComponents Format.binary64 s
        (if 2 ^ 52 ≤ m then BitVec.ofNat 11 (e + 1075).toNat else 0#11) (BitVec.ofNat 52 m) := by
  have hbiased : e + Format.binary64.exponentBias + Format.binary64.mantissaBitsWithoutImplicit =
      e + 1075 := add_assoc e 1023 52
  have hlog : m.log2 + 1 = Format.binary64.mantissaBits ↔ 2 ^ 52 ≤ m := by
    have := (Nat.log2_lt hm.ne').mpr hlt
    have := Nat.le_log2 (k := 52) hm.ne'
    change m.log2 + 1 = 53 ↔ _
    omega
  unfold UnpackedFloat.pack
  simp only [hbiased, hlog]
  rw [if_neg (show ¬2 ^ 11 ≤ (e + 1075).toNat + 1 by omega)]
  split <;> rfl

/-- **What fits is packed without loss.** -/
theorem unpack_pack {f : UnpackedFloat} (h : Fits f) :
    UnpackedFloat.unpack Format.binary64 (UnpackedFloat.pack Format.binary64 f) = f := by
  cases f with
  | notANumber => rfl
  | infinity s => exact (unpack_packComponents s _ _).trans rfl
  | zero s => exact (unpack_packComponents s _ _).trans rfl
  | finite s m e hm =>
    obtain ⟨hlt, hlow, hhigh, hlong⟩ := h
    rw [pack_finite s hm hlt hlow hhigh, unpack_packComponents, ofParts]
    have hmantissa : (BitVec.ofNat 52 m).toNat = m % 2 ^ 52 := BitVec.toNat_ofNat ..
    by_cases hnormal : 2 ^ 52 ≤ m
    · have hfield : (BitVec.ofNat 11 (e + 1075).toNat).toNat = (e + 1075).toNat := by
        rw [BitVec.toNat_ofNat, Nat.mod_eq_of_lt (by omega)]
      have hspecial : BitVec.ofNat 11 (e + 1075).toNat ≠ -1#11 := fun h => by
        have : (e + 1075).toNat = 2047 := hfield.symm.trans (congrArg BitVec.toNat h)
        omega
      have hzero : BitVec.ofNat 11 (e + 1075).toNat ≠ 0#11 := fun h => by
        have : (e + 1075).toNat = 0 := hfield.symm.trans (congrArg BitVec.toNat h)
        omega
      rw [if_pos hnormal, if_neg hspecial, if_neg hzero]
      exact finite_congr (by omega) (by omega)
    · have hne : BitVec.ofNat 52 m ≠ 0#52 := fun h => by
        have : m % 2 ^ 52 = 0 := hmantissa.symm.trans (congrArg BitVec.toNat h)
        omega
      rw [if_neg hnormal, if_neg (by decide), if_pos rfl, dif_neg hne]
      exact finite_congr (by omega) (by omega)

theorem fits_toModel (x : Float) : Fits x.toModel.unpack := fits_unpack _

end Double

/-! ### Negation -/

theorem unpack_neg (x : Float) : (-x).toModel.unpack = x.toModel.unpack.neg := by
  refine Double.unpack_pack ?_
  have h := Double.fits_toModel x
  cases hx : x.toModel.unpack with
  | finite s m e hm =>
    rw [hx] at h
    exact h
  | zero s => trivial
  | infinity s => trivial
  | notANumber => trivial

/-- **Negation is exact.** -/
theorem ofFloat_neg {x : Float} {q : Rat} (h : Extended.ofFloat x = .finite q) :
    Extended.ofFloat (-x) = .finite (-q) := by
  rw [ofFloat_eq] at h ⊢
  rw [unpack_neg]
  cases hx : x.toModel.unpack with
  | finite s m e hm =>
    rw [hx] at h
    obtain rfl := Extended.finite.inj h
    refine congrArg Extended.finite ?_
    cases s <;> simp [Sign.apply]
  | zero s =>
    rw [hx] at h
    obtain rfl := Extended.finite.inj h
    rfl
  | infinity s =>
    rw [hx] at h
    cases h
  | notANumber =>
    rw [hx] at h
    cases h

/-! ### Whole numbers -/

namespace Double

/-- Bits that are zero are shifted out without rounding. -/
theorem shift_exact (m k : Nat) :
    (⟨m * 2 ^ k, false, false⟩ : ExtendedMantissa) >>> k = ⟨m, false, false⟩ := by
  change k.repeat ExtendedMantissa.shiftRightOne ⟨m * 2 ^ k, false, false⟩ = _
  induction k generalizing m with
  | zero => simp [Nat.repeat]
  | succ k ih =>
    have hdouble : m * 2 ^ (k + 1) = m * 2 * 2 ^ k := by rw [Nat.pow_succ', Nat.mul_assoc]
    rw [Nat.repeat, hdouble, ih]
    simp [ExtendedMantissa.shiftRightOne]

variable {m : Nat} {e : Int}

/-- Zero bits at the end of a mantissa do not move its first bit. -/
theorem totalExponent_mul_two_pow (hpos : 0 < m) (k : Nat) :
    totalExponent (m * 2 ^ k) (e - k) = totalExponent m e := by
  have hlog : (m * 2 ^ k).log2 = m.log2 + k := by
    have hk : 0 < 2 ^ k := Nat.two_pow_pos k
    rw [Nat.log2_eq_iff (Nat.mul_ne_zero hpos.ne' hk.ne'), Nat.pow_add]
    refine ⟨Nat.mul_le_mul_right _ (Nat.log2_self_le hpos.ne'), ?_⟩
    rw [Nat.add_right_comm, Nat.pow_add]
    exact Nat.mul_lt_mul_of_pos_right Nat.lt_log2_self hk
  rw [totalExponent, totalExponent, hlog]
  omega

theorem log2_of_long (hlong : 2 ^ 52 ≤ m) (hlt : m < 2 ^ 53) : m.log2 = 52 :=
  (Nat.log2_eq_iff (by omega)).mpr ⟨hlong, hlt⟩

/-- A number that fits has the exponent that rounding gives it. -/
theorem targetExponent_eq (hpos : 0 < m) (hlt : m < 2 ^ 53) (hlow : -1074 ≤ e)
    (hlong : 2 ^ 52 ≤ m ∨ e = -1074) :
    Format.binary64.targetExponent (totalExponent m e) = e := by
  have hlog : m.log2 < 53 := (Nat.log2_lt hpos.ne').mpr hlt
  change max (m.log2 + 1 + e - 53) (-1074) = e
  rcases hlong with hlong | rfl
  · rw [log2_of_long hlong hlt]
    omega
  · omega

theorem roundWithAccuracy_exact (s : Sign) (hpos : 0 < m) (hlt : m < 2 ^ 53) (hlow : -1074 ≤ e)
    (hlong : 2 ^ 52 ≤ m ∨ e = -1074) (k : Nat) :
    roundWithAccuracy Format.binary64 s (m * 2 ^ k) (e - k) .exact = .finite s m e hpos := by
  have hshift : ∀ k : Nat, shiftToTargetExponent Format.binary64 (m * 2 ^ k) (e - k) .exact =
      (⟨m, false, false⟩, e) := by
    intro k
    have hk : (e - (e - k)).toNat = k := by omega
    rw [shiftToTargetExponent, totalExponent_mul_two_pow hpos,
      targetExponent_eq hpos hlt hlow hlong, shiftToExponent, hk]
    refine Prod.ext (shift_exact m k) ?_
    change e - k + k = e
    omega
  have hzero := hshift 0
  rw [Nat.pow_zero, Nat.mul_one, Nat.cast_zero, Int.sub_zero] at hzero
  unfold roundWithAccuracy
  rw [hshift k]
  change (match shiftToTargetExponent Format.binary64 m e .exact with
    | (x, e) => if h : x.mantissa = 0 then UnpackedFloat.zero s
      else .finite s x.mantissa e (Nat.pos_of_ne_zero h)) = _
  rw [hzero]
  exact dif_neg (show m ≠ 0 by omega)

/-- The mantissa and the exponent of a whole number. -/
theorem round_natural (s : Sign) {n : Nat} (hpos : 0 < n) (hlt : n < 2 ^ 53) :
    ∃ (m : Nat) (e : Int) (h : 0 < m), 2 ^ 52 ≤ m ∧ m < 2 ^ 53 ∧ -52 ≤ e ∧ e ≤ 0 ∧
      (m : Rat) * (2 : Rat) ^ e = n ∧
      round Format.binary64 s n 0 = .finite s m e h := by
  have hlog : n.log2 < 53 := (Nat.log2_lt hpos.ne').mpr hlt
  obtain ⟨k, hk⟩ : ∃ k : Nat, n.log2 + k = 52 := ⟨52 - n.log2, by omega⟩
  have htarget : Format.binary64.targetExponent (totalExponent n 0) = -k := by
    change max (n.log2 + 1 + 0 - 53 : Int) (-1074) = -k
    omega
  have hlong : 2 ^ 52 ≤ n * 2 ^ k := by
    rw [← hk, Nat.pow_add]
    exact Nat.mul_le_mul_right _ (Nat.log2_self_le hpos.ne')
  have hlt : n * 2 ^ k < 2 ^ 53 := by
    have : 2 ^ 53 = 2 ^ (n.log2 + 1) * 2 ^ k := by
      rw [← Nat.pow_add]
      congr 1
      omega
    rw [this]
    exact Nat.mul_lt_mul_of_pos_right Nat.lt_log2_self (Nat.two_pow_pos k)
  refine ⟨n * 2 ^ k, -k, by omega, hlong, hlt, by omega, by omega, ?_, ?_⟩
  · rw [Nat.cast_mul, Nat.cast_pow, mul_assoc]
    have hunit : (2 : Rat) ^ k * (2 : Rat) ^ (-k : Int) = 1 := by
      rw [zpow_neg, zpow_natCast]
      exact mul_inv_cancel₀ (pow_ne_zero k two_ne_zero)
    rw [Nat.cast_ofNat, hunit, mul_one]
  · have hlow : (-1074 : Int) ≤ -k := by omega
    have hround := roundWithAccuracy_exact s (by omega) hlt hlow (.inl hlong) 0
    rw [Nat.pow_zero, Nat.mul_one, Nat.cast_zero, Int.sub_zero] at hround
    have hdecrease : decreaseExponent n 0 (-k) = (n * 2 ^ k, (-k : Int)) := by
      have hk : (-(-k : Int)).toNat = k := by omega
      unfold decreaseExponent
      simp only [Int.zero_sub, hk, Nat.shiftLeft_eq]
    let target := Format.binary64.targetExponent (totalExponent n 0)
    change roundWithAccuracy Format.binary64 s (decreaseExponent n 0 target).1
      (decreaseExponent n 0 target).2 .exact = _
    rw [show target = -k from htarget, hdecrease]
    exact hround

/-- Dividing by one changes nothing. -/
theorem div_one (s : Sign) (hlong : 2 ^ 52 ≤ m) (hlt : m < 2 ^ 53) (hlow : -1073 ≤ e)
    (h : 0 < m) :
    UnpackedFloat.div Format.binary64 (.finite s m e h)
      (.finite .positive (2 ^ 52) (-52) (by decide)) = .finite s m e h := by
  have htotal : totalExponent m e = e + 53 := by
    rw [totalExponent, log2_of_long hlong hlt]
    omega
  have htarget : min (e - -52) (Format.binary64.targetExponent
      (totalExponent m e - totalExponent (2 ^ 52) (-52))) = e - 1 := by
    rw [htotal]
    change min (e - -52) (max (e + 53 - (52 + 1 + -52) - 53) (-1074)) = e - 1
    omega
  have hshift : (e - -52 - (e - 1)).toNat = 53 := by omega
  have hcore : divCore Format.binary64 m e (2 ^ 52) (-52) = (m * 2, e - 1, .exact) := by
    unfold divCore
    simp only [htarget, hshift, Nat.shiftLeft_eq]
    have hquotient : m * 2 ^ 53 / 2 ^ 52 = m * 2 := by omega
    have hrest : m * 2 ^ 53 % 2 ^ 52 = 0 := by omega
    rw [hquotient, hrest]
    rfl
  have hsign : s / .positive = s := by cases s <;> rfl
  have hround := roundWithAccuracy_exact s h hlt (show -1074 ≤ e by omega) (.inl hlong) 1
  change (match divCore Format.binary64 m e (2 ^ 52) (-52) with
    | (m, e, accuracy) => roundWithAccuracy Format.binary64 (s / Sign.positive) m e accuracy) = _
  rw [hcore, hsign]
  exact hround

end Double

theorem unpack_toFloat {n : Nat} (hpos : 0 < n) (hlt : n < 2 ^ 53) :
    n.toUInt64.toFloat.toModel.unpack = UnpackedFloat.round Format.binary64 .positive n 0 := by
  obtain ⟨m, e, h, hlong, hlt', hlow, hhigh, -, hround⟩ :=
    Double.round_natural .positive hpos hlt
  have hsize : n.toUInt64.toNat = n := UInt64.toNat_ofNat_of_lt (hlt.trans (by decide))
  have hnormal : UnpackedFloat.ofUInt64 Format.binary64 n.toUInt64 = .finite .positive m e h := by
    unfold UnpackedFloat.ofUInt64 UnpackedFloat.ofNat UnpackedFloat.ofInt UnpackedFloat.normalize
    rw [hsize, Int.compare_eq_gt.mpr (by omega)]
    exact hround
  have hfits : Double.Fits (.finite .positive m e h) :=
    ⟨hlt', by omega, by omega, .inl hlong⟩
  rw [hround]
  change UnpackedFloat.unpack Format.binary64 (UnpackedFloat.pack Format.binary64
    (UnpackedFloat.ofUInt64 Format.binary64 n.toUInt64)) = _
  rw [hnormal]
  exact Double.unpack_pack hfits

/-- **Whole numbers are read exactly.** -/
theorem ofFloat_ofScientific {n : Nat} (hle : n ≤ 2 ^ 53) :
    Extended.ofFloat (Float.ofScientific n true 0) = .finite n := by
  rcases Nat.lt_or_eq_of_le hle with hlt | rfl
  · have hfast : Float.ofScientific n true 0 =
        n.toUInt64.toFloat / Float.ofBits 0x3FF0000000000000 :=
      dif_pos ⟨hlt, by decide⟩
    have hone : (Float.ofBits 0x3FF0000000000000).toModel.unpack =
        .finite .positive (2 ^ 52) (-52) (by decide) := rfl
    rw [ofFloat_eq, hfast]
    rcases Nat.eq_zero_or_pos n with rfl | hpos
    · rfl
    · obtain ⟨m, e, h, hlong, hlt', hlow, hhigh, hvalue, hround⟩ :=
        Double.round_natural .positive hpos hlt
      have hquotient : (n.toUInt64.toFloat / Float.ofBits 0x3FF0000000000000).toModel.unpack =
          .finite .positive m e h := by
        change UnpackedFloat.unpack Format.binary64 (UnpackedFloat.pack Format.binary64
          (UnpackedFloat.div Format.binary64 n.toUInt64.toFloat.toModel.unpack
            (Float.ofBits 0x3FF0000000000000).toModel.unpack)) = _
        rw [unpack_toFloat hpos hlt, hround, hone, Double.div_one .positive hlong hlt' (by omega) h]
        exact Double.unpack_pack ⟨hlt', by omega, by omega, .inl hlong⟩
      rw [hquotient]
      exact congrArg Extended.finite hvalue
  · decide +kernel

/-- Whole numbers are finite. -/
theorem isFinite_iff (x : Float) : x.isFinite = (Extended.ofFloat x).isFinite := by
  rw [ofFloat_eq]
  change x.toModel.unpack.isFinite = _
  generalize x.toModel.unpack = f
  cases f <;> rfl

end LinearEquations
