import LinearEquations.Proofs.DecimalRange
import LinearEquations.Proofs.NumberText
import LinearEquations.Proofs.WholeText

/-! # Reading the text of a double

The text of a finite double is a minus sign or nothing, and digits with at most one point that are
read as a finite double again, unless it is written with a power of ten (`Scalar.isPlainText_text`).
The minus sign only stands before numbers below zero.

What has to be shown is that the number which the digits say is below the limit up to which decimals
are read (`Double.limit`), because rounding may have made it greater than the double.

* The nearest whole number is at most one half greater, and so large a double is whole itself.
* The shortest decimal lies in the interval of what is read as the double, and the interval ends at
  the limit for the greatest double, whose significand is odd (`IsCanonical.lt_limit`).
* Four significant digits without a power of ten are below ten thousand. -/

namespace LinearEquations
open Grammar

/-! ### Decimals without a power of ten -/

namespace Decimal

/-- The number that a decimal stands for, but for its sign. -/
def magnitude (d : Decimal) : Rat := d.digits * (10 : Rat) ^ d.exponent

theorem isDigit_of_mem_zeros {k : Nat} {x : Char} (h : x ∈ List.replicate k '0') : x.isDigit := by
  rw [List.eq_of_mem_replicate h]
  rfl

theorem ofDigitChars_figures (n : Nat) : Nat.ofDigitChars 10 (figures n) 0 = n :=
  Nat.ofDigitChars_ten_toDigits

variable {digits places : Nat} {x : Float}

/-- A point among the digits. -/
theorem isNumberText_split (hplaces : places < (figures digits).length)
    (h : Scalar.ofDecimal? digits places = some x) :
    IsNumberText ((figures digits).take ((figures digits).length - places) ++
      '.' :: (figures digits).drop ((figures digits).length - places)) x := by
  have hsplit := List.take_append_drop ((figures digits).length - places) (figures digits)
  have hlength : ((figures digits).drop ((figures digits).length - places)).length = places := by
    rw [List.length_drop]
    omega
  refine isNumberText_of_point (fun x hx => isDigit_of_mem_figures (List.mem_of_mem_take hx))
    (fun x hx => isDigit_of_mem_figures (List.mem_of_mem_drop hx)) ?_ ?_
  · rw [hsplit]
    exact figures_ne_nil digits
  · rwa [hsplit, ofDigitChars_figures, hlength]

/-- A point before the digits, and zeros if there are too few of them. -/
theorem isNumberText_padded (hplaces : (figures digits).length ≤ places)
    (h : Scalar.ofDecimal? digits places = some x) :
    IsNumberText ('0' :: '.' :: List.replicate (places - (figures digits).length) '0' ++
      figures digits) x := by
  generalize hk : places - (figures digits).length = k
  have hlength : (List.replicate k '0' ++ figures digits).length = places := by
    rw [List.length_append, List.length_replicate]
    omega
  have hvalue : Nat.ofDigitChars 10 (['0'] ++ (List.replicate k '0' ++ figures digits)) 0 =
      digits := by
    rw [Nat.ofDigitChars_append, Nat.ofDigitChars_append, Nat.ofDigitChars_replicate_zero]
    exact ofDigitChars_figures digits
  change IsNumberText (['0'] ++ '.' :: (List.replicate k '0' ++ figures digits)) x
  refine isNumberText_of_point (List.forall_mem_singleton.mpr rfl)
    (List.forall_mem_append.mpr ⟨fun x => isDigit_of_mem_zeros, fun x => isDigit_of_mem_figures⟩)
    (List.cons_ne_nil _ _) ?_
  rwa [hvalue, hlength]

/-- Zeros after the digits. -/
theorem isNumberText_scaled {k : Nat} (h : Scalar.ofDecimal? (10 ^ k * digits) 0 = some x) :
    IsNumberText (figures digits ++ List.replicate k '0') x := by
  have hvalue : Nat.ofDigitChars 10 (figures digits ++ List.replicate k '0') 0 =
      10 ^ k * digits := by
    rw [Nat.ofDigitChars_append, ofDigitChars_figures, Nat.ofDigitChars_replicate_zero]
  refine isNumberText_of_digits ?_ ?_ (hvalue ▸ h)
  · exact List.forall_mem_append.mpr
      ⟨fun x => isDigit_of_mem_figures, fun x => isDigit_of_mem_zeros⟩
  · exact List.append_ne_nil_of_left_ne_nil (figures_ne_nil digits) _

/-- **Digits with a point among them are read**, if what they say is below the limit. -/
theorem exists_positionalText {style : Style} (hstyle : style.pointZero = false) {exponent : Int}
    (h : digits * (10 : Rat) ^ exponent < Double.limit) :
    ∃ x : Float, IsNumberText (positionalText style digits exponent) x := by
  unfold positionalText
  simp only [hstyle, Bool.false_eq_true, if_false, List.append_nil]
  rcases lt_or_ge exponent 0 with hneg | hpos
  · obtain ⟨places, rfl⟩ : ∃ places : Nat, exponent = -places := ⟨(-exponent).toNat, by omega⟩
    rw [zpow_neg, zpow_natCast, ← div_eq_mul_inv] at h
    obtain ⟨x, hx⟩ := exists_ofDecimal?_eq_some h
    rw [if_neg (by omega), neg_neg, Int.toNat_natCast]
    refine ⟨x, ?_⟩
    by_cases hplaces : places < (figures digits).length
    · rw [if_pos hplaces]
      exact isNumberText_split hplaces hx
    · rw [if_neg hplaces]
      exact isNumberText_padded (not_lt.mp hplaces) hx
  · obtain ⟨k, rfl⟩ : ∃ k : Nat, exponent = k := ⟨exponent.toNat, by omega⟩
    have hlimit : ((10 ^ k * digits : Nat) : Rat) / 10 ^ 0 < Double.limit := by
      refine lt_of_eq_of_lt ?_ h
      rw [pow_zero, div_one, zpow_natCast, Nat.cast_mul, Nat.cast_pow, Nat.cast_ofNat, mul_comm]
    obtain ⟨x, hx⟩ := exists_ofDecimal?_eq_some hlimit
    rw [if_pos hpos, Int.toNat_natCast]
    exact ⟨x, isNumberText_scaled hx⟩

end Decimal

/-! ### Rounding -/

/-- Rounding to a whole number adds at most one half. -/
theorem Tie.round_le (tie : Tie) {y : Rat} (hy : 0 ≤ y) : (tie.round y : Rat) ≤ y + 1 / 2 := by
  have hfloor : ((y.floor.toNat : Nat) : Rat) ≤ y := by
    have hnonneg : 0 ≤ y.floor := Rat.le_floor_iff.mpr hy
    have := Rat.floor_le y
    rwa [← Int.toNat_of_nonneg hnonneg, Int.cast_natCast] at this
  unfold Tie.round
  simp only
  split
  · linarith
  · split
    · linarith
    · rename_i hhalf _
      rw [Nat.cast_succ]
      linarith

namespace Decimal

/-- The power of ten of the first digit of a number is not greater than the number. -/
theorem exponentOf_le {x : Rat} (hx : 0 < x) : (10 : Rat) ^ exponentOf x ≤ x := by
  have hnum : ((x.num.natAbs : Nat) : Rat) = x.num := by
    rw [Nat.cast_natAbs, abs_of_pos (Rat.num_pos.mpr hx)]
  have hlow : (10 : Rat) ^ ((figures x.num.natAbs).length - 1) ≤ x.num := by
    rw [← hnum]
    exact_mod_cast pow_figures_le (Int.natAbs_pos.mpr (Rat.num_pos.mpr hx).ne')
  have hhigh : (x.den : Rat) ≤ 10 ^ (figures x.den).length := by
    exact_mod_cast (lt_pow_figures x.den).le
  unfold exponentOf
  simp only
  split
  · assumption
  · have hlen := length_figures_pos x.num.natAbs
    have hexponent : ((figures x.num.natAbs).length : Int) - (figures x.den).length - 1 =
        ((figures x.num.natAbs).length - 1 : Nat) - ((figures x.den).length : Nat) := by omega
    rw [hexponent, zpow_sub₀ (by decide), zpow_natCast, zpow_natCast]
    calc (10 : Rat) ^ ((figures x.num.natAbs).length - 1) / 10 ^ (figures x.den).length
        ≤ x.num / x.den := div_le_div₀ (hnum ▸ Nat.cast_nonneg _) hlow
          (by exact_mod_cast x.den_pos) hhigh
      _ = x := x.num_div_den

/-- Rounding to significant digits adds at most one half of the last of them. -/
theorem magnitude_significant_le (tie : Tie) (precision : Nat) {x : Rat} (hx : 0 < x) :
    (significant tie (precision + 1) x).magnitude ≤
      x + (10 : Rat) ^ (exponentOf x - precision) / 2 := by
  have habs : x.abs = x := Rat.abs_of_nonneg hx.le
  have hunit : exponentOf x - ((precision + 1 : Nat) : Int) + 1 = exponentOf x - precision := by
    omega
  have hpos : (0 : Rat) < 10 ^ (exponentOf x - precision) := zpow_pos (by norm_num) _
  have hround : (tie.round (x / 10 ^ (exponentOf x - precision)) : Rat) *
      10 ^ (exponentOf x - precision) ≤ x + (10 : Rat) ^ (exponentOf x - precision) / 2 := by
    have := mul_le_mul_of_nonneg_right (tie.round_le (div_nonneg hx.le hpos.le)) hpos.le
    rw [add_mul, div_mul_cancel₀ _ hpos.ne'] at this
    linarith
  unfold significant
  rw [if_neg hx.ne', habs]
  simp only [hunit]
  split
  · rename_i hcarry
    refine le_trans (le_of_eq ?_) hround
    rw [hcarry, magnitude]
    simp only [Nat.add_sub_cancel, Nat.pow_eq]
    rw [zpow_add₀ (by decide), Nat.pow_succ, Nat.cast_mul]
    ring
  · exact hround

theorem negative_trimmed (d : Decimal) : d.trimmed.negative = d.negative := by
  unfold trimmed
  split <;> rfl

theorem magnitude_trimmed (d : Decimal) : d.trimmed.magnitude = d.magnitude := by
  unfold trimmed
  split
  · rename_i hzero
    rw [magnitude, magnitude, hzero, Nat.cast_zero, zero_mul, zero_mul]
  · obtain ⟨k, hexponent, hdigits⟩ := dropZeros_spec (figures d.digits).length d.digits d.exponent
    generalize dropZeros (figures d.digits).length d.digits d.exponent = out at hexponent hdigits ⊢
    obtain ⟨digits, exponent⟩ := out
    have hdigits : (d.digits : Rat) = digits * 10 ^ k := by exact_mod_cast hdigits
    have hexponent : exponent = d.exponent + k := hexponent
    simp only [magnitude]
    rw [hdigits, hexponent, zpow_add₀ (by decide), zpow_natCast]
    ring

end Decimal

namespace BinaryFraction
open Decimal
variable {b : BinaryFraction}

/-- The limit is one half of the last bit above the greatest double. -/
theorem limit_eq : Double.limit = (2 ^ 53 - 1 / 2) * (2 : Rat) ^ (971 : Int) := by
  have hhigh : (2 : Rat) ^ 1024 = 2 ^ 53 * 2 ^ 971 := by rw [← pow_add]
  have hlow : (2 : Rat) ^ 971 = 2 ^ 970 * 2 := pow_succ 2 970
  have hcast : (2 : Rat) ^ (971 : Int) = 2 ^ 971 := zpow_natCast 2 971
  rw [Double.limit, hcast, hhigh, hlow]
  generalize (2 : Rat) ^ 970 = u
  ring

/-! ### The shortest decimal -/

theorem lower_lt_upper (b : BinaryFraction) : b.readInterval.lower < b.readInterval.upper := by
  have hpos := two_zpow_pos b.exponent
  unfold readInterval
  simp only
  split <;> linarith

/-- What is read as a double is below the limit.  It can only be as large as the bound of the
interval if the bound belongs to it, and then the significand is not the greatest. -/
theorem IsCanonical.lt_limit (hb : b.IsCanonical) (hexponent : b.exponent ≤ 971) {y : Rat}
    (hy : b.readInterval.contains y) : y < Double.limit := by
  have hunit : (2 : Rat) ^ b.exponent ≤ 2 ^ (971 : Int) := zpow_le_zpow_right₀ one_le_two hexponent
  have hupper : b.readInterval.upper ≤ (b.significand + 1 / 2) * 2 ^ (971 : Int) := by
    have hsum : b.readInterval.upper = (b.significand + 1 / 2) * 2 ^ b.exponent := by
      change b.magnitude + 2 ^ b.exponent / 2 = _
      rw [magnitude]
      ring
    rw [hsum]
    have hnonneg : (0 : Rat) ≤ b.significand + 1 / 2 := add_nonneg (Nat.cast_nonneg _) (by norm_num)
    exact mul_le_mul_of_nonneg_left hunit hnonneg
  have hlimit : (b.significand + 1 / 2) * (2 : Rat) ^ (971 : Int) ≤ Double.limit := by
    have hsignificand : (b.significand : Rat) + 1 ≤ 2 ^ 53 := by exact_mod_cast hb.lt
    rw [limit_eq]
    exact mul_le_mul_of_nonneg_right (by linarith) (two_zpow_pos 971).le
  unfold Interval.contains at hy
  simp only [Bool.or_eq_true, Bool.and_eq_true, decide_eq_true_eq] at hy
  -- inside the interval the bound is not reached; the bounds only belong to even significands
  rcases hy with ⟨-, hy⟩ | ⟨hclosed, rfl | rfl⟩
  · exact hy.trans_le (hupper.trans hlimit)
  · exact b.lower_lt_upper.trans_le (hupper.trans hlimit)
  · have heven : b.significand % 2 = 0 := of_decide_eq_true hclosed
    have hlt := hb.lt
    have hsignificand : (b.significand : Rat) + 2 ≤ 2 ^ 53 := by
      exact_mod_cast (show b.significand + 2 ≤ 2 ^ 53 by omega)
    refine hupper.trans_lt ?_
    rw [limit_eq]
    exact mul_lt_mul_of_pos_right (by linarith) (two_zpow_pos 971)

/-- Candidates for the shortest decimal are read as the double. -/
theorem withDigits?_spec {digits : Nat} {d : Decimal} (h : b.withDigits? digits = some d) :
    d.negative = b.negative ∧ b.readInterval.contains d.magnitude := by
  unfold withDigits? at h
  simp only at h
  split at h
  · rename_i hreads
    cases h
    refine ⟨rfl, ?_⟩
    rw [Decimal.magnitude, Nat.cast_succ]
    exact (Bool.and_eq_true_iff.mp hreads).1
  · split at h
    · rename_i hreads
      cases h
      exact ⟨rfl, hreads⟩
    · cases h

theorem exponent_le_of_ofFloat? {x : Float} (h : ofFloat? x = some b) : b.exponent ≤ 971 := by
  have hfits := Double.fits_toModel x
  rw [ofFloat?_eq] at h
  cases hx : x.toModel.unpack with
  | finite s m e hm =>
    rw [hx] at h hfits
    cases h
    exact hfits.2.2.1
  | zero s =>
    rw [hx] at h
    cases h
    exact Int.negSucc_le_zero 1073 |>.trans (by decide)
  | infinity s =>
    rw [hx] at h
    cases h
  | notANumber =>
    rw [hx] at h
    cases h

theorem IsCanonical.magnitude_le (hb : b.IsCanonical) (hexponent : b.exponent ≤ 971) :
    b.magnitude ≤ (2 ^ 53 - 1) * (2 : Rat) ^ (971 : Int) := by
  have hsignificand : (b.significand : Rat) + 1 ≤ 2 ^ 53 := by exact_mod_cast hb.lt
  exact mul_le_mul (by linarith) (zpow_le_zpow_right₀ one_le_two hexponent) (two_zpow_pos _).le
    (by norm_num)

/-- Seventeen digits never go beyond the limit. -/
theorem IsCanonical.significant_lt_limit (hb : b.IsCanonical) (hexponent : b.exponent ≤ 971)
    (hpos : 0 < b.magnitude) (tie : Tie) :
    (significant tie enoughDigits b.magnitude).magnitude < Double.limit := by
  have hmagnitude := hb.magnitude_le hexponent
  have hunit : (10 : Rat) ^ (exponentOf b.magnitude - (16 : Nat)) ≤ b.magnitude / 10 ^ 16 := by
    rw [zpow_sub₀ (by decide), zpow_natCast]
    exact div_le_div_of_nonneg_right (exponentOf_le hpos) (by norm_num)
  have hround := magnitude_significant_le tie 16 hpos
  have hupper := two_zpow_pos 971
  rw [limit_eq]
  refine hround.trans_lt ?_
  generalize (2 : Rat) ^ (971 : Int) = u at *
  norm_num at *
  linarith

/-- **The shortest decimal is below the limit**, and has the sign of the double. -/
theorem IsCanonical.shortest_spec (hb : b.IsCanonical) (hexponent : b.exponent ≤ 971) :
    b.shortest.negative = b.negative ∧ b.shortest.magnitude < Double.limit := by
  unfold shortest
  split
  · refine ⟨rfl, ?_⟩
    rw [Decimal.magnitude, Nat.cast_zero, zero_mul]
    exact (pow_pos two_pos 0).trans (Double.two_pow_lt_limit (Nat.zero_le 970))
  · rename_i hsignificand
    simp only
    rw [negative_trimmed, magnitude_trimmed]
    cases hfind : (List.range enoughDigits).findSome? fun n => b.withDigits? (n + 1) with
    | none =>
      -- seventeen digits are always enough, but that is not needed here
      have hpos : 0 < b.magnitude :=
        mul_pos (by exact_mod_cast Nat.pos_of_ne_zero hsignificand) (two_zpow_pos _)
      exact ⟨rfl, hb.significant_lt_limit hexponent hpos .even⟩
    | some d =>
      obtain ⟨n, -, hd⟩ := List.exists_of_findSome?_eq_some hfind
      obtain ⟨hnegative, hreads⟩ := withDigits?_spec hd
      exact ⟨hnegative, hb.lt_limit hexponent hreads⟩

end BinaryFraction

/-! ### Texts -/

/-- A minus sign, which only stands before numbers below zero, and digits with at most one point. -/
def IsPlainText (text : List Char) (q : Rat) : Prop :=
  ∃ (negative : Bool) (digits : List Char) (x : Float),
    text = minusText negative ++ digits ∧ IsNumberText digits x ∧ (negative → q < 0)

theorem IsPlainText.exists_number {text : List Char} {q : Rat} (h : IsPlainText text q)
    (hq : 0 ≤ q) : ∃ x : Float, IsNumberText text x := by
  obtain ⟨negative, digits, x, rfl, hx, hnegative⟩ := h
  cases negative with
  | false => exact ⟨x, hx⟩
  | true => exact absurd (hnegative rfl) (not_lt.mpr hq)

namespace Decimal
variable {d : Decimal} {style : Style} {q : Rat}

/-- **Decimals without a power of ten are read**, if they are below the limit. -/
theorem isPlainText_write (hpoint : style.pointZero = false) (hzero : style.signedZero = false)
    (hpositional : d.digits = 0 ∨ style.positional d.leadingExponent)
    (hlimit : d.magnitude < Double.limit) (hnegative : d.negative → d.digits ≠ 0 → q < 0) :
    IsPlainText (d.write style).toList q := by
  obtain ⟨x, hx⟩ := exists_positionalText hpoint hlimit
  refine ⟨d.negative && d.digits != 0, _, x, ?_, hx, fun h => ?_⟩
  · have hbody : (d.digits = 0 || style.positional d.leadingExponent) = true := by
      rcases hpositional with h | h <;> simp [h]
    unfold write
    simp only [hbody, hzero, Bool.or_false, if_true, String.toList_ofList]
    rfl
  · obtain ⟨h, hdigits⟩ := Bool.and_eq_true_iff.mp h
    exact hnegative h (bne_iff_ne.mp hdigits)

/-- A decimal is below the power of ten after that of its first digit. -/
theorem magnitude_lt_of_leadingExponent {k : Int} (h : d.leadingExponent < k) :
    d.magnitude < (10 : Rat) ^ k := by
  have hlen := length_figures_pos d.digits
  have hle : ((figures d.digits).length : Int) + d.exponent ≤ k := by
    unfold leadingExponent at h
    omega
  have hdigits : (d.digits : Rat) < 10 ^ (figures d.digits).length := by
    exact_mod_cast lt_pow_figures d.digits
  calc d.magnitude
      < 10 ^ (figures d.digits).length * 10 ^ d.exponent :=
        mul_lt_mul_of_pos_right hdigits (zpow_pos (by norm_num) _)
    _ = (10 : Rat) ^ ((figures d.digits).length + d.exponent) := by
        rw [zpow_add₀ (by decide), zpow_natCast]
    _ ≤ 10 ^ k := zpow_le_zpow_right₀ (by norm_num) hle

theorem mem_scientificText (style : Style) (digits : Nat) (exponent : Int) :
    'e' ∈ scientificText style digits exponent := by
  simp [scientificText]

/-- What is not written in positions has a power of ten. -/
theorem mem_write_of_not_positional
    (h : ¬(d.digits = 0 ∨ style.positional d.leadingExponent)) : 'e' ∈ (d.write style).toList := by
  have hbody : (d.digits = 0 || style.positional d.leadingExponent) = false := by
    rw [not_or] at h
    simp [h.1, h.2]
  unfold write
  simp only [hbody, Bool.false_eq_true, if_false, String.toList_ofList]
  exact List.mem_append_right _ (mem_scientificText style _ _)

end Decimal

namespace Scalar
open BinaryFraction Decimal
variable {x : Float} {q : Rat}

theorem toList_toString (z : Int) :
    (toString z).toList = minusText (z < 0) ++ figures z.natAbs := by
  cases z with
  | ofNat n =>
    have hsign : decide (Int.ofNat n < 0) = false :=
      decide_eq_false (Int.not_lt.mpr (Int.natCast_nonneg n))
    rw [hsign]
    exact String.toList_ofList
  | negSucc n =>
    have hsign : decide (Int.negSucc n < 0) = true := decide_eq_true (Int.negSucc_lt_zero n)
    rw [hsign]
    change ("-" ++ String.ofList (figures (n + 1))).toList = _
    rw [String.toList_append, String.toList_ofList, String.toList_ofList]
    rfl

theorem natAbs_nearest_le (q : Rat) : ((nearest q).natAbs : Rat) ≤ |q| + 1 / 2 := by
  unfold nearest
  split
  · rename_i hneg
    rw [Int.natAbs_neg, Int.natAbs_natCast, abs_of_neg hneg]
    exact Tie.round_le .away (by linarith)
  · rename_i hpos
    rw [Int.natAbs_natCast, abs_of_nonneg (not_lt.mp hpos)]
    exact Tie.round_le .away (not_lt.mp hpos)

theorem lt_zero_of_nearest (h : nearest q < 0) : q < 0 := by
  unfold nearest at h
  split at h
  · assumption
  · omega

theorem abs_toRat (b : BinaryFraction) : |b.toRat| = b.magnitude := by
  unfold BinaryFraction.toRat
  split
  · rw [abs_neg, abs_of_nonneg b.magnitude_nonneg]
  · rw [abs_of_nonneg b.magnitude_nonneg]

/-- The whole number that is nearest to a double is read. -/
theorem isPlainText_nearest (h : value x = .finite q) :
    IsPlainText (toString (nearest q)).toList q := by
  obtain ⟨b, hb, rfl, -⟩ := exists_fraction h
  have hmagnitude :=
    (isCanonical_of_ofFloat? hb).magnitude_le (exponent_le_of_ofFloat? hb)
  have hnearest := natAbs_nearest_le b.toRat
  rw [abs_toRat] at hnearest
  have hlimit : ((nearest b.toRat).natAbs : Rat) / 10 ^ 0 < Double.limit := by
    have hupper : (1 : Rat) < 2 ^ (971 : Int) := one_lt_zpow₀ one_lt_two (by decide)
    rw [pow_zero, div_one, limit_eq]
    generalize (2 : Rat) ^ (971 : Int) = u at *
    linarith
  obtain ⟨y, hy⟩ := exists_ofDecimal?_eq_some hlimit
  refine ⟨_, _, y, toList_toString _, ?_, fun hneg => lt_zero_of_nearest (of_decide_eq_true hneg)⟩
  exact isNumberText_of_digits (fun d => isDigit_of_mem_figures) (figures_ne_nil _)
    ((ofDigitChars_figures _).symm ▸ hy)

/-- The shortest decimal of a double is read. -/
theorem isPlainText_shortest (h : value x = .finite q) :
    IsPlainText (write plain x).toList q := by
  obtain ⟨b, hb, rfl, hwrite⟩ := exists_fraction h
  obtain ⟨hnegative, hlimit⟩ :=
    (isCanonical_of_ofFloat? hb).shortest_spec (exponent_le_of_ofFloat? hb)
  rw [hwrite]
  refine isPlainText_write rfl rfl (.inr rfl) hlimit fun hneg hdigits => ?_
  have hsignificand : b.significand ≠ 0 := by
    intro hzero
    rw [shortest, if_pos hzero] at hdigits
    exact hdigits rfl
  rw [BinaryFraction.toRat, if_pos (hnegative ▸ hneg), neg_lt_zero]
  exact mul_pos (by exact_mod_cast Nat.pos_of_ne_zero hsignificand) (two_zpow_pos _)

theorem negative_significant {tie : Tie} {precision : Nat}
    (h : (significant tie precision q).negative) : q < 0 := by
  unfold significant at h
  split at h
  · cases h
  · simp only at h
    split at h <;> exact of_decide_eq_true h

/-- A number that was rounded is read unless it has a power of ten. -/
theorem isPlainText_toPrecision (h : 'e' ∉ (toPrecision q significantDigits).toList) :
    IsPlainText (toPrecision q significantDigits).toList q := by
  have hpositional := not_imp_comm.mp mem_write_of_not_positional h
  refine isPlainText_write rfl rfl hpositional ?_ fun hneg _ => negative_significant hneg
  rcases hpositional with hzero | hexponent
  · rw [Decimal.magnitude, hzero, Nat.cast_zero, zero_mul]
    exact (pow_pos two_pos 0).trans (Double.two_pow_lt_limit (Nat.zero_le 970))
  · have hlt := (Bool.and_eq_true_iff.mp hexponent).2
    refine (magnitude_lt_of_leadingExponent (of_decide_eq_true hlt)).trans ?_
    refine lt_of_le_of_lt ?_ (Double.two_pow_lt_limit (k := 14) (by decide))
    norm_num [significantDigits]

/-- **The text of a finite double is read**, unless it has a power of ten. -/
theorem isPlainText_text (h : value x = .finite q) (hplain : 'e' ∉ (text x).toList) :
    IsPlainText (text x).toList q := by
  rw [text, h] at hplain ⊢
  simp only at hplain ⊢
  split
  · exact isPlainText_nearest h
  · rename_i hnear
    rw [if_neg hnear] at hplain
    split
    · exact isPlainText_shortest h
    · rename_i hplaces
      rw [if_neg hplaces] at hplain
      exact isPlainText_toPrecision hplain

end Scalar
end LinearEquations
