import LinearEquations.Proofs.DoubleValue
import LinearEquations.Complex.Text
import Mathlib.Data.Rat.Floor
import Mathlib.Tactic.Linarith

/-! # Texts of whole numbers

A double that is a whole number up to `2 ^ 53` is written with all its digits and nothing else
(`Scalar.text_of_isWhole`).  Up to there doubles are at most one apart, so the only whole number
that is read as a given one is that number itself; a decimal with fewer digits and a power of ten is
whole as well.  So the search for the shortest decimal can stop at no other number
(`BinaryFraction.eq_of_withDigits?`), and it stops at the latest where all digits are kept. -/

namespace LinearEquations

/-! ### Digits -/

namespace Decimal

theorem figures_ne_nil (n : Nat) : figures n ≠ [] := Nat.toDigits_ne_nil

theorem isDigit_of_mem_figures {n : Nat} {x : Char} (h : x ∈ figures n) : x.isDigit :=
  Nat.isDigit_of_mem_toDigits (by decide) (by decide) h

theorem length_figures_le_iff {n k : Nat} (hk : 0 < k) :
    (figures n).length ≤ k ↔ n < 10 ^ k := Nat.length_toDigits_le_iff (by decide) hk

theorem length_figures_pos (n : Nat) : 0 < (figures n).length :=
  List.length_pos_iff.mpr (figures_ne_nil n)

theorem lt_pow_figures (n : Nat) : n < 10 ^ (figures n).length :=
  (length_figures_le_iff (length_figures_pos n)).mp (Nat.le_refl _)

theorem pow_figures_le {n : Nat} (hpos : 0 < n) : 10 ^ ((figures n).length - 1) ≤ n := by
  have hlen := length_figures_pos n
  by_contra hlt
  rcases Nat.eq_zero_or_pos ((figures n).length - 1) with hzero | hone
  · rw [hzero] at hlt
    omega
  · have := (length_figures_le_iff hone).mpr (Nat.lt_of_not_le hlt)
    omega

/-- Zeros at the end. -/
theorem figures_mul_pow {d : Nat} (hd : 0 < d) (k : Nat) :
    figures (d * 10 ^ k) = figures d ++ List.replicate k '0' := by
  induction k with
  | zero => simp
  | succ k ih =>
    have happend := Nat.toDigits_append_toDigits (b := 10) (d := 0) (by decide)
      (Nat.mul_pos hd (Nat.pow_pos (n := k) (show 0 < 10 by decide))) (by decide)
    rw [List.replicate_succ', ← List.append_assoc, ← ih]
    have hsucc : d * 10 ^ (k + 1) = 10 * (d * 10 ^ k) + 0 := by
      rw [Nat.pow_succ, Nat.add_zero, Nat.mul_comm 10, Nat.mul_assoc]
    rw [hsucc]
    exact happend.symm

theorem dropZeros_spec (fuel digits : Nat) (exponent : Int) :
    ∃ k : Nat, (dropZeros fuel digits exponent).2 = exponent + k ∧
      digits = (dropZeros fuel digits exponent).1 * 10 ^ k := by
  induction fuel generalizing digits exponent with
  | zero => exact ⟨0, (Int.add_zero _).symm, (Nat.mul_one _).symm⟩
  | succ fuel ih =>
    rw [dropZeros]
    split
    · rename_i hzero
      obtain ⟨k, hexponent, hdigits⟩ := ih (digits / 10) (exponent + 1)
      refine ⟨k + 1, by rw [hexponent]; omega, ?_⟩
      rw [Nat.pow_succ, ← Nat.mul_assoc, ← hdigits]
      omega
    · exact ⟨0, (Int.add_zero _).symm, (Nat.mul_one _).symm⟩

/-- **A whole number is written with all its digits**, however many of them a decimal leaves to the
power of ten. -/
theorem write_plain_trimmed (negative : Bool) {digits k n : Nat} (hn : 0 < n)
    (hvalue : digits * 10 ^ k = n) :
    (trimmed ⟨negative, digits, k⟩).write plain =
      String.ofList ((if negative then ['-'] else []) ++ figures n) := by
  have hdigits : digits ≠ 0 := by
    rintro rfl
    rw [Nat.zero_mul] at hvalue
    omega
  obtain ⟨j, hexponent, hdrop⟩ := dropZeros_spec (figures digits).length digits k
  rw [trimmed, if_neg hdigits]
  generalize dropZeros (figures digits).length digits k = out at hexponent hdrop
  obtain ⟨rest, exponent⟩ := out
  simp only at hexponent hdrop ⊢
  have hrest : rest ≠ 0 := by
    rintro rfl
    omega
  have hbody : positionalText plain rest exponent = figures n := by
    have hsum : n = rest * 10 ^ (j + k) := by rw [← hvalue, hdrop, Nat.pow_add, Nat.mul_assoc]
    have hexponent : exponent.toNat = j + k := by omega
    rw [positionalText, if_pos (by omega), hexponent, hsum,
      figures_mul_pow (Nat.pos_of_ne_zero hrest)]
    exact List.append_nil _
  have hsign : (rest != 0 || plain.signedZero) = true := by simp [hrest]
  have hpositional : (rest = 0 || plain.positional (leadingExponent ⟨negative, rest, exponent⟩)) =
      true := Bool.or_true _
  simp only [write, hsign, hpositional, Bool.and_true, if_true, hbody]

end Decimal

namespace BinaryFraction
open Decimal

variable {b : BinaryFraction} {n : Nat}

/-! ### Whole doubles -/

/-- The significand is as long as it can be, unless the exponent is the least one. -/
structure IsCanonical (b : BinaryFraction) : Prop where
  lt : b.significand < 2 ^ 53
  le : -1074 ≤ b.exponent
  long : 2 ^ 52 ≤ b.significand ∨ b.exponent = -1074

theorem isCanonical_of_ofFloat? {x : Float} (h : ofFloat? x = some b) : b.IsCanonical := by
  have hfits := Double.fits_toModel x
  rw [ofFloat?_eq] at h
  cases hx : x.toModel.unpack with
  | finite s m e hm =>
    rw [hx] at h hfits
    cases h
    exact ⟨hfits.1, hfits.2.1, hfits.2.2.2⟩
  | zero s =>
    rw [hx] at h
    cases h
    exact ⟨Nat.two_pow_pos 53, Int.le_refl _, .inr rfl⟩
  | infinity s =>
    rw [hx] at h
    cases h
  | notANumber =>
    rw [hx] at h
    cases h

theorem two_zpow_pos (e : Int) : (0 : Rat) < 2 ^ e := zpow_pos two_pos e

/-- Below `2 ^ 53` doubles are at most one apart. -/
theorem IsCanonical.two_zpow_le_one (hb : b.IsCanonical) (hlt : b.magnitude < 2 ^ 53) :
    (2 : Rat) ^ b.exponent ≤ 1 := by
  have hle : b.exponent ≤ 0 := by
    by_contra hpos
    have hlong : 2 ^ 52 ≤ b.significand := hb.long.resolve_right (by omega)
    have htwo : (2 : Rat) ≤ 2 ^ b.exponent := by
      simpa using zpow_le_zpow_right₀ (one_le_two (α := Rat)) (show (1 : Int) ≤ b.exponent by omega)
    have hlong : (2 : Rat) ^ 52 ≤ b.significand := by exact_mod_cast hlong
    have : (2 : Rat) ^ 52 * 2 ≤ b.magnitude :=
      mul_le_mul hlong htwo (by norm_num) (Nat.cast_nonneg _)
    norm_num at this hlt
    linarith
  exact zpow_le_one_of_nonpos₀ one_le_two hle

/-- **The only whole number that is read as a given one is that number.** -/
theorem contains_natCast_iff (hn : b.magnitude = n) (hunit : (2 : Rat) ^ b.exponent ≤ 1) (k : Nat) :
    b.readInterval.contains k ↔ k = n := by
  have hpos := two_zpow_pos b.exponent
  have hgap : ∃ gap, b.readInterval.lower = n - gap ∧ 0 < gap ∧ gap ≤ 1 / 2 := by
    refine ⟨_, congrArg (· - _) hn, ?_, ?_⟩ <;> split <;> linarith
  obtain ⟨gap, hlower, hgap, hle⟩ := hgap
  have hupper : b.readInterval.upper = n + 2 ^ b.exponent / 2 := congrArg (· + _) hn
  simp only [Interval.contains, Bool.or_eq_true, Bool.and_eq_true, decide_eq_true_eq, hlower,
    hupper]
  constructor
  · intro h
    have hlow : (n : Rat) < k + 1 := by
      rcases h with ⟨h, -⟩ | ⟨-, h | h⟩ <;> linarith
    have hhigh : (k : Rat) < n + 1 := by
      rcases h with ⟨-, h⟩ | ⟨-, h | h⟩ <;> linarith
    have hlow : n < k + 1 := by exact_mod_cast hlow
    have hhigh : k < n + 1 := by exact_mod_cast hhigh
    omega
  · rintro rfl
    exact .inl ⟨by linarith, by linarith⟩

/-! ### The shortest decimal -/

theorem exponentOf_natCast (hpos : 0 < n) :
    exponentOf n = ((figures n).length - 1 : Nat) := by
  have hlen := length_figures_pos n
  have hexponent : ((figures n).length : Int) - (figures 1).length =
      ((figures n).length - 1 : Nat) := by
    change ((figures n).length : Int) - 1 = _
    omega
  have hle : (10 : Rat) ^ ((figures n).length - 1) ≤ n := by exact_mod_cast pow_figures_le hpos
  rw [exponentOf, Rat.num_natCast, Rat.den_natCast, Int.natAbs_natCast]
  simp only [hexponent, zpow_natCast]
  exact if_pos hle

variable {digits k : Nat}

/-- With at most as many digits as `n` has, the candidates are whole numbers. -/
theorem withDigits?_eq (hn : b.magnitude = n) (hpos : 0 < n) (hk : digits + k = (figures n).length)
    (hdigits : 0 < digits) :
    b.withDigits? digits =
      let low := ((n : Rat) / (10 : Rat) ^ k).floor.toNat
      let reads := fun m : Nat => b.readInterval.contains m
      if reads ((low + 1) * 10 ^ k) && (!reads (low * 10 ^ k) ||
          ((low + 1 : Rat) * 10 ^ k - n ≤ n - low * 10 ^ k)) then some ⟨b.negative, low + 1, k⟩
      else if reads (low * 10 ^ k) then some ⟨b.negative, low, k⟩
      else none := by
  have hunit : exponentOf n - digits + 1 = k := by
    rw [exponentOf_natCast hpos]
    omega
  unfold withDigits?
  simp only [hn, hunit, zpow_natCast, Nat.cast_mul, Nat.cast_add, Nat.cast_pow, Nat.cast_ofNat,
    Nat.cast_one]

/-- **A candidate that is read as `n` is `n`.** -/
theorem eq_of_withDigits? {d : Decimal} (hn : b.magnitude = n) (hpos : 0 < n)
    (hunit : (2 : Rat) ^ b.exponent ≤ 1) (hk : digits + k = (figures n).length)
    (hdigits : 0 < digits) (h : b.withDigits? digits = some d) :
    ∃ m, d = ⟨b.negative, m, k⟩ ∧ m * 10 ^ k = n := by
  rw [withDigits?_eq hn hpos hk hdigits] at h
  simp only at h
  split at h
  · rename_i hreads
    cases h
    exact ⟨_, rfl, (contains_natCast_iff hn hunit _).mp (Bool.and_eq_true_iff.mp hreads).1⟩
  · split at h
    · rename_i hreads
      cases h
      exact ⟨_, rfl, (contains_natCast_iff hn hunit _).mp hreads⟩
    · cases h

/-- With all digits there is a candidate. -/
theorem withDigits?_ne_none (hn : b.magnitude = n) (hpos : 0 < n)
    (hunit : (2 : Rat) ^ b.exponent ≤ 1) : b.withDigits? (figures n).length ≠ none := by
  have hlen := length_figures_pos n
  have hlow : ((n : Rat) / (10 : Rat) ^ 0).floor.toNat = n := by
    rw [pow_zero, div_one, ← Int.cast_natCast, Rat.floor_intCast, Int.toNat_natCast]
  rw [withDigits?_eq hn hpos (Nat.add_zero _) hlen]
  simp only [hlow]
  split
  · exact nofun
  · have hself : b.readInterval.contains (n * 10 ^ 0 : Nat) :=
      (contains_natCast_iff hn hunit _).mpr (Nat.mul_one n)
    rw [if_pos hself]
    exact nofun

/-- The first number for which there is a value comes before any other one. -/
theorem exists_findSome?_range {A : Type} {f : Nat → Option A} {i count : Nat} (hi : i < count)
    (hf : f i ≠ none) : ∃ j ≤ i, ∃ a, f j = some a ∧ (List.range count).findSome? f = some a := by
  cases hfind : (List.range count).findSome? f with
  | none => exact absurd (List.findSome?_eq_none_iff.mp hfind i (List.mem_range.mpr hi)) hf
  | some a =>
    obtain ⟨l₁, j, l₂, hrange, hj, hnone⟩ := List.findSome?_eq_some_iff.mp hfind
    rw [List.range_eq_range'] at hrange
    obtain ⟨k, -, rfl, hrest⟩ := List.range'_eq_append_iff.mp hrange
    -- what comes before the first value are the numbers below it
    obtain rfl : k = j := by
      cases hcount : count - k with
      | zero =>
        rw [hcount] at hrest
        cases hrest
      | succ rest =>
        rw [hcount, List.range'_succ] at hrest
        simpa using (List.cons.inj hrest).1.symm
    refine ⟨k, Nat.le_of_not_lt fun hlt => hf (hnone i ?_), a, hj, rfl⟩
    rw [← List.range_eq_range']
    exact List.mem_range.mpr hlt

theorem exists_shortest (hn : b.magnitude = n) (hpos : 0 < n)
    (hunit : (2 : Rat) ^ b.exponent ≤ 1) (hlen : (figures n).length ≤ enoughDigits) :
    ∃ m k : Nat, m * 10 ^ k = n ∧ b.shortest = trimmed ⟨b.negative, m, k⟩ := by
  have hfigures := length_figures_pos n
  have hsignificand : b.significand ≠ 0 := by
    intro h
    rw [magnitude, h, Nat.cast_zero, zero_mul] at hn
    have : n = 0 := by exact_mod_cast hn.symm
    omega
  have hlast : b.withDigits? ((figures n).length - 1 + 1) ≠ none := by
    rw [Nat.sub_add_cancel hfigures]
    exact withDigits?_ne_none hn hpos hunit
  have hlt : (figures n).length - 1 < enoughDigits := by omega
  obtain ⟨j, hj, d, hd, hfind⟩ :=
    exists_findSome?_range (f := fun i => b.withDigits? (i + 1)) hlt hlast
  have hsum : j + 1 + ((figures n).length - (j + 1)) = (figures n).length := by omega
  obtain ⟨m, rfl, hm⟩ := eq_of_withDigits? hn hpos hunit hsum (Nat.succ_pos j) hd
  refine ⟨m, _, hm, ?_⟩
  rw [shortest, if_neg hsignificand]
  simp only [hfind, Option.getD_some]

/-- Only one double has the magnitude `2 ^ 53`. -/
theorem IsCanonical.eq_of_magnitude (hb : b.IsCanonical) (h : b.magnitude = 2 ^ 53) :
    b = ⟨b.negative, 2 ^ 52, 1⟩ := by
  have hpos := two_zpow_pos b.exponent
  have hlt : (b.significand : Rat) < 2 ^ 53 := by exact_mod_cast hb.lt
  have hexponent : 0 < b.exponent := by
    by_contra hle
    have hone : (2 : Rat) ^ b.exponent ≤ 1 := zpow_le_one_of_nonpos₀ one_le_two (by omega)
    have : b.magnitude ≤ b.significand := mul_le_of_le_one_right (Nat.cast_nonneg _) hone
    linarith
  have hlong : (2 : Rat) ^ 52 ≤ b.significand := by
    exact_mod_cast hb.long.resolve_right (by omega)
  have hexponent : b.exponent = 1 := by
    by_contra hne
    have hfour : (4 : Rat) ≤ 2 ^ b.exponent := by
      have := zpow_le_zpow_right₀ (one_le_two (α := Rat)) (show (2 : Int) ≤ b.exponent by omega)
      norm_num at this
      linarith
    have : (2 : Rat) ^ 52 * 4 ≤ b.magnitude :=
      mul_le_mul hlong hfour (by norm_num) (Nat.cast_nonneg _)
    rw [h] at this
    norm_num at this
  have hsignificand : b.significand = 2 ^ 52 := by
    rw [magnitude, hexponent, zpow_one] at h
    have : (b.significand : Rat) = 2 ^ 52 := by linarith
    exact_mod_cast this
  obtain ⟨negative, significand, exponent⟩ := b
  simp only at hsignificand hexponent
  rw [hsignificand, hexponent]

theorem magnitude_nonneg (b : BinaryFraction) : 0 ≤ b.magnitude :=
  mul_nonneg (Nat.cast_nonneg _) (two_zpow_pos _).le

/-- The sign and the magnitude of a whole number. -/
theorem eq_natAbs_of_toRat {z : Int} (h : b.toRat = z) :
    b.magnitude = z.natAbs ∧ (z ≠ 0 → (b.negative ↔ z < 0)) := by
  have hnonneg := b.magnitude_nonneg
  have hne : z ≠ 0 → (z : Rat) ≠ 0 := fun hz => by exact_mod_cast hz
  have hcast : ((z.natAbs : Nat) : Rat) = |(z : Rat)| := by rw [Nat.cast_natAbs, Int.cast_abs]
  rw [hcast]
  unfold toRat at h
  split at h
  · rename_i hnegative
    have hz : (z : Rat) ≤ 0 := by linarith
    refine ⟨by rw [abs_of_nonpos hz, ← h, neg_neg], fun hne' => iff_of_true hnegative ?_⟩
    have : (z : Rat) < 0 := lt_of_le_of_ne hz (hne hne')
    exact_mod_cast this
  · rename_i hnegative
    have hz : 0 ≤ (z : Rat) := by linarith
    refine ⟨by rw [abs_of_nonneg hz, ← h], fun _ => iff_of_false hnegative (not_lt.mpr ?_)⟩
    exact_mod_cast hz

end BinaryFraction

/-! ### Texts -/

namespace Scalar
open BinaryFraction Decimal

/-- The scalar is a whole number up to `2 ^ 53`. -/
def IsWhole {R : Type} [Scalar R] (x : R) (z : Int) : Prop :=
  value x = .finite z ∧ z.natAbs ≤ 2 ^ 53

/-- The digits of a whole number after its sign. -/
def wholeText (z : Int) : List Char := (if z < 0 then ['-'] else []) ++ figures z.natAbs

theorem write_shortest {b : BinaryFraction} {z : Int} (hb : b.IsCanonical) (h : b.toRat = z)
    (hz : z.natAbs ≤ 2 ^ 53) : b.shortest.write plain = String.ofList (wholeText z) := by
  obtain ⟨hmagnitude, hnegative⟩ := eq_natAbs_of_toRat h
  rcases eq_or_ne z 0 with rfl | hne
  · have hzero : b.significand = 0 := by
      rw [Int.natAbs_zero, Nat.cast_zero, magnitude] at hmagnitude
      have := (mul_eq_zero.mp hmagnitude).resolve_right (two_zpow_pos _).ne'
      exact_mod_cast this
    rw [shortest, if_pos hzero]
    cases b.negative <;> rfl
  · have hpos : 0 < z.natAbs := Int.natAbs_pos.mpr hne
    have hsign : (if b.negative then ['-'] else []) = if z < 0 then ['-'] else [] :=
      if_congr (hnegative hne) rfl rfl
    rw [wholeText, ← hsign]
    rcases Nat.lt_or_eq_of_le hz with hlt | heq
    · have hunit : (2 : Rat) ^ b.exponent ≤ 1 := by
        refine hb.two_zpow_le_one ?_
        rw [hmagnitude]
        exact_mod_cast hlt
      have hlen : (figures z.natAbs).length ≤ enoughDigits :=
        (length_figures_le_iff (by decide)).mpr (hlt.trans (by decide))
      obtain ⟨m, k, hm, hshortest⟩ := exists_shortest hmagnitude hpos hunit hlen
      rw [hshortest, write_plain_trimmed b.negative hpos hm]
    · rw [heq] at hmagnitude ⊢
      have hb := hb.eq_of_magnitude (by exact_mod_cast hmagnitude)
      rw [hb]
      cases b.negative <;> decide +kernel

/-- A finite double is a binary fraction, whose shortest decimal is what is written. -/
theorem exists_fraction {x : Float} {q : Rat} (h : value x = .finite q) :
    ∃ b, ofFloat? x = some b ∧ b.toRat = q ∧ ∀ style, write style x = b.shortest.write style := by
  have hofFloat : Extended.ofFloat x = .finite q := h
  obtain ⟨b, hb, hrat⟩ : ∃ b, ofFloat? x = some b ∧ b.toRat = q := by
    unfold Extended.ofFloat at hofFloat
    split at hofFloat
    · rename_i b hb
      exact ⟨b, hb, Extended.finite.inj hofFloat⟩
    · split at hofFloat <;> cases hofFloat
  have hshortest : shortest? x = some b.shortest := by
    change (ofFloat? x).map shortest = _
    rw [hb]
    rfl
  refine ⟨b, hb, hrat, fun style => ?_⟩
  rw [write, h, hshortest]

/-- **A whole number is written with all its digits.** -/
theorem text_of_isWhole {x : Float} {z : Int} (h : IsWhole x z) :
    text x = String.ofList (wholeText z) := by
  obtain ⟨hvalue, hz⟩ := h
  have hden : (z : Rat).den = 1 := Rat.den_intCast z
  obtain ⟨b, hb, hrat, hwrite⟩ := exists_fraction hvalue
  rw [text, hvalue]
  simp only [hden]
  rw [if_neg (by simp), if_pos (by simp), hwrite]
  exact write_shortest (isCanonical_of_ofFloat? hb) hrat hz

end Scalar
end LinearEquations
