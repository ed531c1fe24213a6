import LinearEquations.Proofs.Reciprocal

/-! # Laws of double arithmetic

Sums and products of doubles keep few of the laws that numbers have.  They do not depend on the order
of their operands, not even in their bits (`Double.add_comm`, `Double.mul_comm`), and a difference is
the sum with the opposite (`Double.sub_eq_add_neg`).

Apart from the signs of zeros, the value of a sum or a product is a function of the values of its
operands: the exact result (`Extended.add`, `Extended.mul`), rounded if it is a number (`IsRounded`).
Rounding knows no direction, so that opposite terms have an opposite sum, and an opposite factor
gives the opposite product. -/

namespace LinearEquations
open Float.Model Float.Model.UnpackedFloat

variable {x y z w : Float}

/-! ### Order of operands -/

namespace Double

theorem unpacked_add_comm (u v : UnpackedFloat) :
    UnpackedFloat.add Format.binary64 u v = UnpackedFloat.add Format.binary64 v u := by
  cases u with
  | notANumber => cases v <;> rfl
  | infinity s =>
    cases v with
    | infinity t => cases s <;> cases t <;> rfl
    | notANumber => rfl
    | zero t => rfl
    | finite t m e hm => rfl
  | zero s =>
    cases v with
    | zero t => cases s <;> cases t <;> rfl
    | notANumber => rfl
    | infinity t => rfl
    | finite t m e hm => rfl
  | finite s m e hm =>
    cases v with
    | finite t n f hn =>
      change normalize _ (s.apply _ + t.apply _) (min e f) _ = normalize _ _ (min f e) _
      rw [Int.min_comm e f, Int.add_comm]
    | notANumber => rfl
    | infinity t => rfl
    | zero t => rfl

theorem sign_mul_comm (s t : Sign) : s * t = t * s := by cases s <;> cases t <;> rfl

theorem unpacked_mul_comm (u v : UnpackedFloat) :
    UnpackedFloat.mul Format.binary64 u v = UnpackedFloat.mul Format.binary64 v u := by
  cases u with
  | notANumber => cases v <;> rfl
  | infinity s =>
    cases v with
    | infinity t => exact congrArg infinity (sign_mul_comm s t)
    | finite t n f hn => exact congrArg infinity (sign_mul_comm s t)
    | notANumber => rfl
    | zero t => rfl
  | zero s =>
    cases v with
    | zero t => exact congrArg zero (sign_mul_comm s t)
    | finite t n f hn => exact congrArg zero (sign_mul_comm s t)
    | notANumber => rfl
    | infinity t => rfl
  | finite s m e hm =>
    cases v with
    | finite t n f hn =>
      change roundWithAccuracy _ (s * t) (m * n) (e + f) _ = roundWithAccuracy _ _ _ _ _
      rw [sign_mul_comm, Nat.mul_comm, Int.add_comm]
    | zero t => exact congrArg zero (sign_mul_comm s t)
    | infinity t => exact congrArg infinity (sign_mul_comm s t)
    | notANumber => rfl

theorem unpacked_sub_eq (u v : UnpackedFloat) :
    UnpackedFloat.sub Format.binary64 u v = UnpackedFloat.add Format.binary64 u v.neg := by
  cases u with
  | finite s m e hm =>
    cases v with
    | finite t n f hn =>
      have happly : ∀ k : Int, (-t).apply k = -t.apply k := by
        intro k
        cases t with
        | negative => exact (Int.neg_neg k).symm
        | positive => rfl
      change normalize _ (s.apply _ - t.apply _) _ _ = normalize _ (s.apply _ + (-t).apply _) _ _
      rw [happly, Int.sub_eq_add_neg]
    | notANumber => rfl
    | infinity t => rfl
    | zero t => rfl
  | notANumber => cases v <;> rfl
  | infinity s => cases v <;> rfl
  | zero s => cases v <;> rfl

/-- **Sums do not depend on the order of their terms.** -/
protected theorem add_comm (x y : Float) : x + y = y + x :=
  congrArg (fun u => Float.ofModel (pack u)) (unpacked_add_comm x.toModel.unpack y.toModel.unpack)

/-- **Products do not depend on the order of their factors.** -/
protected theorem mul_comm (x y : Float) : x * y = y * x :=
  congrArg (fun u => Float.ofModel (pack u)) (unpacked_mul_comm x.toModel.unpack y.toModel.unpack)

/-- **A difference is a sum.** -/
protected theorem sub_eq_add_neg (x y : Float) : x - y = x + -y := by
  have hsub := unpacked_sub_eq x.toModel.unpack y.toModel.unpack
  rw [← unpack_neg] at hsub
  exact congrArg (fun u => Float.ofModel (pack u)) hsub

end Double

/-! ### Opposites -/

/-- The opposite number or infinity. -/
def Extended.neg : Extended → Extended
  | .nan => .nan
  | .infinite negative => .infinite (!negative)
  | .finite q => .finite (-q)

@[simp] protected theorem Extended.neg_neg (v : Extended) : v.neg.neg = v := by
  cases v with
  | nan => rfl
  | infinite negative => exact congrArg Extended.infinite (Bool.not_not negative)
  | finite q => exact congrArg Extended.finite (neg_neg q)

/-- What a double is, unpacked, and what its value is. -/
theorem value_cases (x : Float) :
    (x.toModel.unpack = .notANumber ∧ Extended.ofFloat x = .nan) ∨
      (∃ s, x.toModel.unpack = .infinity s ∧
        Extended.ofFloat x = .infinite (BinaryFraction.isMinus s)) ∨
      ∃ q, Extended.ofFloat x = .finite q := by
  rw [ofFloat_eq]
  cases x.toModel.unpack with
  | notANumber => exact .inl ⟨rfl, rfl⟩
  | infinity s => exact .inr (.inl ⟨s, rfl, rfl⟩)
  | zero s => exact .inr (.inr ⟨0, rfl⟩)
  | finite s m e hm => exact .inr (.inr ⟨_, rfl⟩)

/-- **The value of the opposite is the opposite value.** -/
theorem ofFloat_neg_eq (x : Float) : Extended.ofFloat (-x) = (Extended.ofFloat x).neg := by
  rcases value_cases x with ⟨hx, hvalue⟩ | ⟨s, hx, hvalue⟩ | ⟨q, hvalue⟩
  · rw [hvalue, ofFloat_eq, unpack_neg, hx]
    rfl
  · rw [hvalue, ofFloat_eq, unpack_neg, hx]
    cases s <;> rfl
  · rw [hvalue]
    exact ofFloat_neg hvalue

/-! ### Exact results -/

namespace Extended

/-- The exact sum of two values. -/
def add : Extended → Extended → Extended
  | .finite p, .finite q => .finite (p + q)
  | .infinite s, .finite _ => .infinite s
  | .finite _, .infinite t => .infinite t
  | .infinite s, .infinite t => if s = t then .infinite s else .nan
  | _, _ => .nan

/-- The exact product of two values. -/
def mul : Extended → Extended → Extended
  | .finite p, .finite q => .finite (p * q)
  | .infinite s, .finite q => if q = 0 then .nan else .infinite (s ^^ (q < 0))
  | .finite p, .infinite t => if p = 0 then .nan else .infinite ((p < 0) ^^ t)
  | .infinite s, .infinite t => .infinite (s ^^ t)
  | _, _ => .nan

theorem neg_add_neg (a b : Extended) : a.neg.add b.neg = (a.add b).neg := by
  cases a with
  | nan => cases b <;> rfl
  | infinite s =>
    cases b with
    | infinite t => cases s <;> cases t <;> rfl
    | nan => rfl
    | finite q => rfl
  | finite p =>
    cases b with
    | finite q => exact congrArg finite (neg_add p q).symm
    | nan => rfl
    | infinite t => rfl

protected theorem mul_comm (a b : Extended) : a.mul b = b.mul a := by
  cases a <;> cases b <;> simp only [mul, mul_comm, Bool.xor_comm]

protected theorem neg_mul (a b : Extended) : a.neg.mul b = (a.mul b).neg := by
  cases a with
  | nan => cases b <;> rfl
  | infinite s =>
    cases b with
    | nan => rfl
    | infinite t => exact congrArg infinite (Bool.not_xor s t)
    | finite q =>
      simp only [neg, mul]
      split
      · rfl
      · exact congrArg infinite (Bool.not_xor s _)
  | finite p =>
    cases b with
    | nan => rfl
    | finite q => exact congrArg finite (neg_mul p q)
    | infinite t =>
      rcases lt_trichotomy p 0 with hp | rfl | hp
      · simp [neg, mul, hp, hp.ne, hp.not_gt]
      · simp [neg, mul]
      · simp [neg, mul, hp, hp.ne', hp.not_gt]

end Extended

namespace Double
variable {v : Rat} {a b r r' : Extended}

/-- A number is rounded, and what is no number or an infinity stays what it is. -/
def IsRounded : Extended → Extended → Prop
  | .finite v, r => IsRounding v r
  | .infinite s, r => r = .infinite s
  | .nan, r => r = .nan

theorem neg_valueOfRounded (negative : Bool) (q : Rat) :
    (valueOfRounded negative q).neg = valueOfRounded (!negative) q := by
  unfold valueOfRounded
  split
  · cases negative
    · rfl
    · exact congrArg Extended.finite (neg_neg q)
  · rfl

theorem valueOfRounded_zero (negative : Bool) : valueOfRounded negative 0 = .finite 0 :=
  (valueOfRounded_eq_zero_iff negative).mpr rfl

/-- **There is only one rounding.** -/
theorem IsRounding.unique (h : IsRounding v r) (h' : IsRounding v r') : r = r' := by
  obtain ⟨n, t, hn, rfl⟩ := h
  obtain ⟨n', t', hn', rfl⟩ := h'
  obtain ⟨rfl, rfl⟩ := hn.unique hn'
  rfl

/-- **Rounding knows no direction.** -/
theorem IsRounding.neg (h : IsRounding v r) : IsRounding (-v) r.neg := by
  obtain ⟨n, t, hn, rfl⟩ := h
  refine ⟨n, t, by rwa [abs_neg], ?_⟩
  rw [neg_valueOfRounded]
  rcases lt_trichotomy v 0 with hv | rfl | hv
  · rw [decide_eq_true hv, decide_eq_false (by linarith)]
    rfl
  · have hzero : n = 0 := hn.eq_zero_iff.mpr (abs_zero.trans_le (zpow_pos two_pos _).le)
    rw [hzero, Nat.cast_zero, zero_mul, valueOfRounded_zero, valueOfRounded_zero]
  · rw [decide_eq_true (by linarith : -v < 0), decide_eq_false (not_lt.mpr hv.le)]
    rfl

theorem IsRounded.unique (h : IsRounded a r) (h' : IsRounded a r') : r = r' := by
  cases a with
  | finite v => exact IsRounding.unique h h'
  | infinite s => exact Eq.trans h (Eq.symm h')
  | nan => exact Eq.trans h (Eq.symm h')

theorem IsRounded.neg (h : IsRounded a r) : IsRounded a.neg r.neg := by
  cases a with
  | finite v => exact IsRounding.neg h
  | infinite s => exact congrArg Extended.neg h
  | nan => exact congrArg Extended.neg h

theorem packedValue_notANumber : packedValue .notANumber = .nan :=
  packedValue_of_fits (f := .notANumber) trivial

end Double

open Double

/-- **The value of a sum** is the exact one, rounded. -/
theorem isRounded_add (x y : Float) :
    IsRounded ((Extended.ofFloat x).add (Extended.ofFloat y)) (Extended.ofFloat (x + y)) := by
  rcases value_cases x with ⟨hx, hvx⟩ | ⟨s, hx, hvx⟩ | ⟨p, hvx⟩
  · rw [ofFloat_add_eq, hx, hvx]
    rcases value_cases y with ⟨-, hvy⟩ | ⟨t, -, hvy⟩ | ⟨q, hvy⟩ <;> rw [hvy] <;>
      exact packedValue_notANumber
  · rw [ofFloat_add_eq, hx, hvx]
    rcases value_cases y with ⟨hy, hvy⟩ | ⟨t, hy, hvy⟩ | ⟨q, hvy⟩
    · rw [hy, hvy]
      exact packedValue_notANumber
    · rw [hy, hvy]
      cases s <;> cases t
      · exact packedValue_infinity .negative
      · exact packedValue_notANumber
      · exact packedValue_notANumber
      · exact packedValue_infinity .positive
    · rw [hvy]
      rcases unpack_cases hvy with ⟨-, t, hy⟩ | ⟨t, m, e, hm, hy, -⟩ <;> rw [hy] <;>
        exact packedValue_infinity s
  · rcases value_cases y with ⟨hy, hvy⟩ | ⟨t, hy, hvy⟩ | ⟨q, hvy⟩
    · rw [ofFloat_add_eq, hy, hvx, hvy]
      rcases unpack_cases hvx with ⟨-, s, hx⟩ | ⟨s, m, e, hm, hx, -⟩ <;> rw [hx] <;>
        exact packedValue_notANumber
    · rw [ofFloat_add_eq, hy, hvx, hvy]
      rcases unpack_cases hvx with ⟨-, s, hx⟩ | ⟨s, m, e, hm, hx, -⟩ <;> rw [hx] <;>
        exact packedValue_infinity t
    · rw [hvx, hvy]
      exact isRounding_add hvx hvy

/-- A factor of an infinity that is not zero has a sign. -/
theorem unpack_of_ne_zero {q : Rat} (hy : Extended.ofFloat y = .finite q) (hq : q ≠ 0) :
    ∃ s m e hm, y.toModel.unpack = .finite s m e hm ∧ decide (q < 0) = BinaryFraction.isMinus s := by
  rcases unpack_cases hy with ⟨hzero, -⟩ | ⟨s, m, e, hm, hs, hvalue⟩
  · exact absurd hzero hq
  · refine ⟨s, m, e, hm, hs, ?_⟩
    have hpos : (0 : Rat) < m * 2 ^ e := mul_pos (by exact_mod_cast hm) (zpow_pos two_pos e)
    rw [hvalue]
    cases s with
    | positive => simpa [Sign.apply, BinaryFraction.isMinus] using hpos.le
    | negative => simpa [Sign.apply, BinaryFraction.isMinus] using hpos

theorem isMinus_mul (s t : Sign) : BinaryFraction.isMinus (s * t) =
    (BinaryFraction.isMinus s ^^ BinaryFraction.isMinus t) := by
  cases s <;> cases t <;> rfl

/-- An infinity times a number. -/
theorem isRounded_infinite_mul {s : Sign} {q : Rat} (hx : x.toModel.unpack = .infinity s)
    (hy : Extended.ofFloat y = .finite q) :
    IsRounded ((Extended.infinite (BinaryFraction.isMinus s)).mul (.finite q))
      (Extended.ofFloat (x * y)) := by
  rw [ofFloat_mul_eq, hx]
  by_cases hq : q = 0
  · obtain ⟨t, ht⟩ := exists_unpack_of_zero (hq ▸ hy)
    rw [ht, Extended.mul, if_pos hq]
    exact packedValue_notANumber
  · obtain ⟨t, m, e, hm, ht, hsign⟩ := unpack_of_ne_zero hy hq
    rw [ht, Extended.mul, if_neg hq, hsign, ← isMinus_mul]
    exact packedValue_infinity (s * t)

/-- **The value of a product** is the exact one, rounded. -/
theorem isRounded_mul (x y : Float) :
    IsRounded ((Extended.ofFloat x).mul (Extended.ofFloat y)) (Extended.ofFloat (x * y)) := by
  rcases value_cases x with ⟨hx, hvx⟩ | ⟨s, hx, hvx⟩ | ⟨p, hvx⟩
  · rw [ofFloat_mul_eq, hx, hvx]
    rcases value_cases y with ⟨-, hvy⟩ | ⟨t, -, hvy⟩ | ⟨q, hvy⟩ <;> rw [hvy] <;>
      exact packedValue_notANumber
  · rw [hvx]
    rcases value_cases y with ⟨hy, hvy⟩ | ⟨t, hy, hvy⟩ | ⟨q, hvy⟩
    · rw [ofFloat_mul_eq, hx, hy, hvy]
      exact packedValue_notANumber
    · rw [ofFloat_mul_eq, hx, hy, hvy, Extended.mul, ← isMinus_mul]
      exact packedValue_infinity (s * t)
    · rw [hvy]
      exact isRounded_infinite_mul hx hvy
  · rw [hvx]
    rcases value_cases y with ⟨hy, hvy⟩ | ⟨t, hy, hvy⟩ | ⟨q, hvy⟩
    · rw [ofFloat_mul_eq, hy, hvy]
      rcases unpack_cases hvx with ⟨-, s, hx⟩ | ⟨s, m, e, hm, hx, -⟩ <;> rw [hx] <;>
        exact packedValue_notANumber
    · rw [hvy, Extended.mul_comm, Double.mul_comm]
      exact isRounded_infinite_mul hy hvx
    · rw [hvy]
      exact isRounding_mul hvx hvy

/-! ### Values of results -/

/-- Terms with equal values have sums with equal values. -/
theorem ofFloat_add_congr (hx : Extended.ofFloat x = Extended.ofFloat z)
    (hy : Extended.ofFloat y = Extended.ofFloat w) :
    Extended.ofFloat (x + y) = Extended.ofFloat (z + w) := by
  have h := isRounded_add x y
  rw [hx, hy] at h
  exact h.unique (isRounded_add z w)

/-- **Opposite terms have opposite sums.** -/
theorem ofFloat_add_of_neg (hx : Extended.ofFloat x = (Extended.ofFloat z).neg)
    (hy : Extended.ofFloat y = (Extended.ofFloat w).neg) :
    Extended.ofFloat (x + y) = (Extended.ofFloat (z + w)).neg := by
  have h := isRounded_add x y
  rw [hx, hy, Extended.neg_add_neg] at h
  exact h.unique (isRounded_add z w).neg

/-- Factors with equal values have products with equal values. -/
theorem ofFloat_mul_congr (hx : Extended.ofFloat x = Extended.ofFloat z)
    (hy : Extended.ofFloat y = Extended.ofFloat w) :
    Extended.ofFloat (x * y) = Extended.ofFloat (z * w) := by
  have h := isRounded_mul x y
  rw [hx, hy] at h
  exact h.unique (isRounded_mul z w)

/-- **An opposite factor gives the opposite product.** -/
theorem ofFloat_mul_of_neg (hx : Extended.ofFloat x = (Extended.ofFloat z).neg)
    (hy : Extended.ofFloat y = Extended.ofFloat w) :
    Extended.ofFloat (x * y) = (Extended.ofFloat (z * w)).neg := by
  have h := isRounded_mul x y
  rw [hx, hy, Extended.neg_mul] at h
  exact h.unique (isRounded_mul z w).neg

/-- **Differences are rounded to the nearest.** -/
theorem isRounding_sub {p q : Rat} (hx : Extended.ofFloat x = .finite p)
    (hy : Extended.ofFloat y = .finite q) : IsRounding (p - q) (Extended.ofFloat (x - y)) := by
  rw [Double.sub_eq_add_neg, sub_eq_add_neg]
  exact isRounding_add hx (ofFloat_neg hy)

/-! ### Finite results

What is no number or an infinity never becomes finite again. -/

namespace Extended
variable {a b : Extended}

theorem isFinite_of_add (h : (a.add b).isFinite) : a.isFinite ∧ b.isFinite := by
  cases a with
  | nan => cases b <;> cases h
  | infinite s =>
    cases b with
    | infinite t =>
      simp only [add] at h
      split at h <;> cases h
    | nan => cases h
    | finite q => cases h
  | finite p =>
    cases b with
    | finite q => exact ⟨rfl, rfl⟩
    | infinite t => cases h
    | nan => cases h

theorem isFinite_of_mul (h : (a.mul b).isFinite) : a.isFinite ∧ b.isFinite := by
  cases a with
  | nan => cases b <;> cases h
  | infinite s =>
    cases b with
    | finite q =>
      simp only [mul] at h
      split at h <;> cases h
    | infinite t => cases h
    | nan => cases h
  | finite p =>
    cases b with
    | finite q => exact ⟨rfl, rfl⟩
    | infinite t =>
      simp only [mul] at h
      split at h <;> cases h
    | nan => cases h

end Extended

theorem Double.IsRounded.isFinite {v r : Extended} (h : IsRounded v r) (hr : r.isFinite) :
    v.isFinite := by
  cases v with
  | finite v => rfl
  | infinite s =>
    cases h
    cases hr
  | nan =>
    cases h
    cases hr

/-- **A finite sum has finite terms.** -/
theorem isFinite_of_isFinite_add (h : Scalar.isFinite (x + y)) :
    Scalar.isFinite x ∧ Scalar.isFinite y :=
  Extended.isFinite_of_add ((isRounded_add x y).isFinite h)

/-- **A finite product has finite factors.** -/
theorem isFinite_of_isFinite_mul (h : Scalar.isFinite (x * y)) :
    Scalar.isFinite x ∧ Scalar.isFinite y :=
  Extended.isFinite_of_mul ((isRounded_mul x y).isFinite h)

theorem isFinite_of_isFinite_neg (h : Scalar.isFinite (-x)) : Scalar.isFinite x := by
  change (Extended.ofFloat (-x)).isFinite at h
  rw [ofFloat_neg_eq] at h
  change (Extended.ofFloat x).isFinite
  cases hx : Extended.ofFloat x <;> rw [hx] at h
  · cases h
  · cases h
  · rfl

theorem isFinite_of_isFinite_sub (h : Scalar.isFinite (x - y)) :
    Scalar.isFinite x ∧ Scalar.isFinite y := by
  rw [Double.sub_eq_add_neg] at h
  obtain ⟨hx, hneg⟩ := isFinite_of_isFinite_add h
  exact ⟨hx, isFinite_of_isFinite_neg hneg⟩

end LinearEquations
