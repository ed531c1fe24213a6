import Mathlib.Algebra.Field.Basic
import Mathlib.Algebra.Order.Field.Rat
import Mathlib.Tactic.FieldSimp
import Mathlib.Tactic.Ring
import LinearEquations.Complex.Operand
import LinearEquations.Scalar.Basic

/-! # The field of Gaussian rationals

Over the rational numbers the operations on complex numbers are those of a field.  The tests before
the checked operations then say what they are meant to say: a number is zero exactly when
`Complex.isZero` holds, every operand is accepted, and every number but zero has a reciprocal, which
is its inverse in the field. -/

namespace LinearEquations

namespace Scalar

@[simp] theorem isZero_rat (x : Rat) : isZero x = true ↔ x = 0 := by
  simp [isZero, value]

@[simp] theorem isFinite_rat (x : Rat) : isFinite x = true := rfl

@[simp] theorem eq_rat (x y : Rat) : eq x y = true ↔ x = y := by
  simp [eq, value, Extended.eq]

end Scalar

/-- Every number is finite, so every operand is accepted. -/
@[simp] theorem Operand.check_rat (k : Operand Rat) : k.check = .ok k.value := rfl

namespace Complex

/-! ### Parts of sums, products and inverses -/

@[simp] theorem re_zero : (0 : Complex Rat).re = 0 := rfl

@[simp] theorem im_zero : (0 : Complex Rat).im = 0 := rfl

@[simp] theorem re_one : (1 : Complex Rat).re = 1 := rfl

@[simp] theorem im_one : (1 : Complex Rat).im = 0 := rfl

@[simp] theorem re_add (a b : Complex Rat) : (a + b).re = a.re + b.re := rfl

@[simp] theorem im_add (a b : Complex Rat) : (a + b).im = a.im + b.im := rfl

@[simp] theorem re_sub (a b : Complex Rat) : (a - b).re = a.re - b.re := rfl

@[simp] theorem im_sub (a b : Complex Rat) : (a - b).im = a.im - b.im := rfl

@[simp] theorem re_neg (a : Complex Rat) : (-a).re = -a.re := rfl

@[simp] theorem im_neg (a : Complex Rat) : (-a).im = -a.im := rfl

@[simp] theorem re_mul (a b : Complex Rat) : (a * b).re = a.re * b.re - a.im * b.im := rfl

@[simp] theorem im_mul (a b : Complex Rat) : (a * b).im = a.re * b.im + a.im * b.re := rfl

theorem normSq_rat (a : Complex Rat) : a.normSq = a.re * a.re + a.im * a.im := rfl

theorem normSq_eq_zero_iff {a : Complex Rat} : a.normSq = 0 ↔ a = 0 := by
  rw [normSq_rat, mul_self_add_mul_self_eq_zero]
  constructor
  · rintro ⟨hre, him⟩
    exact Complex.ext hre him
  · rintro rfl
    exact ⟨rfl, rfl⟩

/-- The conjugate over the square of the modulus. -/
instance : Inv (Complex Rat) := ⟨fun a => ⟨a.re / a.normSq, -a.im / a.normSq⟩⟩

@[simp] theorem re_inv (a : Complex Rat) : a⁻¹.re = a.re / a.normSq := rfl

@[simp] theorem im_inv (a : Complex Rat) : a⁻¹.im = -a.im / a.normSq := rfl

/-! ### The field -/

protected theorem mul_inv_cancel {a : Complex Rat} (h : a ≠ 0) : a * a⁻¹ = 1 := by
  have hn : a.normSq ≠ 0 := fun hz => h (normSq_eq_zero_iff.mp hz)
  ext
  · calc
      a.re * (a.re / a.normSq) - a.im * (-a.im / a.normSq) =
          (a.re * a.re + a.im * a.im) / a.normSq := by ring
      _ = 1 := div_self hn
  · calc
      a.re * (-a.im / a.normSq) + a.im * (a.re / a.normSq) = 0 := by ring

/-- Complex numbers with rational parts are a field. -/
instance : Field (Complex Rat) where
  add_assoc a b c := by ext <;> simp [add_assoc]
  zero_add a := by ext <;> simp
  add_zero a := by ext <;> simp
  add_comm a b := by ext <;> simp [add_comm]
  neg_add_cancel a := by ext <;> simp
  sub_eq_add_neg a b := by ext <;> simp [sub_eq_add_neg]
  left_distrib a b c := by ext <;> simp <;> ring
  right_distrib a b c := by ext <;> simp <;> ring
  zero_mul a := by ext <;> simp
  mul_zero a := by ext <;> simp
  mul_assoc a b c := by ext <;> simp <;> ring
  one_mul a := by ext <;> simp
  mul_one a := by ext <;> simp
  mul_comm a b := by ext <;> simp <;> ring
  nsmul := nsmulRec
  zsmul := zsmulRec
  qsmul := _
  nnqsmul := _
  exists_pair_ne := ⟨0, 1, fun h => zero_ne_one (congrArg re h)⟩
  mul_inv_cancel _ := Complex.mul_inv_cancel
  inv_zero := by ext <;> simp

/-! ### Tests and checked operations -/

@[simp] theorem isZero_iff (a : Complex Rat) : a.isZero = true ↔ a = 0 := by
  simp [isZero, Complex.ext_iff]

@[simp] theorem isZero_eq_false_iff (a : Complex Rat) : a.isZero = false ↔ a ≠ 0 := by
  rw [← Bool.not_eq_true, isZero_iff]

@[simp] theorem isFinite_rat (a : Complex Rat) : a.isFinite = true := rfl

@[simp] theorem eq_iff (a b : Complex Rat) : a.eq b = true ↔ a = b := by
  simp [eq, Complex.ext_iff]

/-- **The reciprocal of a number other than zero is its inverse.** -/
theorem reciprocal_eq_ok {a : Complex Rat} (h : a ≠ 0) : a.reciprocal = .ok a⁻¹ := by
  have hn : Scalar.isZero a.normSq = false := by
    rw [← Bool.not_eq_true, Scalar.isZero_rat, normSq_eq_zero_iff]
    exact h
  have hone : (1 : Complex Rat) * a.conjugate = a.conjugate := one_mul _
  have hinv : a⁻¹ = ⟨((1 : Complex Rat) * a.conjugate).re / a.normSq,
      ((1 : Complex Rat) * a.conjugate).im / a.normSq⟩ := by
    rw [hone]
    rfl
  rw [hinv]
  simp [reciprocal, dividedBy, Operand.value, hn, bind, Except.bind, pure, Except.pure]

end Complex
end LinearEquations
