import LinearEquations.Scalar.Basic

/-! # Complex numbers

A complex number is a pair of scalars.  The operations are the usual formulas in a fixed order of
evaluation, which matters where each step rounds. -/

namespace LinearEquations

/-- The complex number `re + im * i`. -/
@[ext]
structure Complex (R : Type) where
  re : R
  im : R
  deriving DecidableEq

namespace Complex
variable {R : Type} [Scalar R]

/-- A scalar as a complex number. -/
def ofReal (x : R) : Complex R := ⟨x, 0⟩

instance : Zero (Complex R) := ⟨ofReal 0⟩

instance : One (Complex R) := ⟨ofReal 1⟩

instance : Add (Complex R) := ⟨fun a b => ⟨a.re + b.re, a.im + b.im⟩⟩

instance : Sub (Complex R) := ⟨fun a b => ⟨a.re - b.re, a.im - b.im⟩⟩

instance : Mul (Complex R) :=
  ⟨fun a b => ⟨a.re * b.re - a.im * b.im, a.re * b.im + a.im * b.re⟩⟩

instance : Neg (Complex R) := ⟨fun a => ⟨-a.re, -a.im⟩⟩

/-- The complex conjugate. -/
def conjugate (a : Complex R) : Complex R := ⟨a.re, -a.im⟩

/-- The square of the modulus. -/
def normSq (a : Complex R) : R := a.re * a.re + a.im * a.im

/-- Whether both parts are exactly zero. -/
def isZero (a : Complex R) : Bool := Scalar.isZero a.re && Scalar.isZero a.im

/-- Whether both parts are finite. -/
def isFinite (a : Complex R) : Bool := Scalar.isFinite a.re && Scalar.isFinite a.im

/-- Equality of numbers, part by part. -/
def eq (a b : Complex R) : Bool := Scalar.eq a.re b.re && Scalar.eq a.im b.im

end Complex
end LinearEquations
