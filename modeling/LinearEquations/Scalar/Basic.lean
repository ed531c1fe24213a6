import LinearEquations.Decimal

/-! # Scalars

A scalar is one of the two parts of a complex number.  Everything in this library is written once,
for any type with the operations of `Scalar`: rational numbers compute exactly, doubles compute with
rounding (`Scalar.Double`).

The class asks for arithmetic without laws, because rounded arithmetic keeps few of them.  What
connects a scalar to mathematics is `Scalar.value`; tests of order, equality and finiteness are
tests of values. -/

namespace LinearEquations

/-! ### Extended numbers

The value of a scalar is a rational number, an infinity, or nothing at all.  An order test with a
value that is no number fails. -/

/-- A rational number, an infinity, or no number. -/
inductive Extended where
  | nan
  | infinite (negative : Bool)
  | finite (q : Rat)
  deriving DecidableEq

namespace Extended

/-- Whether a value is a rational number. -/
def isFinite : Extended → Bool
  | .finite _ => true
  | _ => false

/-- Whether a value is an infinity. -/
def isInfinite : Extended → Bool
  | .infinite _ => true
  | _ => false

/-- The order of values. -/
def lt : Extended → Extended → Bool
  | .finite x, .finite y => x < y
  | .infinite true, .finite _ | .finite _, .infinite false => true
  | .infinite true, .infinite false => true
  | _, _ => false

/-- Equality of values, where what is no number equals nothing. -/
def eq (x y : Extended) : Bool := x = y && x ≠ .nan

/-- The order of values, with equality. -/
def le (x y : Extended) : Bool := x.lt y || x.eq y

end Extended

/-! ### The class of scalars -/

/-- Types of numbers that the parts of a complex number can have. -/
class Scalar (R : Type) where
  [zero : Zero R]
  [one : One R]
  [add : Add R]
  [sub : Sub R]
  [mul : Mul R]
  [div : Div R]
  [neg : Neg R]
  /-- The number that a scalar stands for. -/
  value : R → Extended
  /-- The scalar for a small whole number. -/
  ofNat : Nat → R
  /-- The scalar nearest to `digits / 10 ^ places`, unless that is too large. -/
  ofDecimal? : (digits places : Nat) → Option R
  /-- The shortest decimal that is read as the given scalar, if there is one. -/
  shortest? : R → Option Decimal

namespace Scalar
variable {R : Type} [Scalar R]

/-! The arithmetic of a scalar type.  A concrete type is searched for instances of its own first. -/

instance (priority := 50) : Zero R := zero
instance (priority := 50) : One R := one
instance (priority := 50) : Add R := add
instance (priority := 50) : Sub R := sub
instance (priority := 50) : Mul R := mul
instance (priority := 50) : Div R := div
instance (priority := 50) : Neg R := neg

/-- Whether a scalar is exactly zero. -/
def isZero (x : R) : Bool := value x = .finite 0

/-- Whether a scalar is a number and not an infinity. -/
def isFinite (x : R) : Bool := (value x).isFinite

/-- Equality of numbers: the zeros are equal, and what is no number equals nothing. -/
def eq (x y : R) : Bool := (value x).eq (value y)

/-- Whether a scalar is below zero. -/
def isNegative (x : R) : Bool := (value x).lt (.finite 0)

/-- Whether a scalar is above zero. -/
def isPositive (x : R) : Bool := (Extended.finite 0).lt (value x)

/-- The magnitude of a scalar. -/
def abs (x : R) : R := if isNegative x then -x else x

end Scalar

/-! ### Rational numbers as scalars

Over the rational numbers nothing is rounded and nothing overflows, so complex numbers over them are
the field of Gaussian rationals. -/

/-- The decimal of a rational number, if it has one: its denominator must divide a power of ten, and
if it divides any, it divides the one whose exponent is the length of the denominator in bits. -/
def Decimal.ofRat? (x : Rat) : Option Decimal :=
  let places := x.den.log2
  if Nat.pow 10 places % x.den = 0 then
    some (Decimal.trimmed ⟨x < 0, x.num.natAbs * (Nat.pow 10 places / x.den), -places⟩)
  else none

instance : Scalar Rat where
  zero := ⟨0⟩
  one := ⟨1⟩
  value := .finite
  ofNat n := n
  ofDecimal? digits places := some (digits / (10 : Rat) ^ places)
  shortest? := Decimal.ofRat?

end LinearEquations
