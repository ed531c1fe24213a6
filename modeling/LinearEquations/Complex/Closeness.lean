import LinearEquations.Complex.Basic

/-! # Numbers that are close to each other

Two tests of closeness, one by the distance alone and one by the distance in proportion to the
size of the numbers.  Both hold of complex numbers if they hold of each part. -/

namespace LinearEquations
variable {R : Type} [Scalar R]

namespace Scalar

/-- Whether two scalars are at most `epsilon` apart. -/
def isWithin (epsilon x y : R) : Bool := (value (abs (x - y))).le (value epsilon)

/-- The scalar of larger magnitude, the first of two with the same, without its sign. -/
def largerAbs (x y : R) : R :=
  if (value (abs x)).lt (value (abs y)) then abs y else abs x

/-- Whether two scalars are equal, at most `epsilon` apart, or apart by at most the fraction
`proportion` of the larger one.  An infinity is close only to itself. -/
def isWithinProportion (epsilon proportion x y : R) : Bool :=
  eq x y ||
    !(value x).isInfinite && !(value y).isInfinite &&
      (isWithin epsilon x y || isWithin (largerAbs x y * proportion) x y)

end Scalar

namespace Complex

/-- Whether each part of two numbers is at most `epsilon` apart. -/
def isWithin (epsilon : R) (a b : Complex R) : Bool :=
  Scalar.isWithin epsilon a.re b.re && Scalar.isWithin epsilon a.im b.im

/-- Whether each part of two numbers is close in proportion to its size. -/
def isWithinProportion (epsilon proportion : R) (a b : Complex R) : Bool :=
  Scalar.isWithinProportion epsilon proportion a.re b.re &&
    Scalar.isWithinProportion epsilon proportion a.im b.im

/-- The distance from one to the next larger double, the usual bound for closeness. -/
def machineEpsilon : Float := 2.220446049250313e-16

end Complex
end LinearEquations
