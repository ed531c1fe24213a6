import LinearEquations.Complex.Operand
import LinearEquations.Decimal
import LinearEquations.Scalar.Double

/-! # Powers

A power with a complex exponent goes through the polar form of the base.  Logarithm, exponential,
and angles of doubles are known only up to their last digits, so a power is written with ten
significant digits. -/

namespace LinearEquations.Complex

/-- The number pi as a double. -/
def pi : Float := 3.141592653589793

/-- The angle of a complex number other than zero.  Off the axes it is the arctangent of the ratio
of the parts, which lies in the right half plane also for numbers in the left one. -/
def angle (a : Complex Float) : Float :=
  if a.re == 0 && a.im < 0 then 3 * pi / 2
  else if a.re == 0 && a.im > 0 then pi / 2
  else if a.re < 0 && a.im == 0 then pi
  else if a.re > 0 && a.im == 0 then 0
  else (a.im / a.re).atan

/-- A complex number raised to a finite power.  The zeroth power of zero is one, every other power
of zero is zero. -/
def pow (a : Complex Float) (exponent : Operand Float) :
    Except (ArithmeticError Float) (Complex Float) := do
  let e ← exponent.check
  if a.isZero then
    return if e.isZero then 1 else 0
  let logModulus := a.normSq.sqrt.log
  let magnitude := (logModulus * e.re - a.angle * e.im).exp
  let theta := logModulus * e.im + a.angle * e.re
  return ⟨theta.cos * magnitude, theta.sin * magnitude⟩

/-- The digits that are kept of a power. -/
def powerDigits : Nat := 10

/-- A part of a power smaller than this fraction of the other one is rounding noise. -/
def noise : Float := 1e-12

/-- One part of a number whose larger part has the magnitude `largest`: ten significant digits, or a
plain zero if the part is noise.  There is no text if either of the two is not finite. -/
def partText? (largest x : Float) : Option String :=
  if !x.isFinite || !largest.isFinite then none
  else if x.abs ≤ largest * noise then some "0"
  else
    match Extended.ofFloat x with
    | .finite q => some ((Decimal.significant .even powerDigits q).write Decimal.scientific)
    | _ => none

/-- The larger of two magnitudes; what is no number does not count. -/
def largestPart (a : Complex Float) : Float :=
  if a.re.isNaN then a.im.abs
  else if a.im.isNaN then a.re.abs
  else if a.re.abs < a.im.abs then a.im.abs else a.re.abs

/-- Both parts of a number with ten significant digits. -/
def partTexts (a : Complex Float) : Option String × Option String :=
  (partText? a.largestPart a.re, partText? a.largestPart a.im)

end LinearEquations.Complex
