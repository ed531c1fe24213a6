import LinearEquations.Complex.Basic

/-! # Texts of numbers

`Scalar.text` is what a reader of equations sees: numbers that are whole up to a small tolerance are
written as whole numbers, numbers with at most four decimal places as they are, and all others with
four significant digits.  `Scalar.describe` is the form used in descriptions of values, which tells
any two scalars apart.

A complex number is written `a`, `a + i`, `a - i`, `a + bi` or `a - bi`.  An imaginary part within
`tolerance` of zero is left out, and one within `tolerance` of one is written as the unit alone. -/

namespace LinearEquations

/-! ### Scalars -/

/-- A number within this distance of a whole number is written as that whole number. -/
def tolerance : Rat := 1 / 1000000000

/-- How many significant digits are kept of a number with many decimal places. -/
def significantDigits : Nat := 4

/-- How many decimal places a number may have to be written as it is. -/
def decimalPlaces : Nat := 4

/-- Whether a number is whole up to `tolerance`. -/
def isNearlyWhole (q : Rat) : Bool := (q - nearest q).abs < tolerance

/-- A rational number with `precision` significant digits, halves rounded away from zero. -/
def toPrecision (q : Rat) (precision : Nat) : String :=
  (Decimal.significant .away precision q).write (Decimal.rounded precision)

namespace Scalar
variable {R : Type} [Scalar R]

/-- The shortest text of a scalar in the given style.  A number without a decimal is written as a
fraction. -/
def write (style : Decimal.Style) (x : R) : String :=
  match value x with
  | .nan => "NaN"
  | .infinite negative => if negative then "-inf" else "inf"
  | .finite q =>
    match shortest? x with
    | some d => d.write style
    | none => toString q.num ++ "/" ++ toString q.den

/-- A scalar as it is written in descriptions of values. -/
def describe (x : R) : String := write Decimal.descriptive x

/-- Whether moving the point of a scalar four places to the right leaves a whole number. -/
def hasFewPlaces (x : R) : Bool :=
  match value (x * ofNat (Nat.pow 10 decimalPlaces)) with
  | .finite q => q.den = 1
  | _ => false

/-- A scalar as it is written in equations and matrices.  Only small numbers are near a whole number
without being one, so that number can be written with all its digits. -/
def text (x : R) : String :=
  match value x with
  | .finite q =>
    if isNearlyWhole q && q.den ≠ 1 then toString (nearest q)
    else if q.den = 1 || hasFewPlaces x then write Decimal.plain x
    else toPrecision q significantDigits
  | _ => write Decimal.plain x

end Scalar

/-! ### Complex numbers -/

/-- Whether a value is finite and within `tolerance` of the given number. -/
def Extended.isNear (x : Extended) (q : Rat) : Bool :=
  match x with
  | .finite y => (y - q).abs < tolerance
  | _ => false

namespace Complex
variable {R : Type} [Scalar R]

/-- The text of a complex number in equations and matrices. -/
def text (a : Complex R) : String :=
  let re := Scalar.text a.re
  if (Scalar.value a.im).isNear 0 then re
  else
    let sign := if Scalar.isPositive a.im then " + " else " - "
    let size := Scalar.abs a.im
    if (Scalar.value size).isNear 1 then re ++ sign ++ "i"
    else re ++ sign ++ Scalar.text size ++ "i"

/-- A complex number as it is written in descriptions of values. -/
def describe (a : Complex R) : String :=
  "ComplexNum \x7b re: " ++ Scalar.describe a.re ++ ", im: " ++ Scalar.describe a.im ++ " \x7d"

end Complex

end LinearEquations
