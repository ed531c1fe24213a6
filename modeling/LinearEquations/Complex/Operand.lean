import LinearEquations.Complex.Text

/-! # Checked arithmetic

Arithmetic on complex numbers is total and lets infinities through.  The checked operations refuse
an operand on the right that is not finite, and division refuses a divisor whose squared modulus is
zero.  An operand may be given as a plain scalar, and an error repeats it the way it was given. -/

namespace LinearEquations

/-- The right hand side of an operation. -/
inductive Operand (R : Type) where
  | real (x : R)
  | complex (a : Complex R)

/-- Why an operation has no result. -/
inductive ArithmeticError (R : Type) where
  /-- The operand is not finite. -/
  | invalidOperand (operand : Operand R)
  | divisionByZero

variable {R : Type} [Scalar R]

namespace Operand

/-- The complex number that an operand stands for. -/
def value : Operand R → Complex R
  | .real x => Complex.ofReal x
  | .complex a => a

/-- The complex number that an operand stands for, if it is finite. -/
def check (operand : Operand R) : Except (ArithmeticError R) (Complex R) :=
  if operand.value.isFinite then .ok operand.value else .error (.invalidOperand operand)

/-- An operand as it is written in descriptions of values. -/
def describe : Operand R → String
  | .real x => "Real(" ++ Scalar.describe x ++ ")"
  | .complex a => "Complex(" ++ a.describe ++ ")"

end Operand

namespace ArithmeticError

/-- The message of an arithmetic error. -/
def message : ArithmeticError R → String
  | .invalidOperand operand => operand.describe ++ " is not a finite number"
  | .divisionByZero => "attempted to divide by zero"

/-- An arithmetic error as it is written in descriptions of values. -/
def describe : ArithmeticError R → String
  | .invalidOperand operand =>
    "InvalidOperand \x7b value: " ++ operand.describe ++ " \x7d"
  | .divisionByZero => "DivisionByZero"

end ArithmeticError

namespace Complex

/-- The sum with a finite operand. -/
def plus (a : Complex R) (b : Operand R) : Except (ArithmeticError R) (Complex R) := do
  return a + (← b.check)

/-- The difference from a finite operand. -/
def minus (a : Complex R) (b : Operand R) : Except (ArithmeticError R) (Complex R) := do
  return a - (← b.check)

/-- The product with a finite operand. -/
def times (a : Complex R) (b : Operand R) : Except (ArithmeticError R) (Complex R) := do
  return a * (← b.check)

/-- The quotient by a finite operand: the product with its conjugate over its squared modulus. -/
def dividedBy (a : Complex R) (b : Operand R) : Except (ArithmeticError R) (Complex R) := do
  let b ← b.check
  if Scalar.isZero b.normSq then throw .divisionByZero
  let numerator := a * b.conjugate
  return ⟨numerator.re / b.normSq, numerator.im / b.normSq⟩

/-- One divided by a complex number. -/
def reciprocal (a : Complex R) : Except (ArithmeticError R) (Complex R) :=
  (1 : Complex R).dividedBy (.complex a)

end Complex
end LinearEquations
