import LinearEquations.Complex.Text
import LinearEquations.Equation.Basic

/-! # Texts of equations

A term with a real coefficient below zero is subtracted, every other term is added.  A coefficient
of one is left out, and a coefficient with an imaginary part is put in parentheses. -/

namespace LinearEquations.Equation
variable {R : Type} [Scalar R]

/-- Whether a number is real and below zero. -/
def isSubtracted (a : Complex R) : Bool := Scalar.isZero a.im && Scalar.isNegative a.re

/-- The coefficient before an unknown, without its sign. -/
def coefficientText (a : Complex R) : String :=
  if a.text = "1" then ""
  else if Scalar.isZero a.im then a.text
  else "(" ++ a.text ++ ")"

/-- What stands before a term: nothing or a minus sign before the first one. -/
def joint (first subtracted : Bool) : String :=
  if first then (if subtracted then "-" else "")
  else if subtracted then " - " else " + "

/-- A term with what stands before it. -/
def termText (first : Bool) (name : String) (a : Complex R) : String :=
  joint first (isSubtracted a) ++
    coefficientText (if isSubtracted a then -a else a) ++ name

/-- The text of a list of terms. -/
def termsText (first : Bool) : List (String × Complex R) → String
  | [] => ""
  | (name, a) :: rest => termText first name a ++ termsText false rest

/-- The text of an equation. -/
def text (e : Equation R) : String :=
  termsText true e.terms ++ " = " ++
    if Scalar.isZero e.rhs.im then e.rhs.text else "(" ++ e.rhs.text ++ ")"

end LinearEquations.Equation
