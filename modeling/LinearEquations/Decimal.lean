/-! # Decimals

A decimal is a sign, a natural number of digits and a power of ten.  It is what number texts are
written from.  Texts are written by `Decimal.write` under a `Decimal.Style`, which holds every choice
that differs from one kind of text to another.

The other way, from a text to a number, goes through numerals: runs of digits with a point. -/

namespace LinearEquations

/-- The decimal `digits * 10 ^ exponent`, negated if `negative`.  A zero may carry a sign. -/
structure Decimal where
  negative : Bool
  digits : Nat
  exponent : Int
  deriving DecidableEq

namespace Decimal

/-- The digits of a natural number in base ten, the highest first. -/
def figures (n : Nat) : List Char := Nat.toDigits 10 n

/-- The power of ten of a decimal's first digit. -/
def leadingExponent (d : Decimal) : Int :=
  d.exponent + ((figures d.digits).length - 1 : Nat)

/-- Move trailing zeros of `digits` into the exponent, at most `fuel` of them. -/
def dropZeros : (fuel : Nat) → (digits : Nat) → (exponent : Int) → Nat × Int
  | 0, digits, exponent => (digits, exponent)
  | fuel + 1, digits, exponent =>
    if digits % 10 = 0 then dropZeros fuel (digits / 10) (exponent + 1) else (digits, exponent)

/-- The same number with as few digits as it needs; zero has the exponent zero. -/
def trimmed (d : Decimal) : Decimal :=
  if d.digits = 0 then ⟨d.negative, 0, 0⟩
  else
    let (digits, exponent) := dropZeros (figures d.digits).length d.digits d.exponent
    ⟨d.negative, digits, exponent⟩

/-! ### Writing -/

/-- How a decimal is written. -/
structure Style where
  /-- Which exponents of the first digit are written without a power of ten. -/
  positional : Int → Bool
  /-- Whether an exponent that is not negative shows its sign. -/
  plus : Bool
  /-- Whether a whole number written without a power of ten ends in `.0`. -/
  pointZero : Bool
  /-- Whether a negative zero shows its sign. -/
  signedZero : Bool

/-- `digits * 10 ^ exponent` without a power of ten. -/
def positionalText (style : Style) (digits : Nat) (exponent : Int) : List Char :=
  let text := figures digits
  if 0 ≤ exponent then
    text ++ List.replicate exponent.toNat '0' ++ if style.pointZero then ['.', '0'] else []
  else
    let places := (-exponent).toNat
    if places < text.length then
      text.take (text.length - places) ++ '.' :: text.drop (text.length - places)
    else '0' :: '.' :: List.replicate (places - text.length) '0' ++ text

/-- The digits `digits` with a point after the first, times ten to the power `exponent`. -/
def scientificText (style : Style) (digits : Nat) (exponent : Int) : List Char :=
  let text := figures digits
  let fraction := text.drop 1
  text.take 1 ++ (if fraction.isEmpty then [] else '.' :: fraction) ++
    'e' :: (if exponent < 0 then ['-'] else if style.plus then ['+'] else []) ++
    figures exponent.natAbs

/-- The text of a decimal. -/
def write (style : Style) (d : Decimal) : String :=
  let sign := if d.negative && (d.digits != 0 || style.signedZero) then ['-'] else []
  let body :=
    if d.digits = 0 || style.positional d.leadingExponent then
      positionalText style d.digits d.exponent
    else scientificText style d.digits d.leadingExponent
  String.ofList (sign ++ body)

/-- All digits written out, whatever the size of the number. -/
def plain : Style where
  positional _ := true
  plus := false
  pointZero := false
  signedZero := false

/-- The form of numbers in descriptions of values: a whole number ends in `.0`, a zero keeps its
sign, and very large and very small numbers have a power of ten. -/
def descriptive : Style where
  positional e := -4 ≤ e && e < 16
  plus := false
  pointZero := true
  signedZero := true

/-- One digit, a point, the other digits and a power of ten. -/
def scientific : Style where
  positional _ := false
  plus := false
  pointZero := false
  signedZero := false

/-- The form of numbers that were rounded to `precision` digits: those below `10 ^ precision` that
are not too small have no power of ten. -/
def rounded (precision : Nat) : Style where
  positional e := -6 ≤ e && e < precision
  plus := true
  pointZero := false
  signedZero := false

end Decimal

/-! ### Rounding rational numbers

`nearest` rounds to a whole number, `Decimal.significant` to a given number of significant digits.
Both work on the exact value; what happens halfway between two neighbours is a parameter. -/

/-- Which neighbour a number halfway between two takes. -/
inductive Tie where
  /-- The neighbour farther from zero. -/
  | away
  /-- The even neighbour. -/
  | even
  deriving DecidableEq

/-- The whole number nearest to `x`, for an `x` that is not negative. -/
def Tie.round (tie : Tie) (x : Rat) : Nat :=
  let low := x.floor.toNat
  let rest := x - low
  if rest < 1 / 2 then low
  else if rest = 1 / 2 && tie = .even && low % 2 = 0 then low
  else low + 1

/-- The whole number nearest to `x`, away from zero if `x` lies halfway between two. -/
def nearest (x : Rat) : Int :=
  if x < 0 then -(Tie.away.round (-x) : Int) else Tie.away.round x

namespace Decimal

/-- The power of ten of the first significant digit of a positive number: the greatest `e` such
that `10 ^ e ≤ x`.  The lengths of numerator and denominator leave two candidates. -/
def exponentOf (x : Rat) : Int :=
  let e : Int := (figures x.num.natAbs).length - (figures x.den).length
  if (10 : Rat) ^ e ≤ x then e else e - 1

/-- `x` rounded to `precision` significant digits, all of them kept. -/
def significant (tie : Tie) (precision : Nat) (x : Rat) : Decimal :=
  if x = 0 then ⟨false, 0, 0⟩
  else
    let e := exponentOf x.abs
    let unit := e - precision + 1
    let digits := tie.round (x.abs / (10 : Rat) ^ unit)
    if digits = Nat.pow 10 precision then ⟨x < 0, Nat.pow 10 (precision - 1), unit + 1⟩
    else ⟨x < 0, digits, unit⟩

end Decimal

/-! ### Numerals

A numeral is a run of digits with at most one point among them, and with at least one digit.  It is
read as the number of its digits without the point, and the number of places after the point. -/

/-- A number as written: `digits / 10 ^ places`. -/
structure Numeral where
  digits : Nat
  places : Nat
  deriving DecidableEq

namespace Numeral

/-- The characters that numerals are made of. -/
def isNumeric (c : Char) : Bool := c.isDigit || c = '.'

/-- The numeral that a text is, if it is one. -/
def read? (text : List Char) : Option Numeral :=
  let whole := text.takeWhile Char.isDigit
  match text.dropWhile Char.isDigit with
  | [] => if whole.isEmpty then none else some ⟨Nat.ofDigitChars 10 whole 0, 0⟩
  | '.' :: fraction =>
    if fraction.all Char.isDigit && !(whole ++ fraction).isEmpty then
      some ⟨Nat.ofDigitChars 10 (whole ++ fraction) 0, fraction.length⟩
    else none
  | _ => none

end Numeral

end LinearEquations
