import LinearEquations.Scalar.Basic

/-! # Doubles as scalars

Arithmetic on doubles rounds each result.  Their values, by contrast, are known exactly from their
bits, and the texts of doubles are made from these exact values.

A finite double is a binary fraction `significand * 2 ^ exponent` with a sign.  `BinaryFraction`
reads it off the bits, so that everything about the value of a double is a statement about whole
numbers. -/

namespace LinearEquations

/-- The number `significand * 2 ^ exponent`, negated if `negative`.  A zero may carry a sign. -/
structure BinaryFraction where
  negative : Bool
  significand : Nat
  exponent : Int
  deriving DecidableEq

namespace BinaryFraction

/-- The magnitude of a binary fraction. -/
def magnitude (b : BinaryFraction) : Rat := b.significand * (2 : Rat) ^ b.exponent

/-- The number that a binary fraction stands for. -/
def toRat (b : BinaryFraction) : Rat := if b.negative then -b.magnitude else b.magnitude

/-- The exponent that stands for an infinity or for no number. -/
def specialExponent : Nat := 2047

/-- The binary fraction with the given bits of a double, if they stand for a finite number.  Below
the exponent field stand 52 bits; a field of zero marks the fractions without a leading one. -/
def ofBits? (bits : Nat) : Option BinaryFraction :=
  let negative := bits / Nat.pow 2 63 % 2 = 1
  let field := bits / Nat.pow 2 52 % Nat.pow 2 11
  let trailing := bits % Nat.pow 2 52
  if field = specialExponent then none
  else if field = 0 then some ⟨negative, trailing, -1074⟩
  else some ⟨negative, Nat.pow 2 52 + trailing, field - 1075⟩

/-- The binary fraction that a finite double is. -/
def ofFloat? (x : Float) : Option BinaryFraction := ofBits? x.toBits.toNat

/-! ### The numbers that are read as a given double -/

/-- The numbers nearer to a fraction than to its neighbours: those between two bounds, with the
bounds themselves if `closed`. -/
structure Interval where
  lower : Rat
  upper : Rat
  closed : Bool

/-- Whether a number lies in an interval. -/
def Interval.contains (i : Interval) (x : Rat) : Bool :=
  (i.lower < x && x < i.upper) || (i.closed && (x = i.lower || x = i.upper))

/-- The magnitudes that are read as the fraction `b`.  Below a power of two the neighbour is only
half as far away, unless the exponent is already the least.  A number halfway between two fractions
is read as the one with the even significand. -/
def readInterval (b : BinaryFraction) : Interval :=
  let unit := (2 : Rat) ^ b.exponent
  let gap := if b.significand = Nat.pow 2 52 && -1074 < b.exponent then unit / 4 else unit / 2
  ⟨b.magnitude - gap, b.magnitude + unit / 2, b.significand % 2 = 0⟩

/-! ### The shortest decimal that reads back

A double has many decimals that are read as it.  `BinaryFraction.shortest` is the one with the
fewest digits, and of those the one nearest to the value.  A grid of decimals with a fixed number of
digits has a point in the interval of numbers read as the double only if one of the two neighbours
of the value on that grid lies in it, so the search looks at these two, for one digit, two digits,
and so on. -/

open Decimal

/-- The decimal with at most `digits` digits that reads back as `b`, the nearest of two.  Halfway
between them the larger one is taken. -/
def withDigits? (b : BinaryFraction) (digits : Nat) : Option Decimal :=
  let x := b.magnitude
  let unit := exponentOf x - digits + 1
  let low := (x / (10 : Rat) ^ unit).floor.toNat
  let below := low * (10 : Rat) ^ unit
  let above := (low + 1) * (10 : Rat) ^ unit
  let reads := b.readInterval.contains
  if reads above && (!reads below || above - x ≤ x - below) then some ⟨b.negative, low + 1, unit⟩
  else if reads below then some ⟨b.negative, low, unit⟩
  else none

/-- Seventeen digits tell any two doubles apart. -/
def enoughDigits : Nat := 17

/-- The shortest decimal that reads back as `b`. -/
def shortest (b : BinaryFraction) : Decimal :=
  if b.significand = 0 then ⟨b.negative, 0, 0⟩
  else
    let found := (List.range enoughDigits).findSome? fun n => b.withDigits? (n + 1)
    let fallback : Decimal := ⟨b.negative, (significant .even enoughDigits b.magnitude).digits,
      (significant .even enoughDigits b.magnitude).exponent⟩
    (found.getD fallback).trimmed

end BinaryFraction

/-! ### The scalars -/

/-- The number that a double stands for. -/
def Extended.ofFloat (x : Float) : Extended :=
  match BinaryFraction.ofFloat? x with
  | some b => .finite b.toRat
  | none => if x.isNaN then .nan else .infinite (x < 0)

instance : Scalar Float where
  value := Extended.ofFloat
  ofNat := Float.ofNat
  ofDecimal? digits places :=
    let x := Float.ofScientific digits true places
    if x.isFinite then some x else none
  shortest? x := (BinaryFraction.ofFloat? x).map BinaryFraction.shortest

end LinearEquations
