import LinearEquations.Decimal
import LinearEquations.Equation.Basic
import LinearEquations.Equation.Cursor
import LinearEquations.Result

/-! # Reading equations

An equation is a list of terms, an equals sign and a right hand side:

* a *number* is a run of digits with at most one point;
* a *literal* `(a + bi)` or `(a - bi)` is a complex number, where `a` may have a minus sign of its
  own and `b` may be left out; blanks and stars may stand before the `i`;
* a *term* is a sign, a number or literal, and the name of an unknown; the first term may leave out
  its sign, every term its number;
* the right hand side is a number or literal, possibly after a minus sign.

Names are runs of ASCII letters, and upper case counts as lower case.  Blanks may stand between any
two of these parts, but not between a minus sign inside parentheses and its number.

Each reader takes the place it starts from and returns what it read with the place after it.  A term
is never empty (`remaining_lt_of_term`), so reading terms one after another comes to an end. -/

namespace LinearEquations

namespace Cursor
variable {R : Type} [Scalar R]

/-- The error for a place where nothing that follows can stand. -/
def unexpected (c : Cursor) : ParseError :=
  match c.peek? with
  | some x => .invalidCharacter x c.offset
  | none => .unexpectedEnd

/-- Read a number. -/
def number (c : Cursor) : Except ParseError (R × Cursor) :=
  let text := c.run Numeral.isNumeric
  let after := c.skip Numeral.isNumeric
  match Numeral.read? text >>= fun n => Scalar.ofDecimal? n.digits n.places with
  | some x => .ok (x, after)
  | none => .error (.invalidNumber (String.ofList text) c.offset after.offset)

/-- Whether a number starts here. -/
def seesNumber (c : Cursor) : Bool := c.sees Numeral.isNumeric

/-! ### Literals -/

/-- Read the character `x`, which stands for the given part of a literal. -/
def require (part : LiteralPart) (x : Char) (c : Cursor) : Except ParseError Cursor :=
  if c.peek? = some x then .ok c.next else .error (.malformedLiteral part c.offset)

/-- Read the real part of a literal. -/
def realPart (c : Cursor) : Except ParseError (R × Cursor) :=
  if c.seesNumber then c.number else .error (.malformedLiteral .realPart c.offset)

/-- Read the sign between the parts of a literal: whether it is a minus.  The character that stands
in its place is passed over before the error is raised. -/
def partSign (c : Cursor) : Except ParseError (Bool × Cursor) :=
  match c.peek? with
  | some '+' => .ok (false, c.next)
  | some '-' => .ok (true, c.next)
  | _ => .error (.malformedLiteral .sign c.next.offset)

/-- Read the imaginary part of a literal, which is one if it is left out. -/
def imaginaryPart (c : Cursor) : Except ParseError (R × Cursor) :=
  if c.seesNumber then c.number else .ok (1, c)

/-- What may stand between the imaginary part and its unit. -/
def isTimes (x : Char) : Bool := isBlank x || x = '*'

/-- Negate a number or not. -/
def signed {A : Type} [Neg A] (negative : Bool) (a : A) : A := if negative then -a else a

/-- Read a literal from its opening parenthesis. -/
def literal (c : Cursor) : Except ParseError (Complex R × Cursor) := do
  let (negativeRe, c) := c.next.skipBlanks.accept '-'
  let (re, c) ← c.realPart
  let (negativeIm, c) ← c.skipBlanks.partSign
  let (im, c) ← c.skipBlanks.imaginaryPart
  let c ← (c.skip isTimes).require .imaginaryUnit 'i'
  let c ← c.skipBlanks.require .closingParenthesis ')'
  return (⟨signed negativeRe re, signed negativeIm im⟩, c)

/-! ### Terms -/

/-- Read a number or a literal, if one starts here. -/
def magnitude? (c : Cursor) : Option (Except ParseError (Complex R × Cursor)) :=
  if c.seesNumber then some (c.number.map fun (x, c) => (Complex.ofReal x, c))
  else if c.peek? = some '(' then some c.literal
  else none

/-- Read the name of an unknown. -/
def name (c : Cursor) : Except ParseError (String × Cursor) :=
  if c.sees Char.isAlpha then
    .ok (String.ofList ((c.run Char.isAlpha).map Char.toLower), c.skip Char.isAlpha)
  else if c.peek? = some '=' then .error (.expectedUnknown c.offset)
  else .error c.unexpected

/-- Read the sign of a term: whether it is a minus. -/
def termSign (first : Bool) (c : Cursor) : Except ParseError (Bool × Cursor) :=
  match c.peek? with
  | some '+' => .ok (false, c.next)
  | some '-' => .ok (true, c.next)
  | some _ => if first then .ok (false, c) else .error c.unexpected
  | none => .error c.unexpected

/-- Read a term: the name of an unknown and its coefficient. -/
def term (first : Bool) (c : Cursor) : Except ParseError ((String × Complex R) × Cursor) := do
  let (negative, c) ← c.termSign first
  let c := c.skipBlanks
  let (size, c) ← c.magnitude?.getD (.ok (1, c))
  let (name, c) ← c.skipBlanks.name
  return ((name, signed negative size), c)

/-! ### Reading moves forward -/

theorem remaining_lt_of_name {c c' : Cursor} {s : String} (h : c.name = .ok (s, c')) :
    c'.remaining < c.remaining := by
  unfold name at h
  split at h
  · cases h
    exact remaining_skip_lt ‹_›
  · split at h <;> cases h

theorem remaining_le_of_number {c c' : Cursor} {x : R} (h : c.number = .ok (x, c')) :
    c'.remaining ≤ c.remaining := by
  unfold number at h
  simp only at h
  split at h <;> cases h
  exact remaining_skip_le _ _

theorem remaining_le_of_require {c c' : Cursor} {part : LiteralPart} {x : Char}
    (h : c.require part x = .ok c') : c'.remaining ≤ c.remaining := by
  unfold require at h
  split at h <;> cases h
  exact remaining_next_le _

theorem remaining_le_of_realPart {c c' : Cursor} {x : R} (h : c.realPart = .ok (x, c')) :
    c'.remaining ≤ c.remaining := by
  unfold realPart at h
  split at h
  · exact remaining_le_of_number h
  · cases h

theorem remaining_le_of_partSign {c c' : Cursor} {b : Bool} (h : c.partSign = .ok (b, c')) :
    c'.remaining ≤ c.remaining := by
  unfold partSign at h
  split at h <;> cases h <;> exact remaining_next_le _

theorem remaining_le_of_imaginaryPart {c c' : Cursor} {x : R}
    (h : c.imaginaryPart = .ok (x, c')) : c'.remaining ≤ c.remaining := by
  unfold imaginaryPart at h
  split at h
  · exact remaining_le_of_number h
  · cases h
    exact Nat.le_refl _

theorem remaining_le_of_literal {c c' : Cursor} {a : Complex R} (h : c.literal = .ok (a, c')) :
    c'.remaining ≤ c.remaining := by
  simp only [literal, bind_eq_ok, Prod.exists] at h
  obtain ⟨re, c₁, h₁, n, c₂, h₂, im, c₃, h₃, c₄, h₄, c₅, h₅, h₆⟩ := h
  cases h₆
  have := remaining_le_of_require h₅
  have := remaining_le_of_require h₄
  have := remaining_le_of_imaginaryPart h₃
  have := remaining_le_of_partSign h₂
  have := remaining_le_of_realPart h₁
  have := c.remaining_next_le
  have := c.next.remaining_skip_le isBlank
  have := c.next.skipBlanks.remaining_accept_le '-'
  have := c₁.remaining_skip_le isBlank
  have := c₂.remaining_skip_le isBlank
  have := c₃.remaining_skip_le isTimes
  have := c₄.remaining_skip_le isBlank
  simp only [skipBlanks] at *
  omega

theorem remaining_le_of_magnitude? {c c' : Cursor} {a : Complex R}
    (h : c.magnitude? = some (.ok (a, c'))) : c'.remaining ≤ c.remaining := by
  unfold magnitude? at h
  split at h
  · cases hn : c.number (R := R) with
    | error e => simp [hn, Except.map] at h
    | ok r =>
      simp only [hn, Except.map, Option.some.injEq, Except.ok.injEq, Prod.mk.injEq] at h
      obtain ⟨-, rfl⟩ := h
      exact remaining_le_of_number hn
  · split at h
    · exact remaining_le_of_literal (Option.some.inj h)
    · cases h

theorem remaining_le_of_termSign {first : Bool} {c c' : Cursor} {b : Bool}
    (h : c.termSign first = .ok (b, c')) : c'.remaining ≤ c.remaining := by
  unfold termSign at h
  split at h
  · cases h
    exact remaining_next_le _
  · cases h
    exact remaining_next_le _
  · split at h <;> cases h
    exact Nat.le_refl _
  · cases h

/-- **A term is never empty.** -/
theorem remaining_lt_of_term {first : Bool} {c c' : Cursor} {t : String × Complex R}
    (h : c.term first = .ok (t, c')) : c'.remaining < c.remaining := by
  simp only [term, bind_eq_ok, Prod.exists] at h
  obtain ⟨n, c₁, h₁, a, c₂, h₂, s, c₃, h₃, h₄⟩ := h
  cases h₄
  have := remaining_lt_of_name h₃
  have := remaining_le_of_termSign h₁
  have := c₁.remaining_skip_le isBlank
  have := c₂.remaining_skip_le isBlank
  have : c₂.remaining ≤ c₁.skipBlanks.remaining := by
    cases hm : c₁.skipBlanks.magnitude? (R := R) with
    | none =>
      rw [hm] at h₂
      cases h₂
      exact Nat.le_refl _
    | some r =>
      rw [hm] at h₂
      exact remaining_le_of_magnitude? (hm.trans (congrArg some h₂))
  simp only [skipBlanks] at *
  omega

/-! ### Equations -/

/-- Read terms up to the equals sign, there being at least one, into the equation `e`. -/
def terms (first : Bool) (e : Equation R) (c : Cursor) :
    Except ParseError (Equation R × Cursor) :=
  match c.peek? with
  | none => .error .missingEquals
  | some x =>
    if x = '=' then
      if first then .error (.expectedUnknown c.offset) else .ok (e, c)
    else
      match _h : c.term (R := R) first with
      | .error err => .error err
      | .ok ((name, coefficient), c') => terms false (e.set name coefficient) c'.skipBlanks
termination_by c.remaining
decreasing_by
  have := remaining_lt_of_term _h
  have := c'.remaining_skip_le isBlank
  simp only [skipBlanks] at *
  omega

/-- Read the right hand side, from the equals sign on. -/
def rightHandSide (c : Cursor) : Except ParseError (Complex R × Cursor) := do
  let (negative, c) := c.next.skipBlanks.accept '-'
  let c := if negative then c.skipBlanks else c
  let (size, c) ← c.magnitude?.getD (.error c.unexpected)
  return (signed negative size, c)

/-- Require that only blanks follow. -/
def finish (c : Cursor) : Except ParseError Unit :=
  if c.skipBlanks.peek?.isNone then .ok () else .error c.skipBlanks.unexpected

end Cursor

/-- The equation that a text is. -/
def Equation.parse {R : Type} [Scalar R] (s : String) : Except ParseError (Equation R) := do
  let (e, c) ← (Cursor.start s).skipBlanks.terms true (Equation.empty 0)
  let (rhs, c) ← c.rightHandSide
  c.finish
  return e.withRhs rhs

end LinearEquations
