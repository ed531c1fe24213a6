import LinearEquations.Text

/-! # Places in a text, and errors at them

A cursor is a place in a text: how many bytes lie before it and which characters follow.  Reading
only moves it forward, so what follows gets shorter; `Cursor.remaining` is the measure by which
reading ends.

The errors of reading say at which place a text cannot be an equation.  They, too, count in bytes of
the UTF-8 encoding. -/

namespace LinearEquations

/-- A place in a text. -/
@[ext]
structure Cursor where
  /-- The number of bytes before the place. -/
  offset : Nat
  /-- The characters after the place. -/
  rest : List Char

namespace Cursor

/-- The beginning of a text. -/
def start (s : String) : Cursor := ⟨0, s.toList⟩

/-- The number of characters still to be read. -/
def remaining (c : Cursor) : Nat := c.rest.length

/-- The next character, if the text goes on. -/
def peek? (c : Cursor) : Option Char := c.rest.head?

/-- The place after the next character, or the same place at the end of the text. -/
def next (c : Cursor) : Cursor :=
  match c.rest with
  | [] => c
  | x :: rest => ⟨c.offset + x.utf8Size, rest⟩

/-- The longest run of characters of one kind that follows. -/
def run (c : Cursor) (p : Char → Bool) : List Char := c.rest.takeWhile p

/-- The place after that run. -/
def skip (c : Cursor) (p : Char → Bool) : Cursor :=
  ⟨(c.run p).foldl (fun offset x => offset + x.utf8Size) c.offset, c.rest.dropWhile p⟩

/-- The place after the white space that follows. -/
def skipBlanks (c : Cursor) : Cursor := c.skip isBlank

/-- Whether the next character satisfies `p`. -/
def sees (c : Cursor) (p : Char → Bool) : Bool := c.peek?.any p

/-- Whether `x` is the next character, and the place after it if it is. -/
def accept (c : Cursor) (x : Char) : Bool × Cursor :=
  if c.peek? = some x then (true, c.next) else (false, c)

theorem remaining_next_le (c : Cursor) : c.next.remaining ≤ c.remaining := by
  unfold next remaining
  split <;> simp_all

theorem remaining_next_lt {c : Cursor} {x : Char} (h : c.peek? = some x) :
    c.next.remaining < c.remaining := by
  obtain ⟨offset, _ | ⟨y, rest⟩⟩ := c
  · simp [peek?] at h
  · simp [next, remaining]

theorem remaining_skip_le (c : Cursor) (p : Char → Bool) :
    (c.skip p).remaining ≤ c.remaining :=
  (List.dropWhile_suffix p).length_le

theorem remaining_skip_lt {c : Cursor} {p : Char → Bool} (h : c.sees p) :
    (c.skip p).remaining < c.remaining := by
  obtain ⟨offset, _ | ⟨y, rest⟩⟩ := c
  · simp [sees, peek?] at h
  · have hy : p y := by simpa [sees, peek?] using h
    have := (List.dropWhile_suffix (l := rest) p).length_le
    simp [skip, remaining, hy]
    omega

theorem remaining_accept_le (c : Cursor) (x : Char) : (c.accept x).2.remaining ≤ c.remaining := by
  unfold accept
  split
  · exact c.remaining_next_le
  · exact Nat.le_refl _

end Cursor

/-! ### Errors -/

/-- What a parenthesised number has to have next. -/
inductive LiteralPart where
  | realPart
  | sign
  | imaginaryUnit
  | closingParenthesis
  deriving DecidableEq

/-- Why a text is no equation. -/
inductive ParseError where
  /-- A character that cannot stand at its place. -/
  | invalidCharacter (character : Char) (index : Nat)
  | unexpectedEnd
  /-- A run of digits and points, from `start` up to `stop`, that is no finite number. -/
  | invalidNumber (text : String) (start stop : Nat)
  /-- A parenthesised number that lacks one of its parts. -/
  | malformedLiteral (missing : LiteralPart) (index : Nat)
  /-- An equals sign where the name of an unknown has to stand. -/
  | expectedUnknown (index : Nat)
  | missingEquals
  deriving DecidableEq

/-- What is missing, in words. -/
def LiteralPart.message : LiteralPart → String
  | .realPart => "expected the real part"
  | .sign => "expected a \"+\" or \"-\" between the real and imaginary parts"
  | .imaginaryUnit => "expected the imaginary unit, \"i\""
  | .closingParenthesis => "expected a closing parenthesis"

/-- The message of an error. -/
def ParseError.message : ParseError → String
  | .invalidCharacter character index =>
    "unexpected character " ++ quotedChar character ++ " at index " ++ toString index
  | .unexpectedEnd => "unexpected end of input"
  | .invalidNumber text _ _ => "\"" ++ text ++ "\" is not a valid number"
  | .malformedLiteral missing index =>
    "malformed complex number at index " ++ toString index ++ ": " ++ missing.message
  | .expectedUnknown index => "expected an unknown at index " ++ toString index
  | .missingEquals => "the equation doesn't contain an \"=\""

end LinearEquations
