import LinearEquations.Equation.Parser
import LinearEquations.Proofs.Place

/-! # Reading in place

The readers of `Cursor` take the characters of a text one by one off a list.  The readers of this
module know only an offset in bytes and look at the text by slicing it: everything from the offset
on to see the next character, and everything between two offsets to get a run of characters.  A
slice fails if one of its ends lies outside the text or inside a character, and loops are given a
number of rounds; if a slice fails or the rounds are used up, reading has no outcome at all.

That never happens: reading in place has an outcome for every text, and it is the one that
`Equation.parse` has (`InPlace.parse_eq`).  The proof is one lemma for each reader, which says that
it does what the reader of the same name does at a place of the text (`Agrees`). -/

namespace LinearEquations

/-- Reading by an offset in bytes.  There is no outcome if a slice fails or a loop goes on for too
long, and otherwise an error, or a result and the offset where reading stopped. -/
abbrev InPlace := StateT Nat (ExceptT ParseError Option)

namespace InPlace
open Cursor (isTimes signed)

variable {R : Type} [Scalar R] (s : String)

/-! ### Looking at the text -/

/-- A value that there may not be. -/
def require? {A : Type} (a : Option A) : InPlace A := fun i => a.map fun a => .ok (a, i)

/-- The text between two offsets. -/
def slice (start stop : Nat) : InPlace String := require? (slice? s start stop)

/-- The next character, if the text goes on. -/
def peek? : InPlace (Option Char) := do
  return (← slice s (← get) s.utf8ByteSize).toList.head?

/-- Pass over the next character, if the text goes on. -/
def advance : InPlace Unit := do
  match ← peek? s with
  | some x => modify (· + x.utf8Size)
  | none => return

/-- Pass over a run of characters of one kind, one in each round. -/
def passOver (p : Char → Bool) : (rounds : Nat) → InPlace Unit
  | 0 => require? none
  | n + 1 => do
    if (← peek? s).any p then
      advance s
      passOver p n
    else return

/-- A run of characters of one kind, with the offsets where it starts and stops. -/
def run (p : Char → Bool) : InPlace (String × Nat × Nat) := do
  let start ← get
  passOver s p (s.utf8ByteSize + 1)
  let stop ← get
  return (← slice s start stop, start, stop)

/-- Pass over blanks. -/
def skipBlanks : InPlace Unit := do
  let _ ← run s isBlank

/-- Pass over `x` if it is the next character, and whether it is. -/
def accept (x : Char) : InPlace Bool := do
  if (← peek? s) = some x then
    advance s
    return true
  else return false

/-- Whether the next character is of some kind. -/
def sees (p : Char → Bool) : InPlace Bool := return (← peek? s).any p

/-- Fail where nothing that follows can stand. -/
def unexpected {A : Type} : InPlace A := do
  match ← peek? s with
  | some x => throw (.invalidCharacter x (← get))
  | none => throw .unexpectedEnd

/-- Fail for want of a part of a literal. -/
def malformed {A : Type} (missing : LiteralPart) : InPlace A := do
  throw (.malformedLiteral missing (← get))

/-! ### Numbers and literals -/

/-- Read a number. -/
def number : InPlace R := do
  let (text, start, stop) ← run s Numeral.isNumeric
  match Numeral.read? text.toList >>= fun n => Scalar.ofDecimal? n.digits n.places with
  | some x => return x
  | none => throw (.invalidNumber text start stop)

/-- Read the character `x`, which stands for the given part of a literal. -/
def require (part : LiteralPart) (x : Char) : InPlace Unit := do
  if (← peek? s) = some x then advance s else malformed part

/-- Read the real part of a literal. -/
def realPart : InPlace R := do
  if ← sees s Numeral.isNumeric then number s else malformed .realPart

/-- Read the sign between the parts of a literal: whether it is a minus. -/
def partSign : InPlace Bool := do
  let next ← peek? s
  advance s
  match next with
  | some '+' => return false
  | some '-' => return true
  | _ => malformed .sign

/-- Read the imaginary part of a literal, which is one if it is left out. -/
def imaginaryPart : InPlace R := do
  if ← sees s Numeral.isNumeric then number s else return 1

/-- Read a literal from its opening parenthesis. -/
def literal : InPlace (Complex R) := do
  advance s
  skipBlanks s
  let negativeRe ← accept s '-'
  let re ← realPart s
  skipBlanks s
  let negativeIm ← partSign s
  skipBlanks s
  let im ← imaginaryPart s
  let _ ← run s isTimes
  require s .imaginaryUnit 'i'
  skipBlanks s
  require s .closingParenthesis ')'
  return ⟨signed negativeRe re, signed negativeIm im⟩

/-- Read a number or a literal, if one starts here, or else go on with `other`. -/
def magnitudeOr (other : InPlace (Complex R)) : InPlace (Complex R) := do
  if ← sees s Numeral.isNumeric then return Complex.ofReal (← number s)
  else if (← peek? s) = some '(' then literal s
  else other

/-! ### Terms and equations -/

/-- Read the name of an unknown. -/
def name : InPlace String := do
  match ← peek? s with
  | some x =>
    if x.isAlpha then return String.ofList ((← run s Char.isAlpha).1.toList.map Char.toLower)
    else if x = '=' then throw (.expectedUnknown (← get))
    else unexpected s
  | none => unexpected s

/-- Read the sign of a term: whether it is a minus. -/
def termSign (first : Bool) : InPlace Bool := do
  match ← peek? s with
  | some x =>
    if x = '+' || x = '-' then
      advance s
      return x = '-'
    else if first then return false
    else unexpected s
  | none => unexpected s

/-- Read a term: the name of an unknown and its coefficient. -/
def term (first : Bool) : InPlace (String × Complex R) := do
  let negative ← termSign s first
  skipBlanks s
  let size ← magnitudeOr s (return 1)
  skipBlanks s
  let name ← name s
  return (name, signed negative size)

/-- Read terms up to the equals sign, one in each round. -/
def terms : (rounds : Nat) → (first : Bool) → Equation R → InPlace (Equation R)
  | 0, _, _ => require? none
  | n + 1, first, e => do
    match ← peek? s with
    | none => throw .missingEquals
    | some x =>
      if x = '=' then
        if first then throw (.expectedUnknown (← get)) else return e
      else
        let (name, coefficient) ← term s first
        skipBlanks s
        terms n false (e.set name coefficient)

/-- Read the right hand side, from the equals sign on. -/
def rightHandSide : InPlace (Complex R) := do
  advance s
  skipBlanks s
  let negative ← accept s '-'
  if negative then skipBlanks s
  let size ← magnitudeOr s (unexpected s)
  return signed negative size

/-- Require that only blanks follow. -/
def finish : InPlace Unit := do
  skipBlanks s
  match ← peek? s with
  | some _ => unexpected s
  | none => return

/-- Read a whole equation. -/
def equation : InPlace (Equation R) := do
  skipBlanks s
  let e ← terms s (s.utf8ByteSize + 1) true (Equation.empty 0)
  let rhs ← rightHandSide s
  finish s
  return e.withRhs rhs

/-- The equation that a text is, read in place. -/
def parse : Option (Except ParseError (Equation R)) :=
  ((equation s).run' 0).run

/-! ### Agreement with reading from a list -/

variable {s} {A B : Type} {c c' : Cursor}

/-- Reading in place at `c` has an outcome, which is that of a reader on the list of characters,
and stops at a place of the text. -/
structure Agrees (s : String) (r : InPlace A) (c : Cursor) (f : Except ParseError (A × Cursor)) :
    Prop where
  outcome : r c.offset = some (f.map fun (a, c') => (a, c'.offset))
  liesIn : ∀ a c', f = .ok (a, c') → c'.LiesIn s

theorem agrees_pure (hc : c.LiesIn s) (a : A) : Agrees s (pure a) c (.ok (a, c)) where
  outcome := rfl
  liesIn := by
    rintro _ _ ⟨⟩
    exact hc

theorem agrees_throw (e : ParseError) : Agrees s (throw e : InPlace A) c (.error e) where
  outcome := rfl
  liesIn := nofun

theorem bind_of_ok {r : InPlace A} {k : A → InPlace B} {i j : Nat} {a : A}
    (h : r i = some (.ok (a, j))) : (r >>= k) i = k a j := by
  change Option.bind (r i) _ = _
  rw [h]
  rfl

theorem bind_of_error {r : InPlace A} {k : A → InPlace B} {i : Nat} {e : ParseError}
    (h : r i = some (.error e)) : (r >>= k) i = some (.error e) := by
  change Option.bind (r i) _ = _
  rw [h]
  rfl

/-- Reading one thing after another. -/
theorem Agrees.bind {r : InPlace A} {k : A → InPlace B} {f : Except ParseError (A × Cursor)}
    {g : A × Cursor → Except ParseError (B × Cursor)} (h : Agrees s r c f)
    (hk : ∀ a c', c'.LiesIn s → Agrees s (k a) c' (g (a, c'))) :
    Agrees s (r >>= k) c (f >>= g) := by
  cases f with
  | error e => exact ⟨bind_of_error h.outcome, nofun⟩
  | ok out =>
    obtain ⟨a, c'⟩ := out
    have hnext := hk a c' (h.liesIn a c' rfl)
    exact ⟨(bind_of_ok h.outcome).trans hnext.outcome, hnext.liesIn⟩

/-- Going on after a reader that succeeds. -/
theorem Agrees.andThen {r : InPlace A} {k : A → InPlace B} {a : A}
    {f : Except ParseError (B × Cursor)} (h : Agrees s r c (.ok (a, c')))
    (hk : Agrees s (k a) c' f) : Agrees s (r >>= k) c f :=
  ⟨(bind_of_ok h.outcome).trans hk.outcome, hk.liesIn⟩

/-- A reader whose value is changed afterwards. -/
theorem Agrees.map {r : InPlace A} {f : Except ParseError (A × Cursor)} (h : Agrees s r c f)
    (g : A → B) : Agrees s (do return g (← r)) c (f.map fun (a, c) => (g a, c)) := by
  have hbind := h.bind (g := fun out => .ok (g out.1, out.2)) fun a c' hc' => agrees_pure hc' (g a)
  cases f with
  | error e => exact hbind
  | ok out => exact hbind

theorem Agrees.ite {p : Prop} [Decidable p] {r₁ r₂ : InPlace A}
    {f₁ f₂ : Except ParseError (A × Cursor)} (h₁ : p → Agrees s r₁ c f₁)
    (h₂ : ¬ p → Agrees s r₂ c f₂) :
    Agrees s (if p then r₁ else r₂) c (if p then f₁ else f₂) := by
  split
  · exact h₁ ‹_›
  · exact h₂ ‹_›

theorem agrees_get (hc : c.LiesIn s) : Agrees s get c (.ok (c.offset, c)) where
  outcome := rfl
  liesIn := by
    rintro _ _ ⟨⟩
    exact hc

/-! ### Looking at the text agrees -/

theorem agrees_slice {start stop : Nat} {text : String} (hc : c.LiesIn s)
    (h : slice? s start stop = some text) : Agrees s (slice s start stop) c (.ok (text, c)) where
  outcome := congrArg (Option.map fun text => Except.ok (text, c.offset)) h
  liesIn := by
    rintro _ _ ⟨⟩
    exact hc

theorem agrees_peek? (hc : c.LiesIn s) : Agrees s (peek? s) c (.ok (c.peek?, c)) := by
  have hrest := agrees_slice hc hc.slice?_rest
  have := (agrees_get hc).andThen
    (k := fun i => do return (← slice s i s.utf8ByteSize).toList.head?)
    (hrest.andThen (agrees_pure hc _))
  rwa [String.toList_ofList] at this

theorem agrees_advance (hc : c.LiesIn s) : Agrees s (advance s) c (.ok ((), c.next)) := by
  refine (agrees_peek? hc).andThen ?_
  have hnext := hc.next
  obtain ⟨offset, _ | ⟨x, rest⟩⟩ := c
  · exact agrees_pure hc ()
  · refine ⟨rfl, ?_⟩
    rintro _ _ ⟨⟩
    exact hnext

theorem agrees_passOver (p : Char → Bool) {rounds : Nat} (hc : c.LiesIn s)
    (h : c.remaining < rounds) : Agrees s (passOver s p rounds) c (.ok ((), c.skip p)) := by
  induction rounds generalizing c with
  | zero => exact absurd h (Nat.not_lt_zero _)
  | succ rounds ih =>
    refine (agrees_peek? hc).andThen ?_
    by_cases hsees : c.peek?.any p
    · rw [if_pos hsees, Cursor.skip_of_sees hsees]
      refine (agrees_advance hc).andThen (ih hc.next ?_)
      obtain ⟨x, hx, -⟩ := (Option.any_eq_true _ _).mp hsees
      have := Cursor.remaining_next_lt hx
      omega
    · rw [if_neg hsees, Cursor.skip_of_not_sees hsees]
      exact agrees_pure hc ()

theorem agrees_run (p : Char → Bool) (hc : c.LiesIn s) :
    Agrees s (run s p) c
      (.ok ((String.ofList (c.run p), c.offset, (c.skip p).offset), c.skip p)) := by
  have hskip := hc.skip p
  exact (agrees_get hc).andThen <| (agrees_passOver p hc hc.remaining_lt).andThen <|
    (agrees_get hskip).andThen <|
      (agrees_slice hskip (hc.slice?_skip p)).andThen (agrees_pure hskip _)

theorem agrees_skipBlanks (hc : c.LiesIn s) :
    Agrees s (skipBlanks s) c (.ok ((), c.skipBlanks)) :=
  (agrees_run isBlank hc).andThen (agrees_pure hc.skipBlanks ())

theorem agrees_accept (x : Char) (hc : c.LiesIn s) :
    Agrees s (accept s x) c (.ok (c.accept x)) := by
  refine (agrees_peek? hc).andThen ?_
  unfold Cursor.accept
  split
  · exact (agrees_advance hc).andThen (agrees_pure hc.next true)
  · exact agrees_pure hc false

theorem agrees_sees (p : Char → Bool) (hc : c.LiesIn s) :
    Agrees s (sees s p) c (.ok (c.sees p, c)) :=
  (agrees_peek? hc).andThen (agrees_pure hc _)

theorem agrees_unexpected (hc : c.LiesIn s) :
    Agrees s (unexpected s : InPlace A) c (.error c.unexpected) := by
  refine (agrees_peek? hc).andThen ?_
  unfold Cursor.unexpected
  cases c.peek? with
  | some x => exact (agrees_get hc).andThen (agrees_throw _)
  | none => exact agrees_throw _

theorem agrees_malformed (missing : LiteralPart) (hc : c.LiesIn s) :
    Agrees s (malformed missing : InPlace A) c (.error (.malformedLiteral missing c.offset)) :=
  (agrees_get hc).andThen (agrees_throw _)

/-! ### Numbers and literals agree -/

variable {R : Type} [Scalar R]

theorem agrees_number (hc : c.LiesIn s) : Agrees s (number s : InPlace R) c c.number := by
  refine (agrees_run Numeral.isNumeric hc).andThen ?_
  simp only [String.toList_ofList, Cursor.number]
  cases Numeral.read? (c.run Numeral.isNumeric) >>= fun n =>
      Scalar.ofDecimal? (R := R) n.digits n.places with
  | some x => exact agrees_pure (hc.skip _) x
  | none => exact agrees_throw _

/-- Going on after a required character, of which nothing but its place is returned. -/
theorem Agrees.require {part : LiteralPart} {x : Char} {k : Unit → InPlace B}
    {g : Cursor → Except ParseError (B × Cursor)} (hc : c.LiesIn s)
    (hk : ∀ c', c'.LiesIn s → Agrees s (k ()) c' (g c')) :
    Agrees s (require s part x >>= k) c (c.require part x >>= g) := by
  have h : Agrees s (InPlace.require s part x) c ((c.require part x).map fun c' => ((), c')) := by
    refine (agrees_peek? hc).andThen ?_
    unfold Cursor.require
    split
    · exact agrees_advance hc
    · exact agrees_malformed part hc
  have hbind := h.bind (g := fun out => g out.2) fun _ c' hc' => hk c' hc'
  cases hrequire : c.require part x with
  | error e => rwa [hrequire] at hbind
  | ok c' => rwa [hrequire] at hbind

theorem agrees_realPart (hc : c.LiesIn s) : Agrees s (realPart s : InPlace R) c c.realPart :=
  (agrees_sees _ hc).andThen (.ite (fun _ => agrees_number hc) fun _ => agrees_malformed _ hc)

theorem agrees_partSign (hc : c.LiesIn s) : Agrees s (partSign s) c c.partSign := by
  refine (agrees_peek? hc).andThen ((agrees_advance hc).andThen ?_)
  unfold Cursor.partSign
  generalize c.peek? = next
  split
  · exact agrees_pure hc.next false
  · exact agrees_pure hc.next true
  · rename_i hplus hminus
    simpa [hplus, hminus] using agrees_malformed .sign hc.next

theorem agrees_imaginaryPart (hc : c.LiesIn s) :
    Agrees s (imaginaryPart s : InPlace R) c c.imaginaryPart :=
  (agrees_sees _ hc).andThen (.ite (fun _ => agrees_number hc) fun _ => agrees_pure hc 1)

theorem agrees_literal (hc : c.LiesIn s) :
    Agrees s (literal s : InPlace (Complex R)) c c.literal := by
  refine (agrees_advance hc).andThen ((agrees_skipBlanks hc.next).andThen ?_)
  refine (agrees_accept '-' hc.next.skipBlanks).andThen ?_
  refine (agrees_realPart (hc.next.skipBlanks.accept '-')).bind fun re c₁ h₁ => ?_
  refine (agrees_skipBlanks h₁).andThen ?_
  refine (agrees_partSign h₁.skipBlanks).bind fun negativeIm c₂ h₂ => ?_
  refine (agrees_skipBlanks h₂).andThen ?_
  refine (agrees_imaginaryPart h₂.skipBlanks).bind fun im c₃ h₃ => ?_
  refine (agrees_run isTimes h₃).andThen (.require (h₃.skip _) fun c₄ h₄ => ?_)
  refine (agrees_skipBlanks h₄).andThen (.require h₄.skipBlanks fun c₅ h₅ => ?_)
  exact agrees_pure h₅ _

theorem agrees_magnitudeOr {other : InPlace (Complex R)}
    {f : Except ParseError (Complex R × Cursor)} (hc : c.LiesIn s) (hother : Agrees s other c f) :
    Agrees s (magnitudeOr s other) c (c.magnitude?.getD f) := by
  refine (agrees_sees _ hc).andThen ?_
  unfold Cursor.magnitude?
  rw [apply_ite (Option.getD · f)]
  refine .ite (fun _ => (agrees_number hc).map Complex.ofReal) fun _ => ?_
  rw [apply_ite (Option.getD · f)]
  exact (agrees_peek? hc).andThen (.ite (fun _ => agrees_literal hc) fun _ => hother)

/-! ### Terms and equations agree -/

theorem agrees_name (hc : c.LiesIn s) : Agrees s (name s) c c.name := by
  refine (agrees_peek? hc).andThen ?_
  unfold Cursor.name Cursor.sees
  cases hx : c.peek? with
  | none => exact agrees_unexpected hc
  | some x =>
    simp only [Option.any_some, Option.some.injEq]
    refine .ite (fun _ => ?_) fun _ => .ite (fun _ => ?_) fun _ => agrees_unexpected hc
    · have hrun := (agrees_run Char.isAlpha hc).andThen (k := fun out => do
        return String.ofList (out.1.toList.map Char.toLower)) (agrees_pure (hc.skip _) _)
      rwa [String.toList_ofList] at hrun
    · exact (agrees_get hc).andThen (agrees_throw _)

theorem agrees_termSign (first : Bool) (hc : c.LiesIn s) :
    Agrees s (termSign s first) c (c.termSign first) := by
  unfold Cursor.termSign
  split
  · refine (agrees_peek? hc).andThen ?_
    rw [‹c.peek? = _›]
    exact (agrees_advance hc).andThen (agrees_pure hc.next false)
  · refine (agrees_peek? hc).andThen ?_
    rw [‹c.peek? = _›]
    exact (agrees_advance hc).andThen (agrees_pure hc.next true)
  · rename_i x hplus hminus hpeek
    refine (agrees_peek? hc).andThen ?_
    have hother : ¬ (x = '+' || x = '-') := by simpa using ⟨hplus, hminus⟩
    simp only [hpeek, if_neg hother]
    exact .ite (fun _ => agrees_pure hc false) fun _ => agrees_unexpected hc
  · refine (agrees_peek? hc).andThen ?_
    rw [‹c.peek? = _›]
    exact agrees_unexpected hc

theorem agrees_term (first : Bool) (hc : c.LiesIn s) :
    Agrees s (term s first : InPlace (String × Complex R)) c (c.term first) := by
  refine (agrees_termSign first hc).bind fun negative c₁ h₁ => ?_
  refine (agrees_skipBlanks h₁).andThen ?_
  refine (agrees_magnitudeOr h₁.skipBlanks (agrees_pure h₁.skipBlanks 1)).bind fun size c₂ h₂ => ?_
  refine (agrees_skipBlanks h₂).andThen ?_
  exact (agrees_name h₂.skipBlanks).bind fun name c₃ h₃ => agrees_pure h₃ _

theorem agrees_terms {rounds : Nat} {first : Bool} {e : Equation R} (hc : c.LiesIn s)
    (h : c.remaining < rounds) :
    Agrees s (terms s rounds first e) c (c.terms first e) := by
  induction rounds generalizing c first e with
  | zero => exact absurd h (Nat.not_lt_zero _)
  | succ rounds ih =>
    refine (agrees_peek? hc).andThen ?_
    unfold Cursor.terms
    cases c.peek? with
    | none => exact agrees_throw _
    | some x =>
      refine .ite (fun _ => .ite (fun _ => ?_) fun _ => agrees_pure hc e) fun _ => ?_
      · exact (agrees_get hc).andThen (agrees_throw _)
      · have hterm := agrees_term (R := R) first hc
        split
        · rename_i err herr
          rw [herr] at hterm
          refine ⟨bind_of_error hterm.outcome, ?_⟩
          rintro _ _ ⟨⟩
        · rename_i name coefficient c' hok
          rw [hok] at hterm
          have hc' := hterm.liesIn _ _ rfl
          refine hterm.andThen ((agrees_skipBlanks hc').andThen (ih hc'.skipBlanks ?_))
          have := Cursor.remaining_lt_of_term hok
          have := c'.remaining_skip_le isBlank
          simp only [Cursor.skipBlanks] at *
          omega

theorem agrees_rightHandSide (hc : c.LiesIn s) :
    Agrees s (rightHandSide s : InPlace (Complex R)) c c.rightHandSide := by
  refine (agrees_advance hc).andThen ((agrees_skipBlanks hc.next).andThen ?_)
  unfold Cursor.rightHandSide
  have haccept := agrees_accept '-' hc.next.skipBlanks
  generalize c.next.skipBlanks.accept '-' = out at haccept ⊢
  obtain ⟨negative, d⟩ := out
  have hd := haccept.liesIn _ _ rfl
  refine haccept.andThen ?_
  cases negative with
  | false =>
    exact (agrees_magnitudeOr hd (agrees_unexpected hd)).bind fun size c' hc' => agrees_pure hc' _
  | true =>
    have hblanks := hd.skipBlanks
    exact (agrees_skipBlanks hd).andThen <|
      (agrees_magnitudeOr hblanks (agrees_unexpected hblanks)).bind fun size c' hc' =>
        agrees_pure hc' _

theorem agrees_finish (hc : c.LiesIn s) :
    Agrees s (finish s) c (c.finish.map fun _ => ((), c.skipBlanks)) := by
  refine (agrees_skipBlanks hc).andThen ((agrees_peek? hc.skipBlanks).andThen ?_)
  unfold Cursor.finish
  cases c.skipBlanks.peek? with
  | none => exact agrees_pure hc.skipBlanks ()
  | some x => exact agrees_unexpected hc.skipBlanks

theorem agrees_equation (s : String) :
    Agrees s (equation s : InPlace (Equation R)) (.start s) (do
      let (e, c) ← (Cursor.start s).skipBlanks.terms true (Equation.empty 0)
      let (rhs, c) ← c.rightHandSide
      let (_, c) ← c.finish.map fun _ => ((), c.skipBlanks)
      return (e.withRhs rhs, c)) := by
  have hstart : (Cursor.start s).LiesIn s := ⟨[], Cursor.follows_start s⟩
  have hblanks := hstart.skipBlanks
  refine (agrees_skipBlanks hstart).andThen ?_
  refine (agrees_terms hblanks hblanks.remaining_lt).bind fun e c₁ h₁ => ?_
  refine (agrees_rightHandSide h₁).bind fun rhs c₂ h₂ => ?_
  exact (agrees_finish h₂).bind fun _ c₃ h₃ => agrees_pure h₃ _

/-- **Reading in place has an outcome for every text**: no slice fails and no loop goes on for too
long, and the outcome is that of reading from the list of characters. -/
theorem parse_eq (s : String) :
    InPlace.parse s = some (Equation.parse s : Except ParseError (Equation R)) := by
  change ExceptT.run (Prod.fst <$> (equation s : InPlace (Equation R)) (Cursor.start s).offset) = _
  rw [(agrees_equation s).outcome]
  simp only [Equation.parse, bind, Except.bind]
  cases (Cursor.start s).skipBlanks.terms true (Equation.empty (0 : Complex R)) with
  | error err => rfl
  | ok out =>
    simp only
    cases out.2.rightHandSide (R := R) with
    | error err => rfl
    | ok right =>
      simp only
      cases right.2.finish <;> rfl

end InPlace
end LinearEquations
