import LinearEquations.Proofs.NumberText

/-! # The grammar of equations over tokens

The grammar in the words of its users: a text is a sequence of tokens, with blanks allowed before
each of them and at the end, and the tokens are derived from

    equation  = term { sign term } '=' ['-'] magnitude
    term      = [sign] [magnitude] unknown
    magnitude = number | '(' ['-'] number sign [number] ['*'] 'i' ')'

where only the first term may be without a sign, and none has two.

The reader agrees with this grammar but for two habits.  It does not pass over blanks between the
minus sign inside a literal and the number (`hasLooseMinus`), and before the imaginary unit it
passes over any number of stars (`repeatsStar`). -/

namespace LinearEquations
open Grammar
open Cursor (isTimes signed)

namespace TokenGrammar

/-! ### Tokens -/

/-- What equations are written with: numbers, unknowns and single characters. -/
inductive Token (R : Type)
  | number (x : R)
  | unknown (name : String)
  | char (c : Char)

/-- The token of a sign. -/
def sign {R : Type} (negative : Bool) : Token R := .char (if negative then '-' else '+')

section Symbols
variable {R : Type} [Scalar R]

/-- The texts of a token.  Numbers and unknowns need not take all the figures and letters there are:
no two of them stand side by side in an equation. -/
inductive Token.Spells : Token R → List Char → Prop
  | number {text : List Char} {x : R} (h : IsNumberText text x) : Spells (.number x) text
  | unknown {text : List Char} (letters : ∀ y ∈ text, y.isAlpha) (ne : text ≠ []) :
      Spells (.unknown (String.ofList (text.map Char.toLower))) text
  | char (c : Char) : Spells (.char c) [c]

/-- A text begins with the given tokens, with blanks before each of them. -/
inductive Spelled : List (Token R) → List Char → List Char → Prop
  | done (rest : List Char) : Spelled [] rest rest
  | token {t : Token R} {ts : List (Token R)} {text s s' rest : List Char}
      (blanks : Run isBlank s (text ++ s')) (spells : t.Spells text) (others : Spelled ts s' rest) :
      Spelled (t :: ts) s rest

/-! ### Symbols -/

/-- A minus sign or nothing. -/
inductive IsMinus : List (Token R) → Bool → Prop
  | absent : IsMinus [] false
  | present : IsMinus [.char '-'] true

/-- The number before the imaginary unit, which is one if it is left out. -/
inductive IsFactor : List (Token R) → R → Prop
  | absent : IsFactor [] 1
  | present (x : R) : IsFactor [.number x] x

/-- The imaginary unit, with or without a star before it. -/
inductive IsUnit : List (Token R) → Prop
  | bare : IsUnit [.char 'i']
  | times : IsUnit [.char '*', .char 'i']

/-- A complex number in parentheses. -/
inductive IsLiteral : List (Token R) → Complex R → Prop
  | intro {m f u : List (Token R)} {negativeRe : Bool} {im : R} (minus : IsMinus m negativeRe)
      (re : R) (negativeIm : Bool) (factor : IsFactor f im) (unit : IsUnit u) :
      IsLiteral (.char '(' :: (m ++ .number re :: sign negativeIm :: (f ++ (u ++ [.char ')']))))
        ⟨signed negativeRe re, signed negativeIm im⟩

/-- A number or a literal. -/
inductive IsMagnitude : List (Token R) → Complex R → Prop
  | number (x : R) : IsMagnitude [.number x] (Complex.ofReal x)
  | literal {ts : List (Token R)} {a : Complex R} (h : IsLiteral ts a) : IsMagnitude ts a

/-- An unknown with or without a magnitude, which is one if it is left out. -/
inductive IsBody : List (Token R) → String → Complex R → Prop
  | bare (name : String) : IsBody [.unknown name] name 1
  | sized {ts : List (Token R)} {a : Complex R} (size : IsMagnitude ts a) (name : String) :
      IsBody (ts ++ [.unknown name]) name a

/-- A body after its sign.  The first term may leave out its sign. -/
inductive IsTerm : (first : Bool) → List (Token R) → String × Complex R → Prop
  | signed {first : Bool} {ts : List (Token R)} {name : String} {a : Complex R} (negative : Bool)
      (body : IsBody ts name a) : IsTerm first (sign negative :: ts) (name, signed negative a)
  | bare {ts : List (Token R)} {name : String} {a : Complex R} (body : IsBody ts name a) :
      IsTerm true ts (name, a)

/-- One term or more. -/
inductive IsTerms : (first : Bool) → List (Token R) → List (String × Complex R) → Prop
  | last {first : Bool} {ts : List (Token R)} {t : String × Complex R} (term : IsTerm first ts t) :
      IsTerms first ts [t]
  | more {first : Bool} {ts ts' : List (Token R)} {t : String × Complex R}
      {terms : List (String × Complex R)} (term : IsTerm first ts t)
      (others : IsTerms false ts' terms) : IsTerms first (ts ++ ts') (t :: terms)

/-- A magnitude, possibly after a minus sign. -/
inductive IsRightHandSide : List (Token R) → Complex R → Prop
  | plain {ts : List (Token R)} {a : Complex R} (size : IsMagnitude ts a) : IsRightHandSide ts a
  | negated {ts : List (Token R)} {a : Complex R} (size : IsMagnitude ts a) :
      IsRightHandSide (.char '-' :: ts) (-a)

/-- A text is spelled with tokens that make up an equation of the given terms and the given right
hand side. -/
def IsSpelling (s : List Char) (terms : List (String × Complex R)) (rhs : Complex R) : Prop :=
  ∃ ts ts', IsTerms true ts terms ∧ IsRightHandSide ts' rhs ∧
    ∃ rest, Spelled (ts ++ .char '=' :: ts') s rest ∧ Run isBlank rest []

/-- **The texts that the grammar has for an equation.** -/
def IsWritten (text : String) (e : Equation R) : Prop :=
  ∃ terms rhs, IsSpelling text.toList terms rhs ∧
    e = ((Equation.empty 0).setAll terms).withRhs rhs

end Symbols

/-! ### Characters and what stands after them -/

/-- Whether `x` stands somewhere in a text with a rest after it that satisfies `p`. -/
def occurs (x : Char) (p : List Char → Bool) : List Char → Bool
  | [] => false
  | y :: rest => y = x && p rest || occurs x p rest

/-- Whether a minus sign comes next, and a blank after it. -/
def isLooseMinus (s : List Char) : Bool :=
  match s.dropWhile isBlank with
  | '-' :: rest => rest.head?.any isBlank
  | _ => false

/-- Whether a star comes next. -/
def isStar (s : List Char) : Bool := (s.dropWhile isBlank).head? = some '*'

/-- Whether some literal of a text begins with a minus sign and a blank. -/
def hasLooseMinus (text : String) : Bool := occurs '(' isLooseMinus text.toList

/-- Whether a text has two stars with nothing but blanks between them. -/
def repeatsStar (text : String) : Bool := occurs '*' isStar text.toList

section Occurs
variable {x y : Char} {p : List Char → Bool} {q : Char → Bool} {s rest pre : List Char}

theorem occurs_cons_of_ne (h : y ≠ x) : occurs x p (y :: s) = occurs x p s := by
  rw [occurs, decide_eq_false h, Bool.false_and, Bool.false_or]

theorem occurs_cons_of_eq_false (h : p s = false) : occurs x p (y :: s) = occurs x p s := by
  rw [occurs, h, Bool.and_false, Bool.false_or]

theorem occurs_append_of_forall_ne (h : ∀ y ∈ pre, y ≠ x) :
    occurs x p (pre ++ s) = occurs x p s := by
  induction pre with
  | nil => rfl
  | cons y pre ih =>
    rw [List.cons_append, occurs_cons_of_ne (h y List.mem_cons_self),
      ih fun z hz => h z (List.mem_cons_of_mem y hz)]

/-- What does not occur in a text does not occur in the end of it. -/
theorem occurs_eq_false_of_append (h : occurs x p (pre ++ s) = false) : occurs x p s = false := by
  induction pre with
  | nil => exact h
  | cons y pre ih => exact ih (Bool.or_eq_false_iff.mp h).2

theorem occurs_of_run (h : Run q s rest) (hx : q x = false) : occurs x p s = occurs x p rest := by
  obtain ⟨run, rfl, hrun⟩ := h
  refine occurs_append_of_forall_ne ?_
  rintro _ hy rfl
  exact Bool.eq_false_iff.mp hx (hrun _ hy)

theorem isLooseMinus_eq_false (h : Run isBlank s rest) (hstops : Stops isBlank rest)
    (hrest : rest.head? ≠ some '-') : isLooseMinus s = false := by
  unfold isLooseMinus
  rw [h.dropWhile_eq hstops]
  split
  · exact absurd rfl hrest
  · rfl

theorem isLooseMinus_minus (h : Run isBlank s ('-' :: rest)) :
    isLooseMinus s = rest.head?.any isBlank := by
  unfold isLooseMinus
  rw [h.dropWhile_eq (stops_cons (by decide) _)]
  rfl

theorem isStar_of_run (h : Run isBlank s rest) (hstops : Stops isBlank rest) :
    isStar s = decide (rest.head? = some '*') := by
  rw [isStar, h.dropWhile_eq hstops]

end Occurs

/-! ### Spellings in parts -/

section Spelled
variable {R : Type} [Scalar R] {t : Token R} {ts ts' : List (Token R)} {s s' rest : List Char}
variable {c : Char} {name : String} {x : R} {p : Char → Bool}

theorem spelled_nil_iff : Spelled ([] : List (Token R)) s rest ↔ s = rest :=
  ⟨fun h => by cases h; rfl, fun h => h ▸ .done s⟩

theorem spelled_cons_iff : Spelled (t :: ts) s rest ↔
    ∃ text s', Run isBlank s (text ++ s') ∧ t.Spells text ∧ Spelled ts s' rest :=
  ⟨fun | .token hblanks hspells hothers => ⟨_, _, hblanks, hspells, hothers⟩,
    fun ⟨_, _, hblanks, hspells, hothers⟩ => .token hblanks hspells hothers⟩

theorem spelled_char_iff : Spelled (.char c :: ts : List (Token R)) s rest ↔
    ∃ s', Run isBlank s (c :: s') ∧ Spelled ts s' rest := by
  rw [spelled_cons_iff]
  constructor
  · rintro ⟨_, s', hblanks, ⟨⟩, hothers⟩
    exact ⟨s', hblanks, hothers⟩
  · rintro ⟨s', hblanks, hothers⟩
    exact ⟨[c], s', hblanks, .char c, hothers⟩

theorem spelled_number_iff : Spelled (.number x :: ts) s rest ↔
    ∃ text s', Run isBlank s (text ++ s') ∧ IsNumberText text x ∧ Spelled ts s' rest := by
  rw [spelled_cons_iff]
  constructor
  · rintro ⟨text, s', hblanks, ⟨hnumber⟩, hothers⟩
    exact ⟨text, s', hblanks, hnumber, hothers⟩
  · rintro ⟨text, s', hblanks, hnumber, hothers⟩
    exact ⟨text, s', hblanks, .number hnumber, hothers⟩

theorem spelled_append_iff : Spelled (ts ++ ts') s rest ↔
    ∃ s', Spelled ts s s' ∧ Spelled ts' s' rest := by
  induction ts generalizing s with
  | nil => simp only [List.nil_append, spelled_nil_iff, exists_eq_left']
  | cons t ts ih =>
    simp only [List.cons_append, spelled_cons_iff, ih]
    constructor
    · rintro ⟨text, s₁, hblanks, hspells, s', hothers, hrest⟩
      exact ⟨s', ⟨text, s₁, hblanks, hspells, hothers⟩, hrest⟩
    · rintro ⟨s', ⟨text, s₁, hblanks, hspells, hothers⟩, hrest⟩
      exact ⟨text, s₁, hblanks, hspells, s', hothers, hrest⟩

theorem Spelled.append (h : Spelled ts s s') (h' : Spelled ts' s' rest) :
    Spelled (ts ++ ts') s rest :=
  spelled_append_iff.mpr ⟨s', h, h'⟩

/-- More blanks before the first token. -/
theorem Spelled.blanks (h : Spelled ts s' rest) (hblanks : Run isBlank s s') (hne : ts ≠ []) :
    Spelled ts s rest := by
  cases h with
  | done => exact absurd rfl hne
  | token hblanks' hspells hothers => exact .token (hblanks.trans hblanks') hspells hothers

theorem Spelled.exists_append (h : Spelled ts s rest) : ∃ pre, s = pre ++ rest := by
  induction h with
  | done => exact ⟨[], rfl⟩
  | @token t ts text s s' rest hblanks _ _ ih =>
    obtain ⟨run, rfl, -⟩ := hblanks
    obtain ⟨pre, rfl⟩ := ih
    exact ⟨run ++ (text ++ pre), by simp only [List.append_assoc]⟩

end Spelled
end TokenGrammar
end LinearEquations
