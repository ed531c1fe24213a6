import Mathlib.Data.List.Nodup
import LinearEquations.Equation.Parser

/-! # The grammar of equations

Which texts are equations, and which equations they are:

    equation  = W [sign W] body W { sign W body W } '=' W ['-' W] magnitude W
    body      = [magnitude W] name
    magnitude = number | literal
    literal   = '(' W ['-'] number W sign W [number] S 'i' W ')'
    sign      = '+' | '-'

`W` is any run of blanks and `S` any run of blanks and stars.  A `name` is a longest run of letters,
and a `number` a longest run of digits and points with a digit and at most one point, for which
there is a scalar.

Each symbol is a relation between a text, what the symbol stands for at its beginning, and the rest
of the text.  A derivation gives the terms of an equation and its right hand side, and the terms are
set from left to right (`Equation.setAll`), so that the last one counts for an unknown that is
mentioned repeatedly.

The relations say nothing of how a text is read.  That a symbol only begins with certain characters
is proved of them (`Number.head` and so on), and is what makes reading possible. -/

namespace LinearEquations

/-- Set the given coefficients from left to right. -/
def Equation.setAll {R : Type} (e : Equation R) (terms : List (String × Complex R)) : Equation R :=
  terms.foldl (fun e term => e.set term.1 term.2) e

namespace Equation
variable {R : Type} {e : Equation R} {name : String} {a : Complex R} {t : String × Complex R}
variable {ts : List (String × Complex R)}

theorem mem_setTerm (h : t ∈ setTerm name a ts) : t = (name, a) ∨ t ∈ ts := by
  induction ts with
  | nil => exact .inl (List.mem_singleton.mp h)
  | cons u ts ih =>
    rw [setTerm] at h
    split at h
    · exact (List.mem_cons.mp h).imp_right (List.mem_cons_of_mem u)
    · rcases List.mem_cons.mp h with rfl | h
      · exact .inr List.mem_cons_self
      · exact (ih h).imp_right (List.mem_cons_of_mem u)

theorem mem_setAll (h : t ∈ (e.setAll ts).terms) : t ∈ ts ∨ t ∈ e.terms := by
  induction ts generalizing e with
  | nil => exact .inr h
  | cons u ts ih =>
    rcases ih h with h | h
    · exact .inl (List.mem_cons_of_mem u h)
    · rcases mem_setTerm h with rfl | h
      · exact .inl List.mem_cons_self
      · exact .inr h

/-- All terms of an equation that was empty were set. -/
theorem mem_of_mem_setAll_empty {rhs : Complex R} (h : t ∈ ((empty rhs).setAll ts).terms) :
    t ∈ ts := (mem_setAll h).resolve_right List.not_mem_nil

theorem coefficient?_eq_none_iff : e.coefficient? name = none ↔ name ∉ e.unknowns := by
  rw [coefficient?, Option.map_eq_none_iff, List.find?_eq_none, unknowns, List.mem_map]
  simp only [decide_eq_true_eq, not_exists, not_and]

/-- The coefficient of a term is that of its unknown, since no other term has it. -/
theorem coefficient?_eq_some_iff : e.coefficient? name = some a ↔ (name, a) ∈ e.terms := by
  have hsome : ∀ b, e.coefficient? name = some b → (name, b) ∈ e.terms := by
    intro b hb
    obtain ⟨⟨x, b⟩, hfind, rfl⟩ := Option.map_eq_some_iff.mp hb
    obtain rfl : x = name := by simpa using List.find?_some hfind
    exact List.mem_of_find?_eq_some hfind
  refine ⟨hsome a, fun hmem => ?_⟩
  cases hc : e.coefficient? name with
  | none => exact absurd (List.mem_map_of_mem hmem) (coefficient?_eq_none_iff.mp hc)
  | some c =>
    have := List.inj_on_of_nodup_map e.nodup (hsome c hc) hmem rfl
    rw [(Prod.mk.inj this).2]

end Equation

namespace Grammar
open Cursor (isTimes signed)

/-! ### Runs of characters -/

/-- The text begins with a run of characters of one kind. -/
def Run (p : Char → Bool) (s rest : List Char) : Prop := ∃ run, s = run ++ rest ∧ ∀ x ∈ run, p x

/-- The next character, if there is one, is of another kind. -/
def Stops (p : Char → Bool) (s : List Char) : Prop := ∀ x, s.head? = some x → p x = false

/-- The text begins with the given run of characters of one kind, which cannot be longer. -/
def LongestRun (p : Char → Bool) (run s rest : List Char) : Prop :=
  s = run ++ rest ∧ (∀ x ∈ run, p x) ∧ Stops p rest

/-! ### Numbers and names -/

section Symbols
variable {R : Type} [Scalar R]

/-- How many digits stand after the point. -/
def places (text : List Char) : Nat := (text.dropWhile (· ≠ '.')).tail.length

/-- A longest run of digits and points: at least one digit, at most one point, and a scalar nearest
to what they say. -/
inductive Number : List Char → R → List Char → Prop
  | intro {text s rest : List Char} {x : R} (run : LongestRun Numeral.isNumeric text s rest)
      (digit : ∃ d ∈ text, d.isDigit) (point : text.count '.' ≤ 1)
      (nearest : Scalar.ofDecimal? (Nat.ofDigitChars 10 (text.filter Char.isDigit) 0)
        (places text) = some x) : Number s x rest

/-- A longest run of letters, in lower case. -/
inductive Name : List Char → String → List Char → Prop
  | intro {text s rest : List Char} (run : LongestRun Char.isAlpha text s rest)
      (letter : text ≠ []) : Name s (String.ofList (text.map Char.toLower)) rest

/-- A sign, and whether it is a minus. -/
inductive Sign : List Char → Bool → List Char → Prop
  | plus (rest : List Char) : Sign ('+' :: rest) false rest
  | minus (rest : List Char) : Sign ('-' :: rest) true rest

/-! ### Literals and magnitudes -/

/-- A minus sign or nothing. -/
inductive Minus : List Char → Bool → List Char → Prop
  | absent (rest : List Char) : Minus rest false rest
  | present (rest : List Char) : Minus ('-' :: rest) true rest

/-- The number before the imaginary unit, which is one if it is left out. -/
inductive Factor : List Char → R → List Char → Prop
  | absent (rest : List Char) : Factor rest 1 rest
  | present {s rest : List Char} {x : R} (number : Number s x rest) : Factor s x rest

/-- A complex number in parentheses. -/
inductive Literal : List Char → Complex R → List Char → Prop
  | intro {s s₁ s₂ s₃ s₄ s₅ s₆ s₇ s₈ rest : List Char} {negativeRe negativeIm : Bool} {re im : R}
      (blanks : Run isBlank s s₁) (minus : Minus s₁ negativeRe s₂) (real : Number s₂ re s₃)
      (blanks₁ : Run isBlank s₃ s₄) (sign : Sign s₄ negativeIm s₅)
      (blanks₂ : Run isBlank s₅ s₆) (factor : Factor s₆ im s₇)
      (times : Run isTimes s₇ ('i' :: s₈)) (blanks₃ : Run isBlank s₈ (')' :: rest)) :
      Literal ('(' :: s) ⟨signed negativeRe re, signed negativeIm im⟩ rest

/-- A number or a literal. -/
inductive Magnitude : List Char → Complex R → List Char → Prop
  | number {s rest : List Char} {x : R} (number : Number s x rest) :
      Magnitude s (Complex.ofReal x) rest
  | literal {s rest : List Char} {a : Complex R} (literal : Literal s a rest) : Magnitude s a rest

/-! ### Terms and equations -/

/-- An unknown with or without a magnitude, which is one if it is left out. -/
inductive Body : List Char → String → Complex R → List Char → Prop
  | bare {s rest : List Char} {name : String} (unknown : Name s name rest) : Body s name 1 rest
  | sized {s s₁ s₂ rest : List Char} {name : String} {a : Complex R} (size : Magnitude s a s₁)
      (blanks : Run isBlank s₁ s₂) (unknown : Name s₂ name rest) : Body s name a rest

/-- A body after its sign: the name and the coefficient.  The first term may leave out its sign. -/
inductive Term : (first : Bool) → List Char → String × Complex R → List Char → Prop
  | signed {first negative : Bool} {s s₁ s₂ rest : List Char} {name : String} {a : Complex R}
      (sign : Sign s negative s₁) (blanks : Run isBlank s₁ s₂) (body : Body s₂ name a rest) :
      Term first s (name, signed negative a) rest
  | bare {s rest : List Char} {name : String} {a : Complex R} (body : Body s name a rest) :
      Term true s (name, a) rest

/-- Terms up to an equals sign, after which the rest begins.  There has to be a first one. -/
inductive Terms : (first : Bool) → List Char → List (String × Complex R) → List Char → Prop
  | done (rest : List Char) : Terms false ('=' :: rest) [] rest
  | more {first : Bool} {s s₁ s₂ rest : List Char} {t : String × Complex R}
      {ts : List (String × Complex R)} (term : Term first s t s₁) (blanks : Run isBlank s₁ s₂)
      (others : Terms false s₂ ts rest) : Terms first s (t :: ts) rest

/-- A magnitude, possibly after a minus sign. -/
inductive RightHandSide : List Char → Complex R → List Char → Prop
  | plain {s rest : List Char} {a : Complex R} (size : Magnitude s a rest) : RightHandSide s a rest
  | negated {s s₁ rest : List Char} {a : Complex R} (blanks : Run isBlank s s₁)
      (size : Magnitude s₁ a rest) : RightHandSide ('-' :: s) (-a) rest

/-- **The texts of equations**, with their terms from left to right and their right hand sides. -/
inductive IsEquation : List Char → List (String × Complex R) → Complex R → Prop
  | intro {s s₁ s₂ s₃ s₄ : List Char} {ts : List (String × Complex R)} {rhs : Complex R}
      (blanks : Run isBlank s s₁) (terms : Terms true s₁ ts s₂) (blanks₁ : Run isBlank s₂ s₃)
      (right : RightHandSide s₃ rhs s₄) (blanks₂ : Run isBlank s₄ []) : IsEquation s ts rhs

end Symbols

/-! ### Where runs stop -/

variable {p q : Char → Bool} {s rest run : List Char} {x : Char}

theorem stops_nil (p : Char → Bool) : Stops p [] := by
  intro x hx
  cases hx

theorem stops_cons (h : p x = false) (rest : List Char) : Stops p (x :: rest) := by
  rintro _ ⟨⟩
  exact h

theorem run_dropWhile (p : Char → Bool) (s : List Char) : Run p s (s.dropWhile p) :=
  ⟨s.takeWhile p, List.takeWhile_append_dropWhile.symm, List.all_eq_true.mp List.all_takeWhile⟩

theorem stops_dropWhile (p : Char → Bool) (s : List Char) : Stops p (s.dropWhile p) := by
  intro x hx
  simpa [hx] using List.head?_dropWhile_not p s

theorem Stops.takeWhile_eq (h : Stops p s) : s.takeWhile p = [] := by
  cases s with
  | nil => rfl
  | cons x s => exact List.takeWhile_cons_of_neg (by simp [h x rfl])

theorem Stops.dropWhile_eq (h : Stops p s) : s.dropWhile p = s := by
  have := List.takeWhile_append_dropWhile (p := p) (l := s)
  rwa [h.takeWhile_eq, List.nil_append] at this

/-- **A run that stops is what a reader skips.** -/
theorem Run.dropWhile_eq (h : Run p s rest) (hstops : Stops p rest) : s.dropWhile p = rest := by
  obtain ⟨run, rfl, hrun⟩ := h
  rw [List.dropWhile_append_of_pos hrun, hstops.dropWhile_eq]

theorem longestRun_iff :
    LongestRun p run s rest ↔ s.takeWhile p = run ∧ s.dropWhile p = rest := by
  constructor
  · rintro ⟨rfl, hrun, hstops⟩
    rw [List.takeWhile_append_of_pos hrun, List.dropWhile_append_of_pos hrun, hstops.takeWhile_eq,
      hstops.dropWhile_eq, List.append_nil]
    exact ⟨rfl, rfl⟩
  · rintro ⟨rfl, rfl⟩
    exact ⟨List.takeWhile_append_dropWhile.symm, List.all_eq_true.mp List.all_takeWhile,
      stops_dropWhile p s⟩

/-- Passing over characters of one kind first and then over those of a wider kind. -/
theorem dropWhile_dropWhile (h : ∀ x, p x → q x) (s : List Char) :
    (s.dropWhile p).dropWhile q = s.dropWhile q := by
  obtain ⟨run, hs, hrun⟩ := run_dropWhile p s
  exact (List.dropWhile_append_of_pos fun x hx => h x (hrun x hx)).symm.trans
    (congrArg (List.dropWhile q) hs.symm)

theorem Run.mono (h : Run p s rest) (hpq : ∀ x, p x → q x) : Run q s rest := by
  obtain ⟨run, hs, hrun⟩ := h
  exact ⟨run, hs, fun x hx => hpq x (hrun x hx)⟩

theorem Run.trans {s' : List Char} (h : Run p s s') (h' : Run p s' rest) : Run p s rest := by
  obtain ⟨run, rfl, hrun⟩ := h
  obtain ⟨run', rfl, hrun'⟩ := h'
  exact ⟨run ++ run', (List.append_assoc ..).symm, List.forall_mem_append.mpr ⟨hrun, hrun'⟩⟩

/-! ### The characters with which symbols begin -/

/-- Visible ASCII characters are no blanks. -/
theorem isBlank_eq_false (h : 32 < x.toNat) (h' : x.toNat < 127) : isBlank x = false := by
  have houtside : ∀ range ∈ blanks, range.2 ≤ 32 ∨ 127 ≤ range.1 := by decide
  rw [← Bool.not_eq_true, isBlank, CharClass.contains, List.any_eq_true]
  rintro ⟨range, hmem, hrange⟩
  have := houtside range hmem
  rw [Bool.and_eq_true, decide_eq_true_eq, decide_eq_true_eq] at hrange
  omega

theorem toNat_of_isAlpha (h : x.isAlpha) :
    65 ≤ x.toNat ∧ x.toNat ≤ 90 ∨ 97 ≤ x.toNat ∧ x.toNat ≤ 122 := by
  rcases Bool.or_eq_true_iff.mp h with h | h
  · have hbounds : x.val ≥ 'A'.val ∧ x.val ≤ 'Z'.val := of_decide_eq_true h
    exact .inl hbounds
  · have hbounds : x.val ≥ 'a'.val ∧ x.val ≤ 'z'.val :=
      (Bool.and_eq_true_iff.mp h).imp of_decide_eq_true of_decide_eq_true
    exact .inr hbounds

theorem toNat_of_isNumeric (h : Numeral.isNumeric x) : 46 ≤ x.toNat ∧ x.toNat ≤ 57 := by
  rcases Bool.or_eq_true_iff.mp h with h | h
  · obtain ⟨hlow, hhigh⟩ : x.val ≥ '0'.val ∧ x.val ≤ '9'.val :=
      (Bool.and_eq_true_iff.mp h).imp of_decide_eq_true of_decide_eq_true
    exact ⟨Nat.le_trans (by decide) hlow, hhigh⟩
  · rw [of_decide_eq_true h]
    decide

theorem isBlank_eq_false_of_isAlpha (h : x.isAlpha) : isBlank x = false := by
  have := toNat_of_isAlpha h
  exact isBlank_eq_false (by omega) (by omega)

theorem isBlank_eq_false_of_isNumeric (h : Numeral.isNumeric x) : isBlank x = false := by
  have := toNat_of_isNumeric h
  exact isBlank_eq_false (by omega) (by omega)

theorem isTimes_eq_false_of_isNumeric (h : Numeral.isNumeric x) : isTimes x = false := by
  have := toNat_of_isNumeric h
  rw [isTimes, isBlank_eq_false_of_isNumeric h, Bool.false_or, decide_eq_false_iff_not]
  rintro rfl
  cases h

theorem isNumeric_eq_false_of_isAlpha (h : x.isAlpha) : Numeral.isNumeric x = false := by
  rw [← Bool.not_eq_true]
  intro h'
  have := toNat_of_isAlpha h
  have := toNat_of_isNumeric h'
  omega

variable {R : Type} [Scalar R] {a : Complex R} {name : String}

theorem stops_of_head {kind : Char → Bool} (h : s.head?.any kind)
    (hkind : ∀ x, kind x → p x = false) : Stops p s := by
  intro x hx
  rw [hx] at h
  exact hkind x h

theorem LongestRun.head (h : LongestRun p run s rest) (hne : run ≠ []) : s.head?.any p := by
  obtain ⟨rfl, hrun, -⟩ := h
  cases run with
  | nil => exact absurd rfl hne
  | cons x run => exact hrun x (List.mem_cons_self ..)

theorem Number.head {x : R} (h : Number s x rest) : s.head?.any Numeral.isNumeric := by
  obtain ⟨hrun, ⟨d, hd, -⟩, -, -⟩ := h
  exact hrun.head (List.ne_nil_of_mem hd)

theorem Number.stops {x : R} (h : Number s x rest) : Stops isBlank s :=
  stops_of_head h.head fun _ => isBlank_eq_false_of_isNumeric

theorem Number.head_ne {r : R} (h : Number s r rest) (hx : Numeral.isNumeric x = false) :
    s.head? ≠ some x := by
  intro heq
  have hhead := h.head
  rw [heq] at hhead
  exact Bool.eq_false_iff.mp hx hhead

theorem Minus.stops {negative : Bool} (h : Minus s negative rest) (hrest : Stops isBlank rest) :
    Stops isBlank s := by
  cases h with
  | absent => exact hrest
  | present => exact stops_cons (by decide) _

theorem Name.head (h : Name s name rest) : s.head?.any Char.isAlpha := by
  obtain ⟨hrun, hne⟩ := h
  exact hrun.head hne

theorem Name.stops (h : Name s name rest) : Stops isBlank s :=
  stops_of_head h.head fun _ => isBlank_eq_false_of_isAlpha

theorem Sign.stops {negative : Bool} (h : Sign s negative rest) : Stops isBlank s := by
  cases h <;> exact stops_cons (by decide) _

theorem Literal.head (h : Literal s a rest) : s.head? = some '(' := by
  cases h
  rfl

/-- A magnitude begins like a number or with a parenthesis. -/
theorem Magnitude.head (h : Magnitude s a rest) :
    s.head?.any fun x => Numeral.isNumeric x || x = '(' := by
  cases h with
  | number h =>
    obtain ⟨x, hx, hnumeric⟩ := Option.any_eq_true _ _ |>.mp h.head
    simp [hx, hnumeric]
  | literal h =>
    rw [h.head]
    rfl

theorem Magnitude.head_ne_minus (h : Magnitude s a rest) : s.head? ≠ some '-' := by
  intro heq
  have hhead := h.head
  rw [heq] at hhead
  cases hhead

theorem Magnitude.stops (h : Magnitude s a rest) : Stops isBlank s := by
  refine stops_of_head h.head fun x hx => ?_
  rcases Bool.or_eq_true_iff.mp hx with hx | hx
  · exact isBlank_eq_false_of_isNumeric hx
  · rw [of_decide_eq_true hx]
    decide

/-- A body begins like a magnitude or with a letter, and so not with a sign. -/
theorem Body.head (h : Body s name a rest) :
    s.head?.any fun x => Numeral.isNumeric x || x = '(' || x.isAlpha := by
  cases h with
  | bare hname =>
    obtain ⟨x, hx, hletter⟩ := (Option.any_eq_true _ _).mp hname.head
    simp [hx, hletter]
  | sized hsize =>
    obtain ⟨x, hx, hbegins⟩ := (Option.any_eq_true _ _).mp hsize.head
    simp only [hx, Option.any_some, hbegins, Bool.true_or]

theorem Body.stops (h : Body s name a rest) : Stops isBlank s := by
  cases h with
  | bare hname => exact hname.stops
  | sized hsize => exact hsize.stops

theorem Term.stops {first : Bool} {t : String × Complex R} (h : Term first s t rest) :
    Stops isBlank s := by
  cases h with
  | signed hsign => exact hsign.stops
  | bare hbody => exact hbody.stops

/-- A term does not begin with an equals sign. -/
theorem Term.head {first : Bool} {t : String × Complex R} (h : Term first s t rest) :
    s.head?.any (· ≠ '=') := by
  cases h with
  | signed hsign => cases hsign <;> rfl
  | bare hbody =>
    obtain ⟨x, hx, hbegins⟩ := (Option.any_eq_true _ _).mp hbody.head
    rw [hx, Option.any_some, decide_eq_true_eq]
    rintro rfl
    cases hbegins

theorem Terms.stops {first : Bool} {ts : List (String × Complex R)} (h : Terms first s ts rest) :
    Stops isBlank s := by
  cases h with
  | done => exact stops_cons (by decide) _
  | more hterm => exact hterm.stops

theorem RightHandSide.stops (h : RightHandSide s a rest) : Stops isBlank s := by
  cases h with
  | plain hsize => exact hsize.stops
  | negated => exact stops_cons (by decide) _

end Grammar
end LinearEquations
