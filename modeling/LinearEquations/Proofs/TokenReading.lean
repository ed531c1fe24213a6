import LinearEquations.Proofs.TokenGrammar
import LinearEquations.Proofs.ViablePrefix

/-! # Reading texts of tokens

The grammar over tokens and the grammar over characters derive the same equations, except that
only the former derives texts with a loose minus sign in a literal, and only the latter derives
texts with repeated stars (`Equation.parse_and_iff_isWritten_and`).

Symbol by symbol there are two translations.  From tokens to characters a symbol keeps its text but
for the blanks in front (`BeginsWith`); the characters that may follow it are known from the tokens
that may.  From characters to tokens each symbol is spelled as it stands.  That a text has no loose
minus sign, or no repeated stars, is told by symbols as well: what occurs in the text of a symbol
with something after it is what occurs in that. -/

namespace LinearEquations
open Grammar
open Cursor (isTimes signed isNumeric_eq_false_of_isBlank)

namespace TokenGrammar

variable {R : Type} [Scalar R] {s rest : List Char} {ts ts' : List (Token R)} {a : Complex R}
variable {name : String} {first : Bool} {terms : List (String × Complex R)}
variable {t : String × Complex R}

/-! ### From tokens to characters -/

section FromTokens
variable {c : Char} {p : Char → Bool} {u m f : List (Token R)} {negative : Bool} {x : R}

/-- Blanks, and then a symbol of the grammar over characters. -/
def BeginsWith {A : Type} (Symbol : List Char → A → List Char → Prop) (s : List Char) (a : A)
    (rest : List Char) : Prop := ∃ s', Run isBlank s s' ∧ Symbol s' a rest

theorem isAlpha_eq_false_of_isBlank {y : Char} (h : isBlank y) : y.isAlpha = false :=
  Bool.eq_false_iff.mpr fun halpha => Bool.eq_false_iff.mp (isBlank_eq_false_of_isAlpha halpha) h

theorem stops_of_char (h : Spelled (.char c :: ts) s rest)
    (hblank : ∀ {y}, isBlank y → p y = false) (hc : p c = false) : Stops p s := by
  obtain ⟨s', ⟨run, rfl, hrun⟩, -⟩ := spelled_char_iff.mp h
  exact stops_append (fun y hy => hblank (hrun y hy)) (stops_cons hc s')

theorem stops_isNumeric_of_unknown (h : Spelled (.unknown name :: ts) s rest) :
    Stops Numeral.isNumeric s := by
  obtain ⟨text, s', ⟨run, rfl, hrun⟩, hspells, -⟩ := spelled_cons_iff.mp h
  refine stops_isNumeric_of_blanks hrun ?_
  cases hspells with
  | unknown hletters hne =>
    obtain ⟨y, text, rfl⟩ := List.exists_cons_of_ne_nil hne
    exact stops_cons (isNumeric_eq_false_of_isAlpha (hletters y List.mem_cons_self)) _

theorem stops_of_sign (h : Spelled (sign negative :: ts) s rest)
    (hblank : ∀ {y}, isBlank y → p y = false) (hplus : p '+' = false) (hminus : p '-' = false) :
    Stops p s := by
  cases negative with
  | false => exact stops_of_char h hblank hplus
  | true => exact stops_of_char h hblank hminus

theorem beginsWith_sign (h : Spelled (sign negative :: ts) s rest) :
    ∃ s', BeginsWith Sign s negative s' ∧ Spelled ts s' rest := by
  obtain ⟨s', hblanks, hothers⟩ := spelled_char_iff.mp h
  refine ⟨s', ⟨_, hblanks, ?_⟩, hothers⟩
  cases negative with
  | false => exact .plus s'
  | true => exact .minus s'

theorem beginsWith_number (h : Spelled [.number x] s rest) (hrest : Stops Numeral.isNumeric rest) :
    BeginsWith Number s x rest := by
  obtain ⟨text, s', hblanks, hnumber, hothers⟩ := spelled_number_iff.mp h
  obtain rfl := spelled_nil_iff.mp hothers
  exact ⟨text ++ s', hblanks, hnumber.number hrest⟩

/-- A minus sign or nothing, and then a number: without a blank after the sign, as one text. -/
theorem beginsWith_minus (hminus : IsMinus m negative)
    (h : Spelled (m ++ .number x :: ts) s rest) (hloose : isLooseMinus s = false) :
    ∃ text s', BeginsWith Minus s negative (text ++ s') ∧ IsNumberText text x ∧
      Spelled ts s' rest := by
  cases hminus with
  | absent =>
    obtain ⟨text, s', hblanks, hnumber, hothers⟩ := spelled_number_iff.mp h
    exact ⟨text, s', ⟨_, hblanks, .absent _⟩, hnumber, hothers⟩
  | present =>
    obtain ⟨s₁, hblanks, h⟩ := spelled_char_iff.mp h
    obtain ⟨text, s', ⟨run, rfl, hrun⟩, hnumber, hothers⟩ := spelled_number_iff.mp h
    rw [isLooseMinus_minus hblanks] at hloose
    cases run with
    | nil => exact ⟨text, s', ⟨_, hblanks, .present _⟩, hnumber, hothers⟩
    | cons y run => exact absurd (hrun y List.mem_cons_self) (Bool.eq_false_iff.mp hloose)

theorem run_of_isUnit (hunit : IsUnit u) (h : Spelled (u ++ ts) s rest) :
    ∃ s', Run isTimes s ('i' :: s') ∧ Spelled ts s' rest := by
  have hmono : ∀ y, isBlank y → isTimes y := fun y hy => Bool.or_eq_true_iff.mpr (.inl hy)
  cases hunit with
  | bare =>
    obtain ⟨s', hblanks, hothers⟩ := spelled_char_iff.mp h
    exact ⟨s', hblanks.mono hmono, hothers⟩
  | times =>
    obtain ⟨s₁, hblanks, h⟩ := spelled_char_iff.mp h
    obtain ⟨s', hblanks', hothers⟩ := spelled_char_iff.mp h
    have hstar : Run isTimes ('*' :: s₁) s₁ := ⟨['*'], rfl, List.forall_mem_singleton.mpr rfl⟩
    exact ⟨s', ((hblanks.mono hmono).trans hstar).trans (hblanks'.mono hmono), hothers⟩

theorem stops_of_isUnit (hunit : IsUnit u) (h : Spelled (u ++ ts) s rest) :
    Stops Numeral.isNumeric s := by
  cases hunit <;> exact stops_of_char h isNumeric_eq_false_of_isBlank (by decide)

theorem beginsWith_factor (hfactor : IsFactor f x) (hunit : IsUnit u)
    (h : Spelled (f ++ (u ++ ts)) s rest) :
    ∃ s', BeginsWith Factor s x s' ∧ Spelled (u ++ ts) s' rest := by
  obtain ⟨s', hf, hu⟩ := spelled_append_iff.mp h
  refine ⟨s', ?_, hu⟩
  cases hfactor with
  | absent =>
    obtain rfl := spelled_nil_iff.mp hf
    exact ⟨s, Run.nil _ s, .absent s⟩
  | present =>
    obtain ⟨s₁, hblanks, hnumber⟩ := beginsWith_number hf (stops_of_isUnit hunit hu)
    exact ⟨s₁, hblanks, .present hnumber⟩

theorem beginsWith_literal (h : IsLiteral ts a) (hs : Spelled ts s rest)
    (hloose : occurs '(' isLooseMinus s = false) : BeginsWith Literal s a rest := by
  obtain ⟨hminus, re, negativeIm, hfactor, hunit⟩ := h
  obtain ⟨s₁, hopen, hs⟩ := spelled_char_iff.mp hs
  rw [occurs_of_run hopen (by decide)] at hloose
  have hloose : isLooseMinus s₁ = false := (Bool.or_eq_false_iff.mp hloose).1
  obtain ⟨text, s₂, ⟨_, hblanks, hm⟩, hnumber, hs⟩ := beginsWith_minus hminus hs hloose
  have hstops := stops_of_sign hs isNumeric_eq_false_of_isBlank (by decide) (by decide)
  obtain ⟨s₃, ⟨_, hblanks₁, hsign⟩, hs⟩ := beginsWith_sign hs
  obtain ⟨s₄, ⟨_, hblanks₂, hf⟩, hs⟩ := beginsWith_factor hfactor hunit hs
  obtain ⟨s₅, htimes, hs⟩ := run_of_isUnit hunit hs
  obtain ⟨s₆, hblanks₃, hs⟩ := spelled_char_iff.mp hs
  obtain rfl := spelled_nil_iff.mp hs
  exact ⟨_, hopen, .intro hblanks hm (hnumber.number hstops) hblanks₁ hsign hblanks₂ hf htimes
    hblanks₃⟩

theorem beginsWith_magnitude (h : IsMagnitude ts a) (hs : Spelled ts s rest)
    (hrest : Stops Numeral.isNumeric rest) (hloose : occurs '(' isLooseMinus s = false) :
    BeginsWith Magnitude s a rest := by
  cases h with
  | number =>
    obtain ⟨s', hblanks, hnumber⟩ := beginsWith_number hs hrest
    exact ⟨s', hblanks, .number hnumber⟩
  | literal h =>
    obtain ⟨s', hblanks, hliteral⟩ := beginsWith_literal h hs hloose
    exact ⟨s', hblanks, .literal hliteral⟩

theorem beginsWith_unknown (h : Spelled ([.unknown name] : List (Token R)) s rest)
    (hrest : Stops Char.isAlpha rest) : BeginsWith Name s name rest := by
  obtain ⟨text, s', hblanks, hspells, hothers⟩ := spelled_cons_iff.mp h
  obtain rfl := spelled_nil_iff.mp hothers
  cases hspells with
  | unknown hletters hne => exact ⟨text ++ s', hblanks, ⟨⟨rfl, hletters, hrest⟩, hne⟩⟩

theorem beginsWith_body (h : IsBody ts name a) (hs : Spelled ts s rest)
    (hrest : Stops Char.isAlpha rest) (hloose : occurs '(' isLooseMinus s = false) :
    ∃ s', Run isBlank s s' ∧ Body s' name a rest := by
  cases h with
  | bare =>
    obtain ⟨s', hblanks, hname⟩ := beginsWith_unknown hs hrest
    exact ⟨s', hblanks, .bare hname⟩
  | sized hsize =>
    obtain ⟨s₁, hs, hunknown⟩ := spelled_append_iff.mp hs
    obtain ⟨s', hblanks, hsize⟩ :=
      beginsWith_magnitude hsize hs (stops_isNumeric_of_unknown hunknown) hloose
    obtain ⟨s₂, hblanks₁, hname⟩ := beginsWith_unknown hunknown hrest
    exact ⟨s', hblanks, .sized hsize hblanks₁ hname⟩

theorem beginsWith_term (h : IsTerm first ts t) (hs : Spelled ts s rest)
    (hrest : Stops Char.isAlpha rest) (hloose : occurs '(' isLooseMinus s = false) :
    BeginsWith (Term first) s t rest := by
  cases h with
  | signed negative hbody =>
    obtain ⟨s₁, ⟨s₀, hblanks, hsign⟩, hs⟩ := beginsWith_sign hs
    have hloose : occurs '(' isLooseMinus s₁ = false := by
      rw [occurs_of_run hblanks (by decide)] at hloose
      cases hsign <;> exact hloose
    obtain ⟨s₂, hblanks₁, hbody⟩ := beginsWith_body hbody hs hrest hloose
    exact ⟨s₀, hblanks, .signed hsign hblanks₁ hbody⟩
  | bare hbody =>
    obtain ⟨s', hblanks, hbody⟩ := beginsWith_body hbody hs hrest hloose
    exact ⟨s', hblanks, .bare hbody⟩

/-- A later term begins with a sign, which ends the name before it. -/
theorem IsTerms.stops (h : IsTerms false ts terms) (hs : Spelled ts s rest) :
    Stops Char.isAlpha s := by
  have hterm : ∀ {ts : List (Token R)} {t s'}, IsTerm false ts t → Spelled ts s s' →
      Stops Char.isAlpha s := by
    intro ts t s' h hs
    cases h with
    | signed => exact stops_of_sign hs isAlpha_eq_false_of_isBlank (by decide) (by decide)
  cases h with
  | last h => exact hterm h hs
  | more h =>
    obtain ⟨s₁, hs, -⟩ := spelled_append_iff.mp hs
    exact hterm h hs

theorem beginsWith_terms (h : IsTerms first ts terms) {s' : List Char} (hs : Spelled ts s s')
    (hrest : Run isBlank s' ('=' :: rest)) (hloose : occurs '(' isLooseMinus s = false) :
    BeginsWith (Terms first) s terms rest := by
  have hstops : Stops Char.isAlpha s' := by
    obtain ⟨run, rfl, hrun⟩ := hrest
    exact stops_append (fun y hy => isAlpha_eq_false_of_isBlank (hrun y hy))
      (stops_cons (by decide) _)
  induction h generalizing s with
  | last hterm =>
    obtain ⟨s₀, hblanks, hterm⟩ := beginsWith_term hterm hs hstops hloose
    exact ⟨s₀, hblanks, .more hterm hrest (.done rest)⟩
  | more hterm hothers ih =>
    obtain ⟨s₁, hfirst, hlater⟩ := spelled_append_iff.mp hs
    obtain ⟨s₀, hblanks, hterm⟩ := beginsWith_term hterm hfirst (hothers.stops hlater) hloose
    obtain ⟨pre, rfl⟩ := hfirst.exists_append
    obtain ⟨s₂, hblanks₁, hterms⟩ := ih hlater (occurs_eq_false_of_append hloose)
    exact ⟨s₀, hblanks, .more hterm hblanks₁ hterms⟩

theorem beginsWith_rightHandSide (h : IsRightHandSide ts a) (hs : Spelled ts s rest)
    (hrest : Stops Numeral.isNumeric rest) (hloose : occurs '(' isLooseMinus s = false) :
    BeginsWith RightHandSide s a rest := by
  cases h with
  | plain hsize =>
    obtain ⟨s', hblanks, hsize⟩ := beginsWith_magnitude hsize hs hrest hloose
    exact ⟨s', hblanks, .plain hsize⟩
  | negated hsize =>
    obtain ⟨s₁, hblanks, hs⟩ := spelled_char_iff.mp hs
    rw [occurs_of_run hblanks (by decide)] at hloose
    obtain ⟨s₂, hblanks₁, hsize⟩ := beginsWith_magnitude hsize hs hrest hloose
    exact ⟨'-' :: s₁, hblanks, .negated hblanks₁ hsize⟩

/-- **Texts of tokens are equations**, unless a literal begins with a minus sign and a blank. -/
theorem IsSpelling.isEquation (h : IsSpelling s terms a)
    (hloose : occurs '(' isLooseMinus s = false) : IsEquation s terms a := by
  obtain ⟨ts, ts', hterms, hright, rest, hs, hblanks₂⟩ := h
  obtain ⟨s₁, hs, hequals⟩ := spelled_append_iff.mp hs
  obtain ⟨s₂, hblank, hs'⟩ := spelled_char_iff.mp hequals
  obtain ⟨s₀, hblanks, hterms⟩ := beginsWith_terms hterms hs hblank hloose
  obtain ⟨pre, rfl⟩ := hs.exists_append
  have hloose := occurs_eq_false_of_append hloose
  rw [occurs_of_run hblank (by decide)] at hloose
  obtain ⟨run, rfl, hrun⟩ := hblanks₂
  have hstops := stops_isNumeric_of_blanks hrun (stops_nil _)
  obtain ⟨s₃, hblanks₁, hright⟩ := beginsWith_rightHandSide hright hs' hstops hloose
  exact .intro hblanks hterms hblanks₁ hright ⟨run, rfl, hrun⟩

end FromTokens

/-! ### From characters to tokens -/

section ToTokens
variable {c : Char} {negative : Bool} {x : R} {s' : List Char}

theorem spelled_char (c : Char) (rest : List Char) :
    Spelled ([.char c] : List (Token R)) (c :: rest) rest :=
  spelled_char_iff.mpr ⟨rest, Run.nil _ _, .done rest⟩

theorem spelled_of_sign (h : Sign s negative rest) :
    Spelled ([sign negative] : List (Token R)) s rest := by
  cases h <;> exact spelled_char _ rest

theorem exists_of_minus (h : Minus s negative rest) :
    ∃ ts : List (Token R), IsMinus ts negative ∧ Spelled ts s rest := by
  cases h with
  | absent => exact ⟨[], .absent, .done _⟩
  | present => exact ⟨[.char '-'], .present, spelled_char '-' rest⟩

theorem spelled_of_number (h : Number s x rest) : Spelled [.number x] s rest := by
  obtain ⟨⟨rfl, hnumeric, -⟩, hdigit, hpoint, hnearest⟩ := h
  exact .token (Run.nil _ _) (.number ⟨hnumeric, hdigit, hpoint, hnearest⟩) (.done rest)

theorem exists_of_factor (h : Factor s x rest) :
    ∃ ts, IsFactor ts x ∧ Spelled ts s rest := by
  cases h with
  | absent => exact ⟨[], .absent, .done _⟩
  | present hnumber => exact ⟨[.number x], .present x, spelled_of_number hnumber⟩

omit [Scalar R] in
theorem IsUnit.ne_nil (h : IsUnit ts) : ts ≠ [] := by
  cases h <;> exact List.cons_ne_nil _ _

/-- Where no star comes next, none comes before the imaginary unit. -/
theorem run_of_isStar (h : Run isTimes s ('i' :: rest)) (hstar : isStar s = false) :
    Run isBlank s ('i' :: rest) := by
  obtain ⟨run, rfl, hrun⟩ := h
  induction run with
  | nil => exact Run.nil _ _
  | cons y run ih =>
    obtain ⟨hy, hrun⟩ := List.forall_mem_cons.mp hrun
    rcases Bool.or_eq_true_iff.mp hy with hy | hy
    · refine Run.cons hy (ih hrun ?_)
      rwa [isStar, List.cons_append, List.dropWhile_cons_of_pos hy] at hstar
    · obtain rfl : y = '*' := of_decide_eq_true hy
      cases hstar

/-- Blanks and stars before the imaginary unit are at most one token, unless stars repeat. -/
theorem exists_of_times (h : Run isTimes s ('i' :: rest)) (hstar : occurs '*' isStar s = false) :
    ∃ ts : List (Token R), IsUnit ts ∧ Spelled ts s rest := by
  obtain ⟨run, rfl, hrun⟩ := h
  induction run with
  | nil => exact ⟨[.char 'i'], .bare, spelled_char 'i' rest⟩
  | cons y run ih =>
    obtain ⟨hy, hrun⟩ := List.forall_mem_cons.mp hrun
    have htimes : Run isTimes (run ++ 'i' :: rest) ('i' :: rest) := ⟨run, rfl, hrun⟩
    rw [List.cons_append, occurs, Bool.or_eq_false_iff] at hstar
    obtain ⟨hhere, hlater⟩ := hstar
    rcases Bool.or_eq_true_iff.mp hy with hy | hy
    · obtain ⟨ts, hunit, hs⟩ := ih hrun hlater
      have hblank : Run isBlank (y :: (run ++ 'i' :: rest)) (run ++ 'i' :: rest) :=
        (Run.nil _ _).cons hy
      exact ⟨ts, hunit, hs.blanks hblank hunit.ne_nil⟩
    · obtain rfl : y = '*' := of_decide_eq_true hy
      rw [decide_eq_true rfl, Bool.true_and] at hhere
      have hunit : Spelled ([.char 'i'] : List (Token R)) (run ++ 'i' :: rest) rest :=
        spelled_char_iff.mpr ⟨rest, run_of_isStar htimes hhere, .done rest⟩
      exact ⟨_, .times, (spelled_char '*' _).append hunit⟩

/-- What does not occur in a text does not occur after a run of it. -/
theorem occurs_eq_false_of_run {y : Char} {p : List Char → Bool} {q : Char → Bool}
    (h : Run q s rest) (hs : occurs y p s = false) : occurs y p rest = false := by
  obtain ⟨run, rfl, -⟩ := h
  exact occurs_eq_false_of_append hs

theorem exists_of_literal (h : Literal s a rest) (hstar : occurs '*' isStar s = false) :
    ∃ ts, IsLiteral ts a ∧ Spelled ts s rest := by
  obtain ⟨hblanks, hminus, hreal, hblanks₁, hsign, hblanks₂, hfactor, htimes, hblanks₃⟩ := h
  have hbefore := (((((run_blanks hblanks).trans hminus.noEquals).trans hreal.noEquals).trans
    (run_blanks hblanks₁)).trans hsign.noEquals).trans ((run_blanks hblanks₂).trans
      hfactor.noEquals)
  rw [occurs_cons_of_ne (by decide)] at hstar
  obtain ⟨u, hunit, hu⟩ := exists_of_times (R := R) htimes (occurs_eq_false_of_run hbefore hstar)
  obtain ⟨m, hm, hms⟩ := exists_of_minus (R := R) hminus
  obtain ⟨f, hf, hfs⟩ := exists_of_factor hfactor
  -- from the closing parenthesis to the opening one
  have hclose := (spelled_char (R := R) ')' rest).blanks hblanks₃ (List.cons_ne_nil _ _)
  have hfactor := (hfs.append (hu.append hclose)).blanks hblanks₂ (by simp)
  have hsign := ((spelled_of_sign hsign).append hfactor).blanks hblanks₁ (by simp)
  have hreal := (spelled_of_number hreal).append hsign
  have hopen := (spelled_char '(' _).append ((hms.append hreal).blanks hblanks (by simp))
  exact ⟨_, .intro hm _ _ hf hunit, hopen⟩

theorem exists_of_magnitude (h : Magnitude s a rest) (hstar : occurs '*' isStar s = false) :
    ∃ ts, IsMagnitude ts a ∧ Spelled ts s rest := by
  cases h with
  | number hnumber => exact ⟨_, .number _, spelled_of_number hnumber⟩
  | literal hliteral =>
    obtain ⟨ts, h, hs⟩ := exists_of_literal hliteral hstar
    exact ⟨ts, .literal h, hs⟩

theorem IsMagnitude.ne_nil (h : IsMagnitude ts a) : ts ≠ [] := by
  cases h with
  | number => exact List.cons_ne_nil _ _
  | literal h =>
    cases h
    exact List.cons_ne_nil _ _

theorem IsRightHandSide.ne_nil (h : IsRightHandSide ts a) : ts ≠ [] := by
  cases h with
  | plain hsize => exact hsize.ne_nil
  | negated => exact List.cons_ne_nil _ _

theorem spelled_of_name (h : Name s name rest) :
    Spelled ([.unknown name] : List (Token R)) s rest := by
  obtain ⟨⟨rfl, hletters, -⟩, hne⟩ := h
  exact .token (Run.nil _ _) (.unknown hletters hne) (.done rest)

theorem exists_of_body (h : Body s name a rest) (hstar : occurs '*' isStar s = false) :
    ∃ ts, IsBody ts name a ∧ Spelled ts s rest := by
  cases h with
  | bare hname => exact ⟨_, .bare name, spelled_of_name hname⟩
  | sized hsize hblanks hname =>
    obtain ⟨ts, h, hs⟩ := exists_of_magnitude hsize hstar
    have hname := (spelled_of_name (R := R) hname).blanks hblanks (List.cons_ne_nil _ _)
    exact ⟨_, .sized h name, hs.append hname⟩

theorem IsBody.ne_nil (h : IsBody ts name a) : ts ≠ [] := by
  cases h <;> simp

theorem exists_of_term (h : Term first s t rest) (hstar : occurs '*' isStar s = false) :
    ∃ ts, IsTerm first ts t ∧ Spelled ts s rest := by
  cases h with
  | signed hsign hblanks hbody =>
    have hbefore := hsign.noEquals.trans (run_blanks hblanks)
    obtain ⟨ts, h, hs⟩ := exists_of_body hbody (occurs_eq_false_of_run hbefore hstar)
    have hbody := hs.blanks hblanks h.ne_nil
    exact ⟨_, .signed _ h, (spelled_of_sign hsign).append hbody⟩
  | bare hbody =>
    obtain ⟨ts, h, hs⟩ := exists_of_body hbody hstar
    exact ⟨ts, .bare h, hs⟩

/-- Terms up to an equals sign.  If there are none, the equals sign comes at once. -/
theorem exists_of_terms (h : Terms first s terms rest) (hstar : occurs '*' isStar s = false) :
    terms = [] ∧ s = '=' :: rest ∨
      ∃ ts, IsTerms first ts terms ∧ Spelled (ts ++ [.char '=']) s rest := by
  induction h with
  | done => exact .inl ⟨rfl, rfl⟩
  | more hterm hblanks hothers ih =>
    have hbefore := hterm.noEquals.trans (run_blanks hblanks)
    obtain ⟨ts, h, hs⟩ := exists_of_term hterm hstar
    rcases ih (occurs_eq_false_of_run hbefore hstar) with ⟨rfl, rfl⟩ | ⟨ts', h', hs'⟩
    · have hequals := (spelled_char (R := R) '=' _).blanks hblanks (List.cons_ne_nil _ _)
      exact .inr ⟨ts, .last h, hs.append hequals⟩
    · have hlater := hs'.blanks hblanks (by simp)
      refine .inr ⟨ts ++ ts', .more h h', ?_⟩
      rw [List.append_assoc]
      exact hs.append hlater

theorem exists_of_rightHandSide (h : RightHandSide s a rest) (hstar : occurs '*' isStar s = false) :
    ∃ ts, IsRightHandSide ts a ∧ Spelled ts s rest := by
  cases h with
  | plain hsize =>
    obtain ⟨ts, h, hs⟩ := exists_of_magnitude hsize hstar
    exact ⟨ts, .plain h, hs⟩
  | negated hblanks hsize =>
    rw [occurs_cons_of_ne (by decide), occurs_of_run hblanks (by decide)] at hstar
    obtain ⟨ts, h, hs⟩ := exists_of_magnitude hsize hstar
    have hsize := hs.blanks hblanks h.ne_nil
    exact ⟨_, .negated h, (spelled_char '-' _).append hsize⟩

theorem exists_append_of_terms (h : Terms first s terms rest) : ∃ pre, s = pre ++ rest := by
  induction h with
  | done rest => exact ⟨['='], rfl⟩
  | more hterm hblanks _ ih =>
    obtain ⟨run, rfl, -⟩ := hterm.noEquals.trans (run_blanks hblanks)
    obtain ⟨pre, rfl⟩ := ih
    exact ⟨run ++ pre, (List.append_assoc ..).symm⟩

/-- **Equations are texts of tokens**, unless stars repeat. -/
theorem isSpelling_of_isEquation (h : IsEquation s terms a) (hstar : occurs '*' isStar s = false) :
    IsSpelling s terms a := by
  obtain ⟨hblanks, hterms, hblanks₁, hright, hblanks₂⟩ := h
  rw [occurs_of_run hblanks (by decide)] at hstar
  obtain ⟨pre, rfl⟩ := exists_append_of_terms hterms
  have hafter := occurs_eq_false_of_append hstar
  rw [occurs_of_run hblanks₁ (by decide)] at hafter
  obtain ⟨ts', hright, hs'⟩ := exists_of_rightHandSide hright hafter
  obtain ⟨rfl, hnone⟩ | ⟨ts, hterms, hs⟩ := exists_of_terms hterms hstar
  · cases hterms
  · refine ⟨ts, ts', hterms, hright, _, ?_, hblanks₂⟩
    have := (hs.append (hs'.blanks hblanks₁ hright.ne_nil)).blanks hblanks (by simp)
    rwa [List.append_assoc] at this

end ToTokens
/-! ### What occurs in texts -/

section Occurring
variable {x : R} {negative : Bool} {u : List (Token R)}

theorem occurs_of_number (h : Number s x rest) :
    occurs '(' isLooseMinus s = occurs '(' isLooseMinus rest := by
  obtain ⟨hrun, -⟩ := h
  exact occurs_of_run hrun.run (by decide)

theorem occurs_of_name (h : Name s name rest) :
    occurs '(' isLooseMinus s = occurs '(' isLooseMinus rest := by
  obtain ⟨hrun, -⟩ := h
  exact occurs_of_run hrun.run (by decide)

theorem occurs_of_sign (h : Sign s negative rest) :
    occurs '(' isLooseMinus s = occurs '(' isLooseMinus rest := by
  cases h <;> exact occurs_cons_of_ne (by decide)

theorem occurs_of_minus (h : Minus s negative rest) :
    occurs '(' isLooseMinus s = occurs '(' isLooseMinus rest := by
  cases h with
  | absent => rfl
  | present => exact occurs_cons_of_ne (by decide)

theorem occurs_of_factor (h : Factor s x rest) :
    occurs '(' isLooseMinus s = occurs '(' isLooseMinus rest := by
  cases h with
  | absent => rfl
  | present h => exact occurs_of_number h

theorem isLooseMinus_of_minus {s₁ s₂ : List Char} (hblanks : Run isBlank s s₁)
    (hminus : Minus s₁ negative s₂) (hreal : Number s₂ x rest) : isLooseMinus s = false := by
  cases hminus with
  | absent => exact isLooseMinus_eq_false hblanks hreal.stops (hreal.head_ne (by decide))
  | present =>
    rw [isLooseMinus_minus hblanks, Option.any_eq_false]
    exact hreal.stops

theorem occurs_of_literal (h : Literal s a rest) :
    occurs '(' isLooseMinus s = occurs '(' isLooseMinus rest := by
  obtain ⟨hblanks, hminus, hreal, hblanks₁, hsign, hblanks₂, hfactor, htimes, hblanks₃⟩ := h
  rw [occurs_cons_of_eq_false (isLooseMinus_of_minus hblanks hminus hreal),
    occurs_of_run hblanks (by decide), occurs_of_minus hminus, occurs_of_number hreal,
    occurs_of_run hblanks₁ (by decide), occurs_of_sign hsign, occurs_of_run hblanks₂ (by decide),
    occurs_of_factor hfactor, occurs_of_run htimes (by decide), occurs_cons_of_ne (by decide),
    occurs_of_run hblanks₃ (by decide), occurs_cons_of_ne (by decide)]

theorem occurs_of_magnitude (h : Magnitude s a rest) :
    occurs '(' isLooseMinus s = occurs '(' isLooseMinus rest := by
  cases h with
  | number h => exact occurs_of_number h
  | literal h => exact occurs_of_literal h

theorem occurs_of_body (h : Body s name a rest) :
    occurs '(' isLooseMinus s = occurs '(' isLooseMinus rest := by
  cases h with
  | bare hname => exact occurs_of_name hname
  | sized hsize hblanks hname =>
    rw [occurs_of_magnitude hsize, occurs_of_run hblanks (by decide), occurs_of_name hname]

theorem occurs_of_term (h : Term first s t rest) :
    occurs '(' isLooseMinus s = occurs '(' isLooseMinus rest := by
  cases h with
  | signed hsign hblanks hbody =>
    rw [occurs_of_sign hsign, occurs_of_run hblanks (by decide), occurs_of_body hbody]
  | bare hbody => exact occurs_of_body hbody

theorem occurs_of_terms (h : Terms first s terms rest) :
    occurs '(' isLooseMinus s = occurs '(' isLooseMinus rest := by
  induction h with
  | done => exact occurs_cons_of_ne (by decide)
  | more hterm hblanks _ ih =>
    rw [occurs_of_term hterm, occurs_of_run hblanks (by decide), ih]

theorem occurs_of_rightHandSide (h : RightHandSide s a rest) :
    occurs '(' isLooseMinus s = occurs '(' isLooseMinus rest := by
  cases h with
  | plain hsize => exact occurs_of_magnitude hsize
  | negated hblanks hsize =>
    rw [occurs_cons_of_ne (by decide), occurs_of_run hblanks (by decide),
      occurs_of_magnitude hsize]

/-- **No literal of an equation begins with a minus sign and a blank.** -/
theorem not_looseMinus_of_isEquation (h : IsEquation s terms a) :
    occurs '(' isLooseMinus s = false := by
  obtain ⟨hblanks, hterms, hblanks₁, hright, hblanks₂⟩ := h
  rw [occurs_of_run hblanks (by decide), occurs_of_terms hterms,
    occurs_of_run hblanks₁ (by decide), occurs_of_rightHandSide hright,
    occurs_of_run hblanks₂ (by decide)]
  rfl

/-- Tokens other than stars. -/
theorem occurs_of_spelled (h : Spelled ts s rest) (hts : .char '*' ∉ ts) :
    occurs '*' isStar s = occurs '*' isStar rest := by
  induction h with
  | done => rfl
  | @token t ts text s s' rest hblanks hspells _ ih =>
    obtain ⟨ht, hts⟩ := not_or.mp (mt List.mem_cons.mpr hts)
    rw [occurs_of_run hblanks (by decide), ← ih hts]
    refine occurs_append_of_forall_ne ?_
    rintro _ hy rfl
    cases hspells with
    | number h => cases h.isNumeric _ hy
    | unknown hletters => cases hletters _ hy
    | char c =>
      obtain rfl := List.mem_singleton.mp hy
      exact ht rfl

theorem occurs_of_isUnit (hunit : IsUnit u) (h : Spelled u s rest) :
    occurs '*' isStar s = occurs '*' isStar rest := by
  cases hunit with
  | bare => exact occurs_of_spelled h (by simp)
  | times =>
    obtain ⟨s', hblanks, h⟩ := spelled_char_iff.mp h
    obtain ⟨s₁, hblanks₁, -⟩ := spelled_char_iff.mp h
    have hstar : isStar s' = false :=
      (isStar_of_run hblanks₁ (stops_cons (by decide) _)).trans (by simp)
    rw [occurs_of_run hblanks (by decide), occurs_cons_of_eq_false hstar]
    exact occurs_of_spelled h (by simp)

/-- The only star of a literal stands before the imaginary unit. -/
theorem occurs_of_isLiteral (h : IsLiteral ts a) (hs : Spelled ts s rest) :
    occurs '*' isStar s = occurs '*' isStar rest := by
  obtain @⟨m, f, u, negativeRe, im, hminus, re, negativeIm, hfactor, hunit⟩ := h
  have hsplit : .char '(' :: (m ++ .number re :: sign negativeIm :: (f ++ (u ++ [.char ')']))) =
      (.char '(' :: (m ++ .number re :: sign negativeIm :: f)) ++ (u ++ [.char ')']) := by simp
  have hbefore : .char '*' ∉ .char '(' :: (m ++ .number re :: sign negativeIm :: f) := by
    cases hminus <;> cases hfactor <;> cases negativeIm <;> simp [sign]
  rw [hsplit] at hs
  obtain ⟨s₁, hs, hafter⟩ := spelled_append_iff.mp hs
  obtain ⟨s₂, hu, hclose⟩ := spelled_append_iff.mp hafter
  rw [occurs_of_spelled hs hbefore, occurs_of_isUnit hunit hu, occurs_of_spelled hclose (by simp)]

theorem occurs_of_isMagnitude (h : IsMagnitude ts a) (hs : Spelled ts s rest) :
    occurs '*' isStar s = occurs '*' isStar rest := by
  cases h with
  | number => exact occurs_of_spelled hs (by simp)
  | literal h => exact occurs_of_isLiteral h hs

theorem occurs_of_isBody (h : IsBody ts name a) (hs : Spelled ts s rest) :
    occurs '*' isStar s = occurs '*' isStar rest := by
  cases h with
  | bare => exact occurs_of_spelled hs (by simp)
  | sized hsize =>
    obtain ⟨s₁, hs, hname⟩ := spelled_append_iff.mp hs
    rw [occurs_of_isMagnitude hsize hs, occurs_of_spelled hname (by simp)]

theorem occurs_of_isTerm (h : IsTerm first ts t) (hs : Spelled ts s rest) :
    occurs '*' isStar s = occurs '*' isStar rest := by
  cases h with
  | @signed _ ts _ _ negative hbody =>
    have hs : Spelled ([sign negative] ++ ts) s rest := hs
    obtain ⟨s₁, hsign, hs⟩ := spelled_append_iff.mp hs
    rw [occurs_of_spelled hsign (by cases negative <;> simp [sign]), occurs_of_isBody hbody hs]
  | bare hbody => exact occurs_of_isBody hbody hs

theorem occurs_of_isTerms (h : IsTerms first ts terms) (hs : Spelled ts s rest) :
    occurs '*' isStar s = occurs '*' isStar rest := by
  induction h generalizing s with
  | last hterm => exact occurs_of_isTerm hterm hs
  | more hterm _ ih =>
    obtain ⟨s₁, hfirst, hlater⟩ := spelled_append_iff.mp hs
    rw [occurs_of_isTerm hterm hfirst, ih hlater]

theorem occurs_of_isRightHandSide (h : IsRightHandSide ts a) (hs : Spelled ts s rest) :
    occurs '*' isStar s = occurs '*' isStar rest := by
  cases h with
  | plain hsize => exact occurs_of_isMagnitude hsize hs
  | negated hsize =>
    obtain ⟨s₁, hblanks, hs⟩ := spelled_char_iff.mp hs
    rw [occurs_of_run hblanks (by decide), occurs_cons_of_ne (by decide),
      occurs_of_isMagnitude hsize hs]

/-- **Texts of tokens do not repeat stars.** -/
theorem not_repeatsStar_of_isSpelling (h : IsSpelling s terms a) :
    occurs '*' isStar s = false := by
  obtain ⟨ts, ts', hterms, hright, rest, hs, hblanks⟩ := h
  obtain ⟨s₁, hs, hafter⟩ := spelled_append_iff.mp hs
  obtain ⟨s₂, hblank, hs'⟩ := spelled_char_iff.mp hafter
  rw [occurs_of_isTerms hterms hs, occurs_of_run hblank (by decide), occurs_cons_of_ne (by decide),
    occurs_of_isRightHandSide hright hs', occurs_of_run hblanks (by decide)]
  rfl

end Occurring

end TokenGrammar

open TokenGrammar

/-! ### What is read and what is written -/

namespace Equation
variable {R : Type} [Scalar R] {text : String} {e : Equation R}

theorem isWritten_of_parse (h : Equation.parse text = .ok e) (hstar : ¬repeatsStar text) :
    IsWritten text e := by
  obtain ⟨ts, rhs, hequation, rfl⟩ := exists_isEquation_of_parse h
  exact ⟨ts, rhs, isSpelling_of_isEquation hequation (Bool.eq_false_iff.mpr hstar), rfl⟩

theorem parse_of_isWritten (h : IsWritten text e) (hloose : ¬hasLooseMinus text) :
    Equation.parse text = .ok e := by
  obtain ⟨ts, rhs, h, rfl⟩ := h
  exact parse_of_isEquation (h.isEquation (Bool.eq_false_iff.mpr hloose))

theorem not_hasLooseMinus_of_parse (h : Equation.parse text = .ok e) : ¬hasLooseMinus text := by
  obtain ⟨ts, rhs, h, -⟩ := exists_isEquation_of_parse h
  exact Bool.eq_false_iff.mp (not_looseMinus_of_isEquation h)

theorem not_repeatsStar_of_isWritten (h : IsWritten text e) : ¬repeatsStar text := by
  obtain ⟨ts, rhs, h, -⟩ := h
  exact Bool.eq_false_iff.mp (not_repeatsStar_of_isSpelling h)

/-- **What is read is what the grammar says**, with two exceptions.  A text that is read without
being in the grammar repeats a star, and no text of the grammar does.  A text of the grammar that is
not read has a literal that begins with a minus sign and a blank, and no text that is read does. -/
theorem parse_and_iff_isWritten_and (text : String) (e : Equation R) :
    (Equation.parse text = .ok e ∧ ¬repeatsStar text ↔ IsWritten text e ∧ ¬hasLooseMinus text) ∧
      ¬(Equation.parse text = .ok e ∧ hasLooseMinus text) ∧
      ¬(IsWritten text e ∧ repeatsStar text) := by
  refine ⟨⟨fun ⟨hparse, hstar⟩ => ?_, fun ⟨hwritten, hloose⟩ => ?_⟩, fun ⟨hparse, hloose⟩ => ?_,
    fun ⟨hwritten, hstar⟩ => ?_⟩
  · exact ⟨isWritten_of_parse hparse hstar, not_hasLooseMinus_of_parse hparse⟩
  · exact ⟨parse_of_isWritten hwritten hloose, not_repeatsStar_of_isWritten hwritten⟩
  · exact not_hasLooseMinus_of_parse hparse hloose
  · exact not_repeatsStar_of_isWritten hwritten hstar

/-- A literal with a blank after its minus sign is in the grammar. -/
theorem exists_isWritten_of_looseMinus : ∃ e : Equation Float, IsWritten "(- 1 + 2i)x = 3" e := by
  have hdigit : ∀ d : Char, d.isDigit →
      (Scalar.ofDecimal? (Nat.ofDigitChars 10 [d] 0) 0 : Option Float).isSome →
        ∃ x : Float, IsNumberText [d] x := by
    intro d hdigit hread
    obtain ⟨x, hx⟩ := Option.isSome_iff_exists.mp hread
    exact ⟨x, isNumberText_of_digits (List.forall_mem_singleton.mpr hdigit) (by simp) hx⟩
  obtain ⟨one, hone⟩ := hdigit '1' (by decide) (by decide +kernel)
  obtain ⟨two, htwo⟩ := hdigit '2' (by decide) (by decide +kernel)
  obtain ⟨three, hthree⟩ := hdigit '3' (by decide) (by decide +kernel)
  let name := String.ofList (['x'].map Char.toLower)
  have hname : (Token.unknown name : Token Float).Spells ['x'] :=
    .unknown (List.forall_mem_singleton.mpr (by decide)) (by simp)
  have hliteral := IsLiteral.intro .present one false (.present two) .bare
  have hterms := IsTerms.last (.bare (.sized (.literal hliteral) name))
  refine ⟨_, _, _, ⟨_, _, hterms, .plain (.number three), [], ?_, Run.nil _ _⟩, rfl⟩
  have hnone : ∀ s, Run isBlank s s := Run.nil isBlank
  have hblank : ∀ s, Run isBlank (' ' :: s) s := fun s => (hnone s).cons (by decide)
  exact .token (hnone _) (.char '(') <| .token (hnone _) (.char '-') <|
    .token (hblank _) (.number hone) <| .token (hblank _) (.char '+') <|
    .token (hblank _) (.number htwo) <| .token (hnone _) (.char 'i') <|
    .token (hnone _) (.char ')') <| .token (hnone _) hname <| .token (hblank _) (.char '=') <|
    .token (hblank _) (.number hthree) <| .done []

/-- The grammar and the reader differ on these two texts. -/
theorem not_parse_iff_isWritten :
    ((∃ e : Equation Float, IsWritten "(- 1 + 2i)x = 3" e) ∧
      ∀ e : Equation Float, Equation.parse "(- 1 + 2i)x = 3" ≠ .ok e) ∧
    (∃ e : Equation Float, Equation.parse "(1 + 2**i)x = 3" = .ok e) ∧
      ∀ e : Equation Float, ¬IsWritten "(1 + 2**i)x = 3" e := by
  refine ⟨⟨exists_isWritten_of_looseMinus, fun e he => ?_⟩, ?_, fun e he => ?_⟩
  · exact not_hasLooseMinus_of_parse he (by decide)
  · have hread : (Equation.parse "(1 + 2**i)x = 3" : Except ParseError (Equation Float)).toOption
        |>.isSome := by decide +kernel
    cases hparse : (Equation.parse "(1 + 2**i)x = 3" : Except ParseError (Equation Float)) with
    | ok e => exact ⟨e, rfl⟩
    | error => rw [hparse] at hread; cases hread
  · exact not_repeatsStar_of_isWritten he (by decide)

end Equation
end LinearEquations
