import LinearEquations.Proofs.InPlaceReading
import LinearEquations.Proofs.Reading

/-! # Where errors point

An error in the text of an equation names the place where reading stopped.  The main statement is
that it points at what it speaks of (`ParseError.WellPlaced`): a character that cannot stand at its
place stands there, a run of digits and points that is no number is the longest one around its
place, an equals sign that comes too early is one, and if the equals sign is said to be missing,
there is none in the text.

Each reader of `Cursor` has a lemma that its errors are well placed if it starts at a place of the
text.  For numbers there is one thing more to be known, that no digit or point stands right before
(`Cursor.IsFresh`), and for the list of terms, that no equals sign was passed over. -/

namespace LinearEquations
open Grammar

/-! ### Well placed errors -/

/-- The character `x` stands at an offset in bytes. -/
def StandsAt (s : String) (x : Char) (i : Nat) : Prop :=
  ∃ before after, s.toList = before ++ x :: after ∧ i = byteLength before

/-- Between two offsets in bytes stands `text`, which consists of characters of one kind, and none
of them stands right before or after it. -/
def IsLongestRunAt (p : Char → Bool) (s text : String) (start stop : Nat) : Prop :=
  ∃ before after, s.toList = before ++ (text.toList ++ after) ∧ start = byteLength before ∧
    stop = start + byteLength text.toList ∧ (∀ x ∈ text.toList, p x) ∧
    (∀ x, before.getLast? = some x → p x = false) ∧ Stops p after

namespace ParseError

/-- The offsets that an error names. -/
def offsets : ParseError → List Nat
  | invalidCharacter _ i | malformedLiteral _ i | expectedUnknown i => [i]
  | invalidNumber _ start stop => [start, stop]
  | unexpectedEnd | missingEquals => []

/-- The error points at what it speaks of. -/
def WellPlaced (s : String) : ParseError → Prop
  | invalidCharacter x i => StandsAt s x i
  | unexpectedEnd => True
  | invalidNumber text start stop =>
    start < stop ∧ slice? s start stop = some text ∧
      IsLongestRunAt Numeral.isNumeric s text start stop
  | malformedLiteral _ i => IsBoundary s i
  | expectedUnknown i => StandsAt s '=' i
  | missingEquals => '=' ∉ s.toList

end ParseError

variable {s : String}

theorem StandsAt.isBoundary {x : Char} {i : Nat} (h : StandsAt s x i) : IsBoundary s i := by
  obtain ⟨before, after, htext, rfl⟩ := h
  exact isBoundary_byteLength htext

theorem IsLongestRunAt.isBoundary {p : Char → Bool} {text : String} {start stop : Nat}
    (h : IsLongestRunAt p s text start stop) : IsBoundary s start ∧ IsBoundary s stop := by
  obtain ⟨before, after, htext, rfl, rfl, -⟩ := h
  refine ⟨isBoundary_byteLength htext, ?_⟩
  rw [← byteLength_append]
  exact isBoundary_byteLength (htext.trans (List.append_assoc ..).symm)

/-- **The offsets of well placed errors lie within the text and between its characters.** -/
theorem ParseError.WellPlaced.isBoundary {e : ParseError} (h : e.WellPlaced s) :
    ∀ i ∈ e.offsets, IsBoundary s i := by
  cases e with
  | invalidCharacter x i => exact List.forall_mem_singleton.mpr (StandsAt.isBoundary h)
  | invalidNumber text start stop =>
    obtain ⟨hstart, hstop⟩ := h.2.2.isBoundary
    exact List.forall_mem_cons.mpr ⟨hstart, List.forall_mem_singleton.mpr hstop⟩
  | malformedLiteral missing i => exact List.forall_mem_singleton.mpr h
  | expectedUnknown i => exact List.forall_mem_singleton.mpr (StandsAt.isBoundary h)
  | unexpectedEnd => exact List.forall_mem_nil _
  | missingEquals => exact List.forall_mem_nil _

/-! ### Terms hold no equals sign -/

namespace Grammar
variable {p : Char → Bool} {rest : List Char} {text : List Char} {x : Char}

theorem Run.cons (hx : p x) (h : Run p text rest) : Run p (x :: text) rest := by
  obtain ⟨run, rfl, hrun⟩ := h
  exact ⟨x :: run, rfl, List.forall_mem_cons.mpr ⟨hx, hrun⟩⟩

theorem Run.nil (p : Char → Bool) (text : List Char) : Run p text text :=
  ⟨[], rfl, List.forall_mem_nil _⟩

theorem LongestRun.run {run : List Char} (h : LongestRun p run text rest) : Run p text rest :=
  ⟨run, h.1, h.2.1⟩

/-- A character that is no equals sign. -/
def isNoEquals (x : Char) : Bool := x ≠ '='

theorem not_mem_of_run {run : List Char} (h : ∀ x ∈ run, isNoEquals x) : '=' ∉ run :=
  fun hmem => Bool.noConfusion (h '=' hmem)

theorem isNoEquals_of (hp : p '=' = false) (h : p x) : isNoEquals x := by
  refine decide_eq_true ?_
  rintro rfl
  rw [hp] at h
  cases h

/-- A run of characters of a kind to which the equals sign does not belong. -/
theorem Run.noEquals (h : Run p text rest) (hp : p '=' = false) : Run isNoEquals text rest :=
  h.mono fun _ => isNoEquals_of hp

theorem run_blanks (h : Run isBlank text rest) : Run isNoEquals text rest :=
  h.noEquals (by decide)

variable {R : Type} [Scalar R] {a : Complex R} {name : String} {negative : Bool}

theorem Number.noEquals {r : R} (h : Number text r rest) : Run isNoEquals text rest := by
  obtain ⟨hrun, -, -, -⟩ := h
  exact hrun.run.noEquals (by decide)

theorem Name.noEquals (h : Name text name rest) : Run isNoEquals text rest := by
  obtain ⟨hrun, -⟩ := h
  exact hrun.run.noEquals (by decide)

theorem Sign.noEquals (h : Sign text negative rest) : Run isNoEquals text rest := by
  cases h <;> exact (Run.nil isNoEquals rest).cons (by decide)

theorem Minus.noEquals (h : Minus text negative rest) : Run isNoEquals text rest := by
  cases h with
  | absent => exact .nil isNoEquals rest
  | present => exact (Run.nil isNoEquals rest).cons (by decide)

theorem Factor.noEquals {r : R} (h : Factor text r rest) : Run isNoEquals text rest := by
  cases h with
  | absent => exact .nil isNoEquals rest
  | present hnumber => exact hnumber.noEquals

theorem Literal.noEquals (h : Literal text a rest) : Run isNoEquals text rest := by
  obtain ⟨hblanks, hminus, hreal, hblanks₁, hsign, hblanks₂, hfactor, htimes, hblanks₃⟩ := h
  have hclose := (run_blanks hblanks₃).trans ((Run.nil isNoEquals rest).cons (by decide))
  have himaginary := (run_blanks hblanks₂).trans
    (hfactor.noEquals.trans ((htimes.noEquals (by decide)).trans (hclose.cons (by decide))))
  have hreal := (run_blanks hblanks).trans (hminus.noEquals.trans hreal.noEquals)
  exact (hreal.trans ((run_blanks hblanks₁).trans (hsign.noEquals.trans himaginary))).cons
    (by decide)

theorem Magnitude.noEquals (h : Magnitude text a rest) : Run isNoEquals text rest := by
  cases h with
  | number hnumber => exact hnumber.noEquals
  | literal hliteral => exact hliteral.noEquals

theorem Body.noEquals (h : Body text name a rest) : Run isNoEquals text rest := by
  cases h with
  | bare hname => exact hname.noEquals
  | sized hsize hblanks hname =>
    exact hsize.noEquals.trans ((run_blanks hblanks).trans hname.noEquals)

/-- **A term holds no equals sign.** -/
theorem Term.noEquals {first : Bool} {t : String × Complex R} (h : Term first text t rest) :
    Run isNoEquals text rest := by
  cases h with
  | signed hsign hblanks hbody =>
    exact hsign.noEquals.trans ((run_blanks hblanks).trans hbody.noEquals)
  | bare hbody => exact hbody.noEquals

end Grammar

/-! ### Places where a number may start -/

namespace Cursor
variable {c c' : Cursor} {x : Char} {p : Char → Bool}

/-- No digit and no point stands right before the place. -/
def IsFresh (c : Cursor) (s : String) : Prop :=
  ∃ before, c.Follows s before ∧ ∀ x, before.getLast? = some x → Numeral.isNumeric x = false

theorem IsFresh.liesIn (h : c.IsFresh s) : c.LiesIn s := by
  obtain ⟨before, h, -⟩ := h
  exact ⟨before, h⟩

theorem isFresh_start (s : String) : (start s).IsFresh s := ⟨[], follows_start s, nofun⟩

theorem LiesIn.isFresh_next (h : c.LiesIn s) (hpeek : c.peek? = some x)
    (hx : Numeral.isNumeric x = false) : c.next.IsFresh s := by
  obtain ⟨before, h⟩ := h
  refine ⟨_, h.next hpeek, fun y hy => ?_⟩
  rw [List.getLast?_concat] at hy
  cases hy
  exact hx

theorem IsFresh.skip (h : c.IsFresh s) (hp : ∀ x, p x → Numeral.isNumeric x = false) :
    (c.skip p).IsFresh s := by
  obtain ⟨before, h, hlast⟩ := h
  refine ⟨_, h.skip p, fun x hx => ?_⟩
  rw [List.getLast?_append] at hx
  rcases Option.or_eq_some_iff.mp hx with hrun | ⟨-, hbefore⟩
  · exact hp x (List.all_eq_true.mp List.all_takeWhile x (List.mem_of_getLast? hrun))
  · exact hlast x hbefore

theorem isNumeric_eq_false_of_isBlank (h : isBlank x) : Numeral.isNumeric x = false := by
  rw [← Bool.not_eq_true]
  intro hx
  rw [isBlank_eq_false_of_isNumeric hx] at h
  cases h

theorem IsFresh.skipBlanks (h : c.IsFresh s) : c.skipBlanks.IsFresh s :=
  h.skip fun _ => isNumeric_eq_false_of_isBlank

theorem IsFresh.accept_minus (h : c.IsFresh s) : (c.accept '-').2.IsFresh s := by
  unfold Cursor.accept
  split
  · exact h.liesIn.isFresh_next ‹_› (by decide)
  · exact h

/-! ### Errors of single readers -/

/-- If there is an error, it is well placed. -/
def Places (s : String) {A : Type} (r : Except ParseError A) : Prop :=
  ∀ e, r = .error e → e.WellPlaced s

variable {A B : Type}

theorem places_ok (a : A) : Places s (.ok a) := nofun

theorem places_error {e : ParseError} (h : e.WellPlaced s) :
    Places s (.error e : Except ParseError A) := by
  rintro _ ⟨⟩
  exact h

theorem Places.bind {r : Except ParseError A} {f : A → Except ParseError B} (h : Places s r)
    (hf : ∀ a, r = .ok a → Places s (f a)) : Places s (r >>= f) := by
  cases r with
  | error e => exact places_error (h e rfl)
  | ok a => exact hf a rfl

theorem Places.map {r : Except ParseError A} (h : Places s r) (f : A → B) :
    Places s (r.map f) := by
  cases r with
  | error e => exact places_error (h e rfl)
  | ok a => exact places_ok _

theorem standsAt_of_peek? (h : c.LiesIn s) (hpeek : c.peek? = some x) :
    StandsAt s x c.offset := by
  obtain ⟨before, htext, hoffset⟩ := h
  exact ⟨before, c.next.rest, by rw [htext, rest_eq_cons hpeek], hoffset⟩

theorem LiesIn.isBoundary (h : c.LiesIn s) : IsBoundary s c.offset := by
  obtain ⟨before, h⟩ := h
  exact h.isBoundary

theorem wellPlaced_unexpected (h : c.LiesIn s) : c.unexpected.WellPlaced s := by
  unfold unexpected
  cases hpeek : c.peek? with
  | none => trivial
  | some x => exact standsAt_of_peek? h hpeek

variable {R : Type} [Scalar R]

theorem offset_skip (c : Cursor) (p : Char → Bool) :
    (c.skip p).offset = c.offset + byteLength (c.run p) := foldl_utf8Size ..

theorem offset_lt_skip (h : c.sees p) : c.offset < (c.skip p).offset := by
  have hrun := length_le_byteLength (c.run p)
  have := List.length_pos_iff.mpr ((c.run_ne_nil_iff p).mpr h)
  rw [offset_skip]
  omega

theorem places_number (h : c.IsFresh s) (hsees : c.seesNumber) :
    Places s (c.number : Except ParseError (R × Cursor)) := by
  unfold number
  simp only
  split
  · exact places_ok _
  · have hslice := h.liesIn.slice?_skip Numeral.isNumeric
    obtain ⟨before, hplace, hlast⟩ := h
    refine places_error ⟨offset_lt_skip hsees, hslice, before, (c.skip Numeral.isNumeric).rest, ?_,
      hplace.offset_eq, ?_, ?_, hlast, stops_dropWhile _ _⟩
    · rw [String.toList_ofList, ← List.append_assoc]
      exact (hplace.skip Numeral.isNumeric).toList_eq
    · rw [String.toList_ofList, offset_skip]
    · rw [String.toList_ofList]
      exact List.all_eq_true.mp List.all_takeWhile

theorem places_require {part : LiteralPart} (h : c.LiesIn s) : Places s (c.require part x) := by
  unfold require
  split
  · exact places_ok _
  · exact places_error h.isBoundary

theorem places_realPart (h : c.IsFresh s) :
    Places s (c.realPart : Except ParseError (R × Cursor)) := by
  unfold realPart
  split
  · exact places_number h ‹_›
  · exact places_error h.liesIn.isBoundary

theorem places_partSign (h : c.LiesIn s) : Places s c.partSign := by
  unfold partSign
  split
  · exact places_ok _
  · exact places_ok _
  · exact places_error h.next.isBoundary

/-- After the sign between the parts no digit or point was passed over. -/
theorem isFresh_of_partSign {negative : Bool} (h : c.LiesIn s)
    (hsign : c.partSign = .ok (negative, c')) : c'.IsFresh s := by
  unfold partSign at hsign
  split at hsign <;> cases hsign
  · exact h.isFresh_next ‹_› (by decide)
  · exact h.isFresh_next ‹_› (by decide)

theorem places_imaginaryPart (h : c.IsFresh s) :
    Places s (c.imaginaryPart : Except ParseError (R × Cursor)) := by
  unfold imaginaryPart
  split
  · exact places_number h ‹_›
  · exact places_ok _

theorem liesIn_of_require {part : LiteralPart} (h : c.LiesIn s)
    (hrequire : c.require part x = .ok c') : c'.LiesIn s := by
  obtain ⟨-, rfl⟩ := require_eq_ok_iff.mp hrequire
  exact h.next

theorem places_literal (h : c.LiesIn s) (hopen : c.peek? = some '(') :
    Places s (c.literal : Except ParseError (Complex R × Cursor)) := by
  have hfresh : c.next.IsFresh s := h.isFresh_next hopen (by decide)
  refine (places_realPart hfresh.skipBlanks.accept_minus).bind fun (re, c₁) h₁ => ?_
  have h₁ := (InPlace.agrees_realPart hfresh.skipBlanks.accept_minus.liesIn).liesIn _ _ h₁
  refine (places_partSign h₁.skipBlanks).bind fun (negative, c₂) h₂ => ?_
  have h₂ := isFresh_of_partSign h₁.skipBlanks h₂
  refine (places_imaginaryPart h₂.skipBlanks).bind fun (im, c₃) h₃ => ?_
  have h₃ := (InPlace.agrees_imaginaryPart h₂.skipBlanks.liesIn).liesIn _ _ h₃
  refine (places_require (h₃.skip isTimes)).bind fun c₄ h₄ => ?_
  have h₄ := liesIn_of_require (h₃.skip isTimes) h₄
  exact (places_require h₄.skipBlanks).bind fun c₅ _ => places_ok _

theorem places_magnitude {other : Except ParseError (Complex R × Cursor)} (h : c.IsFresh s)
    (hother : Places s other) : Places s (c.magnitude?.getD other) := by
  unfold magnitude?
  split
  · exact (places_number h ‹_›).map _
  · split
    · exact places_literal h.liesIn ‹_›
    · exact hother

/-! ### Errors of terms and equations -/

theorem places_name (h : c.LiesIn s) : Places s c.name := by
  unfold name
  split
  · exact places_ok _
  · split
    · exact places_error (standsAt_of_peek? h ‹_›)
    · exact places_error (wellPlaced_unexpected h)

theorem places_termSign {first : Bool} (h : c.LiesIn s) : Places s (c.termSign first) := by
  unfold termSign
  split
  · exact places_ok _
  · exact places_ok _
  · split
    · exact places_ok _
    · exact places_error (wellPlaced_unexpected h)
  · exact places_error (wellPlaced_unexpected h)

/-- No digit or point stands before what follows the sign of a term: where there is no sign, because
none stood before the term. -/
theorem isFresh_of_termSign {first negative : Bool} (h : c.LiesIn s) (hfirst : first → c.IsFresh s)
    (hsign : c.termSign first = .ok (negative, c')) : c'.IsFresh s := by
  unfold termSign at hsign
  split at hsign
  · cases hsign
    exact h.isFresh_next ‹_› (by decide)
  · cases hsign
    exact h.isFresh_next ‹_› (by decide)
  · split at hsign <;> cases hsign
    exact hfirst ‹_›
  · cases hsign

theorem places_term {first : Bool} (h : c.LiesIn s) (hfirst : first → c.IsFresh s) :
    Places s (c.term first : Except ParseError ((String × Complex R) × Cursor)) := by
  refine (places_termSign h).bind fun (negative, c₁) h₁ => ?_
  have h₁ := (isFresh_of_termSign h hfirst h₁).skipBlanks
  refine (places_magnitude h₁ (places_ok _)).bind fun (size, c₂) h₂ => ?_
  have hagrees := InPlace.agrees_magnitudeOr h₁.liesIn
    (InPlace.agrees_pure h₁.liesIn (1 : Complex R))
  have h₂ := hagrees.liesIn _ _ h₂
  exact (places_name h₂.skipBlanks).bind fun _ _ => places_ok _

variable {e : Equation R} {before : List Char}

theorem places_terms {first : Bool} (hplace : c.Follows s before) (hequals : '=' ∉ before)
    (hstops : Stops isBlank c.rest) (hfirst : first → c.IsFresh s) :
    Places s (c.terms first e) := by
  fun_induction terms first e c generalizing before with
  | case1 first e c hpeek =>
    refine places_error fun hmem => hequals ?_
    rwa [hplace.toList_eq, List.head?_eq_none_iff.mp hpeek, List.append_nil] at hmem
  | case2 e c hpeek => exact places_error (standsAt_of_peek? ⟨before, hplace⟩ hpeek)
  | case3 => exact places_ok _
  | case4 first e c x hpeek hx err herr =>
    exact places_error (places_term ⟨before, hplace⟩ hfirst err herr)
  | case5 first e c x hpeek hx name coefficient c' hterm ih =>
    have hc' := (InPlace.agrees_term first ⟨before, hplace⟩).liesIn _ _ hterm
    obtain ⟨run, hrest, hrun⟩ :=
      (term_of_reads (fun _ => hstops) (reads_of_eq_ok hterm)).noEquals.trans
        (run_blanks (run_skipBlanks c'))
    obtain ⟨before', hplace'⟩ := hc'.skipBlanks
    have hbefore : before' = before ++ run := by
      refine (List.append_left_inj c'.skipBlanks.rest).mp ?_
      rw [← hplace'.toList_eq, hplace.toList_eq, hrest, List.append_assoc]
    refine ih hplace' ?_ (stops_dropWhile _ _) fun h => absurd h Bool.false_ne_true
    rw [hbefore, List.mem_append, not_or]
    exact ⟨hequals, not_mem_of_run hrun⟩

theorem places_rightHandSide (h : c.LiesIn s) (hpeek : c.peek? = some '=') :
    Places s (c.rightHandSide : Except ParseError (Complex R × Cursor)) := by
  have hfresh : (c.next.skipBlanks.accept '-').2.IsFresh s :=
    (h.isFresh_next hpeek (by decide)).skipBlanks.accept_minus
  unfold rightHandSide
  generalize c.next.skipBlanks.accept '-' = out at hfresh ⊢
  obtain ⟨negative, d⟩ := out
  have hd : (if negative then d.skipBlanks else d).IsFresh s := by
    split
    · exact hfresh.skipBlanks
    · exact hfresh
  exact (places_magnitude hd (places_error (wellPlaced_unexpected hd.liesIn))).bind
    fun _ _ => places_ok _

theorem places_finish (h : c.LiesIn s) : Places s c.finish := by
  unfold finish
  split
  · exact places_ok _
  · exact places_error (wellPlaced_unexpected h.skipBlanks)

theorem places_parse (s : String) :
    Places s (Equation.parse s : Except ParseError (Equation R)) := by
  have hstart := follows_start s
  have hblanks : '=' ∉ [] ++ (start s).run isBlank :=
    not_mem_of_run fun x hx =>
      isNoEquals_of (p := isBlank) (by decide) (List.all_eq_true.mp List.all_takeWhile x hx)
  have hfresh : (start s).skipBlanks.IsFresh s := (isFresh_start s).skipBlanks
  refine (places_terms (hstart.skip isBlank) hblanks (stops_dropWhile _ _) fun _ => hfresh).bind
    fun (e, c₁) h₁ => ?_
  have hplace₁ := (InPlace.agrees_terms hfresh.liesIn hfresh.liesIn.remaining_lt).liesIn _ _ h₁
  obtain ⟨-, rest, hrest, -⟩ := terms_of_reads (fun _ => stops_dropWhile _ _) (reads_of_eq_ok h₁)
  refine (places_rightHandSide hplace₁ (peek?_of_cons hrest)).bind fun (rhs, c₂) h₂ => ?_
  have hplace₂ := (InPlace.agrees_rightHandSide hplace₁).liesIn _ _ h₂
  exact (places_finish hplace₂).bind fun _ _ => places_ok _

end Cursor

/-- **Reading in place is safe, and errors are well placed**: reading by slices of the text has the
same outcome as reading from the list of its characters, whatever the text is, and every error names
places of the text and points at what it speaks of. -/
theorem parse_in_place_and_wellPlaced {R : Type} [Scalar R] (s : String) :
    InPlace.parse s = some (Equation.parse s : Except ParseError (Equation R)) ∧
      ∀ e, (Equation.parse s : Except ParseError (Equation R)) = .error e →
        (∀ i ∈ e.offsets, i ≤ s.utf8ByteSize ∧ IsBoundary s i) ∧ e.WellPlaced s := by
  refine ⟨InPlace.parse_eq s, fun e he => ?_⟩
  have hplaced : Cursor.Places s (Equation.parse s : Except ParseError (Equation R)) :=
    Cursor.places_parse s
  have hwell := hplaced e he
  exact ⟨fun i hi => ⟨(hwell.isBoundary i hi).le_utf8ByteSize, hwell.isBoundary i hi⟩, hwell⟩

/-- A text that begins with a blank of two bytes, and where a number has two points. -/
theorem wellPlaced_of_two_points :
    (Equation.parse "\u00a0x + 1..2y = 1" : Except ParseError (Equation Rat)) =
        .error (.invalidNumber "1..2" 6 10) ∧
      InPlace.parse "\u00a0x + 1..2y = 1" =
        some (.error (.invalidNumber "1..2" 6 10) : Except ParseError (Equation Rat)) ∧
      (ParseError.invalidNumber "1..2" 6 10).WellPlaced "\u00a0x + 1..2y = 1" := by
  have herror : (match (Equation.parse "\u00a0x + 1..2y = 1" :
      Except ParseError (Equation Rat)) with
      | .error e => some e
      | .ok _ => none) = some (.invalidNumber "1..2" 6 10) := by decide +kernel
  split at herror
  · rename_i e he
    obtain rfl : e = _ := Option.some.inj herror
    obtain ⟨hinPlace, hplaced⟩ :=
      parse_in_place_and_wellPlaced (R := Rat) "\u00a0x + 1..2y = 1"
    exact ⟨he, hinPlace.trans (congrArg some he), (hplaced _ he).2⟩
  · cases herror

end LinearEquations
