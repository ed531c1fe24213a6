import LinearEquations.Proofs.Lookahead
import LinearEquations.Proofs.NumberText
import LinearEquations.Scalar.Double

/-! # The text before an error

An error about a character stands where the text stops being the beginning of an equation: what
comes before can be extended to an equation (`IsViable`), but not with the character in question
(`IsLongestViable`).  The index of the error is the offset of that character, with one exception:
if the sign between the parts of a literal is missing, the reader has passed over the character
before it fails, and the index is that of the next one (`ParseError.Blames`).

The proof follows the readers (`Cursor.LooksAhead`).  That nothing longer is viable is a matter of
their looking at one character only.  That the text before is viable means that at each place where
a reader can fail, the symbols of the grammar which are still missing can be supplied.  A digit, a
letter or a sign is always at hand for them; the only thing to be known of the scalars is that the
digit one can be read.  For each symbol there is a lemma by which it is put together from the texts
of its parts (`literal_of_parts` and so on). -/

namespace LinearEquations
open Grammar

variable {R : Type} [Scalar R]

namespace Grammar

/-- The text goes on to one symbol of the grammar, whatever follows. -/
def Begins {A : Type} (Symbol : List Char → A → List Char → Prop) (text : List Char) : Prop :=
  ∃ more a, ∀ rest, Symbol (text ++ (more ++ rest)) a rest

end Grammar

namespace Cursor
variable {viable : List Char → Prop} {c : Cursor}

/-- The number that the digits and points which follow mean. -/
def number? (c : Cursor) : Option R :=
  Numeral.read? (c.run Numeral.isNumeric) >>= fun n => Scalar.ofDecimal? n.digits n.places

theorem number_of_some {x : R} (h : c.number? = some x) :
    c.number = .ok (x, c.skip Numeral.isNumeric) := by
  unfold number
  simp only
  rw [show Numeral.read? _ >>= _ = some x from h]

theorem number_of_none (h : c.number? = (none : Option R)) :
    (c.number : Except ParseError (R × Cursor)) = .error (.invalidNumber
      (String.ofList (c.run Numeral.isNumeric)) c.offset (c.skip Numeral.isNumeric).offset) := by
  unfold number
  simp only
  rw [show Numeral.read? _ >>= _ = (none : Option R) from h]

theorem looksAhead_number :
    LooksAhead viable (fun (x : R) text => IsNumberText text x) number c := by
  cases hread : c.number? (R := R) with
  | none => exact looksAhead_silent (number_of_none hread) id
  | some x =>
    have hnumber : ∀ d : Cursor, d.run Numeral.isNumeric = c.run Numeral.isNumeric →
        d.number = .ok (x, d.skip Numeral.isNumeric) := fun d hd =>
      number_of_some ((congrArg (Numeral.read? · >>= _) hd).trans hread)
    refine looksAhead_run ?_ hnumber
    obtain ⟨hrun, hdigit, hpoint, hnearest⟩ := reads_number.mp (reads_of_eq_ok (hnumber c rfl))
    obtain ⟨rfl, -⟩ := longestRun_iff.mp hrun
    exact ⟨hrun.2.1, hdigit, hpoint, hnearest⟩

/-- Passing over a character that has to come next. -/
def requiring (part : LiteralPart) (x : Char) : Reader Unit := fun c =>
  (c.require part x).map fun c => ((), c)

theorem map_bind {E A B C : Type} (r : Except E A) (f : A → B) (g : B → Except E C) :
    r.map f >>= g = r >>= fun a => g (f a) := by
  cases r <;> rfl

theorem bind_map {E A B C : Type} (r : Except E A) (f : A → Except E B) (g : B → C) :
    (r >>= f).map g = r >>= fun a => (f a).map g := by
  cases r <;> rfl

/-- A literal, reader by reader. -/
theorem literal_eq : (literal : Reader (Complex R)) =
    andThen advancing fun _ => andThen (skipping isBlank) fun _ =>
    andThen (accepting '-') fun negativeRe => andThen realPart fun re =>
    andThen (skipping isBlank) fun _ => andThen partSign fun negativeIm =>
    andThen (skipping isBlank) fun _ => andThen imaginaryPart fun im =>
    andThen (skipping isTimes) fun _ => andThen (requiring .imaginaryUnit 'i') fun _ =>
    andThen (skipping isBlank) fun _ => andThen (requiring .closingParenthesis ')') fun _ c =>
      .ok (⟨signed negativeRe re, signed negativeIm im⟩, c) := by
  funext c
  simp only [literal, andThen, requiring, map_bind]
  rfl

theorem looksAhead_realPart (hviable : viable []) :
    LooksAhead viable (fun (x : R) text => IsNumberText text x) realPart c := by
  by_cases hsees : c.seesNumber
  · refine looksAhead_number.congr fun d hd => ?_
    have hd : d.seesNumber := by rwa [seesNumber, sees, hd]
    rw [realPart, if_pos hd]
  · have hfail : ∀ d : Cursor, d.peek? = c.peek? → (d.realPart : Except ParseError (R × Cursor)) =
        .error (.malformedLiteral .realPart d.offset) := by
      intro d hd
      have hd : ¬d.seesNumber := by rwa [seesNumber, sees, hd]
      rw [realPart, if_neg hd]
    exact looksAhead_fail (hfail c rfl) rfl hviable fun d hd => ⟨_, hfail d hd⟩

theorem looksAhead_imaginaryPart :
    LooksAhead viable (fun (x : R) text => IsFactorText text x) imaginaryPart c := by
  by_cases hsees : c.seesNumber
  · refine (looksAhead_number.mono (fun _ => id) fun _ _ => .inr).congr fun d hd => ?_
    have hd : d.seesNumber := by rwa [seesNumber, sees, hd]
    rw [imaginaryPart, if_pos hd]
  · refine looksAhead_stay (.inl ⟨rfl, rfl⟩) fun d hd => ?_
    have hd : ¬d.seesNumber := by rwa [seesNumber, sees, hd]
    rw [imaginaryPart, if_neg hd]

theorem byteLength_take_one (c : Cursor) :
    c.next.offset = c.offset + byteLength (c.rest.take 1) := by
  unfold next
  cases c.rest <;> simp

theorem looksAhead_partSign (hviable : viable []) :
    LooksAhead viable (fun negative text => text = signText negative) partSign c := by
  by_cases hplus : c.peek? = some '+'
  · refine looksAhead_next (a := false) hplus rfl fun d hd => ?_
    rw [partSign, hd, hplus]
    rfl
  by_cases hminus : c.peek? = some '-'
  · refine looksAhead_next (a := true) hminus rfl fun d hd => ?_
    rw [partSign, hd, hminus]
    rfl
  have hfail : ∀ d : Cursor, d.peek? = c.peek? →
      d.partSign = .error (.malformedLiteral .sign d.next.offset) := by
    intro d hd
    unfold partSign
    split
    · rename_i h
      exact absurd (hd.symm.trans h) hplus
    · rename_i h
      exact absurd (hd.symm.trans h) hminus
    · rfl
  exact looksAhead_fail (hfail c rfl) (byteLength_take_one c) hviable fun d hd => ⟨_, hfail d hd⟩

theorem looksAhead_requiring {part : LiteralPart} (hpart : part ≠ .sign) (x : Char)
    (hviable : viable []) :
    LooksAhead viable (fun _ text => text = [x]) (requiring part x) c := by
  by_cases hx : c.peek? = some x
  · refine looksAhead_next (a := ()) hx rfl fun d hd => ?_
    rw [requiring, require, if_pos (hd.trans hx)]
    rfl
  · have hfail : ∀ d : Cursor, d.peek? = c.peek? →
        d.requiring part x = .error (.malformedLiteral part d.offset) := by
      intro d hd
      rw [requiring, require, if_neg (hd ▸ hx)]
      rfl
    refine looksAhead_fail (hfail c rfl) ?_ hviable fun d hd => ⟨_, hfail d hd⟩
    cases part <;> first | exact absurd rfl hpart | rfl

/-- **Literals.**  What is still missing where an error stands can always be supplied. -/
theorem looksAhead_literal {one : R} (hone : Scalar.ofDecimal? 1 0 = some one)
    (hopen : c.peek? = some '(')
    (hviable : ∀ text, Begins (Literal (R := R)) text → viable text) :
    LooksAhead viable (fun z text => ∀ rest, Literal (R := R) (text ++ rest) z rest) literal c := by
  have h₁ := isNumberText_one hone
  have hnil : ∀ {p : Char → Bool}, ∀ y ∈ ([] : List Char), p y := List.forall_mem_nil _
  have hf : IsFactorText [] (1 : R) := .inl ⟨rfl, rfl⟩
  rw [literal_eq]
  refine (looksAhead_advancing hopen).andThen fun _ _ _ _ _ h => ?_
  subst h
  refine (looksAhead_skipping isBlank _).andThen fun _ _ b _ _ hb => ?_
  refine (looksAhead_accepting '-' _).andThen fun negativeRe _ m _ _ hm => ?_
  obtain rfl : m = minusText negativeRe := hm
  refine (looksAhead_realPart ?_).andThen fun re _ r _ _ hr => ?_
  -- here and below, the rest of a shortest literal is supplied where a part of it is missing
  · refine hviable _ ⟨['1', '+', 'i', ')'], ⟨signed negativeRe one, signed false 1⟩, fun rest => ?_⟩
    simpa [signText] using literal_of_parts negativeRe false hb.1 h₁ hnil hnil hf hnil hnil rest
  refine (looksAhead_skipping isBlank _).andThen fun _ _ b₁ _ _ hb₁ => ?_
  refine (looksAhead_partSign ?_).andThen fun negativeIm _ m _ _ hm => ?_
  · refine hviable _ ⟨['+', 'i', ')'], ⟨signed negativeRe re, signed false 1⟩, fun rest => ?_⟩
    simpa [signText] using literal_of_parts negativeRe false hb.1 hr hb₁.1 hnil hf hnil hnil rest
  subst hm
  refine (looksAhead_skipping isBlank _).andThen fun _ _ b₂ _ _ hb₂ => ?_
  refine looksAhead_imaginaryPart.andThen fun im _ f _ _ hf => ?_
  refine (looksAhead_skipping isTimes _).andThen fun _ _ t _ _ ht => ?_
  refine (looksAhead_requiring (by decide) 'i' ?_).andThen fun _ _ _ _ _ hi => ?_
  · refine hviable _
      ⟨['i', ')'], ⟨signed negativeRe re, signed negativeIm im⟩, fun rest => ?_⟩
    simpa using literal_of_parts negativeRe negativeIm hb.1 hr hb₁.1 hb₂.1 hf ht.1 hnil rest
  subst hi
  refine (looksAhead_skipping isBlank _).andThen fun _ _ b₃ _ _ hb₃ => ?_
  refine (looksAhead_requiring (by decide) ')' ?_).andThen fun _ _ _ _ _ hclose => ?_
  · refine hviable _ ⟨[')'], ⟨signed negativeRe re, signed negativeIm im⟩, fun rest => ?_⟩
    simpa using literal_of_parts negativeRe negativeIm hb.1 hr hb₁.1 hb₂.1 hf ht.1 hb₃.1 rest
  subst hclose
  refine looksAhead_stay (fun rest => ?_) fun _ _ => rfl
  simpa using literal_of_parts negativeRe negativeIm hb.1 hr hb₁.1 hb₂.1 hf ht.1 hb₃.1 rest

/-! ### Terms -/

theorem blames_unexpected (c : Cursor) : c.unexpected.Blames c.offset c.rest := by
  unfold unexpected
  cases hpeek : c.peek? with
  | none => trivial
  | some x => exact ⟨rfl, hpeek⟩

/-- A number or a literal, or else what another reader does. -/
def magnitudeOr (other : Reader (Complex R)) : Reader (Complex R) := fun c =>
  c.magnitude?.getD (other c)

theorem looksAhead_magnitudeOr {one : R} (hone : Scalar.ofDecimal? 1 0 = some one)
    {taken : Complex R → List Char → Prop} {other : Reader (Complex R)}
    (hviable : ∀ text, Begins (Literal (R := R)) text → viable text)
    (htaken : ∀ z text, (∀ rest, Stops Numeral.isNumeric rest → Magnitude (text ++ rest) z rest) →
      taken z text) (hother : LooksAhead viable taken other c) :
    LooksAhead viable taken (magnitudeOr other) c := by
  by_cases hsees : c.seesNumber
  · have hnumber : LooksAhead viable taken
        (andThen number fun (x : R) d => .ok (Complex.ofReal x, d)) c := by
      refine looksAhead_number.andThen fun x d text _ _ hx => ?_
      refine looksAhead_stay (a := Complex.ofReal x) (htaken _ _ fun rest hstops => ?_)
        fun _ _ => rfl
      rw [List.append_nil]
      exact .number (hx.number hstops)
    refine hnumber.congr fun d hd => ?_
    have hd : d.seesNumber := by rwa [seesNumber, sees, hd]
    rw [magnitudeOr, magnitude?, if_pos hd]
    change d.number.map _ = _
    rw [andThen]
    cases d.number (R := R) <;> rfl
  · by_cases hopen : c.peek? = some '('
    · refine ((looksAhead_literal hone hopen hviable).mono (fun _ => id)
        fun z text h => htaken z text fun rest _ => .literal (h rest)).congr fun d hd => ?_
      have hsees' : ¬d.seesNumber := by rwa [seesNumber, sees, hd]
      rw [magnitudeOr, magnitude?, if_neg hsees', if_pos (hd.trans hopen)]
      rfl
    · refine hother.congr fun d hd => ?_
      have hsees' : ¬d.seesNumber := by rwa [seesNumber, sees, hd]
      have hopen' : ¬d.peek? = some '(' := by rwa [hd]
      rw [magnitudeOr, magnitude?, if_neg hsees', if_neg hopen']
      rfl

theorem looksAhead_name (hviable : viable []) :
    LooksAhead viable (fun x text => ∀ rest, Stops Char.isAlpha rest → Name (text ++ rest) x rest)
      name c := by
  by_cases hsees : c.sees Char.isAlpha
  · refine looksAhead_run (p := Char.isAlpha)
      (a := String.ofList ((c.run Char.isAlpha).map Char.toLower)) ?_ ?_
    · intro rest hstops
      exact ⟨⟨rfl, List.all_eq_true.mp List.all_takeWhile, hstops⟩, (run_ne_nil_iff _).mpr hsees⟩
    · intro d hd
      have hd' : d.sees Char.isAlpha := by rwa [← run_ne_nil_iff, hd, run_ne_nil_iff]
      rw [name, if_pos hd', hd]
  · have hfail : ∀ d : Cursor, d.peek? = c.peek? → d.name = .error
        (if d.peek? = some '=' then .expectedUnknown d.offset else d.unexpected) := by
      intro d hd
      have hd : ¬d.sees Char.isAlpha := by rwa [sees, hd]
      rw [name, if_neg hd]
      split <;> rfl
    refine looksAhead_fail (hfail c rfl) ?_ hviable fun d hd => ⟨_, hfail d hd⟩
    split
    · rfl
    · exact blames_unexpected c

/-- The text of the sign of a term, which the first term may leave out. -/
def IsTermSign (first : Bool) (text : List Char) (negative : Bool) : Prop :=
  text = signText negative ∨ first ∧ negative = false ∧ text = []

/-- Where no sign stands, the first term may go on without one. -/
theorem termSign_of_ne {first : Bool} {x : Char} (hx : c.peek? = some x) (hplus : x ≠ '+')
    (hminus : x ≠ '-') :
    c.termSign first = if first then .ok (false, c) else .error c.unexpected := by
  unfold termSign
  rw [hx]
  split
  · rename_i h
    exact absurd (Option.some.inj h) hplus
  · rename_i h
    exact absurd (Option.some.inj h) hminus
  · rfl
  · rename_i h
    cases h

theorem looksAhead_termSign (first : Bool) (hviable : viable []) :
    LooksAhead viable (fun negative text => IsTermSign first text negative) (termSign first) c := by
  cases hx : c.peek? with
  | none =>
    have hfail : ∀ d : Cursor, d.peek? = c.peek? → d.termSign first = .error d.unexpected := by
      intro d hd
      rw [termSign, hd, hx]
    exact looksAhead_fail (hfail c rfl) (blames_unexpected c) hviable fun d hd => ⟨_, hfail d hd⟩
  | some x =>
    by_cases hplus : x = '+'
    · subst hplus
      refine looksAhead_next (a := false) hx (.inl rfl) fun d hd => ?_
      rw [termSign, hd, hx]
      rfl
    by_cases hminus : x = '-'
    · subst hminus
      refine looksAhead_next (a := true) hx (.inl rfl) fun d hd => ?_
      rw [termSign, hd, hx]
      rfl
    have hsign : ∀ d : Cursor, d.peek? = c.peek? →
        d.termSign first = if first then .ok (false, d) else .error d.unexpected := fun d hd =>
      termSign_of_ne (hd.trans hx) hplus hminus
    by_cases hfirst : first
    · refine looksAhead_stay (a := false) (.inr ⟨hfirst, rfl, rfl⟩) fun d hd => ?_
      rw [hsign d hd, if_pos hfirst]
    · have hfail : ∀ d : Cursor, d.peek? = c.peek? → d.termSign first = .error d.unexpected := by
        intro d hd
        rw [hsign d hd, if_neg hfirst]
      exact looksAhead_fail (hfail c rfl) (blames_unexpected c) hviable fun d hd => ⟨_, hfail d hd⟩

/-- A term, reader by reader. -/
theorem term_eq (first : Bool) : (term first : Reader (String × Complex R)) =
    andThen (termSign first) fun negative => andThen (skipping isBlank) fun _ =>
    andThen (magnitudeOr fun c => .ok (1, c)) fun size => andThen (skipping isBlank) fun _ =>
    andThen name fun name c => .ok ((name, signed negative size), c) := rfl

/-- The text of a magnitude, which may be left out. -/
def IsSizeText (text : List Char) (z : Complex R) : Prop :=
  text = [] ∧ z = 1 ∨ ∀ rest, Stops Numeral.isNumeric rest → Magnitude (text ++ rest) z rest

theorem term_of_parts {first negative : Bool} {sign b size b' n rest : List Char} {z : Complex R}
    {x : String} (hsign : IsTermSign first sign negative) (hb : ∀ y ∈ b, isBlank y)
    (hsize : IsSizeText size z) (hb' : ∀ y ∈ b', isBlank y)
    (hbare : sign = [] → b = [] ∧ (size = [] → b' = [])) (hname : Name (n ++ rest) x rest) :
    Term first (sign ++ (b ++ (size ++ (b' ++ (n ++ rest))))) (x, signed negative z) rest := by
  rcases hsize with ⟨rfl, rfl⟩ | hsize
  · rcases hsign with rfl | ⟨rfl, rfl, rfl⟩
    · refine .signed (sign_signText negative _) ⟨b ++ b', ?_, List.forall_mem_append.mpr ⟨hb, hb'⟩⟩
        (.bare hname)
      rw [List.append_assoc, List.nil_append]
    · obtain ⟨rfl, hnil⟩ := hbare rfl
      obtain rfl := hnil rfl
      exact .bare (.bare hname)
  · have hstops : Stops Numeral.isNumeric (b' ++ (n ++ rest)) :=
      stops_isNumeric_of_blanks hb'
        (stops_of_head hname.head fun _ => isNumeric_eq_false_of_isAlpha)
    have hbody : Body (size ++ (b' ++ (n ++ rest))) x z rest :=
      .sized (hsize _ hstops) ⟨b', rfl, hb'⟩ hname
    rcases hsign with rfl | ⟨rfl, rfl, rfl⟩
    · exact .signed (sign_signText negative _) ⟨b, rfl, hb⟩ hbody
    · obtain ⟨rfl, -⟩ := hbare rfl
      exact .bare hbody

/-- A term before a text that does not begin with a letter. -/
def TermBefore (first : Bool) (s : List Char) (t : String × Complex R) (rest : List Char) : Prop :=
  Stops Char.isAlpha rest → Term first s t rest

theorem name_x {rest : List Char} (hstops : Stops Char.isAlpha rest) :
    Name ('x' :: rest) "x" rest :=
  have hrun : LongestRun Char.isAlpha ['x'] ('x' :: rest) rest :=
    ⟨rfl, List.forall_mem_singleton.mpr rfl, hstops⟩
  ⟨hrun, List.cons_ne_nil _ _⟩

theorem IsTermSign.first {first negative : Bool} (h : IsTermSign first [] negative) : first := by
  rcases h with h | h
  · cases negative <;> cases h
  · exact h.1

/-- **Terms.**  What is still missing where an error stands can always be supplied. -/
theorem looksAhead_term {one : R} (hone : Scalar.ofDecimal? 1 0 = some one) {first : Bool}
    (hviable : ∀ text, Begins (TermBefore (R := R) first) text → viable text)
    (hstops : first → Stops isBlank c.rest) :
    LooksAhead viable (fun t text => ∀ rest, TermBefore (R := R) first (text ++ rest) t rest)
      (term first) c := by
  have hnil : ∀ {p : Char → Bool}, ∀ y ∈ ([] : List Char), p y := List.forall_mem_nil _
  rw [term_eq]
  refine (looksAhead_termSign first ?_).andThen fun negative c₁ sign _ h₁ hsign => ?_
  · exact hviable _ ⟨['+', 'x'], ("x", signed false 1), fun rest hrest =>
      .signed (.plus _) (.nil _ _) (.bare (name_x hrest))⟩
  refine (looksAhead_skipping isBlank _).andThen fun _ c₂ b _ h₂ hb => ?_
  -- a term without a sign begins where its first blanks would
  have hbare : sign = [] → b = [] ∧ Stops isBlank c₂.rest := by
    rintro rfl
    have h₁ : c.rest = c₁.rest := h₁
    obtain rfl := hb.2 (h₁ ▸ hstops hsign.first)
    have h₂ : c₁.rest = c₂.rest := h₂
    exact ⟨rfl, h₂ ▸ h₁ ▸ hstops hsign.first⟩
  have hname : ∀ rest, Stops Char.isAlpha rest → Name (['x'] ++ rest) "x" rest := fun _ => name_x
  have hsize : LooksAhead (fun text => viable (sign ++ (b ++ text)))
      (fun z text => IsSizeText text z) (magnitudeOr fun c => .ok ((1 : Complex R), c)) c₂ := by
    refine looksAhead_magnitudeOr hone ?_ (fun _ _ => .inr)
      (looksAhead_stay (.inl ⟨rfl, rfl⟩) fun _ _ => rfl)
    rintro text ⟨more, z, hz⟩
    refine hviable _ ⟨more ++ ['x'], ("x", signed negative z), fun rest hrest => ?_⟩
    have hsize : IsSizeText (text ++ more) z := .inr fun rest _ => by
      rw [List.append_assoc]
      exact .literal (hz rest)
    simpa using term_of_parts hsign hb.1 hsize hnil (fun h => ⟨(hbare h).1, fun _ => rfl⟩)
      (hname rest hrest)
  refine hsize.andThen fun size c₃ m _ h₃ hm => ?_
  refine (looksAhead_skipping isBlank _).andThen fun _ c₄ b' _ _ hb' => ?_
  have hbare : sign = [] → b = [] ∧ (m = [] → b' = []) := by
    intro h
    refine ⟨(hbare h).1, ?_⟩
    rintro rfl
    have h₃ : c₂.rest = c₃.rest := h₃
    exact hb'.2 (h₃ ▸ (hbare h).2)
  refine (looksAhead_name ?_).andThen fun x c₅ n _ _ hn => ?_
  · refine hviable _ ⟨['x'], ("x", signed negative size), fun rest hrest => ?_⟩
    simpa using term_of_parts hsign hb.1 hm hb'.1 hbare (hname rest hrest)
  · refine looksAhead_stay (fun rest hrest => ?_) fun _ _ => rfl
    simpa using term_of_parts hsign hb.1 hm hb'.1 hbare (hn rest hrest)

/-! ### Lists of terms -/

theorem stops_isAlpha_of_terms {s rest : List Char} {ts : List (String × Complex R)}
    (h : Terms false s ts rest) : Stops Char.isAlpha s := by
  cases h with
  | done => exact stops_cons (by decide) _
  | more hterm =>
    cases hterm with
    | signed hsign => cases hsign <;> exact stops_cons (by decide) _

/-- A first term before others. -/
theorem terms_of_parts {first : Bool} {run b s rest : List Char} {t : String × Complex R}
    {ts : List (String × Complex R)} (hrun : ∀ rest, TermBefore first (run ++ rest) t rest)
    (hb : ∀ y ∈ b, isBlank y) (hs : Terms false s ts rest) :
    Terms first (run ++ (b ++ s)) (t :: ts) rest := by
  refine .more (hrun _ (stops_append (fun y hy => ?_) (stops_isAlpha_of_terms hs))) ⟨b, rfl, hb⟩ hs
  refine Bool.eq_false_iff.mpr fun hletter => ?_
  exact Bool.eq_false_iff.mp (isBlank_eq_false_of_isAlpha hletter) (hb y hy)

/-- The beginning of a first term is the beginning of a list of terms. -/
theorem begins_terms {first : Bool} {text : List Char}
    (h : Begins (TermBefore (R := R) first) text) : Begins (Terms (R := R) first) text := by
  obtain ⟨more, t, ht⟩ := h
  refine ⟨more ++ ['='], [t], fun rest => ?_⟩
  have hterm := ht ('=' :: rest) (stops_cons (by decide) _)
  rw [List.append_assoc]
  exact .more hterm (.nil _ _) (.done rest)

/-- Where no equals sign stands a term is read, and then the others. -/
theorem terms_of_ne {first : Bool} {e : Equation R} {x : Char} (hx : c.peek? = some x)
    (hne : x ≠ '=') : c.terms first e =
      andThen (term first) (fun t => andThen (skipping isBlank) fun _ =>
        terms false (e.set t.1 t.2)) c := by
  rw [terms, hx]
  simp only
  rw [if_neg hne, andThen]
  cases hterm : c.term (R := R) first with
  | error err => rfl
  | ok p => rfl

theorem looksAhead_terms {one : R} (hone : Scalar.ofDecimal? 1 0 = some one) {first : Bool}
    {e : Equation R} {taken : Equation R → List Char → Prop}
    (hviable : ∀ text, Begins (Terms (R := R) first) text → viable text)
    (htaken : ∀ e' text ts, (∀ rest, Terms (R := R) first (text ++ '=' :: rest) ts rest) →
      taken e' text) (hstops : first → Stops isBlank c.rest) :
    LooksAhead viable taken (terms first e) c := by
  fun_induction terms first e c generalizing viable taken with
  | case1 first e c hx =>
    refine looksAhead_silent (e := .missingEquals) ?_ id
    rw [terms, hx]
  | case2 e c hx =>
    have hfail : ∀ d : Cursor, d.peek? = c.peek? →
        d.terms true e = .error (.expectedUnknown d.offset) := by
      intro d hd
      rw [terms, hd, hx]
      rfl
    refine looksAhead_fail (hfail c rfl) rfl (hviable [] ?_) fun d hd => ⟨_, hfail d hd⟩
    exact ⟨['x', '='], [("x", 1)], fun rest =>
      .more (.bare (.bare (name_x (stops_cons (by decide) _)))) (.nil _ _) (.done rest)⟩
  | case3 first e c hfirst hx =>
    -- the equals sign ends the terms, and stays for the right hand side
    obtain rfl : first = false := Bool.eq_false_iff.mpr hfirst
    refine looksAhead_stay (htaken e [] [] .done) fun d hd => ?_
    rw [terms, hd, hx]
    rfl
  | case4 first e c x hx hne err herr =>
    refine LooksAhead.congr ?_ fun d hd => terms_of_ne (hd.trans hx) hne
    refine (looksAhead_term hone (fun text h => hviable text (begins_terms h)) hstops).andThen
      fun t c' run hterm _ hrun => ?_
    rw [herr] at hterm
    cases hterm
  | case5 first e c x hx hne name coefficient c' hterm ih =>
    refine LooksAhead.congr ?_ fun d hd => terms_of_ne (hd.trans hx) hne
    refine (looksAhead_term hone (fun text h => hviable text (begins_terms h)) hstops).andThen
      fun t c₁ run hterm' _ hrun => ?_
    rw [hterm] at hterm'
    cases hterm'
    refine (looksAhead_skipping isBlank _).andThen fun _ c₂ b hc₂ _ hb => ?_
    cases hc₂
    refine ih (fun text => ?_) (fun e' text ts hts => ?_) fun h => absurd h Bool.false_ne_true
    · rintro ⟨more, ts, hts⟩
      refine hviable _ ⟨more, (name, coefficient) :: ts, fun rest => ?_⟩
      simpa using terms_of_parts hrun hb.1 (hts rest)
    · refine htaken e' _ ((name, coefficient) :: ts) fun rest => ?_
      simpa using terms_of_parts hrun hb.1 (hts rest)

/-! ### Right hand sides -/

/-- A right hand side, reader by reader. -/
theorem rightHandSide_eq : (rightHandSide : Reader (Complex R)) =
    andThen advancing fun _ => andThen (skipping isBlank) fun _ =>
    andThen (accepting '-') fun negative =>
    andThen (fun c => .ok ((), if negative then c.skipBlanks else c)) fun _ =>
    andThen (magnitudeOr fun c => .error c.unexpected) fun size c =>
      .ok (signed negative size, c) := rfl

/-- The text of a right hand side from the equals sign on. -/
def IsRightText (text : List Char) (z : Complex R) : Prop :=
  ∃ b right, text = '=' :: (b ++ right) ∧ (∀ y ∈ b, isBlank y) ∧
    ∀ rest, Stops Numeral.isNumeric rest → RightHandSide (right ++ rest) z rest

theorem isRightText_of_parts {b b' m : List Char} {negative : Bool} {z : Complex R}
    (hb : ∀ y ∈ b, isBlank y) (hb' : ∀ y ∈ b', isBlank y) (hnone : negative = false → b' = [])
    (hm : ∀ rest, Stops Numeral.isNumeric rest → Magnitude (m ++ rest) z rest) :
    IsRightText ('=' :: (b ++ (minusText negative ++ (b' ++ m)))) (signed negative z) := by
  refine ⟨b, _, rfl, hb, fun rest hrest => ?_⟩
  cases negative with
  | false =>
    obtain rfl := hnone rfl
    exact .plain (hm rest hrest)
  | true =>
    rw [List.append_assoc, List.append_assoc]
    exact .negated ⟨b', rfl, hb'⟩ (hm rest hrest)

theorem looksAhead_rightHandSide {one : R} (hone : Scalar.ofDecimal? 1 0 = some one)
    (hviable : ∀ text more (z : Complex R), IsRightText (text ++ more) z → viable text)
    (hequals : c.peek? = some '=') :
    LooksAhead viable (fun (z : Complex R) text => IsRightText text z) rightHandSide c := by
  rw [rightHandSide_eq]
  refine (looksAhead_advancing hequals).andThen fun _ _ _ _ _ h => ?_
  subst h
  refine (looksAhead_skipping isBlank _).andThen fun _ _ b _ _ hb => ?_
  refine (looksAhead_accepting '-' _).andThen fun negative c₁ m _ _ hm => ?_
  obtain rfl : m = minusText negative := hm
  have hskip : LooksAhead (fun text => viable (['='] ++ (b ++ (minusText negative ++ text))))
      (fun _ text => (∀ y ∈ text, isBlank y) ∧ (negative = false → text = []))
      (fun c : Cursor => .ok ((), if negative then c.skipBlanks else c)) c₁ := by
    cases negative with
    | false => exact looksAhead_stay ⟨List.forall_mem_nil _, fun _ => rfl⟩ fun _ _ => rfl
    | true => exact (looksAhead_skipping isBlank c₁).mono (fun _ => id) fun _ _ h => ⟨h.1, nofun⟩
  refine hskip.andThen fun _ c₂ b' _ _ hb' => ?_
  have hmagnitude : LooksAhead
      (fun text => viable (['='] ++ (b ++ (minusText negative ++ (b' ++ text)))))
      (fun (z : Complex R) text =>
        ∀ rest, Stops Numeral.isNumeric rest → Magnitude (text ++ rest) z rest)
      (magnitudeOr fun c => .error c.unexpected) c₂ := by
    refine looksAhead_magnitudeOr hone ?_ (fun _ _ => id) ?_
    · rintro text ⟨more, z, hz⟩
      refine hviable _ more (signed negative z) ?_
      have hm : ∀ rest, Stops Numeral.isNumeric rest → Magnitude (text ++ more ++ rest) z rest :=
        fun rest _ => by
          rw [List.append_assoc]
          exact .literal (hz rest)
      simpa using isRightText_of_parts hb.1 hb'.1 hb'.2 hm
    · refine looksAhead_fail rfl (blames_unexpected _) ?_ fun d _ => ⟨_, rfl⟩
      refine hviable _ ['1'] (signed negative (Complex.ofReal one)) ?_
      have hm : ∀ rest, Stops Numeral.isNumeric rest →
          Magnitude (['1'] ++ rest) (Complex.ofReal one) rest := fun rest hrest =>
        .number ((isNumberText_one hone).number hrest)
      simpa using isRightText_of_parts hb.1 hb'.1 hb'.2 hm
  refine hmagnitude.andThen fun z c₃ m _ _ hm => ?_
  refine looksAhead_stay ?_ fun _ _ => rfl
  simpa using isRightText_of_parts hb.1 hb'.1 hb'.2 hm

/-! ### Equations -/

/-- The end of the text. -/
def ending : Reader Unit := fun c =>
  if c.peek?.isNone then .ok ((), c) else .error c.unexpected

theorem looksAhead_ending (hviable : viable []) :
    LooksAhead viable (fun _ text => text = []) ending c := by
  by_cases hend : c.peek?.isNone
  · refine looksAhead_stay (a := ()) rfl fun d hd => ?_
    rw [ending, if_pos (hd ▸ hend)]
  · have hfail : ∀ d : Cursor, d.peek? = c.peek? → d.ending = .error d.unexpected := by
      intro d hd
      rw [ending, if_neg (hd ▸ hend)]
    exact looksAhead_fail (hfail c rfl) (blames_unexpected c) hviable fun d hd => ⟨_, hfail d hd⟩

/-- An equation, reader by reader. -/
def equation : Reader (Equation R) :=
  andThen (skipping isBlank) fun _ => andThen (terms true (Equation.empty 0)) fun e =>
  andThen rightHandSide fun rhs => andThen (skipping isBlank) fun _ => andThen ending fun _ c =>
    .ok (e.withRhs rhs, c)

theorem finish_bind {B : Type} (c : Cursor) (r : Except ParseError B) :
    (c.finish >>= fun _ => r) = ending c.skipBlanks >>= fun _ => r := by
  unfold finish ending
  split <;> rfl

theorem parse_eq_equation (s : String) :
    (Equation.parse s : Except ParseError (Equation R)) = (start s).equation.map Prod.fst := by
  simp only [Equation.parse, equation, andThen, skipping, bind_map, finish_bind]
  rfl

theorem equation_of_parts {b m r b' : List Char} {ts : List (String × Complex R)} {z : Complex R}
    (hb : ∀ y ∈ b, isBlank y) (hm : ∀ rest, Terms true (m ++ '=' :: rest) ts rest)
    (hr : IsRightText r z) (hb' : ∀ y ∈ b', isBlank y) :
    IsEquation (b ++ (m ++ (r ++ b'))) ts z := by
  obtain ⟨b₁, right, rfl, hb₁, hright⟩ := hr
  have hstops : Stops Numeral.isNumeric b' := by
    rw [← List.append_nil b']
    exact stops_isNumeric_of_blanks hb' (stops_nil _)
  refine .intro ⟨b, rfl, hb⟩ ?_ ⟨b₁, rfl, hb₁⟩ (hright b' hstops)
    ⟨b', (List.append_nil b').symm, hb'⟩
  rw [List.cons_append, List.append_assoc]
  exact hm _

/-- **Equations.**  What is still missing where an error stands can always be supplied. -/
theorem looksAhead_equation {one : R} (hone : Scalar.ofDecimal? 1 0 = some one)
    (hviable : ∀ text more ts (z : Complex R), IsEquation (text ++ more) ts z → viable text) :
    LooksAhead viable (fun _ _ => True) (equation (R := R)) c := by
  rw [equation]
  refine (looksAhead_skipping isBlank c).andThen fun _ c₁ b h₁ _ hb => ?_
  have hstops : Stops isBlank c₁.rest := by
    cases h₁
    exact stops_dropWhile isBlank c.rest
  have hterms : LooksAhead (fun text => viable (b ++ text))
      (fun _ text => ∃ ts, ∀ rest, Terms (R := R) true (text ++ '=' :: rest) ts rest)
      (terms true (Equation.empty (0 : Complex R))) c₁ := by
    refine looksAhead_terms hone ?_ (fun _ _ ts h => ⟨ts, h⟩) fun _ => hstops
    rintro text ⟨more, ts, hts⟩
    refine hviable _ (more ++ ['1']) ts (Complex.ofReal one) ?_
    rw [List.append_assoc]
    refine .intro ⟨b, rfl, hb.1⟩ (hts ['1']) (Run.nil _ _) (.plain (.number ?_)) (Run.nil _ _)
    exact (isNumberText_one hone).number (stops_nil _)
  refine hterms.andThen fun e c₂ m h₂ _ ⟨ts, hm⟩ => ?_
  have hequals : c₂.peek? = some '=' := by
    obtain ⟨-, rest, hrest, -⟩ := terms_of_reads (fun _ => hstops) (reads_of_eq_ok h₂)
    exact peek?_of_cons hrest
  have hright : LooksAhead (fun text => viable (b ++ (m ++ text)))
      (fun (z : Complex R) text => IsRightText text z) rightHandSide c₂ := by
    refine looksAhead_rightHandSide hone (fun text more z hr => ?_) hequals
    refine hviable _ more ts z ?_
    simpa using equation_of_parts hb.1 hm hr (List.forall_mem_nil _)
  refine hright.andThen fun z c₃ r _ _ hr => ?_
  refine (looksAhead_skipping isBlank c₃).andThen fun _ c₄ b' _ _ hb' => ?_
  refine (looksAhead_ending ?_).andThen fun _ _ _ _ _ _ => looksAhead_stay trivial fun _ _ => rfl
  refine hviable _ [] ts z ?_
  simpa using equation_of_parts hb.1 hm hr hb'.1

end Cursor

/-! ### The text before an error -/

/-- The text can be extended to one of an equation. -/
def IsViable (R : Type) [Scalar R] (text : List Char) : Prop :=
  ∃ more, ∃ e : Equation R, Equation.parse (String.ofList (text ++ more)) = .ok e

/-- The text `before` begins `s` and can be extended to an equation, but not if the next character
of `s` belongs to it. -/
structure IsLongestViable (R : Type) [Scalar R] (s : String) (before after : List Char) :
    Prop where
  split : s.toList = before ++ after
  viable : IsViable R before
  longest : ∀ x rest, after = x :: rest → ¬IsViable R (before ++ [x])

/-- The longest text with which `s` and an equation begin ends at an offset in bytes. -/
def EndsLongestViable (R : Type) [Scalar R] (s : String) (i : Nat) : Prop :=
  ∃ before after, IsLongestViable R s before after ∧ i = byteLength before

theorem exists_isLongestViable {one : R} (hone : Scalar.ofDecimal? 1 0 = some one) {s : String}
    {e : ParseError} (he : (Equation.parse s : Except ParseError (Equation R)) = .error e)
    (hpoints : e.Points) :
    ∃ before after, IsLongestViable R s before after ∧ e.Blames (byteLength before) after := by
  have hlooks : Cursor.LooksAhead (IsViable R) (fun _ _ => True) (Cursor.equation (R := R))
      (Cursor.start s) := by
    refine Cursor.looksAhead_equation hone fun text more ts z h => ?_
    have h : IsEquation (String.ofList (text ++ more)).toList ts z := by rwa [String.toList_ofList]
    exact ⟨more, _, Equation.parse_of_isEquation h⟩
  rw [Cursor.parse_eq_equation] at he
  have herror : (Cursor.start s).equation (R := R) = .error e := by
    cases h : (Cursor.start s).equation (R := R) <;> rw [h] at he <;> cases he
    rfl
  obtain ⟨before, after, hsplit, hblames, hviable, hsame⟩ := hlooks.error e herror hpoints
  rw [Cursor.start, Nat.zero_add] at hblames
  refine ⟨before, after, ⟨hsplit, hviable, ?_⟩, hblames⟩
  -- the reader fails as before, because it does not look beyond `x`
  rintro x rest rfl ⟨more, e', he'⟩
  obtain ⟨e'', he''⟩ := hsame 0 (x :: more) rfl
  rw [Cursor.parse_eq_equation, Cursor.start, String.toList_ofList, List.append_assoc,
    List.singleton_append, he''] at he'
  cases he'

theorem IsViable.of_append {before after : List Char} (h : IsViable R (before ++ after)) :
    IsViable R before := by
  obtain ⟨more, e, he⟩ := h
  rw [List.append_assoc] at he
  exact ⟨after ++ more, e, he⟩

/-- Other viable beginnings of the text are beginnings of the longest. -/
theorem IsLongestViable.isPrefix {s : String} {before after before' after' : List Char}
    (h : IsLongestViable R s before after) (hsplit : s.toList = before' ++ after')
    (hviable : IsViable R before') : before' <+: before := by
  have hbefore : before <+: s.toList := ⟨after, h.split.symm⟩
  have hbefore' : before' <+: s.toList := ⟨after', hsplit.symm⟩
  refine List.prefix_of_prefix_length_le hbefore' hbefore (Nat.not_lt.mp fun hlonger => ?_)
  obtain ⟨_ | ⟨x, rest⟩, rfl⟩ :=
    List.prefix_of_prefix_length_le hbefore hbefore' (Nat.le_of_lt hlonger)
  · simp at hlonger
  · have hnext : IsViable R (before ++ [x] ++ rest) := by rwa [List.append_assoc]
    refine h.longest x (rest ++ after') ?_ hnext.of_append
    rwa [h.split, List.append_assoc, List.append_right_inj] at hsplit

/-- **Missing signs are placed too late.**  Their index is the end of the longest viable text only
if it is the end of the whole text. -/
theorem not_endsLongestViable_of_sign {one : R} (hone : Scalar.ofDecimal? 1 0 = some one)
    {s : String} {i : Nat} (hi : i < s.utf8ByteSize)
    (he : (Equation.parse s : Except ParseError (Equation R)) =
      .error (.malformedLiteral .sign i)) : ¬EndsLongestViable R s i := by
  rintro ⟨before', after', h', rfl⟩
  obtain ⟨before, after, h, hblames⟩ := exists_isLongestViable hone he trivial
  obtain ⟨rest, hrest⟩ := h.isPrefix h'.split h'.viable
  have hlength : byteLength before' = byteLength before + byteLength (after.take 1) := hblames
  rw [utf8ByteSize_eq_byteLength, h.split, byteLength_append] at hi
  rw [← hrest, byteLength_append] at hlength hi
  cases after with
  | nil => simp at hlength hi; omega
  | cons x after =>
    have := x.utf8Size_pos
    simp at hlength
    omega

theorem exists_one : ∃ one : Float, Scalar.ofDecimal? 1 0 = some one :=
  Option.isSome_iff_exists.mp (by decide +kernel)

/-- **Where errors stand.**  If a text is no equation because of a character, then the text before
that character can be extended to one, and the text with it cannot. -/
theorem exists_isLongestViable_of_error {s : String} {e : ParseError}
    (he : (Equation.parse s : Except ParseError (Equation Float)) = .error e) (hpoints : e.Points) :
    ∃ before after, IsLongestViable Float s before after ∧ e.Blames (byteLength before) after := by
  obtain ⟨one, hone⟩ := exists_one
  exact exists_isLongestViable hone he hpoints

/-- The error of a text that is no equation. -/
def parseError? (s : String) : Option ParseError :=
  match (Equation.parse s : Except ParseError (Equation Float)) with
  | .error e => some e
  | .ok _ => none

theorem parse_of_parseError? {s : String} {e : ParseError} (h : parseError? s = some e) :
    (Equation.parse s : Except ParseError (Equation Float)) = .error e := by
  unfold parseError? at h
  split at h
  · cases h
    assumption
  · cases h

/-- A right hand side that begins with a letter. -/
theorem exists_isLongestViable_of_letter :
    (Equation.parse "2x = y" : Except ParseError (Equation Float)) =
        .error (.invalidCharacter 'y' 5) ∧
      ∃ before after, IsLongestViable Float "2x = y" before after ∧
        (ParseError.invalidCharacter 'y' 5).Blames (byteLength before) after := by
  have he := parse_of_parseError? (s := "2x = y") (e := .invalidCharacter 'y' 5) (by decide +kernel)
  exact ⟨he, exists_isLongestViable_of_error he trivial⟩

/-- The index of a missing sign is that of the character after the one that stands in its place:
no equation begins with the text before it. -/
theorem not_endsLongestViable_of_times :
    (Equation.parse "(1*2i)x = 3" : Except ParseError (Equation Float)) =
        .error (.malformedLiteral .sign 3) ∧
      ¬EndsLongestViable Float "(1*2i)x = 3" 3 := by
  have he := parse_of_parseError? (s := "(1*2i)x = 3") (e := .malformedLiteral .sign 3)
    (by decide +kernel)
  obtain ⟨one, hone⟩ := exists_one
  exact ⟨he, not_endsLongestViable_of_sign hone (by decide) he⟩

end LinearEquations
