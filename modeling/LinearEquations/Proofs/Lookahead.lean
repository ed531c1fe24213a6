import LinearEquations.Proofs.ErrorPlace

/-! # Reading with one character of lookahead

No reader looks further ahead than one character: what it has taken so far and the next character
settle whether it goes on, stops or fails (`Cursor.LooksAhead`).  So if an error blames a character,
every text that goes on the same way up to that character fails as well.

The judgement also carries what is known of the text that a reader takes, and of the text before an
error.  Readers are composed by `LooksAhead.andThen`, which prepends what the first reader took to
both; a proof about a composed reader follows its steps, and only the leaves need an argument. -/

namespace LinearEquations
open Grammar

namespace ParseError

/-- An error that names the place of a single character. -/
def Points : ParseError → Prop
  | invalidCharacter _ _ | malformedLiteral _ _ | expectedUnknown _ => True
  | _ => False

/-- The error is about the place `place`, after which the text `after` follows.  If the sign between
the parts of a literal is missing, the index is that of the character after the one at fault; all
other errors have the index of the place itself. -/
def Blames (place : Nat) (after : List Char) : ParseError → Prop
  | invalidCharacter x i => i = place ∧ after.head? = some x
  | malformedLiteral .sign i => i = place + byteLength (after.take 1)
  | malformedLiteral _ i | expectedUnknown i => i = place
  | _ => True

end ParseError

namespace Cursor

/-- Readers of values. -/
abbrev Reader (A : Type) := Cursor → Except ParseError (A × Cursor)

variable {A B : Type}

/-- One reader after another. -/
def andThen (f : Reader A) (g : A → Reader B) : Reader B := fun c => f c >>= fun p => g p.1 p.2

/-- What a reader does at a place.  If it succeeds, the text that it takes is `taken` with its
value, and if it fails with an error about a character, the text before that character is `viable`.
Both depend on no more of the following text than the next character. -/
structure LooksAhead (viable : List Char → Prop) (taken : A → List Char → Prop) (f : Reader A)
    (c : Cursor) : Prop where
  ok : ∀ a c', f c = .ok (a, c') → ∃ run, c.rest = run ++ c'.rest ∧
    c'.offset = c.offset + byteLength run ∧ taken a run ∧
    ∀ offset rest, rest.head? = c'.rest.head? →
      f ⟨offset, run ++ rest⟩ = .ok (a, ⟨offset + byteLength run, rest⟩)
  error : ∀ e, f c = .error e → e.Points → ∃ run after, c.rest = run ++ after ∧
    e.Blames (c.offset + byteLength run) after ∧ viable run ∧
    ∀ offset rest, rest.head? = after.head? → ∃ e', f ⟨offset, run ++ rest⟩ = .error e'

variable {viable : List Char → Prop} {taken : A → List Char → Prop} {taken' : B → List Char → Prop}
variable {f f' : Reader A} {g : A → Reader B} {c : Cursor} {p : Char → Bool} {x : Char}

theorem head?_append_congr {rest after : List Char} (h : rest.head? = after.head?)
    (run : List Char) : (run ++ rest).head? = (run ++ after).head? := by
  cases run with
  | nil => exact h
  | cons x run => rfl

theorem peek?_append_congr {offset : Nat} {run rest after : List Char} (hc : c.rest = run ++ after)
    (h : rest.head? = after.head?) : (⟨offset, run ++ rest⟩ : Cursor).peek? = c.peek? := by
  rw [peek?, peek?, hc]
  exact head?_append_congr h run

/-- **Readers look ahead one after another.** -/
theorem LooksAhead.andThen (hf : LooksAhead viable taken f c)
    (hg : ∀ a c' run, f c = .ok (a, c') → c.rest = run ++ c'.rest → taken a run →
      LooksAhead (fun text => viable (run ++ text)) (fun b text => taken' b (run ++ text))
        (g a) c') : LooksAhead viable taken' (andThen f g) c where
  ok b d hb := by
    obtain ⟨⟨a, c'⟩, ha, hb⟩ := bind_eq_ok.mp hb
    obtain ⟨run, hrest, hoffset, htaken, hsame⟩ := hf.ok a c' ha
    obtain ⟨run', hrest', hoffset', htaken', hsame'⟩ := (hg a c' run ha hrest htaken).ok b d hb
    refine ⟨run ++ run', ?_, ?_, htaken', fun offset rest hhead => ?_⟩
    · rw [hrest, hrest', List.append_assoc]
    · rw [hoffset', hoffset, byteLength_append, Nat.add_assoc]
    · have hnext : (run' ++ rest).head? = c'.rest.head? := by
        rw [hrest']
        exact head?_append_congr hhead run'
      rw [Cursor.andThen, List.append_assoc, hsame offset _ hnext, byteLength_append,
        ← Nat.add_assoc]
      exact hsame' _ rest hhead
  error e he hpoints := by
    rcases bind_eq_error.mp he with he | ⟨⟨a, c'⟩, ha, he⟩
    -- the first reader fails, and then the second is never called
    · obtain ⟨run, after, hrest, hblames, hviable, hsame⟩ := hf.error e he hpoints
      refine ⟨run, after, hrest, hblames, hviable, fun offset rest hhead => ?_⟩
      obtain ⟨e', he'⟩ := hsame offset rest hhead
      exact ⟨e', bind_eq_error.mpr (.inl he')⟩
    · obtain ⟨run, hrest, hoffset, htaken, hsame⟩ := hf.ok a c' ha
      obtain ⟨run', after, hrest', hblames, hviable, hsame'⟩ :=
        (hg a c' run ha hrest htaken).error e he hpoints
      refine ⟨run ++ run', after, ?_, ?_, hviable, fun offset rest hhead => ?_⟩
      · rw [hrest, hrest', List.append_assoc]
      · rw [byteLength_append, ← Nat.add_assoc, ← hoffset]
        exact hblames
      · have hnext : (run' ++ rest).head? = c'.rest.head? := by
          rw [hrest']
          exact head?_append_congr hhead run'
        obtain ⟨e', he'⟩ := hsame' (offset + byteLength run) rest hhead
        refine ⟨e', bind_eq_error.mpr (.inr ⟨(a, ⟨_, run' ++ rest⟩), ?_, he'⟩)⟩
        rw [List.append_assoc]
        exact hsame offset _ hnext

/-- Readers that do the same wherever the next character is this one. -/
theorem LooksAhead.congr (h : LooksAhead viable taken f c)
    (heq : ∀ d : Cursor, d.peek? = c.peek? → f' d = f d) : LooksAhead viable taken f' c where
  ok a c' ha := by
    rw [heq c rfl] at ha
    obtain ⟨run, hrest, hoffset, htaken, hsame⟩ := h.ok a c' ha
    refine ⟨run, hrest, hoffset, htaken, fun offset rest hhead => ?_⟩
    rw [heq _ (peek?_append_congr hrest hhead)]
    exact hsame offset rest hhead
  error e he hpoints := by
    rw [heq c rfl] at he
    obtain ⟨run, after, hrest, hblames, hviable, hsame⟩ := h.error e he hpoints
    refine ⟨run, after, hrest, hblames, hviable, fun offset rest hhead => ?_⟩
    rw [heq _ (peek?_append_congr hrest hhead)]
    exact hsame offset rest hhead

/-- More may be known of the texts than is needed. -/
theorem LooksAhead.mono {viable' : List Char → Prop} {taken' : A → List Char → Prop}
    (h : LooksAhead viable taken f c) (hviable : ∀ text, viable text → viable' text)
    (htaken : ∀ a text, taken a text → taken' a text) : LooksAhead viable' taken' f c where
  ok a c' ha := by
    obtain ⟨run, hrest, hoffset, hrun, hsame⟩ := h.ok a c' ha
    exact ⟨run, hrest, hoffset, htaken a run hrun, hsame⟩
  error e he hpoints := by
    obtain ⟨run, after, hrest, hblames, hrun, hsame⟩ := h.error e he hpoints
    exact ⟨run, after, hrest, hblames, hviable run hrun, hsame⟩

/-! ### Leaves -/

/-- A reader that takes nothing. -/
theorem looksAhead_stay {a : A} (htaken : taken a [])
    (heq : ∀ d : Cursor, d.peek? = c.peek? → f d = .ok (a, d)) : LooksAhead viable taken f c where
  ok b c' hb := by
    rw [heq c rfl] at hb
    cases hb
    exact ⟨[], rfl, rfl, htaken, fun offset rest hhead => heq _ hhead⟩
  error e he := by
    rw [heq c rfl] at he
    cases he

/-- A reader that takes the next character. -/
theorem looksAhead_next {a : A} (hx : c.peek? = some x) (htaken : taken a [x])
    (heq : ∀ d : Cursor, d.peek? = c.peek? → f d = .ok (a, d.next)) :
    LooksAhead viable taken f c where
  ok b c' hb := by
    rw [heq c rfl] at hb
    cases hb
    have hrest := rest_eq_cons hx
    refine ⟨[x], hrest, ?_, htaken, fun offset rest hhead => heq _ hx.symm⟩
    rw [next, hrest]
    simp
  error e he := by
    rw [heq c rfl] at he
    cases he

/-- A reader that fails at the next character. -/
theorem looksAhead_fail {e : ParseError} (he : f c = .error e) (hblames : e.Blames c.offset c.rest)
    (hviable : viable []) (heq : ∀ d : Cursor, d.peek? = c.peek? → ∃ e', f d = .error e') :
    LooksAhead viable taken f c where
  ok a c' ha := by
    rw [he] at ha
    cases ha
  error e' he' _ := by
    rw [he] at he'
    cases he'
    exact ⟨[], c.rest, rfl, hblames, hviable, fun offset rest hhead => heq _ hhead⟩

/-- A reader that fails without blaming a character. -/
theorem looksAhead_silent {e : ParseError} (he : f c = .error e) (hsilent : ¬e.Points) :
    LooksAhead viable taken f c where
  ok a c' ha := by
    rw [he] at ha
    cases ha
  error e' he' hpoints := by
    rw [he] at he'
    cases he'
    exact absurd hpoints hsilent

/-! ### Runs -/

theorem run_append {offset : Nat} {run rest : List Char} (hrun : ∀ y ∈ run, p y)
    (hstops : Stops p rest) : (⟨offset, run ++ rest⟩ : Cursor).run p = run := by
  rw [Cursor.run, List.takeWhile_append_of_pos hrun, hstops.takeWhile_eq, List.append_nil]

theorem skip_append {offset : Nat} {run rest : List Char} (hrun : ∀ y ∈ run, p y)
    (hstops : Stops p rest) :
    (⟨offset, run ++ rest⟩ : Cursor).skip p = ⟨offset + byteLength run, rest⟩ := by
  ext1
  · rw [offset_skip, run_append hrun hstops]
  · exact (List.dropWhile_append_of_pos hrun).trans hstops.dropWhile_eq

/-- A reader that takes a run of characters of one kind. -/
theorem looksAhead_run {a : A} (htaken : taken a (c.run p))
    (heq : ∀ d : Cursor, d.run p = c.run p → f d = .ok (a, d.skip p)) :
    LooksAhead viable taken f c where
  ok b c' hb := by
    rw [heq c rfl] at hb
    cases hb
    refine ⟨c.run p, List.takeWhile_append_dropWhile.symm, offset_skip c p, htaken,
      fun offset rest hhead => ?_⟩
    have hrun : ∀ y ∈ c.run p, p y := List.all_eq_true.mp List.all_takeWhile
    have hstops : Stops p rest := fun y hy => stops_dropWhile p c.rest y (hhead ▸ hy)
    rw [heq _ (run_append hrun hstops), skip_append hrun hstops]
  error e he := by
    rw [heq c rfl] at he
    cases he

/-- Passing over characters of one kind. -/
def skipping (p : Char → Bool) : Reader Unit := fun c => .ok ((), c.skip p)

theorem looksAhead_skipping (p : Char → Bool) (c : Cursor) :
    LooksAhead viable (fun _ text => (∀ y ∈ text, p y) ∧ (Stops p c.rest → text = []))
      (skipping p) c :=
  looksAhead_run ⟨List.all_eq_true.mp List.all_takeWhile, Stops.takeWhile_eq⟩ fun _ _ => rfl

/-- Passing over the next character. -/
def advancing : Reader Unit := fun c => .ok ((), c.next)

theorem looksAhead_advancing (hx : c.peek? = some x) :
    LooksAhead viable (fun _ text => text = [x]) advancing c :=
  looksAhead_next hx rfl fun _ _ => rfl

/-- Passing over a character if it comes next. -/
def accepting (x : Char) : Reader Bool := fun c => .ok (c.accept x)

theorem looksAhead_accepting (x : Char) (c : Cursor) :
    LooksAhead viable (fun taken text => text = if taken then [x] else []) (accepting x) c := by
  by_cases hx : c.peek? = some x
  · refine looksAhead_next (a := true) hx rfl fun d hd => ?_
    rw [accepting, accept, if_pos (hd.trans hx)]
  · refine looksAhead_stay (a := false) rfl fun d hd => ?_
    rw [accepting, accept, if_neg (hd ▸ hx)]

end Cursor
end LinearEquations
