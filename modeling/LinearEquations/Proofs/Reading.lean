import LinearEquations.Proofs.Grammar
import LinearEquations.Scalar.Basic

/-! # Reading follows the grammar

Each reader succeeds exactly on the texts that begin with its symbol of the grammar, with the value
that the symbol has there, and stops where the symbol ends (`Cursor.Reads`).

A reader skips all the blanks there are, while the grammar allows any run of them.  This makes no
difference, because what follows a run of blanks in the grammar never begins with a blank; the one
exception is an imaginary part that is left out, where the run of blanks and stars that comes next
may begin anywhere in the blanks. -/

namespace LinearEquations

/-! ### Numerals -/

namespace Grammar
open Numeral (isNumeric read?)
variable {text whole fraction : List Char} {n : Numeral}

theorem run_of_digits (h : ∀ d ∈ whole, d.isDigit) (rest : List Char) :
    Run (· ≠ '.') (whole ++ rest) rest :=
  ⟨whole, rfl, fun d hd => decide_eq_true fun heq => by
    have := h d hd
    rw [heq] at this
    cases this⟩

theorem places_of_digits (h : ∀ d ∈ whole, d.isDigit) : places whole = 0 := by
  have hrun := run_of_digits h []
  rw [List.append_nil] at hrun
  rw [places, hrun.dropWhile_eq (stops_nil _)]
  rfl

theorem places_of_point (h : ∀ d ∈ whole, d.isDigit) (fraction : List Char) :
    places (whole ++ '.' :: fraction) = fraction.length := by
  rw [places, (run_of_digits h _).dropWhile_eq (stops_cons (by decide) _)]
  rfl

theorem count_point_of_digits (h : ∀ d ∈ whole, d.isDigit) : whole.count '.' = 0 := by
  refine List.count_eq_zero.mpr fun hmem => ?_
  have := h _ hmem
  cases this

/-- Digits alone are a numeral if there are any. -/
theorem read?_of_digits (h : ∀ d ∈ whole, d.isDigit) : read? whole = some n ↔
    whole ≠ [] ∧ n = ⟨Nat.ofDigitChars 10 whole 0, 0⟩ := by
  have hrun : LongestRun Char.isDigit whole whole [] := ⟨(List.append_nil _).symm, h, stops_nil _⟩
  obtain ⟨htake, hdrop⟩ := longestRun_iff.mp hrun
  rw [read?, htake, hdrop]
  cases whole with
  | nil => exact ⟨nofun, fun h => absurd rfl h.1⟩
  | cons d whole =>
    exact ⟨fun h => ⟨nofun, (Option.some.inj h).symm⟩, fun h => congrArg some h.2.symm⟩

/-- After the first point there can only be digits. -/
theorem read?_of_point (h : ∀ d ∈ whole, d.isDigit) : read? (whole ++ '.' :: fraction) = some n ↔
    (∀ d ∈ fraction, d.isDigit) ∧ whole ++ fraction ≠ [] ∧
      n = ⟨Nat.ofDigitChars 10 (whole ++ fraction) 0, fraction.length⟩ := by
  have hrun : LongestRun Char.isDigit whole (whole ++ '.' :: fraction) ('.' :: fraction) :=
    ⟨rfl, h, stops_cons (by decide) _⟩
  obtain ⟨htake, hdrop⟩ := longestRun_iff.mp hrun
  rw [read?, htake, hdrop, ← List.all_eq_true, ← and_assoc]
  change (if _ then _ else none) = some n ↔ _
  rw [Option.ite_none_right_eq_some, Bool.and_eq_true, Bool.not_eq_true', List.isEmpty_eq_false_iff,
    Option.some.injEq, @eq_comm _ n]

theorem exists_digit_iff : (∃ d ∈ text, d.isDigit) ↔ text.filter Char.isDigit ≠ [] := by
  simp [List.filter_eq_nil_iff]

theorem forall_isDigit_iff (h : ∀ x ∈ fraction, isNumeric x) :
    (∀ d ∈ fraction, d.isDigit) ↔ fraction.count '.' = 0 := by
  refine ⟨count_point_of_digits, fun hcount x hx => ?_⟩
  rcases Bool.or_eq_true_iff.mp (h x hx) with hdigit | hpoint
  · exact hdigit
  · exact absurd (of_decide_eq_true hpoint ▸ hx) (List.count_eq_zero.mp hcount)

/-- **Digits and points are a numeral if there is a digit and at most one point.** -/
theorem read?_eq_some_iff (h : ∀ x ∈ text, isNumeric x) : read? text = some n ↔
    (∃ d ∈ text, d.isDigit) ∧ text.count '.' ≤ 1 ∧
      n = ⟨Nat.ofDigitChars 10 (text.filter Char.isDigit) 0, places text⟩ := by
  obtain ⟨htext, hwhole, hstops⟩ : LongestRun Char.isDigit (text.takeWhile Char.isDigit) text
    (text.dropWhile Char.isDigit) := longestRun_iff.mpr ⟨rfl, rfl⟩
  generalize text.takeWhile Char.isDigit = whole at htext hwhole
  -- either the text ends with its first run of digits or something else comes next
  cases hrest : text.dropWhile Char.isDigit with
  | nil =>
    rw [hrest, List.append_nil] at htext
    subst htext
    rw [read?_of_digits hwhole, exists_digit_iff, List.filter_eq_self.mpr hwhole,
      count_point_of_digits hwhole, places_of_digits hwhole, and_iff_right (Nat.zero_le 1)]
  | cons x fraction =>
    rw [hrest] at htext hstops
    subst htext
    obtain ⟨-, hnumeric⟩ := List.forall_mem_append.mp h
    obtain ⟨hx, hfraction⟩ := List.forall_mem_cons.mp hnumeric
    -- what ends the first run of digits is a point
    obtain rfl : x = '.' := by
      have := hstops x rfl
      simpa [isNumeric, this] using hx
    rw [read?_of_point hwhole, exists_digit_iff, places_of_point hwhole, List.count_append,
      count_point_of_digits hwhole, List.count_cons_self, forall_isDigit_iff hfraction]
    by_cases hcount : fraction.count '.' = 0
    · have hdigits := (forall_isDigit_iff hfraction).mpr hcount
      have hfilter : (whole ++ '.' :: fraction).filter Char.isDigit = whole ++ fraction := by
        rw [List.filter_append, List.filter_eq_self.mpr hwhole, List.filter_cons_of_neg (by decide),
          List.filter_eq_self.mpr hdigits]
      rw [hfilter, hcount, and_iff_right rfl, Nat.zero_add, Nat.zero_add,
        and_iff_right (Nat.le_refl 1)]
    · refine iff_of_false (fun h => hcount h.1) fun h => hcount ?_
      have := h.2.1
      omega

end Grammar

/-! ### Readers -/

namespace Cursor
open Grammar
variable {A : Type} {c : Cursor} {rest s : List Char} {a b : A}

/-- The reader succeeds with the given value and leaves the given text. -/
def Reads (r : Except ParseError (A × Cursor)) (a : A) (rest : List Char) : Prop :=
  ∃ c, r = .ok (a, c) ∧ c.rest = rest

theorem reads_of_eq_ok {r : Except ParseError (A × Cursor)} (h : r = .ok (a, c)) :
    Reads r a c.rest := ⟨c, h, rfl⟩

theorem reads_ok_iff : Reads (.ok (a, c)) b rest ↔ a = b ∧ c.rest = rest := by
  constructor
  · rintro ⟨c', h, rfl⟩
    cases h
    exact ⟨rfl, rfl⟩
  · rintro ⟨rfl, rfl⟩
    exact ⟨c, rfl, rfl⟩

theorem not_reads_error (e : ParseError) : ¬ Reads (.error e) a rest := by
  rintro ⟨c, h, -⟩
  cases h

theorem peek?_of_cons {x : Char} (h : c.rest = x :: rest) : c.peek? = some x := by
  rw [peek?, h]
  rfl

theorem rest_next {x : Char} (h : c.rest = x :: rest) : c.next.rest = rest := by
  simp only [next, h]

/-- The next character and what comes after it. -/
theorem rest_eq_cons {x : Char} (h : c.peek? = some x) : c.rest = x :: c.next.rest := by
  obtain ⟨rest, hrest⟩ : ∃ rest, c.rest = x :: rest := List.head?_eq_some_iff.mp h
  rw [rest_next hrest, hrest]

theorem exists_peek? {p : Char → Bool} (h : c.rest.head?.any p) :
    ∃ x, c.peek? = some x ∧ p x := (Option.any_eq_true _ _).mp h

theorem rest_skipBlanks (h : Run isBlank c.rest s) (hstops : Stops isBlank s) :
    c.skipBlanks.rest = s := h.dropWhile_eq hstops

theorem run_skipBlanks (c : Cursor) : Run isBlank c.rest c.skipBlanks.rest := run_dropWhile _ _

theorem rest_skipBlanks_of_stops (h : Stops isBlank c.rest) : c.skipBlanks.rest = c.rest :=
  h.dropWhile_eq

/-! ### Reading numbers and names -/

section Symbols
variable {R : Type} [Scalar R] {x : R} {negative : Bool}

/-- **Numbers are read as the grammar says.** -/
theorem reads_number : Reads c.number x rest ↔ Number c.rest x rest := by
  have hnumeric : ∀ y ∈ c.run Numeral.isNumeric, Numeral.isNumeric y :=
    List.all_eq_true.mp List.all_takeWhile
  unfold number
  simp only
  constructor
  · intro h
    split at h
    · rename_i y hy
      obtain ⟨rfl, rfl⟩ := reads_ok_iff.mp h
      obtain ⟨n, hn, hy⟩ := Option.bind_eq_some_iff.mp hy
      obtain ⟨hdigit, hpoint, rfl⟩ := (read?_eq_some_iff hnumeric).mp hn
      exact ⟨longestRun_iff.mpr ⟨rfl, rfl⟩, hdigit, hpoint, hy⟩
    · exact absurd h (not_reads_error _)
  · rintro ⟨hrun, hdigit, hpoint, hnearest⟩
    obtain ⟨rfl, hrest⟩ := longestRun_iff.mp hrun
    have hread := (read?_eq_some_iff hnumeric).mpr ⟨hdigit, hpoint, rfl⟩
    rw [show Numeral.read? (c.run Numeral.isNumeric) >>= _ = _ from
      Option.bind_eq_some_iff.mpr ⟨_, hread, hnearest⟩]
    exact reads_ok_iff.mpr ⟨rfl, hrest⟩

theorem run_ne_nil_iff (p : Char → Bool) : c.run p ≠ [] ↔ c.sees p := by
  obtain ⟨offset, _ | ⟨y, rest⟩⟩ := c
  · simp [run, sees, peek?]
  · cases hy : p y <;> simp [run, sees, peek?, hy]

/-- **Names are read as the grammar says.** -/
theorem reads_name {name : String} : Reads c.name name rest ↔ Name c.rest name rest := by
  unfold Cursor.name
  constructor
  · intro h
    split at h
    · rename_i hsees
      obtain ⟨rfl, rfl⟩ := reads_ok_iff.mp h
      exact ⟨longestRun_iff.mpr ⟨rfl, rfl⟩, (run_ne_nil_iff _).mpr hsees⟩
    · split at h <;> exact absurd h (not_reads_error _)
  · rintro ⟨hrun, hne⟩
    obtain ⟨rfl, hrest⟩ := longestRun_iff.mp hrun
    rw [if_pos ((run_ne_nil_iff Char.isAlpha).mp hne)]
    exact reads_ok_iff.mpr ⟨rfl, hrest⟩

/-! ### Reading literals -/

theorem minus_accept (c : Cursor) : Minus c.rest (c.accept '-').1 (c.accept '-').2.rest := by
  unfold accept
  split
  · rename_i h
    rw [rest_eq_cons h]
    exact .present _
  · exact .absent c.rest

/-- A minus sign is taken where the grammar takes it, unless another one follows. -/
theorem accept_of_minus (h : Minus c.rest negative s) (hs : s.head? ≠ some '-') :
    (c.accept '-').1 = negative ∧ (c.accept '-').2.rest = s := by
  unfold accept
  generalize hrest : c.rest = text at h
  cases h with
  | absent =>
    have hpeek : c.peek? ≠ some '-' := fun h => hs (hrest ▸ h)
    rw [if_neg hpeek]
    exact ⟨rfl, hrest⟩
  | present =>
    rw [if_pos (peek?_of_cons hrest)]
    exact ⟨rfl, rest_next hrest⟩

theorem reads_realPart : Reads c.realPart x rest ↔ Number c.rest x rest := by
  unfold realPart
  split
  · exact reads_number
  · rename_i hsees
    exact iff_of_false (not_reads_error _) fun h => hsees h.head

theorem reads_partSign : Reads c.partSign negative rest ↔ Sign c.rest negative rest := by
  unfold partSign
  constructor
  · intro h
    split at h
    · rename_i hpeek
      obtain ⟨rfl, rfl⟩ := reads_ok_iff.mp h
      exact rest_eq_cons hpeek ▸ .plus _
    · rename_i hpeek
      obtain ⟨rfl, rfl⟩ := reads_ok_iff.mp h
      exact rest_eq_cons hpeek ▸ .minus _
    · exact absurd h (not_reads_error _)
  · intro h
    generalize hrest : c.rest = text at h
    cases h <;> rw [peek?_of_cons hrest] <;> exact reads_ok_iff.mpr ⟨rfl, rest_next hrest⟩

/-- A factor is left out only where no number follows. -/
theorem reads_imaginaryPart : Reads c.imaginaryPart x rest ↔
    Number c.rest x rest ∨ c.seesNumber = false ∧ x = 1 ∧ rest = c.rest := by
  unfold imaginaryPart
  split
  · rename_i hsees
    rw [reads_number, hsees]
    exact (or_iff_left nofun).symm
  · rename_i hsees
    rw [reads_ok_iff]
    constructor
    · rintro ⟨rfl, rfl⟩
      exact .inr ⟨Bool.eq_false_iff.mpr hsees, rfl, rfl⟩
    · rintro (h | ⟨-, rfl, rfl⟩)
      · exact absurd h.head hsees
      · exact ⟨rfl, rfl⟩

theorem require_eq_ok_iff {part : LiteralPart} {y : Char} {c' : Cursor} :
    c.require part y = .ok c' ↔ c.peek? = some y ∧ c' = c.next := by
  unfold require
  split
  · rename_i h
    exact ⟨fun heq => ⟨h, (Except.ok.inj heq).symm⟩, fun heq => congrArg _ heq.2.symm⟩
  · rename_i h
    exact iff_of_false nofun fun heq => h heq.1

theorem factor_of_reads (h : Reads c.imaginaryPart x rest) : Factor c.rest x rest := by
  rcases reads_imaginaryPart.mp h with h | ⟨-, rfl, rfl⟩
  · exact .present h
  · exact .absent _

theorem run_skip (c : Cursor) (p : Char → Bool) : Run p c.rest (c.skip p).rest := run_dropWhile _ _

theorem literal_of_reads {z : Complex R} (hopen : c.peek? = some '(')
    (h : Reads c.literal z rest) : Literal c.rest z rest := by
  obtain ⟨c', h, rfl⟩ := h
  simp only [literal, bind_eq_ok, Prod.exists, require_eq_ok_iff] at h
  obtain ⟨re, c₁, hre, n, c₂, hsign, im, c₃, him, c₄, ⟨hunit, rfl⟩, c₅, ⟨hclose, rfl⟩, heq⟩ := h
  cases heq
  rw [rest_eq_cons hopen]
  exact .intro (run_skipBlanks c.next) (minus_accept _) (reads_realPart.mp (reads_of_eq_ok hre))
    (run_skipBlanks c₁) (reads_partSign.mp (reads_of_eq_ok hsign)) (run_skipBlanks c₂)
    (factor_of_reads (reads_of_eq_ok him)) (rest_eq_cons hunit ▸ run_skip c₃ isTimes)
    (rest_eq_cons hclose ▸ run_skipBlanks _)

/-- **The imaginary part up to its unit.**  Where it is left out, the grammar may divide the blanks
before the unit in any way; a reader skips them all. -/
theorem exists_imaginaryPart {s₁ s₂ : List Char} (hblanks : Run isBlank c.rest s)
    (hfactor : Factor s x s₁) (htimes : Run isTimes s₁ ('i' :: s₂)) :
    ∃ c', c.skipBlanks.imaginaryPart = .ok (x, c') ∧ (c'.skip isTimes).rest = 'i' :: s₂ := by
  have hunit : Stops isTimes ('i' :: s₂) := stops_cons (by decide) _
  cases hfactor with
  | present hnumber =>
    have hreads : Reads c.skipBlanks.imaginaryPart x s₁ := reads_imaginaryPart.mpr (.inl (by
      rw [rest_skipBlanks hblanks hnumber.stops]
      exact hnumber))
    obtain ⟨c', hc', hrest⟩ := hreads
    exact ⟨c', hc', (hrest ▸ htimes).dropWhile_eq hunit⟩
  | absent =>
    have hwide : ∀ y, isBlank y → isTimes y := fun y hy => Bool.or_eq_true_iff.mpr (.inl hy)
    have hskip : (c.skipBlanks.skip isTimes).rest = 'i' :: s₂ :=
      (dropWhile_dropWhile hwide c.rest).trans
        (((hblanks.mono hwide).trans htimes).dropWhile_eq hunit)
    -- what follows the blanks is a star or the unit, and so no number
    have hsees : c.skipBlanks.seesNumber = false := by
      refine Bool.eq_false_iff.mpr fun h => ?_
      have hstops : Stops isTimes c.skipBlanks.rest :=
        stops_of_head h fun _ => isTimes_eq_false_of_isNumeric
      have hrest : c.skipBlanks.rest = 'i' :: s₂ := hstops.dropWhile_eq.symm.trans hskip
      rw [seesNumber, sees, peek?_of_cons hrest] at h
      cases h
    exact ⟨c.skipBlanks, if_neg (Bool.eq_false_iff.mp hsees), hskip⟩

theorem reads_of_literal {z : Complex R} (h : Literal c.rest z rest) : Reads c.literal z rest := by
  generalize hrest : c.rest = text at h
  obtain @⟨_, s₁, s₂, s₃, s₄, s₅, s₆, s₇, s₈, _, n, m, re, im, hblanks, hminus, hreal, hblanks₁,
    hsign, hblanks₂, hfactor, htimes, hblanks₃⟩ := h
  -- wherever the grammar allows blanks a symbol follows that begins with none
  have h₁ : c.next.skipBlanks.rest = s₁ :=
    rest_skipBlanks (rest_next hrest ▸ hblanks) (hminus.stops hreal.stops)
  obtain ⟨hnegative, h₂⟩ := accept_of_minus (h₁ ▸ hminus) (hreal.head_ne (by decide))
  obtain ⟨c₁, hre, h₃⟩ := reads_realPart.mpr (h₂ ▸ hreal)
  have h₄ : c₁.skipBlanks.rest = s₄ := rest_skipBlanks (h₃ ▸ hblanks₁) hsign.stops
  obtain ⟨c₂, hpart, h₅⟩ := reads_partSign.mpr (h₄ ▸ hsign)
  obtain ⟨c₃, him, hunit⟩ := exists_imaginaryPart (h₅ ▸ hblanks₂) hfactor htimes
  have hclose : (c₃.skip isTimes).next.skipBlanks.rest = ')' :: rest :=
    rest_skipBlanks (rest_next hunit ▸ hblanks₃) (stops_cons (by decide) _)
  refine ⟨_, ?_, rest_next hclose⟩
  simp only [literal, bind_eq_ok, Prod.exists, require_eq_ok_iff]
  exact ⟨re, c₁, hre, m, c₂, hpart, im, c₃, him, _, ⟨peek?_of_cons hunit, rfl⟩, _,
    ⟨peek?_of_cons hclose, rfl⟩, by rw [hnegative]; rfl⟩

/-- **Literals are read as the grammar says.** -/
theorem reads_literal {z : Complex R} (hopen : c.peek? = some '(') :
    Reads c.literal z rest ↔ Literal c.rest z rest := ⟨literal_of_reads hopen, reads_of_literal⟩

/-! ### Reading magnitudes -/

variable {z : Complex R} {name : String} {first : Bool} {t : String × Complex R}

/-- A reader whose value is changed afterwards. -/
theorem reads_map_iff {B : Type} {f : A → B} {r : Except ParseError (A × Cursor)} {b : B} :
    Reads (r.map fun (a, c) => (f a, c)) b rest ↔ ∃ a, Reads r a rest ∧ f a = b := by
  cases r with
  | error e => exact iff_of_false (not_reads_error e) fun ⟨_, h, _⟩ => not_reads_error e h
  | ok r =>
    obtain ⟨a, c⟩ := r
    change Reads (.ok (f a, c)) b rest ↔ _
    rw [reads_ok_iff]
    constructor
    · rintro ⟨rfl, rfl⟩
      exact ⟨a, reads_ok_iff.mpr ⟨rfl, rfl⟩, rfl⟩
    · rintro ⟨a', h, rfl⟩
      obtain ⟨rfl, rfl⟩ := reads_ok_iff.mp h
      exact ⟨rfl, rfl⟩

theorem exists_magnitude?_iff :
    (∃ r, c.magnitude? = some r ∧ Reads r z rest) ↔ Magnitude c.rest z rest := by
  unfold magnitude?
  constructor
  · rintro ⟨r, hr, hreads⟩
    split at hr
    · cases hr
      obtain ⟨x, hx, rfl⟩ := reads_map_iff.mp hreads
      exact .number (reads_number.mp hx)
    · split at hr
      · rename_i hopen
        cases hr
        exact .literal ((reads_literal hopen).mp hreads)
      · cases hr
  · intro h
    cases h with
    | number h =>
      rw [if_pos (show c.seesNumber from h.head)]
      exact ⟨_, rfl, reads_map_iff.mpr ⟨_, reads_number.mpr h, rfl⟩⟩
    | literal h =>
      have hopen : c.peek? = some '(' := h.head
      rw [if_neg (by rw [seesNumber, sees, hopen]; decide), if_pos hopen]
      exact ⟨_, rfl, (reads_literal hopen).mpr h⟩

/-- **A magnitude is read as the grammar says**, whatever the error is where there is none. -/
theorem reads_magnitude {e : ParseError} :
    Reads (c.magnitude?.getD (.error e)) z rest ↔ Magnitude c.rest z rest := by
  rw [← exists_magnitude?_iff]
  cases c.magnitude? (R := R) with
  | none => exact iff_of_false (not_reads_error e) nofun
  | some r =>
    constructor
    · intro h
      exact ⟨r, rfl, h⟩
    · rintro ⟨_, ⟨⟩, h⟩
      exact h

/-! ### Reading terms -/

/-- No magnitude begins with a letter. -/
theorem magnitude?_eq_none (h : c.rest.head?.any Char.isAlpha) :
    c.magnitude? (R := R) = none := by
  obtain ⟨x, hpeek, hletter⟩ := exists_peek? h
  have hsees : ¬ c.seesNumber := by
    rw [seesNumber, sees, hpeek, Option.any_some, isNumeric_eq_false_of_isAlpha hletter]
    exact Bool.false_ne_true
  have hopen : c.peek? ≠ some '(' := by
    rw [hpeek]
    rintro ⟨⟩
    cases hletter
  rw [magnitude?, if_neg hsees, if_neg hopen]

theorem body_of_reads {c₁ : Cursor} (hstops : Stops isBlank c.rest)
    (hsize : c.magnitude?.getD (.ok (1, c)) = .ok (z, c₁))
    (hname : Reads c₁.skipBlanks.name name rest) : Body c.rest name z rest := by
  have hname := reads_name.mp hname
  cases hm : c.magnitude? (R := R) with
  | none =>
    rw [hm] at hsize
    cases hsize
    rw [rest_skipBlanks_of_stops hstops] at hname
    exact .bare hname
  | some r =>
    rw [hm] at hsize
    have hmagnitude := exists_magnitude?_iff.mp ⟨r, hm, reads_of_eq_ok hsize⟩
    exact .sized hmagnitude (run_skipBlanks c₁) hname

theorem reads_of_body (h : Body c.rest name z rest) :
    ∃ c₁, c.magnitude?.getD (.ok (1, c)) = .ok (z, c₁) ∧ Reads c₁.skipBlanks.name name rest := by
  cases h with
  | bare hname =>
    rw [magnitude?_eq_none hname.head]
    refine ⟨c, rfl, reads_name.mpr ?_⟩
    rw [rest_skipBlanks_of_stops hname.stops]
    exact hname
  | sized hsize hblanks hname =>
    obtain ⟨r, hr, c₁, rfl, hrest⟩ := exists_magnitude?_iff.mpr hsize
    rw [hr]
    refine ⟨c₁, rfl, reads_name.mpr ?_⟩
    rw [rest_skipBlanks (hrest ▸ hblanks) hname.stops]
    exact hname

theorem term_of_reads (hstops : first → Stops isBlank c.rest) (h : Reads (c.term first) t rest) :
    Term first c.rest t rest := by
  obtain ⟨c', h, rfl⟩ := h
  simp only [term, bind_eq_ok, Prod.exists] at h
  obtain ⟨n, c₁, hsign, z, c₂, hsize, name, c₃, hname, heq⟩ := h
  cases heq
  have hbody := body_of_reads (c := c₁.skipBlanks) (stops_dropWhile _ _) hsize
    (reads_of_eq_ok hname)
  unfold termSign at hsign
  split at hsign
  · rename_i hpeek
    cases hsign
    exact .signed (rest_eq_cons hpeek ▸ .plus _) (run_skipBlanks _) hbody
  · rename_i hpeek
    cases hsign
    exact .signed (rest_eq_cons hpeek ▸ .minus _) (run_skipBlanks _) hbody
  · split at hsign
    · rename_i hfirst
      cases hsign
      rw [rest_skipBlanks_of_stops (hstops hfirst)] at hbody
      subst hfirst
      exact .bare hbody
    · cases hsign
  · cases hsign

theorem termSign_of_sign (first : Bool) {n : Bool} (h : Sign c.rest n s) :
    c.termSign first = .ok (n, c.next) ∧ c.next.rest = s := by
  unfold termSign
  generalize hrest : c.rest = text at h
  cases h <;> rw [peek?_of_cons hrest] <;> exact ⟨rfl, rest_next hrest⟩

theorem termSign_of_body (h : Body c.rest name z rest) : c.termSign true = .ok (false, c) := by
  obtain ⟨x, hpeek, hbegins⟩ := exists_peek? h.head
  unfold termSign
  rw [hpeek]
  -- no body begins with a sign
  split
  · rename_i heq
    cases heq
    cases hbegins
  · rename_i heq
    cases heq
    cases hbegins
  · rfl
  · rename_i heq
    cases heq

theorem reads_of_term (h : Term first c.rest t rest) : Reads (c.term first) t rest := by
  cases h with
  | signed hsign hblanks hbody =>
    obtain ⟨hsign', hrest⟩ := termSign_of_sign first hsign
    have hbody' := rest_skipBlanks (hrest ▸ hblanks) hbody.stops ▸ hbody
    obtain ⟨c₁, hsize, c₂, hname, hrest'⟩ := reads_of_body hbody'
    refine ⟨c₂, ?_, hrest'⟩
    simp only [term, bind_eq_ok, Prod.exists]
    exact ⟨_, _, hsign', _, c₁, hsize, _, c₂, hname, rfl⟩
  | bare hbody =>
    obtain ⟨c₁, hsize, c₂, hname, hrest'⟩ := reads_of_body
      (rest_skipBlanks_of_stops hbody.stops ▸ hbody)
    refine ⟨c₂, ?_, hrest'⟩
    simp only [term, bind_eq_ok, Prod.exists]
    exact ⟨_, _, termSign_of_body hbody, _, c₁, hsize, _, c₂, hname, rfl⟩

/-! ### Reading equations -/

variable {e e' : Equation R} {ts : List (String × Complex R)}

theorem terms_of_reads (hstops : first → Stops isBlank c.rest)
    (h : Reads (c.terms first e) e' rest) : ∃ ts s, rest = '=' :: s ∧ Terms first c.rest ts s ∧
      e.setAll ts = e' := by
  -- only the first term is read with `first`, and only there blanks in front would pass unnoticed
  fun_induction terms first e c with
  | case1 => exact absurd h (not_reads_error _)
  | case2 => exact absurd h (not_reads_error _)
  | case3 first e c hfirst hpeek =>
    obtain ⟨rfl, rfl⟩ := reads_ok_iff.mp h
    obtain rfl : first = false := Bool.eq_false_iff.mpr hfirst
    exact ⟨[], c.next.rest, rest_eq_cons hpeek, rest_eq_cons hpeek ▸ .done _, rfl⟩
  | case4 => exact absurd h (not_reads_error _)
  | case5 first e c x hpeek hx name coefficient c' hterm ih =>
    obtain ⟨ts, s, hrest, hterms, hset⟩ := ih nofun h
    have hterm := term_of_reads hstops (reads_of_eq_ok hterm)
    exact ⟨(name, coefficient) :: ts, s, hrest, .more hterm (run_skipBlanks c') hterms, hset⟩

/-- A term is read and set before those that follow. -/
theorem terms_of_term {c' : Cursor} (hhead : c.rest.head?.any (· ≠ '='))
    (hterm : c.term first = .ok (t, c')) :
    c.terms first e = c'.skipBlanks.terms false (e.set t.1 t.2) := by
  obtain ⟨x, hpeek, hne⟩ := exists_peek? hhead
  rw [terms, hpeek]
  simp only
  rw [if_neg (of_decide_eq_true hne)]
  split
  · rename_i herror
    rw [hterm] at herror
    cases herror
  · rename_i hok
    rw [hterm] at hok
    cases hok
    rfl

theorem reads_of_terms (h : Terms first c.rest ts s) :
    Reads (c.terms first e) (e.setAll ts) ('=' :: s) := by
  generalize hrest : c.rest = text at h
  induction h generalizing c e with
  | done =>
    rw [terms, peek?_of_cons hrest]
    exact reads_ok_iff.mpr ⟨rfl, hrest⟩
  | more hterm hblanks hothers ih =>
    subst hrest
    obtain ⟨c', hc', hrest⟩ := reads_of_term hterm
    rw [terms_of_term hterm.head hc']
    exact ih (rest_skipBlanks (hrest ▸ hblanks) hothers.stops)

/-- **The right hand side is read as the grammar says.** -/
theorem reads_rightHandSide :
    Reads c.rightHandSide z rest ↔ RightHandSide c.next.skipBlanks.rest z rest := by
  unfold rightHandSide
  generalize c.next.skipBlanks = d
  constructor
  · rintro ⟨c', h, rfl⟩
    simp only [bind_eq_ok, Prod.exists] at h
    obtain ⟨a, c₁, hsize, heq⟩ := h
    cases heq
    by_cases hpeek : d.peek? = some '-'
    · have haccept : d.accept '-' = (true, d.next) := if_pos hpeek
      rw [haccept] at hsize ⊢
      rw [rest_eq_cons hpeek]
      exact .negated (run_skipBlanks d.next) (reads_magnitude.mp (reads_of_eq_ok hsize))
    · have haccept : d.accept '-' = (false, d) := if_neg hpeek
      rw [haccept] at hsize ⊢
      exact .plain (reads_magnitude.mp (reads_of_eq_ok hsize))
  · intro h
    generalize hrest : d.rest = text at h
    cases h with
    | plain hsize =>
      subst hrest
      have haccept : d.accept '-' = (false, d) := if_neg hsize.head_ne_minus
      obtain ⟨c', hc', hrest'⟩ := reads_magnitude.mpr hsize
      rw [haccept]
      exact ⟨c', bind_eq_ok.mpr ⟨_, hc', rfl⟩, hrest'⟩
    | negated hblanks hsize =>
      have haccept : d.accept '-' = (true, d.next) := if_pos (peek?_of_cons hrest)
      have hskip := rest_skipBlanks (rest_next hrest ▸ hblanks) hsize.stops
      obtain ⟨c', hc', hrest'⟩ := reads_magnitude.mpr (hskip ▸ hsize)
      rw [haccept]
      exact ⟨c', bind_eq_ok.mpr ⟨_, hc', rfl⟩, hrest'⟩

/-- **Only blanks may follow.** -/
theorem finish_eq_ok_iff : c.finish = .ok () ↔ Run isBlank c.rest [] := by
  have hpeek : c.skipBlanks.peek?.isNone ↔ c.skipBlanks.rest = [] := by
    rw [peek?, Option.isNone_iff_eq_none, List.head?_eq_none_iff]
  unfold finish
  split
  · rename_i h
    exact iff_of_true rfl (hpeek.mp h ▸ run_skipBlanks c)
  · rename_i h
    constructor
    · intro heq
      cases heq
    · intro hrun
      exact absurd (hpeek.mpr (rest_skipBlanks hrun (stops_nil isBlank))) h

end Symbols
end Cursor

open Cursor Grammar
variable {R : Type} [Scalar R]

namespace Equation
variable {text : String} {e : Equation R} {ts : List (String × Complex R)} {rhs : Complex R}

/-- A text that is read is derived. -/
theorem exists_isEquation_of_parse (h : Equation.parse text = .ok e) :
    ∃ ts rhs, IsEquation text.toList ts rhs ∧ e = ((Equation.empty 0).setAll ts).withRhs rhs := by
  simp only [parse, bind_eq_ok, Prod.exists] at h
  obtain ⟨e', c₁, hterms, rhs, c₂, hrhs, ⟨⟩, hfinish, heq⟩ := h
  cases heq
  obtain ⟨ts, s, hrest, hts, rfl⟩ :=
    terms_of_reads (fun _ => stops_dropWhile _ _) (reads_of_eq_ok hterms)
  have hright := reads_rightHandSide.mp (reads_of_eq_ok hrhs)
  exact ⟨ts, rhs, .intro (run_skipBlanks (start text)) hts
    (rest_next hrest ▸ run_skipBlanks c₁.next) hright (finish_eq_ok_iff.mp hfinish), rfl⟩

/-- A text that is derived is read. -/
theorem parse_of_isEquation (h : IsEquation text.toList ts rhs) :
    Equation.parse text = .ok (((Equation.empty 0).setAll ts).withRhs rhs) := by
  obtain ⟨hblanks, hterms, hblanks₁, hright, hblanks₂⟩ := h
  have h₁ := rest_skipBlanks (c := start text) hblanks hterms.stops
  obtain ⟨c₁, hc₁, hrest⟩ := reads_of_terms (h₁ ▸ hterms)
  have h₃ := rest_skipBlanks (rest_next hrest ▸ hblanks₁) hright.stops
  obtain ⟨c₂, hc₂, hrest₂⟩ := reads_rightHandSide.mpr (h₃ ▸ hright)
  simp only [parse, bind_eq_ok, Prod.exists]
  exact ⟨_, c₁, hc₁, rhs, c₂, hc₂, (), finish_eq_ok_iff.mpr (hrest₂ ▸ hblanks₂), rfl⟩

end Equation

/-- **A text is read as an equation exactly if the grammar derives it**, and then as the equation
whose terms the derivation sets from left to right. -/
theorem Equation.parse_eq_ok_iff (text : String) (e : Equation R) :
    Equation.parse text = .ok e ↔
      ∃ ts rhs, IsEquation text.toList ts rhs ∧
        e = ((Equation.empty 0).setAll ts).withRhs rhs := by
  constructor
  · exact exists_isEquation_of_parse
  · rintro ⟨ts, rhs, h, rfl⟩
    exact parse_of_isEquation h

/-- Blanks and stars before the imaginary unit, but no blank after the minus sign of a real part. -/
example : (["-(0 - 2 * i)Z=1", "( - 1 + i)z = 1"].map fun text =>
    (Equation.parse text : Except ParseError (Equation Rat)).toOption.map fun e =>
      (e.terms, e.rhs)) = [some ([("z", ⟨0, 2⟩)], ⟨1, 0⟩), none] := by decide +kernel

end LinearEquations
