import LinearEquations.Proofs.AugmentedMatrix

/-! # Equations as maps in the order of first mention

However an equation is put together, what counts of the coefficients that were set is where each
unknown was mentioned first and what it was given last (`Equation.Records`).  One more coefficient
keeps this (`Equation.Records.set`), and so it holds after every sequence of changes
(`Equation.records_build`).

A text is read by setting the terms of its derivation from left to right, so the same holds of an
equation that is read.  The names that its terms mention are runs of letters of the text, in the
order in which they stand there and with upper case folded (`Grammar.Terms.exists_words`). -/

namespace LinearEquations
open Grammar

/-! ### First mentions -/

namespace IsFirstMentionOrder
variable {mentions names : List String} {x : String}

/-- A name that was mentioned before keeps its place. -/
theorem mention_again (h : IsFirstMentionOrder mentions names) (hx : x ∈ names) :
    IsFirstMentionOrder (mentions ++ [x]) names := by
  refine ⟨fun y => ?_, h.ordered.imp_of_mem fun {y z} hy hz hlt => ?_⟩
  · rw [List.mem_append, List.mem_singleton, h.mem_iff]
    refine ⟨.inl, fun hy => hy.elim id ?_⟩
    rintro rfl
    exact (h.mem_iff y).mp hx
  · rwa [List.idxOf_append_of_mem ((h.mem_iff y).mp hy),
      List.idxOf_append_of_mem ((h.mem_iff z).mp hz)]

/-- A name that was not mentioned before comes after all others. -/
theorem mention_new (h : IsFirstMentionOrder mentions names) (hx : x ∉ names) :
    IsFirstMentionOrder (mentions ++ [x]) (names ++ [x]) := by
  have hnew : x ∉ mentions := fun hmem => hx ((h.mem_iff x).mpr hmem)
  refine ⟨fun y => ?_, List.pairwise_append.mpr ⟨?_, List.pairwise_singleton _ _, ?_⟩⟩
  · rw [List.mem_append, List.mem_append, h.mem_iff]
  · refine h.ordered.imp_of_mem fun {y z} hy hz hlt => ?_
    rwa [List.idxOf_append_of_mem ((h.mem_iff y).mp hy),
      List.idxOf_append_of_mem ((h.mem_iff z).mp hz)]
  · intro y hy z hz
    obtain rfl := List.mem_singleton.mp hz
    have hmem := (h.mem_iff y).mp hy
    rw [List.idxOf_append_of_mem hmem, List.idxOf_append_of_notMem hnew]
    exact Nat.lt_add_right _ (List.idxOf_lt_length_of_mem hmem)

end IsFirstMentionOrder

namespace Equation
variable {R : Type} {e : Equation R} {name other : String} {a : Complex R}
variable {mentions ts : List (String × Complex R)}

/-! ### Setting a coefficient -/

theorem unknowns_set (e : Equation R) (name : String) (a : Complex R) :
    (e.set name a).unknowns = if name ∈ e.unknowns then e.unknowns else e.unknowns ++ [name] :=
  map_fst_setTerm name a e.terms

theorem find?_setTerm_self (ts : List (String × Complex R)) :
    (setTerm name a ts).find? (fun t => t.1 = name) = some (name, a) := by
  induction ts with
  | nil => simp [setTerm]
  | cons t ts ih =>
    rw [setTerm]
    split
    · exact List.find?_cons_of_pos (by simp)
    · rename_i hne
      rw [List.find?_cons_of_neg (by simpa using hne), ih]

theorem find?_setTerm_of_ne (h : other ≠ name) (ts : List (String × Complex R)) :
    (setTerm name a ts).find? (fun t => t.1 = other) = ts.find? fun t => t.1 = other := by
  have hname : ¬ name = other := fun heq => h heq.symm
  induction ts with
  | nil => simp [setTerm, hname]
  | cons t ts ih =>
    rw [setTerm]
    split
    · rename_i heq
      rw [List.find?_cons_of_neg (by simpa using hname),
        List.find?_cons_of_neg (by simpa [heq] using hname)]
    · rw [List.find?_cons, List.find?_cons, ih]

theorem coefficient?_set_self (e : Equation R) (name : String) (a : Complex R) :
    (e.set name a).coefficient? name = some a :=
  congrArg (Option.map Prod.snd) (find?_setTerm_self e.terms)

/-- Setting a coefficient leaves those of the other unknowns as they are. -/
theorem coefficient?_set_of_ne (e : Equation R) (h : other ≠ name) :
    (e.set name a).coefficient? other = e.coefficient? other :=
  congrArg (Option.map Prod.snd) (find?_setTerm_of_ne h e.terms)

/-- Setting a coefficient leaves the other unknowns in their places. -/
theorem idxOf?_unknowns_set (e : Equation R) (h : other ≠ name) :
    (e.set name a).unknowns.idxOf? other = e.unknowns.idxOf? other := by
  rw [unknowns_set]
  split
  · rfl
  · have hname : (name == other) = false := beq_false_of_ne (Ne.symm h)
    rw [List.idxOf?, List.findIdx?_append, List.findIdx?_singleton, hname]
    simp

/-! ### What an equation remembers -/

/-- The equation is the map of the given mentions: each unknown once, in the order of first mention
and with the coefficient of its last one. -/
structure Records (e : Equation R) (mentions : List (String × Complex R)) : Prop where
  distinct : e.unknowns.Nodup
  order : IsFirstMentionOrder (mentions.map Prod.fst) e.unknowns
  last : ∀ before name a after, mentions = before ++ (name, a) :: after →
    name ∉ after.map Prod.fst → e.coefficient? name = some a
  missing : ∀ name, name ∉ mentions.map Prod.fst → e.coefficient? name = none

theorem records_empty (rhs : Complex R) : (empty rhs).Records [] where
  distinct := List.nodup_nil
  order := ⟨fun _ => Iff.rfl, List.Pairwise.nil⟩
  last _ _ _ _ h := absurd h.symm (List.append_ne_nil_of_right_ne_nil _ (List.cons_ne_nil _ _))
  missing _ _ := rfl

/-- The right hand side has no part in it. -/
theorem Records.withRhs (h : e.Records mentions) (rhs : Complex R) :
    (e.withRhs rhs).Records mentions :=
  ⟨h.distinct, h.order, h.last, h.missing⟩

/-- **One more mention.** -/
theorem Records.set (h : e.Records mentions) (name : String) (a : Complex R) :
    (e.set name a).Records (mentions ++ [(name, a)]) where
  distinct := (e.set name a).nodup
  order := by
    rw [unknowns_set, List.map_append, List.map_singleton]
    split
    · rename_i hmem
      exact h.order.mention_again hmem
    · rename_i hnew
      exact h.order.mention_new hnew
  last before other b after heq hlast := by
    -- the last mention is the new one or one of the old ones
    rcases List.eq_nil_or_concat after with rfl | ⟨after, t, rfl⟩
    · obtain ⟨-, hnew⟩ := List.append_inj' heq rfl
      obtain ⟨rfl, rfl⟩ := Prod.mk.inj (List.singleton_inj.mp hnew)
      exact coefficient?_set_self e name a
    · rw [List.concat_eq_append, ← List.cons_append, ← List.append_assoc] at heq
      obtain ⟨rfl, hnew⟩ := List.append_inj' heq rfl
      obtain rfl := List.singleton_inj.mp hnew
      rw [List.concat_eq_append, List.map_append, List.mem_append, not_or] at hlast
      have hne : other ≠ name := fun heq => hlast.2 (List.mem_singleton.mpr heq)
      rw [coefficient?_set_of_ne e hne]
      exact h.last before other b after rfl hlast.1
  missing other hmissing := by
    rw [List.map_append, List.mem_append, not_or] at hmissing
    have hne : other ≠ name := fun heq => hmissing.2 (List.mem_singleton.mpr heq)
    rw [coefficient?_set_of_ne e hne]
    exact h.missing other hmissing.1

/-- Terms that are set from left to right are mentions one after another. -/
theorem Records.setAll (h : e.Records mentions) (ts : List (String × Complex R)) :
    (e.setAll ts).Records (mentions ++ ts) := by
  induction ts generalizing e mentions with
  | nil => rwa [List.append_nil]
  | cons t ts ih =>
    have hmore := ih (h.set t.1 t.2)
    rwa [List.append_assoc] at hmore

/-! ### Sequences of changes -/

/-- A change of an equation.  Whether it is made in place or on a copy makes no difference to the
equation that results. -/
inductive Change (R : Type) where
  | set (name : String) (coefficient : Complex R)
  | withRhs (rhs : Complex R)

/-- The equation after a change. -/
def Change.apply (e : Equation R) : Change R → Equation R
  | .set name coefficient => e.set name coefficient
  | .withRhs rhs => e.withRhs rhs

/-- The mention that a change is, if it is one. -/
def Change.mention? : Change R → Option (String × Complex R)
  | .set name coefficient => some (name, coefficient)
  | .withRhs _ => none

/-- The right hand side that a change gives, if it gives one. -/
def Change.rhs? : Change R → Option (Complex R)
  | .set _ _ => none
  | .withRhs rhs => some rhs

/-- The equation without terms after a sequence of changes. -/
def build (rhs : Complex R) (changes : List (Change R)) : Equation R :=
  changes.foldl Change.apply (empty rhs)

/-- One change adds at most one mention. -/
theorem Records.apply (h : e.Records mentions) (change : Change R) :
    (change.apply e).Records (mentions ++ change.mention?.toList) := by
  cases change with
  | set name coefficient => exact h.set name coefficient
  | withRhs rhs =>
    rw [show (Change.withRhs rhs).mention? = none from rfl, Option.toList_none, List.append_nil]
    exact h.withRhs rhs

theorem rhs_apply (e : Equation R) (change : Change R) :
    (change.apply e).rhs = change.rhs?.getD e.rhs := by
  cases change <;> rfl

/-- **Every sequence of changes is recorded.** -/
theorem records_foldl (h : e.Records mentions) (changes : List (Change R)) :
    (changes.foldl Change.apply e).Records (mentions ++ changes.filterMap Change.mention?) := by
  induction changes generalizing e mentions with
  | nil => rwa [List.filterMap_nil, List.append_nil]
  | cons change changes ih =>
    have hmore := ih (h.apply change)
    rw [List.append_assoc] at hmore
    rw [List.foldl_cons, List.filterMap_cons]
    cases hmention : change.mention? with
    | none => simpa [hmention] using hmore
    | some t => simpa [hmention] using hmore

theorem rhs_foldl (e : Equation R) (changes : List (Change R)) :
    (changes.foldl Change.apply e).rhs = (changes.filterMap Change.rhs?).getLastD e.rhs := by
  induction changes generalizing e with
  | nil => rfl
  | cons change changes ih =>
    rw [List.foldl_cons, ih, rhs_apply, List.filterMap_cons]
    cases change.rhs? with
    | none => rfl
    | some rhs => exact (List.getLastD_cons ..).symm

theorem records_build (rhs : Complex R) (changes : List (Change R)) :
    (build rhs changes).Records (changes.filterMap Change.mention?) :=
  records_foldl (records_empty rhs) changes

end Equation

/-! ### The words of a text -/

namespace Grammar
variable {s s' rest word : List Char} {words : List (List Char)}

/-- A name as it is written, in lower case. -/
def foldCase (word : List Char) : String := String.ofList (word.map Char.toLower)

/-- The words stand in the text one after another. -/
inductive WordsInOrder : List (List Char) → List Char → Prop
  | nil (s : List Char) : WordsInOrder [] s
  | cons {before word rest : List Char} {words : List (List Char)}
      (others : WordsInOrder words rest) :
      WordsInOrder (word :: words) (before ++ (word ++ rest))

theorem WordsInOrder.prepend (h : WordsInOrder words s) (before : List Char) :
    WordsInOrder words (before ++ s) := by
  cases h with
  | nil => exact .nil _
  | cons others =>
    rw [← List.append_assoc]
    exact .cons others

theorem WordsInOrder.of_suffix (h : WordsInOrder words s) (hs : s <:+ s') :
    WordsInOrder words s' := by
  obtain ⟨before, rfl⟩ := hs
  exact h.prepend before

/-! Every symbol leaves an end of the text. -/

variable {R : Type} [Scalar R] {x : R} {a : Complex R} {name : String} {negative : Bool}

theorem Run.suffix {p : Char → Bool} (h : Run p s rest) : rest <:+ s := by
  obtain ⟨run, rfl, -⟩ := h
  exact List.suffix_append run rest

theorem Number.suffix (h : Number s x rest) : rest <:+ s := by
  obtain ⟨⟨rfl, -, -⟩, -, -, -⟩ := h
  exact List.suffix_append _ rest

theorem Sign.suffix (h : Sign s negative rest) : rest <:+ s := by
  cases h <;> exact List.suffix_cons _ rest

theorem Minus.suffix (h : Minus s negative rest) : rest <:+ s := by
  cases h with
  | absent => exact List.suffix_refl _
  | present => exact List.suffix_cons _ rest

theorem Factor.suffix (h : Factor s x rest) : rest <:+ s := by
  cases h with
  | absent => exact List.suffix_refl _
  | present hnumber => exact hnumber.suffix

theorem Literal.suffix (h : Literal s a rest) : rest <:+ s := by
  obtain ⟨hblanks, hminus, hreal, hblanks₁, hsign, hblanks₂, hfactor, htimes, hblanks₃⟩ := h
  have hclosing := (List.suffix_cons ')' rest).trans hblanks₃.suffix
  have hunit := ((hclosing.trans (List.suffix_cons 'i' _)).trans htimes.suffix).trans hfactor.suffix
  have hsign := ((hunit.trans hblanks₂.suffix).trans hsign.suffix).trans hblanks₁.suffix
  exact (((hsign.trans hreal.suffix).trans hminus.suffix).trans hblanks.suffix).trans
    (List.suffix_cons '(' _)

theorem Magnitude.suffix (h : Magnitude s a rest) : rest <:+ s := by
  cases h with
  | number hnumber => exact hnumber.suffix
  | literal hliteral => exact hliteral.suffix

/-- A word: at least one letter. -/
def IsWord (word : List Char) : Prop := word ≠ [] ∧ ∀ x ∈ word, x.isAlpha

/-- A body ends with the word of its unknown. -/
theorem Body.exists_word (h : Body s name a rest) :
    ∃ word, IsWord word ∧ name = foldCase word ∧ word ++ rest <:+ s := by
  have hword : ∀ {s : List Char}, Name s name rest →
      ∃ word, IsWord word ∧ name = foldCase word ∧ word ++ rest = s := by
    rintro s ⟨⟨hs, hletters, -⟩, hne⟩
    exact ⟨_, ⟨hne, hletters⟩, rfl, hs.symm⟩
  cases h with
  | bare hname =>
    obtain ⟨word, hword, hfold, rfl⟩ := hword hname
    exact ⟨word, hword, hfold, List.suffix_refl _⟩
  | sized hsize hblanks hname =>
    obtain ⟨word, hword, hfold, rfl⟩ := hword hname
    exact ⟨word, hword, hfold, hblanks.suffix.trans hsize.suffix⟩

theorem Term.exists_word {first : Bool} {t : String × Complex R} (h : Term first s t rest) :
    ∃ word, IsWord word ∧ t.1 = foldCase word ∧ word ++ rest <:+ s := by
  cases h with
  | signed hsign hblanks hbody =>
    obtain ⟨word, hword, hname, hsuffix⟩ := hbody.exists_word
    exact ⟨word, hword, hname, (hsuffix.trans hblanks.suffix).trans hsign.suffix⟩
  | bare hbody => exact hbody.exists_word

/-- **The names of terms are words of the text**, in lower case and in the same order. -/
theorem Terms.exists_words {first : Bool} {ts : List (String × Complex R)}
    (h : Terms first s ts rest) : ∃ words, WordsInOrder words s ∧
      (∀ word ∈ words, IsWord word) ∧ ts.map Prod.fst = words.map foldCase := by
  induction h with
  | done => exact ⟨[], .nil _, List.forall_mem_nil _, rfl⟩
  | @more _ _ s₁ _ _ _ _ hterm hblanks _ ih =>
    obtain ⟨words, horder, hwords, hnames⟩ := ih
    obtain ⟨word, hword, hname, hsuffix⟩ := hterm.exists_word
    have hfirst : WordsInOrder (word :: words) ([] ++ (word ++ s₁)) :=
      .cons (horder.of_suffix hblanks.suffix)
    refine ⟨word :: words, hfirst.of_suffix hsuffix,
      List.forall_mem_cons.mpr ⟨hword, hwords⟩, ?_⟩
    rw [List.map_cons, List.map_cons, hname, hnames]

theorem IsEquation.exists_words {ts : List (String × Complex R)} {rhs : Complex R}
    (h : IsEquation s ts rhs) : ∃ words, WordsInOrder words s ∧
      (∀ word ∈ words, IsWord word) ∧ ts.map Prod.fst = words.map foldCase := by
  obtain ⟨hblanks, hterms, -, -, -⟩ := h
  obtain ⟨words, horder, hwords, hnames⟩ := hterms.exists_words
  exact ⟨words, horder.of_suffix hblanks.suffix, hwords, hnames⟩

end Grammar

/-! ### Equations -/

namespace Equation
variable {R : Type} [Scalar R]

/-- The equation is recorded from the text: from the terms of a derivation of the text, which
mention words of the text in the order in which they stand there, up to their case. -/
def IsRecordedFrom (e : Equation R) (text : String) : Prop :=
  ∃ words terms, IsEquation text.toList terms e.rhs ∧ WordsInOrder words text.toList ∧
    (∀ word ∈ words, IsWord word) ∧ terms.map Prod.fst = words.map foldCase ∧ e.Records terms

/-- **An equation is the map of what was set**: each unknown at the place of its first mention and
with the coefficient of its last one, whatever was set in between, and whether it was built step by
step or read from a text. -/
theorem records_of_build_and_parse :
    (∀ (rhs : Complex R) (changes : List (Change R)),
      (build rhs changes).Records (changes.filterMap Change.mention?) ∧
      (build rhs changes).rhs = (changes.filterMap Change.rhs?).getLastD rhs) ∧
    (∀ (e : Equation R) (name other : String) (a : Complex R), other ≠ name →
      (e.set name a).unknowns.idxOf? other = e.unknowns.idxOf? other ∧
      (e.set name a).coefficient? other = e.coefficient? other) ∧
    (∀ (text : String) (e : Equation R), Equation.parse text = .ok e → e.IsRecordedFrom text) := by
  refine ⟨fun rhs changes => ⟨records_build rhs changes, rhs_foldl _ changes⟩,
    fun e name other a hne => ⟨idxOf?_unknowns_set e hne, coefficient?_set_of_ne e hne⟩,
    fun text e h => ?_⟩
  obtain ⟨terms, rhs, hequation, rfl⟩ := exists_isEquation_of_parse h
  obtain ⟨words, horder, hwords, hnames⟩ := hequation.exists_words
  exact ⟨words, terms, hequation, horder, hwords, hnames,
    ((records_empty 0).setAll terms).withRhs rhs⟩

/-- The place of `x` is that of its first mention, its coefficient that of the last one. -/
theorem records_of_repeated_unknown :
    ∃ e : Equation Float, Equation.parse "x + 2Y - 3X = 4" = .ok e ∧
      e.IsRecordedFrom "x + 2Y - 3X = 4" ∧
      (e.unknowns, (e.coefficient? "x").map Complex.text) = (["x", "y"], some "-3") ∧
      (e.set "y" 0).unknowns.idxOf? "x" = some 0 := by
  obtain ⟨e, he⟩ : ∃ e : Equation Float, Equation.parse "x + 2Y - 3X = 4" = .ok e :=
    exists_eq_ok (by decide +kernel)
  have hshown : (e.unknowns, (e.coefficient? "x").map Complex.text) = (["x", "y"], some "-3") := by
    have hread : ((Equation.parse "x + 2Y - 3X = 4" :
        Except ParseError (Equation Float)).toOption.map fun e =>
          (e.unknowns, (e.coefficient? "x").map Complex.text)) = some (["x", "y"], some "-3") := by
      decide +kernel
    rw [he] at hread
    exact Option.some.inj hread
  obtain ⟨-, hplace, hparse⟩ := records_of_build_and_parse (R := Float)
  refine ⟨e, he, hparse _ e he, hshown, ?_⟩
  rw [(hplace e "y" "x" 0 (by decide)).1, (Prod.mk.inj hshown).1]
  rfl

end Equation
end LinearEquations
