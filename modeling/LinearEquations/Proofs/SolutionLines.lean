import LinearEquations.Proofs.EquationText
import LinearEquations.Proofs.NegligibleCells

/-! # The lines of a solution are equations

A line that is read off a matrix can be read again as an equation, and says the same as its row
(`parse_lines_of_readSolution`), if the cells are whole and the right hand sides are real.

The rules for its terms are not those for the text of an equation.  A first term is written with a
sign, unless its coefficient is one; a sign is followed by a space, and each term is followed by
another; and a right hand side is never put in parentheses, which is why it has to be real.  All of
this is in the grammar: every sign may be followed by blanks, and what is written after it is what
the text of an equation has there (`spelling_of_isSubtracted`, `spelling_of_not_isSubtracted`). -/

namespace LinearEquations
open Grammar

/-! ### Whole cells -/

variable {a rhs : Complex Float} {p q : Int}

/-- Whole numbers are negligible if they are zero. -/
theorem Scalar.IsWhole.isNegligible_iff {x : Float} {z : Int} (h : Scalar.IsWhole x z) :
    Scalar.isNegligible x ↔ Scalar.isZero x := by
  have hnear := h.isNear_iff 0
  rw [Int.cast_zero] at hnear
  exact hnear.trans h.isZero_iff.symm

theorem Complex.IsWhole.isNegligible_eq (h : a.IsWhole p q) : a.isNegligible = a.isZero :=
  congrArg₂ Bool.and (Bool.eq_iff_iff.mpr h.re.isNegligible_iff)
    (Bool.eq_iff_iff.mpr h.im.isNegligible_iff)

/-- All cells of a row are whole. -/
def IsWholeRow (row : List (Complex Float)) : Prop := ∀ a ∈ row, ∃ p q, a.IsWhole p q

namespace Grammar
variable {name : String} {rest : List Char} {first : Bool}

/-! ### Terms -/

/-- A real coefficient below zero is written like in the text of an equation, after a sign and a
space. -/
theorem spelling_of_isSubtracted (h : a.IsWhole p q) (hsign : Equation.isSubtracted a) :
    spelling first a = "- " ++ Equation.coefficientText (-a) := by
  obtain ⟨rfl, hneg⟩ := (isSubtracted_iff h).mp hsign
  obtain ⟨hreal, hnegative⟩ := Bool.and_eq_true_iff.mp hsign
  have htext : a.text ≠ "1" := fun htext => by
    have := (text_eq_one_iff h).mp htext
    omega
  have hzero : Scalar.isZero (-a).im := h.neg.im.isZero_iff.mpr neg_zero
  have hunit : (Scalar.value a.re).isNear (-1) ↔ (-a).text = "1" := by
    have hnear := h.re.isNear_iff (-1)
    rw [Int.cast_neg, Int.cast_one] at hnear
    rw [hnear, text_eq_one_iff h.neg]
    omega
  simp only [spelling, Equation.coefficientText, if_neg htext, hreal, hnegative, hunit, hzero,
    Bool.not_true, Bool.false_eq_true, if_false, if_true]
  split <;> rfl

/-- So is every other coefficient, if it is not a first coefficient of one. -/
theorem spelling_of_not_isSubtracted (hsign : ¬Equation.isSubtracted a)
    (hone : ¬(first ∧ a.text = "1")) :
    spelling first a = "+ " ++ Equation.coefficientText a := by
  rw [Equation.isSubtracted, Bool.and_eq_true] at hsign
  unfold spelling Equation.coefficientText
  split
  · rename_i htext
    rw [if_neg fun hfirst => hone ⟨hfirst, htext⟩]
    rfl
  · by_cases hreal : Scalar.isZero a.im
    · have hnegative : ¬Scalar.isNegative a.re := fun hneg => hsign ⟨hreal, hneg⟩
      rw [if_neg (by simp [hreal]), if_neg hnegative, if_pos hreal]
    · rw [if_pos (by simp [hreal]), if_neg hreal, String.append_assoc, String.append_assoc]
      rfl

/-- **A coefficient and its label are read as a term.** -/
theorem exists_term_of_spelling (first : Bool) (h : a.IsWhole p q) (hname : IsName name)
    (hrest : Stops Char.isAlpha rest) :
    ∃ b, Term first ((spelling first a ++ name).toList ++ rest) (name, b) rest ∧
      SameWhole b a := by
  by_cases hone : first ∧ a.text = "1"
  · obtain ⟨rfl, htext⟩ := hone
    obtain ⟨rfl, rfl⟩ := (text_eq_one_iff h).mp htext
    refine ⟨1, .bare (.bare ?_), 1, 0, Complex.isWhole_one, h⟩
    simpa [spelling, htext] using name_of_isName hname hrest
  · obtain ⟨b, hbody, hb⟩ := exists_unsigned h hname hrest
    refine ⟨_, ?_, p, q, hb, h⟩
    cases hsign : Equation.isSubtracted a with
    | true =>
      rw [hsign] at hbody
      rw [spelling_of_isSubtracted h hsign]
      simpa using Term.signed (.minus _) (run_blank _) hbody
    | false =>
      rw [hsign] at hbody
      rw [spelling_of_not_isSubtracted (Bool.eq_false_iff.mp hsign) hone]
      simpa using Term.signed (.plus _) (run_blank _) hbody

/-- All terms but the first, each followed by a blank. -/
theorem exists_terms_of_spellings (rest : List Char) (l : List (Complex Float × String))
    (hl : ∀ t ∈ l, IsName t.2 ∧ ∃ p q, t.1.IsWhole p q) :
    ∃ ts, Terms false ((String.join (l.map fun t => spelling false t.1 ++ t.2 ++ " ")).toList ++
        '=' :: rest) ts rest ∧
      List.Forall₂ (Corresponds SameWhole) ts (l.map Prod.swap) := by
  induction l with
  | nil => exact ⟨[], .done rest, .nil⟩
  | cons t l ih =>
    obtain ⟨⟨hname, p, q, h⟩, hl⟩ := List.forall_mem_cons.mp hl
    obtain ⟨ts, hterms, hsame⟩ := ih hl
    obtain ⟨b, hterm, hb⟩ :=
      exists_term_of_spelling false h hname (stops_cons (x := ' ') (by decide) _)
    refine ⟨(t.2, b) :: ts, ?_, .cons ⟨rfl, hb⟩ hsame⟩
    simpa using Terms.more hterm (run_blank _) hterms

/-- **A line is derived as an equation**, with terms that stand for the same numbers. -/
theorem exists_isEquation_of_line {l : List (Complex Float × String)} (hne : l ≠ [])
    (hl : ∀ t ∈ l, IsName t.2 ∧ ∃ p q, t.1.IsWhole p q) (hrhs : rhs.IsWhole p 0) :
    ∃ ts b, IsEquation (termsText l ++ "= " ++ rhs.text).toList ts b ∧
      List.Forall₂ (Corresponds SameWhole) ts (l.map Prod.swap) ∧ b.eq rhs := by
  obtain ⟨t, l, rfl⟩ := List.exists_cons_of_ne_nil hne
  obtain ⟨⟨hname, _, _, h⟩, hl⟩ := List.forall_mem_cons.mp hl
  obtain ⟨ts, hterms, hsame⟩ := exists_terms_of_spellings (' ' :: rhs.text.toList) l hl
  obtain ⟨b, hterm, hb⟩ :=
    exists_term_of_spelling true h hname (stops_cons (x := ' ') (by decide) _)
  obtain ⟨c, hright, hc⟩ := exists_rightHandSide hrhs
  rw [if_pos (hrhs.im.isZero_iff.mpr rfl)] at hright
  refine ⟨(t.2, b) :: ts, c, ?_, .cons ⟨rfl, hb⟩ hsame, hc.eq hrhs⟩
  have := IsEquation.intro (run_nil _) (.more hterm (run_blank _) hterms) (run_blank _) hright
    (run_nil _)
  simpa [termsText] using this

end Grammar

/-! ### Rows and lines -/

/-- The coefficients of a row that are not zero, with the names of their columns. -/
def namedTerms (names : List String) (row : List (Complex Float)) : List (Complex Float × String) :=
  (row.dropLast.zip names).filter fun t => !t.1.isZero

/-- An equation says what a row says of the named unknowns: it has a coefficient for each cell that
is not zero, and the right hand side. -/
structure SaysRow (names : List String) (row : List (Complex Float)) (e : Equation Float) :
    Prop where
  unknowns : e.unknowns.Sublist names
  absent : ∀ t ∈ row.dropLast.zip names, e.coefficient? t.2 = none ↔ t.1.isZero
  coefficient : ∀ t ∈ row.dropLast.zip names, ∀ b, e.coefficient? t.2 = some b → b.eq t.1
  rhs : e.rhs.eq (row.getLastD 0)

section Rows
variable {names : List String} {row : List (Complex Float)} {last : String} {e : Equation Float}

theorem map_snd_zip_names (hlength : row.length = names.length + 1) :
    (row.dropLast.zip names).map Prod.snd = names :=
  List.map_snd_zip (by simp [hlength])

theorem sublist_map_snd_namedTerms (hlength : row.length = names.length + 1) :
    ((namedTerms names row).map Prod.snd).Sublist names := by
  conv_rhs => rw [← map_snd_zip_names hlength]
  exact List.filter_sublist.map Prod.snd

/-- Different columns have different names. -/
theorem mem_namedTerms_iff (hlength : row.length = names.length + 1) (hnodup : names.Nodup)
    {t : Complex Float × String} (ht : t ∈ row.dropLast.zip names) {u : Complex Float × String} :
    u ∈ namedTerms names row ∧ u.2 = t.2 ↔ u = t ∧ ¬t.1.isZero := by
  rw [namedTerms, List.mem_filter, Bool.not_eq_true']
  constructor
  · rintro ⟨⟨hu, hne⟩, hname⟩
    rw [← map_snd_zip_names hlength] at hnodup
    obtain rfl := List.inj_on_of_nodup_map hnodup hu ht hname
    exact ⟨rfl, Bool.eq_false_iff.mp hne⟩
  · rintro ⟨rfl, hne⟩
    exact ⟨⟨ht, Bool.eq_false_iff.mpr hne⟩, rfl⟩

/-- **Terms that correspond to those of a row say what it says.** -/
theorem saysRow_of_corresponds (hlength : row.length = names.length + 1) (hnodup : names.Nodup)
    (hsame : List.Forall₂ (Corresponds SameWhole) e.terms ((namedTerms names row).map Prod.swap))
    (hrhs : e.rhs.eq (row.getLastD 0)) : SaysRow names row e := by
  have hunknowns : e.unknowns = (namedTerms names row).map Prod.snd :=
    (Equation.unknowns_eq_of_corresponds hsame).trans (List.map_map ..)
  refine ⟨hunknowns ▸ sublist_map_snd_namedTerms hlength, fun t ht => ?_, fun t ht b hb => ?_, hrhs⟩
  · rw [Equation.coefficient?_eq_none_iff, hunknowns, List.mem_map]
    simp only [mem_namedTerms_iff hlength hnodup ht, exists_eq_left, not_not]
  · obtain ⟨u, hu, hname, hsame⟩ := LabelledMatrix.exists_mem_of_forall₂
      (r := flip (Corresponds SameWhole)) hsame.flip (Equation.coefficient?_eq_some_iff.mp hb)
    obtain ⟨v, hv, rfl⟩ := List.mem_map.mp hu
    obtain ⟨rfl, -⟩ := (mem_namedTerms_iff hlength hnodup ht).mp ⟨hv, hname.symm⟩
    obtain ⟨p, q, hb, ha⟩ := hsame
    exact hb.eq ha

/-- Of whole coefficients those that are not zero count. -/
theorem termsThatCount_eq_namedTerms (last : String) (hlength : row.length = names.length + 1)
    (hrow : IsWholeRow row) :
    termsThatCount (names ++ [last]) row = namedTerms names row := by
  have hzip : row.dropLast.zip (names ++ [last]) = row.dropLast.zip names := by
    have hcolumns : row.dropLast.length = names.length := by simp [hlength]
    have happend : (row.dropLast ++ []).zip (names ++ [last]) = _ := List.zip_append hcolumns
    simpa using happend
  rw [termsThatCount, hzip, namedTerms]
  refine List.filter_congr fun t ht => ?_
  obtain ⟨p, q, h⟩ := hrow _ (List.mem_of_mem_dropLast (List.of_mem_zip ht).1)
  rw [h.isNegligible_eq]

theorem hasTerms_eq_of_isWholeRow (hrow : IsWholeRow row) :
    hasTerms row = row.dropLast.any fun a => !a.isZero := by
  rw [hasTerms, Bool.eq_iff_iff, List.any_eq_true, List.any_eq_true]
  refine exists_congr fun a => and_congr_right fun ha => ?_
  obtain ⟨p, q, h⟩ := hrow a (List.mem_of_mem_dropLast ha)
  rw [h.isNegligible_eq]

/-- A right hand side that is real. -/
theorem exists_isWhole_getLastD (hlength : 0 < row.length) (hrow : IsWholeRow row)
    (hreal : Scalar.isZero (row.getLastD 0).im) : ∃ p, (row.getLastD 0).IsWhole p 0 := by
  have hne : row ≠ [] := List.length_pos_iff.mp hlength
  have hlast : row.getLastD 0 ∈ row := by
    rw [List.getLastD_eq_getLast?, List.getLast?_eq_some_getLast hne]
    exact List.getLast_mem hne
  obtain ⟨p, q, h⟩ := hrow _ hlast
  obtain rfl := h.im.isZero_iff.mp hreal
  exact ⟨p, h⟩

/-- **The line of a row is read as an equation that says what the row says.** -/
theorem exists_parse_lineOfRow (hlength : row.length = names.length + 1) (hrow : IsWholeRow row)
    (hreal : Scalar.isZero (row.getLastD 0).im) (hnames : ∀ name ∈ names, IsName name)
    (hnodup : names.Nodup) (hterms : hasTerms row) :
    ∃ e, Equation.parse (lineOfRow (names ++ [last]) row) = .ok e ∧ SaysRow names row e := by
  have hl : ∀ t ∈ namedTerms names row, IsName t.2 ∧ ∃ p q, t.1.IsWhole p q := by
    intro t ht
    have hmem := List.of_mem_zip (List.mem_of_mem_filter ht)
    exact ⟨hnames _ hmem.2, hrow _ (List.mem_of_mem_dropLast hmem.1)⟩
  have hne : namedTerms names row ≠ [] := by
    rw [← termsThatCount_eq_namedTerms last hlength hrow, ne_eq,
      termsThatCount_eq_nil_iff (by simp [hlength]), not_not]
    exact hterms
  obtain ⟨p, hright⟩ := exists_isWhole_getLastD (by simp [hlength]) hrow hreal
  obtain ⟨ts, b, hequation, hsame, hrhs⟩ := exists_isEquation_of_line hne hl hright
  have hunknowns : ts.map Prod.fst = (namedTerms names row).map Prod.snd :=
    (Equation.unknowns_eq_of_corresponds hsame).trans (List.map_map ..)
  have hset : ((Equation.empty (0 : Complex Float)).setAll ts).terms = ts :=
    Equation.terms_setAll (.empty 0)
      (hunknowns ▸ (sublist_map_snd_namedTerms hlength).nodup hnodup)
  rw [lineOfRow, termsThatCount_eq_namedTerms last hlength hrow]
  refine ⟨_, Equation.parse_of_isEquation hequation,
    saysRow_of_corresponds hlength hnodup ?_ hrhs⟩
  rwa [Equation.withRhs, hset]

end Rows

/-- **The lines of a solution are equations that say what the rows say**, if all numbers are whole
and the right hand sides are real. -/
theorem parse_lines_of_readSolution {m : ComplexMatrix Float} {names lines : List String}
    {last : String} (hm : m.WellFormed) (hcells : ∀ row ∈ m.rows, IsWholeRow row)
    (hreal : ∀ row ∈ m.rows, Scalar.isZero (row.getLastD 0).im)
    (hnames : ∀ name ∈ names, IsName name) (hnodup : names.Nodup)
    (hlines : readSolution m (names ++ [last]) = .ok (.solved lines)) :
    List.Forall₂ (fun row line => ∃ e, Equation.parse line = .ok e ∧ SaysRow names row e)
      (m.rows.filter fun row => row.dropLast.any fun a => !a.isZero) lines := by
  obtain ⟨hlength, rfl⟩ := eq_of_readSolution hm hlines
  have hfilter : (m.rows.filter fun row => row.dropLast.any fun a => !a.isZero) =
      m.rows.filter hasTerms :=
    List.filter_congr fun row hrow => (hasTerms_eq_of_isWholeRow (hcells row hrow)).symm
  rw [hfilter, List.forall₂_map_right_iff, List.forall₂_same]
  intro row hrow
  obtain ⟨hrow, hterms⟩ := List.mem_filter.mp hrow
  exact exists_parse_lineOfRow (by simpa using hlength row hrow) (hcells row hrow)
    (hreal row hrow) hnames hnodup hterms

/-- Signs of all kinds: a first unit that is subtracted, a number with a sign of its own, and a
first number that is added; the zero below zero has no term. -/
theorem parse_lines_of_signs :
    let m : ComplexMatrix Float := ⟨[[⟨-1, 0⟩, 1, ⟨-2, 1⟩, ⟨-3, 0⟩],
      [⟨-0.0, 0⟩, ⟨2, 0⟩, ⟨-1, 0⟩, 0], [0, 0, 0, 0]], none, none⟩
    let names := ["x", "y", "z"]
    m.WellFormed ∧ (∀ row ∈ m.rows, IsWholeRow row) ∧
      (∀ row ∈ m.rows, Scalar.isZero (row.getLastD 0).im) ∧ (∀ name ∈ names, IsName name) ∧
      names.Nodup ∧
      readSolution m (names ++ ["="]) =
        .ok (.solved ["- x + y + (-2 + i)z = -3", "+ 2y - z = 0"]) ∧
      List.Forall₂ (fun row line => ∃ e, Equation.parse line = .ok e ∧ SaysRow names row e)
        (m.rows.filter fun row => row.dropLast.any fun a => !a.isZero)
        ["- x + y + (-2 + i)z = -3", "+ 2y - z = 0"] := by
  intro m names
  have hm : m.WellFormed := by decide
  have hcells : ∀ row ∈ m.rows, IsWholeRow row := by
    have hzero : Complex.IsWhole 0 0 0 := ⟨Scalar.isWhole_zero, Scalar.isWhole_zero⟩
    have hnegative : Complex.IsWhole ⟨-0.0, 0⟩ 0 0 :=
      ⟨⟨by decide +kernel, by decide⟩, Scalar.isWhole_zero⟩
    have hsubtracted : Complex.IsWhole ⟨-1, 0⟩ (-1) 0 :=
      ⟨⟨by decide +kernel, by decide⟩, Scalar.isWhole_zero⟩
    have htwo : Complex.IsWhole ⟨2, 0⟩ 2 0 :=
      ⟨⟨by decide +kernel, by decide⟩, Scalar.isWhole_zero⟩
    have hcomplex : Complex.IsWhole ⟨-2, 1⟩ (-2) 1 :=
      ⟨⟨by decide +kernel, by decide⟩, Scalar.isWhole_one⟩
    have hright : Complex.IsWhole ⟨-3, 0⟩ (-3) 0 :=
      ⟨⟨by decide +kernel, by decide⟩, Scalar.isWhole_zero⟩
    simp only [m, IsWholeRow, List.forall_mem_cons, List.not_mem_nil, false_implies, implies_true,
      and_true]
    exact ⟨⟨⟨_, _, hsubtracted⟩, ⟨_, _, Complex.isWhole_one⟩, ⟨_, _, hcomplex⟩, ⟨_, _, hright⟩⟩,
      ⟨⟨_, _, hnegative⟩, ⟨_, _, htwo⟩, ⟨_, _, hsubtracted⟩, ⟨_, _, hzero⟩⟩,
      ⟨_, _, hzero⟩, ⟨_, _, hzero⟩, ⟨_, _, hzero⟩, ⟨_, _, hzero⟩⟩
  have hreal : ∀ row ∈ m.rows, Scalar.isZero (row.getLastD 0).im := by decide +kernel
  have hnames : ∀ name ∈ names, IsName name := by decide
  have hnodup : names.Nodup := by decide
  have hlines : readSolution m (names ++ ["="]) =
      .ok (.solved ["- x + y + (-2 + i)z = -3", "+ 2y - z = 0"]) := by
    have hreadings : Solution.ofReadings (m.rows.map (RowReading.ofRow (names ++ ["="]))) =
        .solved ["- x + y + (-2 + i)z = -3", "+ 2y - z = 0"] := by decide +kernel
    exact (if_pos rfl).trans (congrArg Except.ok hreadings)
  exact ⟨hm, hcells, hreal, hnames, hnodup, hlines,
    parse_lines_of_readSolution hm hcells hreal hnames hnodup hlines⟩

end LinearEquations
