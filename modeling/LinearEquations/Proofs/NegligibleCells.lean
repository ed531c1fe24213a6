import LinearEquations.Proofs.SignificantDigits
import LinearEquations.Proofs.SolutionText

/-! # Cells that are written as zero

Whether a cell of a matrix counts is decided by its text: it does not if the text is `0`.  Over
doubles these are the numbers both parts of which are less than `tolerance` in magnitude
(`Complex.text_eq_zero_iff`), and so the reading of a matrix can be described without texts of
numbers (`readSolution_spec`).

A part that is near a whole number is written as that number, which is zero just for the negligible
ones.  All other texts have a digit that is not zero, or are no numbers at all: the shortest decimal
of a double lies in the interval of what is read as the double, and zero does not, unless the double
is zero; and rounding to significant digits leaves some. -/

namespace LinearEquations
open Grammar

/-! ### Texts that are not zero -/

/-- Numbers from one on are not rounded to zero. -/
theorem Tie.round_pos (tie : Tie) {y : Rat} (hy : 1 ≤ y) : 0 < tie.round y := by
  have hfloor : 1 ≤ y.floor := Rat.le_floor_iff.mpr (by exact_mod_cast hy)
  unfold Tie.round
  simp only
  split
  · omega
  · split <;> omega

namespace Decimal
variable {d : Decimal} {style : Style} {digits : Nat} {exponent : Int} {x : Char}

theorem mem_positionalText (h : x ∈ figures digits) : x ∈ positionalText style digits exponent := by
  unfold positionalText
  simp only
  split
  · exact List.mem_append_left _ (List.mem_append_left _ h)
  · split
    · rw [← List.take_append_drop ((figures digits).length - (-exponent).toNat)
        (figures digits)] at h
      rcases List.mem_append.mp h with h | h
      · exact List.mem_append_left _ h
      · exact List.mem_append_right _ (List.mem_cons_of_mem _ h)
    · exact List.mem_append_right _ h

/-- **Only zero is written as `0`.** -/
theorem write_ne_zero (h : 0 < d.digits) : d.write style ≠ "0" := by
  have hfirst : ∃ x ∈ figures d.digits, x ≠ '0' := by
    obtain ⟨x, rest, hx⟩ := List.exists_cons_of_ne_nil (figures_ne_nil d.digits)
    refine ⟨x, hx ▸ List.mem_cons_self, ?_⟩
    rintro rfl
    exact head?_figures_ne h (hx ▸ rfl)
  have hother : ∃ x ∈ (d.write style).toList, x ≠ '0' := by
    by_cases hpositional : d.digits = 0 ∨ style.positional d.leadingExponent
    · obtain ⟨x, hx, hne⟩ := hfirst
      have hbody : (d.digits = 0 || style.positional d.leadingExponent) = true := by
        rcases hpositional with h | h <;> simp [h]
      refine ⟨x, ?_, hne⟩
      unfold write
      simp only [hbody, if_true, String.toList_ofList]
      exact List.mem_append_right _ (mem_positionalText hx)
    · exact ⟨'e', mem_write_of_not_positional hpositional, by decide⟩
  intro heq
  obtain ⟨x, hx, hne⟩ := hother
  rw [heq] at hx
  exact hne (List.mem_singleton.mp hx)

/-- Rounding to significant digits leaves some. -/
theorem digits_significant_pos (tie : Tie) {q : Rat} (hq : q ≠ 0) {p : Nat} (hp : 0 < p) :
    0 < (significant tie p q).digits := by
  have hlow := (between_lastPlace (abs_pos.mpr hq) hp).1
  have hpower : 0 < 10 ^ (p - 1) := Nat.pow_pos (by decide)
  have hround : 0 < tie.round (|q| / lastPlace |q| p) :=
    tie.round_pos ((Nat.one_le_cast.mpr hpower).trans hlow)
  rw [significant, if_neg hq, ratAbs_eq]
  simp only
  split
  · exact hpower
  · exact hround

theorem digits_trimmed_pos (h : 0 < d.digits) : 0 < d.trimmed.digits := by
  have hmagnitude := magnitude_trimmed d
  refine Nat.pos_of_ne_zero fun hzero => ?_
  rw [magnitude, magnitude, hzero, Nat.cast_zero, zero_mul] at hmagnitude
  exact (mul_pos (by exact_mod_cast h) (ten_zpow_pos _)).ne hmagnitude

end Decimal

namespace BinaryFraction
open Decimal
variable {b : BinaryFraction}

/-- Zero is not read as a double other than zero. -/
theorem not_contains_zero (h : 0 < b.significand) : ¬b.readInterval.contains 0 := by
  have hunit := two_zpow_pos b.exponent
  have hmagnitude : (2 : Rat) ^ b.exponent ≤ b.magnitude :=
    le_mul_of_one_le_left hunit.le (by exact_mod_cast h)
  have hlower : 0 < b.readInterval.lower := by
    unfold readInterval
    simp only
    split <;> linarith
  have hupper := hlower.trans b.lower_lt_upper
  unfold Interval.contains
  simp only [Bool.or_eq_true, Bool.and_eq_true, decide_eq_true_eq]
  rintro (⟨h, -⟩ | ⟨-, h | h⟩) <;> linarith

/-- **The shortest decimal of a double other than zero is not zero.** -/
theorem digits_shortest_pos (h : 0 < b.significand) : 0 < b.shortest.digits := by
  rw [shortest, if_neg h.ne']
  refine digits_trimmed_pos ?_
  cases hfind : (List.range enoughDigits).findSome? fun n => b.withDigits? (n + 1) with
  | none =>
    have hmagnitude : b.magnitude ≠ 0 :=
      (mul_pos (by exact_mod_cast h) (two_zpow_pos b.exponent)).ne'
    exact digits_significant_pos .even hmagnitude (by decide)
  | some d =>
    obtain ⟨n, -, hd⟩ := List.exists_of_findSome?_eq_some hfind
    refine Nat.pos_of_ne_zero fun hzero => not_contains_zero h ?_
    have hreads := (withDigits?_spec hd).2
    rwa [Decimal.magnitude, show d.digits = 0 from hzero, Nat.cast_zero, zero_mul] at hreads

end BinaryFraction

/-! ### Negligible numbers -/

namespace Scalar
open BinaryFraction Decimal
variable {x : Float} {q : Rat}

/-- Whether a scalar is a number less than `tolerance` in magnitude. -/
def isNegligible {R : Type} [Scalar R] (x : R) : Bool := (value x).isNear 0

theorem isNegligible_iff (h : value x = .finite q) : isNegligible x ↔ |q| < tolerance := by
  rw [isNegligible, h, Extended.isNear, decide_eq_true_eq, sub_zero, ratAbs_eq]

theorem nearest_eq_zero (h : |q| < tolerance) : nearest q = 0 := by
  have hsmall : tolerance < 1 / 2 := by norm_num [tolerance]
  have hle := natAbs_nearest_le q
  have : ((nearest q).natAbs : Rat) < (1 : Nat) := by
    push_cast
    linarith
  have : (nearest q).natAbs < 1 := by exact_mod_cast this
  omega

/-- A number near a whole number is negligible if that number is zero. -/
theorem isNearlyWhole_iff_of_nearest (h : nearest q = 0) : isNearlyWhole q ↔ |q| < tolerance := by
  rw [isNearlyWhole, h, Int.cast_zero, sub_zero, ratAbs_eq, decide_eq_true_eq]

theorem nearest_eq_zero_iff (h : isNearlyWhole q) : nearest q = 0 ↔ |q| < tolerance :=
  ⟨fun hzero => (isNearlyWhole_iff_of_nearest hzero).mp h, nearest_eq_zero⟩

/-- Whole numbers other than zero are not negligible. -/
theorem not_lt_tolerance_of_den (hden : q.den = 1) (hq : q ≠ 0) : ¬|q| < tolerance := by
  intro h
  have hone : (1 : Rat) ≤ |q| := by
    have hnum : q.num ≠ 0 := Rat.num_ne_zero.mpr hq
    rw [← Rat.coe_int_num_of_den_eq_one hden, ← Int.cast_abs]
    exact_mod_cast Int.one_le_abs hnum
  have hsmall : tolerance < 1 := by norm_num [tolerance]
  linarith

/-- The shortest text of a double is `0` for zero alone. -/
theorem write_plain_eq_zero_iff (h : value x = .finite q) : write plain x = "0" ↔ q = 0 := by
  obtain ⟨b, -, rfl, hwrite⟩ := exists_fraction h
  rw [hwrite]
  have hzero : b.toRat = 0 ↔ b.significand = 0 := by
    rw [← abs_eq_zero, abs_toRat, BinaryFraction.magnitude, mul_eq_zero]
    simp [(two_zpow_pos b.exponent).ne']
  rw [hzero]
  constructor
  · intro htext
    by_contra hne
    exact write_ne_zero (digits_shortest_pos (Nat.pos_of_ne_zero hne)) htext
  · intro hsignificand
    rw [shortest, if_pos hsignificand]
    cases b.negative <;> rfl

theorem toString_eq_zero_iff (z : Int) : toString z = "0" ↔ z = 0 := by
  refine ⟨fun h => ?_, fun h => h ▸ rfl⟩
  have hlist : minusText (z < 0) ++ figures z.natAbs = ['0'] := by
    rw [← toList_toString, h]
    rfl
  by_cases hneg : z < 0
  · rw [decide_eq_true hneg] at hlist
    cases hlist
  · rw [decide_eq_false hneg] at hlist
    have hvalue := ofDigitChars_figures z.natAbs
    rw [show figures z.natAbs = ['0'] from hlist] at hvalue
    have hzero : 0 = z.natAbs := hvalue
    omega

/-- **A double is written as `0` if and only if it is negligible.** -/
theorem text_eq_zero_iff (x : Float) : text x = "0" ↔ isNegligible x := by
  cases hx : value x with
  | nan =>
    have htext : text x = "NaN" := by simp only [text, write, hx]
    have hnegligible : isNegligible x = false := by rw [isNegligible, hx]; rfl
    simp [htext, hnegligible]
  | infinite negative =>
    have htext : text x = if negative then "-inf" else "inf" := by simp only [text, write, hx]
    have hnegligible : isNegligible x = false := by rw [isNegligible, hx]; rfl
    cases negative <;> simp [htext, hnegligible]
  | finite q =>
    rw [isNegligible_iff hx, text, hx]
    simp only
    by_cases hnear : isNearlyWhole q
    · by_cases hden : q.den = 1
      · rw [if_neg (by simp [hden]), if_pos (by simp [hden]), write_plain_eq_zero_iff hx]
        constructor
        · intro hzero
          rw [hzero, abs_zero]
          norm_num [tolerance]
        · intro hlt
          by_contra hne
          exact not_lt_tolerance_of_den hden hne hlt
      · rw [if_pos (by simp [hnear, hden]), toString_eq_zero_iff, nearest_eq_zero_iff hnear]
    · -- what is not near a whole number is not zero, and not near zero either
      have hlarge : ¬|q| < tolerance := fun hlt =>
        hnear ((isNearlyWhole_iff_of_nearest (nearest_eq_zero hlt)).mpr hlt)
      have hq : q ≠ 0 := by
        rintro rfl
        exact hlarge (by norm_num [tolerance])
      refine iff_of_false ?_ hlarge
      rw [if_neg (by simp [hnear])]
      split
      · rwa [write_plain_eq_zero_iff hx]
      · exact write_ne_zero (digits_significant_pos .away hq (by decide))

end Scalar

namespace Complex

/-- Whether both parts of a number are less than `tolerance` in magnitude. -/
def isNegligible {R : Type} [Scalar R] (a : Complex R) : Bool :=
  Scalar.isNegligible a.re && Scalar.isNegligible a.im

/-- **A complex number is written as `0` if and only if it is negligible.** -/
theorem text_eq_zero_iff (a : Complex Float) : a.text = "0" ↔ a.isNegligible := by
  have hunit : ∀ s t : String, s ++ t ++ "i" ≠ "0" := by
    intro s t h
    have hmem : 'i' ∈ (s ++ t ++ "i").toList := by simp
    rw [h] at hmem
    exact absurd hmem (by decide)
  rw [isNegligible, Bool.and_eq_true, ← Scalar.text_eq_zero_iff, Scalar.isNegligible, text]
  simp only
  split
  · rename_i him
    simp [him]
  · rename_i him
    refine iff_of_false ?_ fun h => him h.2
    split
    · exact hunit _ _
    · exact hunit _ _

end Complex

/-! ### Rows -/

section Rows
variable {R : Type} [Scalar R]

/-- What stands before the label of a coefficient. -/
def spelling (first : Bool) (a : Complex R) : String :=
  if a.text = "1" then if first then "" else "+ "
  else if !Scalar.isZero a.im then "+ (" ++ a.text ++ ")"
  else if Scalar.isNegative a.re then
    if (Scalar.value a.re).isNear (-1) then "- " else "- " ++ (-a).text
  else "+ " ++ a.text

/-- The coefficients of a row that are not negligible, with their labels. -/
def termsThatCount (labels : List String) (row : List (Complex R)) : List (Complex R × String) :=
  (row.dropLast.zip labels).filter fun p => !p.1.isNegligible

/-- Labels with their coefficients before them, each followed by a space. -/
def termsText : List (Complex R × String) → String
  | [] => ""
  | (a, label) :: rest => spelling true a ++ label ++ " " ++
      String.join (rest.map fun p => spelling false p.1 ++ p.2 ++ " ")

/-- The line of a row: the terms that count, and the right hand side. -/
def lineOfRow (labels : List String) (row : List (Complex R)) : String :=
  termsText (termsThatCount labels row) ++ "= " ++ (row.getLastD 0).text

/-- Whether some coefficient of a row is not negligible. -/
def hasTerms (row : List (Complex R)) : Bool := row.dropLast.any fun a => !a.isNegligible

end Rows

theorem termOfColumn_eq {R : Type} [Scalar R] (first : Bool) (a : Complex R) (label : String) :
    termOfColumn first a label = spelling first a ++ label := by
  unfold termOfColumn spelling
  split
  · rfl
  · split
    · rfl
    · split
      · split <;> rfl
      · rfl

variable {l : List (Complex Float × String)} {terms : String} {labels : List String}
variable {row : List (Complex Float)}

theorem termsOfRow_of_ne_empty (h : terms ≠ "") : termsOfRow terms l =
    terms ++ String.join ((l.filter fun p => !p.1.isNegligible).map fun p =>
      spelling false p.1 ++ p.2 ++ " ") := by
  induction l generalizing terms with
  | nil => simp [termsOfRow]
  | cons p l ih =>
    rw [termsOfRow]
    by_cases hp : p.1.isNegligible
    · rw [if_pos ((Complex.text_eq_zero_iff p.1).mpr hp), ih h,
        List.filter_cons_of_neg (by simp [hp])]
    · have hfirst : terms.isEmpty = false := by simpa using h
      have hmore : terms ++ (spelling false p.1 ++ p.2) ++ " " ≠ "" := by
        rw [ne_eq, String.append_eq_empty_iff]
        exact fun hempty => absurd hempty.2 (by decide)
      rw [if_neg (mt (Complex.text_eq_zero_iff p.1).mp hp), List.filter_cons_of_pos (by simp [hp]),
        hfirst, termOfColumn_eq, ih hmore, List.map_cons, String.join_cons]
      simp only [String.append_assoc]

/-- **The terms of a row are those that count.** -/
theorem termsOfRow_empty :
    termsOfRow "" l = termsText (l.filter fun p => !p.1.isNegligible) := by
  induction l with
  | nil => rfl
  | cons p l ih =>
    rw [termsOfRow]
    by_cases hp : p.1.isNegligible
    · rw [if_pos ((Complex.text_eq_zero_iff p.1).mpr hp), ih,
        List.filter_cons_of_neg (by simp [hp])]
    · have hmore : "" ++ (spelling true p.1 ++ p.2) ++ " " ≠ "" := by
        rw [ne_eq, String.append_eq_empty_iff]
        exact fun hempty => absurd hempty.2 (by decide)
      have hfirst : "".isEmpty = true := rfl
      rw [if_neg (mt (Complex.text_eq_zero_iff p.1).mp hp), List.filter_cons_of_pos (by simp [hp]),
        hfirst, termOfColumn_eq, termsOfRow_of_ne_empty hmore, String.empty_append]
      rfl

/-- The coefficients of a row are those that have a label, if there are enough labels. -/
theorem forall_mem_zip_iff {P : Complex Float → Prop} (h : row.length = labels.length) :
    (∀ p ∈ row.dropLast.zip labels, P p.1) ↔ ∀ a ∈ row.dropLast, P a := by
  have hmap : (row.dropLast.zip labels).map Prod.fst = row.dropLast :=
    List.map_fst_zip (by simp [h])
  conv_rhs => rw [← hmap]
  exact List.forall_mem_map.symm

/-- Some term counts if some coefficient does. -/
theorem termsThatCount_eq_nil_iff (h : row.length = labels.length) :
    termsThatCount labels row = [] ↔ ¬hasTerms row := by
  rw [termsThatCount, List.filter_eq_nil_iff,
    forall_mem_zip_iff (P := fun a => ¬(!a.isNegligible) = true) h, hasTerms]
  simp

theorem RowReading.ofRow_eq (h : row.length = labels.length) : ofRow labels row =
    if hasTerms row then .equation (lineOfRow labels row)
    else if (row.getLastD 0).isNegligible then .vacuous else .contradiction := by
  have hzero : termsOfRow "" (row.dropLast.zip labels) = "" ↔ ¬hasTerms row := by
    rw [termsOfRow_eq_empty_iff, and_iff_right rfl]
    simp only [Complex.text_eq_zero_iff, hasTerms]
    rw [forall_mem_zip_iff (P := fun a => a.isNegligible) h]
    simp
  by_cases hterms : hasTerms row
  · rw [ofRow_of_terms_ne (fun hempty => hzero.mp hempty hterms), if_pos hterms, termsOfRow_empty]
    rfl
  · rw [ofRow_of_terms_eq (hzero.mpr hterms), if_neg hterms]
    simp only [Complex.text_eq_zero_iff]

theorem RowReading.ofRow_eq_contradiction_iff (h : row.length = labels.length) :
    ofRow labels row = .contradiction ↔
      (∀ a ∈ row.dropLast, a.isNegligible) ∧ ¬(row.getLastD 0).isNegligible := by
  have hterms : ¬hasTerms row ↔ ∀ a ∈ row.dropLast, a.isNegligible := by simp [hasTerms]
  rw [ofRow_eq h, ← hterms]
  split
  · rename_i hsome
    exact iff_of_false nofun fun hnone => hnone.1 hsome
  · rename_i hnone
    rw [and_iff_right hnone]
    split
    · rename_i hzero
      exact iff_of_false nofun fun hne => hne hzero
    · rename_i hne
      exact iff_of_true rfl hne

theorem RowReading.line?_ofRow (h : row.length = labels.length) :
    (ofRow labels row).line? = if hasTerms row then some (lineOfRow labels row) else none := by
  rw [ofRow_eq h]
  split
  · rfl
  · split <;> rfl

/-- The lines of rows without a contradiction are those of the rows with coefficients that count. -/
theorem Solution.ofReadings_eq_solved {rows : List (List (Complex Float))}
    (hrows : ∀ row ∈ rows, row.length = labels.length)
    (h : ofReadings (rows.map (RowReading.ofRow labels)) ≠ .inconsistent) :
    ofReadings (rows.map (RowReading.ofRow labels)) =
      .solved ((rows.filter hasTerms).map (lineOfRow labels)) := by
  rw [ne_eq, ofReadings_eq_inconsistent_iff] at h
  rw [ofReadings_of_notMem h, List.filterMap_map, ← List.filterMap_eq_map, List.filterMap_filter]
  refine congrArg solved (List.filterMap_congr fun row hrow => ?_)
  exact RowReading.line?_ofRow (hrows row hrow)

/-- If there are lines, they are those of the rows with coefficients that count. -/
theorem eq_of_readSolution {m : ComplexMatrix Float} {lines : List String} (hm : m.WellFormed)
    (h : readSolution m labels = .ok (.solved lines)) :
    (∀ row ∈ m.rows, row.length = labels.length) ∧
      lines = (m.rows.filter hasTerms).map (lineOfRow labels) := by
  rw [readSolution] at h
  split at h
  · rename_i hcount
    have hlength : ∀ row ∈ m.rows, row.length = labels.length := fun row hrow =>
      (hm.length_row row hrow).trans hcount.symm
    have hsolved := Except.ok.inj h
    have hrows := Solution.ofReadings_eq_solved hlength (hsolved ▸ Solution.noConfusion)
    exact ⟨hlength, Solution.solved.inj (hsolved.symm.trans hrows)⟩
  · cases h

/-- **What is read off a matrix.**  A row without coefficients that count and with a right hand side
that does makes it inconsistent; otherwise each row with coefficients that count has a line. -/
theorem readSolution_spec {m : ComplexMatrix Float} (hm : m.WellFormed) (labels : List String) :
    (labels.length ≠ m.columnCount →
      readSolution m labels = .error (.labelCount m.columnCount labels.length)) ∧
    (labels.length = m.columnCount → ∃ s, readSolution m labels = .ok s ∧
      (s = .inconsistent ↔ ∃ row ∈ m.rows, (∀ a ∈ row.dropLast, a.isNegligible) ∧
        ¬(row.getLastD 0).isNegligible) ∧
      (s ≠ .inconsistent → s = .solved ((m.rows.filter hasTerms).map (lineOfRow labels)))) := by
  refine ⟨fun h => if_neg h, fun h => ?_⟩
  have hrows : ∀ row ∈ m.rows, row.length = labels.length := fun row hrow =>
    (hm.length_row row hrow).trans h.symm
  refine ⟨_, if_pos h, ?_, Solution.ofReadings_eq_solved hrows⟩
  rw [Solution.ofReadings_eq_inconsistent_iff, List.mem_map]
  exact exists_congr fun row => and_congr_right fun hrow =>
    RowReading.ofRow_eq_contradiction_iff (hrows row hrow)

/-- Rounding has left small numbers in both rows. -/
theorem readSolution_of_small_numbers :
    let m : ComplexMatrix Float :=
      ⟨[[1, ⟨1e-10, 0⟩, ⟨3, -1e-12⟩], [0, ⟨0, -1e-10⟩, ⟨1e-10, 0⟩]], none, none⟩
    m.WellFormed ∧ readSolution m ["x", "y", "="] = .ok (.solved ["x = 3"]) := by
  intro m
  have hm : m.WellFormed := by decide
  have hlines : (m.rows.filter hasTerms).map (lineOfRow ["x", "y", "="]) = ["x = 3"] := by
    decide +kernel
  have hconsistent : ∀ row ∈ m.rows, (∀ a ∈ row.dropLast, a.isNegligible) →
      (row.getLastD 0).isNegligible := by decide +kernel
  obtain ⟨s, hs, hinconsistent, hsolved⟩ := (readSolution_spec hm ["x", "y", "="]).2 rfl
  refine ⟨hm, hs.trans (congrArg _ ((hsolved fun h => ?_).trans (congrArg _ hlines)))⟩
  obtain ⟨row, hrow, hcoefficients, hright⟩ := hinconsistent.mp h
  exact hright (hconsistent row hrow hcoefficients)

end LinearEquations
