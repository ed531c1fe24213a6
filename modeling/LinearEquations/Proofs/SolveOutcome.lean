import LinearEquations.Proofs.FiniteReading
import LinearEquations.Proofs.FlatSolve

/-! # How solving can end

Reading and solving a list of texts fails because one of them is no equation, because there are
none, or because the elimination meets a number that it cannot use.  Every other error of matrices
is out of reach: the numbers that are read are finite, the rows of the augmented matrix have one
length and the labels are as many, and the elimination keeps both.  On rows the elimination has no
way to raise such an error; on arrays every row operation and every joining of matrices could, and
that none does is what `solveSystem_flat` adds. -/

namespace LinearEquations
open LabelledMatrix

variable {R : Type} [Scalar R]

/-! ### Reading the texts -/

/-- The text number `index` is the first that is no equation. -/
structure IsFirstFailure (R : Type) [Scalar R] (texts : List String) (index : Nat) (text : String)
    (cause : ParseError) : Prop where
  text_eq : texts[index]? = some text
  cause_eq : (Equation.parse text : Except ParseError (Equation R)) = .error cause
  before : ∀ i < index, ∀ other, texts[i]? = some other →
    ∃ e : Equation R, Equation.parse other = .ok e

variable {texts : List String} {equations : List (Equation R)} {e : Equation R}

theorem IsFirstFailure.cons {index : Nat} {first text : String} {cause : ParseError}
    (hfirst : Equation.parse first = .ok e) (h : IsFirstFailure R texts index text cause) :
    IsFirstFailure R (first :: texts) (index + 1) text cause where
  text_eq := h.text_eq
  cause_eq := h.cause_eq
  before i hi other hother := by
    cases i with
    | zero =>
      cases hother
      exact ⟨e, hfirst⟩
    | succ i => exact h.before i (Nat.lt_of_succ_lt_succ hi) other hother

/-- The texts are read one by one, up to the first that is no equation. -/
theorem parseFrom_cases (start : Nat) (texts : List String) :
    (∃ equations : List (Equation R), LinearSystem.parseFrom start texts = .ok equations ∧
        List.Forall₂ (fun text e => Equation.parse text = .ok e) texts equations) ∨
      ∃ index text cause, IsFirstFailure R texts index text cause ∧
        (LinearSystem.parseFrom start texts : Except (SolveError R) (List (Equation R))) =
          .error (.parse (start + index) text cause) := by
  induction texts generalizing start with
  | nil => exact .inl ⟨[], rfl, .nil⟩
  | cons text texts ih =>
    cases htext : (Equation.parse text : Except ParseError (Equation R)) with
    | error cause =>
      refine .inr ⟨0, text, cause, ⟨rfl, htext, nofun⟩, ?_⟩
      rw [LinearSystem.parseFrom, htext]
      rfl
    | ok e =>
      rcases ih (start + 1) with ⟨equations, heq, hall⟩ | ⟨index, text', cause, hfirst, heq⟩
      · refine .inl ⟨e :: equations, ?_, .cons htext hall⟩
        rw [LinearSystem.parseFrom, htext, heq]
        rfl
      · refine .inr ⟨index + 1, text', cause, hfirst.cons htext, ?_⟩
        rw [LinearSystem.parseFrom, htext, heq, Nat.add_right_comm]
        rfl

/-- There is only one first failure. -/
theorem IsFirstFailure.unique {i j : Nat} {text other : String} {cause cause' : ParseError}
    (h : IsFirstFailure R texts i text cause) (h' : IsFirstFailure R texts j other cause') :
    i = j ∧ text = other ∧ cause = cause' := by
  have hle : ∀ {i j : Nat} {text other : String} {cause cause' : ParseError},
      IsFirstFailure R texts i text cause → IsFirstFailure R texts j other cause' → i ≤ j := by
    intro i j text other cause cause' h h'
    refine Nat.le_of_not_lt fun hlt => ?_
    obtain ⟨e, he⟩ := h.before j hlt other h'.text_eq
    cases he.symm.trans h'.cause_eq
  obtain rfl := Nat.le_antisymm (hle h h') (hle h' h)
  obtain rfl : text = other := Option.some.inj (h.text_eq.symm.trans h'.text_eq)
  exact ⟨rfl, rfl, Except.error.inj (h.cause_eq.symm.trans h'.cause_eq)⟩

/-! ### The augmented matrix -/

namespace LinearSystem
variable {s : LinearSystem R}

theorem isFinite_coefficient [FiniteReading R] (he : e.IsFinite) (x : String) :
    ((e.coefficient? x).getD 0).isFinite := by
  unfold Equation.coefficient?
  cases hfind : e.terms.find? fun term => term.1 = x with
  | none => exact Complex.isFinite_zero
  | some t => exact he.terms t (List.mem_of_find?_eq_some hfind)

/-- A row of the augmented matrix is finite and has a cell for each label. -/
theorem forall_mem_rowOf [FiniteReading R] (he : e.IsFinite) (unknowns : List String) :
    (∀ x ∈ rowOf unknowns e, x.isFinite) ∧ (rowOf unknowns e).length = unknowns.length + 1 := by
  refine ⟨List.forall_mem_append.mpr ⟨List.forall_mem_map.mpr fun x _ => ?_,
    List.forall_mem_singleton.mpr he.rhs⟩, length_rowOf unknowns e⟩
  exact isFinite_coefficient he x

/-- **Finite equations have an augmented matrix**, with a row for each equation and a column for
each label. -/
theorem exists_augmentedMatrix [FiniteReading R] (hfinite : ∀ e ∈ s.equations, e.IsFinite)
    (hne : s.equations ≠ []) :
    ∃ m, s.augmentedMatrix = .ok m ∧ m.WellFormed ∧ m.rowCount = s.equations.length ∧
      m.labels = some s.labels := by
  have hrows : ∀ row ∈ s.equations.map (rowOf s.unknowns),
      (∀ x ∈ row, x.isFinite) ∧ row.length = s.unknowns.length + 1 :=
    List.forall_mem_map.mpr fun e he => forall_mem_rowOf (hfinite e he) s.unknowns
  let m : ComplexMatrix R := { rows := s.equations.map (rowOf s.unknowns) }
  have hcols : m.columnCount = s.unknowns.length + 1 :=
    columnCount_eq (by simpa [m, rowCount, List.length_pos_iff] using hne) fun row hrow =>
      (hrows row hrow).2
  have hm : ofRows m.rows = .ok m := ofRows_eq_ok.mpr
    ⟨fun row hrow => ⟨(hrows row hrow).1, (hrows row hrow).2.trans hcols.symm⟩,
      List.ne_nil_of_length_eq_add_one hcols, rfl⟩
  have hlabels : m.withLabels s.labels =
      (.ok { m with labels := some s.labels } : Except (MatrixError R) (ComplexMatrix R)) :=
    withLabels_eq_ok.mpr ⟨by simp [hcols, labels], rfl⟩
  exact ⟨_, bind_eq_ok.mpr ⟨m, hm, hlabels⟩, (wellFormed_of_ofRows hm).withLabels hlabels,
    List.length_map _, rfl⟩

end LinearSystem

/-! ### Solving -/

theorem LabelledMatrix.reducedRowEchelon_eq_error {m : ComplexMatrix R} {e : MatrixError R}
    (h : m.reducedRowEchelon = .error e) : ∃ cause, e = .arithmetic cause := by
  have hwrapped : ∀ {A : Type} {x : Except (ArithmeticError R) A},
      x.mapError MatrixError.arithmetic = .error e → ∃ cause, e = .arithmetic cause := by
    intro A x hx
    obtain ⟨cause, -, rfl⟩ := mapError_eq_error.mp hx
    exact ⟨cause, rfl⟩
  rcases bind_eq_error.mp h with hechelon | ⟨m', -, hclear⟩
  · unfold rowEchelon at hechelon
    split at hechelon
    · cases hechelon
    · rcases bind_eq_error.mp hechelon with hrows | ⟨rows, -, hrows⟩
      · exact hwrapped hrows
      · cases hrows
  · rcases bind_eq_error.mp hclear with hrows | ⟨rows, -, hrows⟩
    · exact hwrapped hrows
    · cases hrows

namespace LinearSystem
variable {s : LinearSystem R} [FiniteReading R]

/-- **Finite equations are solved, or the elimination fails.**  A solution has a row for each
equation and a label for each column, and it can be read. -/
theorem solve_cases (hfinite : ∀ e ∈ s.equations, e.IsFinite) (hne : s.equations ≠ []) :
    (∃ cause, s.solve = .error (.arithmetic cause)) ∨
      ∃ m, s.solve = .ok ⟨m, s.labels⟩ ∧ m.rowCount = s.equations.length ∧
        m.labels = some s.labels ∧ ∃ solution, readSolution m s.labels = .ok solution := by
  obtain ⟨augmented, haugmented, hwf, hrows, hlabels⟩ := exists_augmentedMatrix hfinite hne
  have hsolve : s.solve = augmented.reducedRowEchelon >>= fun m =>
      .ok ⟨m, m.labels.getD []⟩ := by
    rw [solve, haugmented]
    rfl
  cases hreduced : augmented.reducedRowEchelon with
  | error e =>
    obtain ⟨cause, rfl⟩ := reducedRowEchelon_eq_error hreduced
    exact .inl ⟨cause, hsolve.trans (hreduced ▸ rfl)⟩
  | ok m =>
    obtain ⟨hm, hshape, hmlabels⟩ := hwf.reducedRowEchelon hreduced
    rw [hlabels] at hmlabels
    have hread : readSolution m s.labels = .ok (Solution.ofReadings
        (m.rows.map (RowReading.ofRow s.labels))) := if_pos (hm.length_labels _ hmlabels)
    refine .inr ⟨m, ?_, (Prod.mk.inj hshape).1.trans hrows, hmlabels, _, hread⟩
    rw [hsolve, hreduced]
    change Except.ok (ReducedSystem.mk m (m.labels.getD [])) = _
    rw [hmlabels]
    rfl

end LinearSystem

/-- The texts of equations are read as these equations. -/
def AreRead (texts : List String) (equations : List (Equation R)) : Prop :=
  List.Forall₂ (fun text e => Equation.parse text = .ok e) texts equations

theorem AreRead.isFinite [FiniteReading R] (h : AreRead texts equations) :
    ∀ e ∈ equations, e.IsFinite := by
  induction h with
  | nil => exact List.forall_mem_nil _
  | cons hparse _ ih => exact List.forall_mem_cons.mpr ⟨Equation.isFinite_of_parse hparse, ih⟩

/-- If all texts are read, there is no first failure. -/
theorem AreRead.not_isFirstFailure {index : Nat} {text : String} {cause : ParseError}
    (h : AreRead texts equations) : ¬IsFirstFailure R texts index text cause := by
  rintro ⟨htext, hcause, -⟩
  obtain ⟨e, -, he⟩ := exists_mem_of_forall₂ h.flip (List.mem_of_getElem? htext)
  cases he.symm.trans hcause

theorem AreRead.parseFrom_eq (h : AreRead texts equations) (start : Nat) :
    LinearSystem.parseFrom start texts = .ok equations := by
  induction h generalizing start with
  | nil => rfl
  | cons hparse _ ih =>
    rw [LinearSystem.parseFrom, hparse, ih]
    rfl

theorem AreRead.solveTexts_eq (h : AreRead texts equations) :
    solveTexts texts = (LinearSystem.solve ⟨equations⟩).mapError .matrix := by
  rw [solveTexts, LinearSystem.parse, h.parseFrom_eq]
  rfl

theorem solveTexts_of_isFirstFailure {index : Nat} {text : String} {cause : ParseError}
    (h : IsFirstFailure R texts index text cause) :
    solveTexts (R := R) texts = .error (.parse index text cause) := by
  rcases parseFrom_cases (R := R) 0 texts with
    ⟨equations, -, hread⟩ | ⟨i, other, cause', h', hparse⟩
  · exact absurd h (AreRead.not_isFirstFailure hread)
  · obtain ⟨rfl, rfl, rfl⟩ := h.unique h'
    rw [solveTexts, LinearSystem.parse, hparse, Nat.zero_add]
    rfl

/-- What is returned for the texts of some equations: the reduced augmented matrix under its labels,
of which a solution can be read. -/
structure IsSolved (texts : List String) (r : ReducedSystem R) (equations : List (Equation R)) :
    Prop where
  areRead : AreRead texts equations
  rowCount_eq : r.matrix.rowCount = texts.length
  matrix_labels : r.matrix.labels = some (LinearSystem.unknowns ⟨equations⟩ ++ ["rhs"])
  labels_eq : r.labels = LinearSystem.unknowns ⟨equations⟩ ++ ["rhs"]
  exists_solution : ∃ solution, r.solution = .ok solution

theorem solveTexts_of_ne_nil [FiniteReading R] (hread : AreRead texts equations)
    (hne : texts ≠ []) :
    (∃ cause, solveTexts (R := R) texts = .error (.matrix (.arithmetic cause))) ∨
      ∃ r, solveTexts texts = .ok r ∧ IsSolved texts r equations := by
  have hlen : texts.length = equations.length := hread.length_eq
  have hequations : equations ≠ [] := by
    rwa [← List.length_pos_iff, ← hlen, List.length_pos_iff]
  rcases LinearSystem.solve_cases (s := ⟨equations⟩) hread.isFinite hequations with
    ⟨cause, herror⟩ | ⟨m, hm, hrows, hlabels, hsolution⟩
  · exact .inl ⟨cause, hread.solveTexts_eq.trans (mapError_eq_error.mpr ⟨_, herror, rfl⟩)⟩
  · exact .inr ⟨_, hread.solveTexts_eq.trans (mapError_eq_ok.mpr hm), hread, hrows.trans hlen.symm,
      hlabels, rfl, hsolution⟩

/-- How solving on arrays ends: never with a fault, nor with an error that a single operation on
matrices raises for the shape, the labels or the numbers of a matrix. -/
structure EndsOnArrays (texts : List String) (equations : List (Equation R)) : Prop where
  error_cases : ∀ stop, FlatMatrix.solveSystem ⟨equations⟩ = .error stop →
    (texts = [] ∧ stop = .refused .empty) ∨ ∃ cause, stop = .refused (.arithmetic cause)
  eq_ok : ∀ r, solveTexts texts = .ok r → ∃ solution, r.solution = .ok solution ∧
    FlatMatrix.solveSystem ⟨equations⟩ = .ok (r.matrix.flat, r.labels, solution)

theorem AreRead.endsOnArrays [FiniteReading R] (hread : AreRead texts equations) :
    EndsOnArrays texts equations := by
  have harrays := FlatMatrix.solveSystem_flat (⟨equations⟩ : LinearSystem R)
  rcases eq_or_ne equations [] with rfl | hne
  · have hnil : texts = [] := List.length_eq_zero_iff.mp hread.length_eq
    have hsolve : LinearSystem.solve (⟨[]⟩ : LinearSystem R) = .error .empty := rfl
    rw [hsolve] at harrays
    refine ⟨fun stop h => .inl ⟨hnil, ?_⟩, fun r h => ?_⟩
    · exact (Except.error.inj (harrays.symm.trans h)).symm
    · rw [hread.solveTexts_eq, hsolve] at h
      cases h
  · rcases LinearSystem.solve_cases (s := ⟨equations⟩) hread.isFinite hne with
      ⟨cause, herror⟩ | ⟨m, hm, -, -, solution, hsolution⟩
    · rw [herror] at harrays
      refine ⟨fun stop h => .inr ⟨cause, ?_⟩, fun r h => ?_⟩
      · exact (Except.error.inj (harrays.symm.trans h)).symm
      · rw [hread.solveTexts_eq, herror] at h
        cases h
    · have hread' : (ReducedSystem.mk m (LinearSystem.labels ⟨equations⟩)).solution =
          .ok solution := hsolution
      rw [hm, ok_bind, hread'] at harrays
      refine ⟨fun stop h => ?_, fun r h => ?_⟩
      · cases harrays.symm.trans h
      · rw [hread.solveTexts_eq, hm] at h
        cases h
        exact ⟨solution, hread', harrays⟩

/-- **How solving can end**: with the first text that is no equation, because there are no texts,
with an arithmetic error, or with a reduced matrix whose solution can be read; and on arrays, where
each operation checks shapes, rows and labels, in the same way. -/
theorem solveTexts_outcome [FiniteReading R] (texts : List String) :
    (∀ error : SolveError R, solveTexts texts = .error error →
      (∃ index text cause, IsFirstFailure R texts index text cause ∧
          error = .parse index text cause) ∨
        (texts = [] ∧ error = .matrix .empty) ∨ ∃ cause, error = .matrix (.arithmetic cause)) ∧
    (∀ index text cause, IsFirstFailure R texts index text cause →
      solveTexts (R := R) texts = .error (.parse index text cause)) ∧
    (solveTexts (R := R) texts = .error (.matrix .empty) ↔ texts = []) ∧
    (∀ r : ReducedSystem R, solveTexts texts = .ok r → ∃ equations, IsSolved texts r equations) ∧
    ∀ equations : List (Equation R), AreRead texts equations → EndsOnArrays texts equations := by
  refine and_left_comm.mp ⟨fun _ _ _ => solveTexts_of_isFirstFailure, ?_⟩
  rw [← and_assoc, ← and_assoc]
  refine ⟨and_assoc.mpr ?_, fun _ => AreRead.endsOnArrays⟩
  rcases parseFrom_cases (R := R) 0 texts with
    ⟨equations, hparse, hread⟩ | ⟨index, text, cause, hfirst, -⟩
  · rcases eq_or_ne texts [] with rfl | hne
    · have hsolve : solveTexts (R := R) [] = .error (.matrix .empty) := rfl
      rw [hsolve]
      refine ⟨?_, iff_of_true rfl rfl, nofun⟩
      rintro _ ⟨⟩
      exact .inr (.inl ⟨rfl, rfl⟩)
    · rcases solveTexts_of_ne_nil hread hne with ⟨cause, hsolve⟩ | ⟨r, hsolve, hr⟩
      · rw [hsolve]
        refine ⟨?_, iff_of_false nofun hne, nofun⟩
        rintro _ ⟨⟩
        exact .inr (.inr ⟨cause, rfl⟩)
      · rw [hsolve]
        refine ⟨nofun, iff_of_false nofun hne, ?_⟩
        rintro _ ⟨⟩
        exact ⟨equations, hr⟩
  · have hne : texts ≠ [] := by
      rintro rfl
      cases hfirst.text_eq
    rw [solveTexts_of_isFirstFailure hfirst]
    refine ⟨?_, iff_of_false nofun hne, nofun⟩
    rintro _ ⟨⟩
    exact .inl ⟨index, text, cause, hfirst, rfl⟩

/-- Two equations that are solved, and a second text that is no equation. -/
theorem solveTexts_outcome_of_two_texts :
    (∃ r equations, solveTexts (R := Float) ["x + 2y = 3", "x - y = 1"] = .ok r ∧
      IsSolved ["x + 2y = 3", "x - y = 1"] r equations ∧
      EndsOnArrays ["x + 2y = 3", "x - y = 1"] equations) ∧
    ∃ cause, solveTexts (R := Float) ["x = 1", "y = (1"] = .error (.parse 1 "y = (1" cause) := by
  constructor
  · have hok : (solveTexts (R := Float) ["x + 2y = 3", "x - y = 1"]).toOption.isSome := by
      decide +kernel
    obtain ⟨r, hr⟩ := exists_eq_ok hok
    obtain ⟨equations, hsolved⟩ := (solveTexts_outcome _).2.2.2.1 r hr
    exact ⟨r, equations, hr, hsolved, (solveTexts_outcome _).2.2.2.2 _ hsolved.areRead⟩
  · have hx : (Equation.parse "x = 1" : Except ParseError (Equation Float)).toOption.isSome := by
      decide +kernel
    have hy : (Equation.parse "y = (1" : Except ParseError (Equation Float)).toOption.isNone := by
      decide +kernel
    obtain ⟨e, he⟩ := exists_eq_ok hx
    obtain ⟨cause, hcause⟩ := exists_eq_error hy
    have hbefore : ∀ i < 1, ∀ other, ["x = 1", "y = (1"][i]? = some other →
        ∃ e : Equation Float, Equation.parse other = .ok e := by
      intro i hi other hother
      obtain rfl := Nat.lt_one_iff.mp hi
      cases hother
      exact ⟨e, he⟩
    exact ⟨cause, (solveTexts_outcome _).2.1 1 _ cause ⟨rfl, hcause, hbefore⟩⟩

end LinearEquations
