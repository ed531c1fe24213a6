import LinearEquations.CommandLine
import LinearEquations.Proofs.SolveOutcome

/-! # The command line as a dialogue

`CommandLine.run` says all at once what a run of the program leaves behind.  The program itself
takes one line after the other, adds an equation to its system or reports the line, and from then on
writes as it goes, so that a step that fails leaves behind what was written before it.  That is
`session`, a program with a transcript as its state; it comes to the same end as `run`
(`session_eq_run`).

`run_tells_solveTexts` says what that end is: what `solveTexts` answers for the lines that are
equations.  Solving a list of texts stops at the first that is no equation, and a session passes
over it, so the two are compared on the lines that a session accepts; there the system that was
built line by line is the system that is read at once. -/

namespace LinearEquations

variable {R : Type}

namespace CommandLine
open LabelledMatrix

/-! ### Lines one by one -/

/-- A line without the carriage return at its end. -/
def withoutReturn (line : List Char) : List Char :=
  if line.getLast? = some '\r' then line.dropLast else line

/-- The first line of a text, and the text after it.  A line that has an end loses a carriage return
before it; the last line may have none, and is left as it is. -/
def nextLine? (text : List Char) : Option (List Char × List Char) :=
  match text.dropWhile (· ≠ '\n') with
  | [] => if text.isEmpty then none else some (text, [])
  | _ :: rest => some (withoutReturn (text.takeWhile (· ≠ '\n')), rest)

theorem length_lt_of_nextLine? {text line rest : List Char}
    (h : nextLine? text = some (line, rest)) : rest.length < text.length := by
  have hle := (List.dropWhile_suffix (fun c => decide (c ≠ '\n')) (l := text)).length_le
  unfold nextLine? at h
  cases hdrop : text.dropWhile (· ≠ '\n') with
  | nil =>
    rw [hdrop] at h
    obtain ⟨hne, h⟩ := Option.ite_none_left_eq_some.mp h
    obtain ⟨-, rfl⟩ := Prod.mk.inj (Option.some.inj h)
    exact List.length_pos_iff.mpr fun hnil => hne (List.isEmpty_iff.mpr hnil)
  | cons c end_ =>
    rw [hdrop] at h hle
    obtain ⟨-, rfl⟩ := Prod.mk.inj (Option.some.inj h)
    exact hle

theorem withoutReturn_cons (c d : Char) (line : List Char) :
    withoutReturn (c :: d :: line) = c :: withoutReturn (d :: line) := by
  unfold withoutReturn
  rw [List.getLast?_cons_cons]
  split <;> rfl

/-- A character that does not begin an end of line belongs to the line after it. -/
theorem lines_cons_cons {c d : Char} (hc : c ≠ '\n') (hreturn : ¬(c = '\r' ∧ d = '\n'))
    {line : List Char} {more : List (List Char)} {rest : List Char}
    (h : lines (d :: rest) = line :: more) : lines (c :: d :: rest) = (c :: line) :: more := by
  rw [lines, h]
  · exact hc
  · rintro rfl rfl
    exact hreturn ⟨rfl, rfl⟩

theorem lines_of_last {line : List Char} (hne : line ≠ []) (hline : ∀ c ∈ line, c ≠ '\n') :
    lines line = [line] := by
  induction line with
  | nil => exact absurd rfl hne
  | cons c line ih =>
    obtain ⟨hc, hline⟩ := List.forall_mem_cons.mp hline
    cases line with
    | nil =>
      rw [lines]
      exact hc
    | cons d line =>
      refine lines_cons_cons hc (fun h => ?_) (ih (List.cons_ne_nil _ _) hline)
      exact hline d List.mem_cons_self h.2

theorem lines_of_end {line : List Char} (hline : ∀ c ∈ line, c ≠ '\n') (rest : List Char) :
    lines (line ++ '\n' :: rest) = withoutReturn line :: lines rest := by
  induction line with
  | nil => rfl
  | cons c line ih =>
    obtain ⟨hc, hline⟩ := List.forall_mem_cons.mp hline
    cases line with
    | nil =>
      by_cases hreturn : c = '\r'
      · subst hreturn
        rfl
      · have hend : withoutReturn [c] = [c] := if_neg fun h => hreturn (Option.some.inj h)
        rw [hend]
        exact lines_cons_cons hc (fun h => hreturn h.1) (ih hline)
    | cons d line =>
      rw [withoutReturn_cons]
      refine lines_cons_cons hc (fun h => ?_) (ih hline)
      exact hline d List.mem_cons_self h.2

/-- The lines of a text are its first line and the lines of the rest. -/
theorem lines_eq (text : List Char) :
    lines text = match nextLine? text with
      | none => []
      | some (line, rest) => line :: lines rest := by
  have hline : ∀ c ∈ text.takeWhile (· ≠ '\n'), c ≠ '\n' := by
    intro c hc
    simpa using List.mem_takeWhile_imp hc
  have htext := List.takeWhile_append_dropWhile (p := fun c => decide (c ≠ '\n')) (l := text)
  unfold nextLine?
  cases hdrop : text.dropWhile (· ≠ '\n') with
  | nil =>
    rw [hdrop, List.append_nil] at htext
    rw [htext] at hline
    dsimp only
    rcases eq_or_ne text [] with rfl | hne
    · rfl
    · rw [if_neg fun hempty => hne (List.isEmpty_iff.mp hempty)]
      exact lines_of_last hne hline
  | cons c rest =>
    obtain rfl : c = '\n' := by
      have hhead := List.head?_dropWhile_not (fun c => decide (c ≠ '\n')) text
      rw [hdrop] at hhead
      simpa using hhead
    conv_lhs => rw [← htext, hdrop]
    exact lines_of_end hline rest

/-! ### The program, step by step -/

/-- What has been written so far. -/
structure Transcript where
  output : String := ""
  errors : String := ""

namespace Transcript

/-- The transcript with more lines of output. -/
def printed (t : Transcript) (texts : List String) : Transcript :=
  { t with output := t.output ++ unlines texts }

/-- The transcript with more lines of reports. -/
def complained (t : Transcript) (texts : List String) : Transcript :=
  { t with errors := t.errors ++ unlines texts }

end Transcript

/-- A program that writes, and may be stopped by an error. -/
abbrev Program (R : Type) := EStateM (MatrixError R) Transcript

/-- Write a line to the output. -/
def print (text : String) : Program R Unit := modify (·.printed [text])

/-- Write a line to the reports. -/
def complain (text : String) : Program R Unit := modify (·.complained [text])

section
variable [Scalar R]

/-- Take the equation of a line into the system.  A blank line is passed over, and a line that is no
equation is reported. -/
def takeLine (system : LinearSystem R) (line : List Char) : Program R (LinearSystem R) :=
  if line.all isBlank then return system
  else
    let text := String.ofList line
    match Equation.parse text with
    | .ok e => return system.push e
    | .error cause => do
      complain ("Unable to parse \"" ++ text ++ "\": " ++ cause.message)
      return system

/-- Take the lines of a text one by one. -/
def takeLines (system : LinearSystem R) (text : List Char) : Program R (LinearSystem R) :=
  match _h : nextLine? text with
  | none => return system
  | some (line, rest) => do takeLines (← takeLine system line) rest
termination_by text.length
decreasing_by exact length_lt_of_nextLine? _h

/-- The title over what is written about a system. -/
def title (system : LinearSystem R) : String :=
  "Solving for " ++ ", ".intercalate system.unknowns

/-- Write the augmented matrix and its reduced form. -/
def writeMatrices (system : LinearSystem R) (reduced : ReducedSystem R) : Program R Unit := do
  print ("Augmented matrix:\n" ++ (← ofExcept system.augmentedMatrix).text)
  print ("Reduced:\n" ++ reduced.matrix.text)

/-- Write the solution, line by line. -/
def writeSolution (reduced : ReducedSystem R) : Program R Unit := do
  print "Found:"
  forM (← ofExcept reduced.solution).lines fun line => print ("  " ++ line)

/-- Read the input, and write about the system as it is solved. -/
def session (options : Options) (input : String) : Program R Unit := do
  let system ← takeLines {} input.toList
  print (title system)
  let reduced ← ofExcept system.solve
  if options.showMatrix then writeMatrices system reduced
  writeSolution reduced

/-- How the program ends: an error is described after everything else. -/
def outcome : EStateM.Result (MatrixError R) Transcript Unit → Outcome
  | .ok _ t => ⟨0, t.output, t.errors⟩
  | .error e t => ⟨1, t.output, (t.complained ["Error: " ++ e.describe]).errors⟩

end

/-! ### What the steps write -/

theorem run_bind_of_ok {A B : Type} {p : Program R A} {f : A → Program R B} {t u : Transcript}
    {a : A} (h : p.run t = .ok a u) : (p >>= f).run t = (f a).run u := by
  rw [EStateM.run_bind, h]

theorem run_bind_of_error {A B : Type} {p : Program R A} {f : A → Program R B} {t u : Transcript}
    {e : MatrixError R} (h : p.run t = .error e u) : (p >>= f).run t = .error e u := by
  rw [EStateM.run_bind, h]

theorem run_ofExcept_of_ok {A : Type} {x : Except (MatrixError R) A} {a : A} (h : x = .ok a)
    (t : Transcript) : (ofExcept x : Program R A).run t = .ok a t := by
  rw [h]
  rfl

theorem run_ofExcept_of_error {A : Type} {x : Except (MatrixError R) A} {e : MatrixError R}
    (h : x = .error e) (t : Transcript) : (ofExcept x : Program R A).run t = .error e t := by
  rw [h]
  rfl

theorem run_print (text : String) (t : Transcript) :
    (print text : Program R Unit).run t = .ok () (t.printed [text]) := rfl

theorem run_complain (text : String) (t : Transcript) :
    (complain text : Program R Unit).run t = .ok () (t.complained [text]) := rfl

theorem unlines_append (texts more : List String) :
    unlines (texts ++ more) = unlines texts ++ unlines more := by
  rw [unlines, List.map_append, String.join_append, unlines, unlines]

theorem unlines_cons (text : String) (texts : List String) :
    unlines (text :: texts) = text ++ "\n" ++ unlines texts := by
  rw [unlines, List.map_cons, String.join_cons, unlines]

@[simp] theorem Transcript.printed_nil (t : Transcript) : t.printed [] = t := by
  simp [printed, unlines]

@[simp] theorem Transcript.complained_nil (t : Transcript) : t.complained [] = t := by
  simp [complained, unlines]

@[simp] theorem Transcript.printed_printed (t : Transcript) (texts more : List String) :
    (t.printed texts).printed more = t.printed (texts ++ more) := by
  simp only [printed, unlines_append, String.append_assoc]

@[simp] theorem Transcript.complained_complained (t : Transcript) (texts more : List String) :
    (t.complained texts).complained more = t.complained (texts ++ more) := by
  simp only [complained, unlines_append, String.append_assoc]

variable [Scalar R]

/-- The line as a list of texts, unless it is blank. -/
def kept (line : List Char) : List String :=
  if line.all isBlank then [] else [String.ofList line]

theorem inputLines_eq (text : List Char) :
    inputLines (String.ofList text) = match nextLine? text with
      | none => []
      | some (line, rest) => kept line ++ inputLines (String.ofList rest) := by
  unfold inputLines
  rw [String.toList_ofList, lines_eq text]
  cases nextLine? text with
  | none => rfl
  | some first =>
    obtain ⟨line, rest⟩ := first
    dsimp only
    rw [String.toList_ofList, List.filter_cons]
    by_cases hblank : line.all isBlank
    · simp [kept, hblank]
    · simp [kept, hblank]

theorem equations_append (texts more : List String) :
    equations R (texts ++ more) = equations R texts ++ equations R more :=
  List.filterMap_append

theorem complaints_append (texts more : List String) :
    complaints R (texts ++ more) = complaints R texts ++ complaints R more :=
  List.filterMap_append

/-- A line adds its equation to the system, or its report to the transcript. -/
theorem run_takeLine (system : LinearSystem R) (line : List Char) (t : Transcript) :
    (takeLine system line).run t = .ok (system.append (equations R (kept line)))
      (t.complained (complaints R (kept line))) := by
  unfold takeLine kept
  split
  · simp [equations, complaints, LinearSystem.append]
  · dsimp only
    cases hparse : (Equation.parse (String.ofList line) : Except ParseError (Equation R)) with
    | ok e =>
      simp [equations, complaints, LinearSystem.append, LinearSystem.push, hparse, Except.toOption]
    | error cause =>
      simp [equations, complaints, LinearSystem.append, hparse, Except.toOption, run_complain]

/-- **The lines of a text add their equations to the system**, and their reports to the
transcript. -/
theorem run_takeLines (system : LinearSystem R) (text : List Char) (t : Transcript) :
    (takeLines system text).run t =
      .ok (system.append (equations R (inputLines (String.ofList text))))
        (t.complained (complaints R (inputLines (String.ofList text)))) := by
  induction hn : text.length using Nat.strong_induction_on generalizing system text t with
  | _ n ih =>
    subst hn
    rw [takeLines, inputLines_eq]
    cases hnext : nextLine? text with
    | none => simp [equations, complaints, LinearSystem.append]
    | some first =>
      obtain ⟨line, rest⟩ := first
      dsimp only
      rw [run_bind_of_ok (run_takeLine system line t),
        ih _ (length_lt_of_nextLine? hnext) _ _ _ rfl, Transcript.complained_complained,
        equations_append, complaints_append, LinearSystem.append, LinearSystem.append,
        LinearSystem.append, List.append_assoc]

omit [Scalar R] in
theorem run_forM_print (texts : List String) (t : Transcript) :
    (forM texts fun line => print ("  " ++ line) : Program R Unit).run t =
      .ok () (t.printed (texts.map ("  " ++ ·))) := by
  induction texts generalizing t with
  | nil =>
    rw [List.map_nil, Transcript.printed_nil]
    rfl
  | cons text texts ih =>
    rw [List.forM_cons, run_bind_of_ok (run_print _ _), ih, Transcript.printed_printed,
      List.map_cons, List.singleton_append]

/-! ### How a session ends -/

/-- A system that has been solved has an augmented matrix, and its solution can be read. -/
theorem exists_of_solve {s : LinearSystem R} {r : ReducedSystem R} (h : s.solve = .ok r) :
    ∃ augmented solution, s.augmentedMatrix = .ok augmented ∧ r.solution = .ok solution := by
  obtain ⟨augmented, haugmented, h⟩ := bind_eq_ok.mp h
  obtain ⟨m, hm, h⟩ := bind_eq_ok.mp h
  cases h
  obtain ⟨a, -, hlabels⟩ := bind_eq_ok.mp haugmented
  obtain ⟨-, rfl⟩ := withLabels_eq_ok.mp hlabels
  obtain ⟨hwf, -, hmlabels⟩ :=
    (FlatMatrix.wellFormed_of_augmentedMatrix haugmented).reducedRowEchelon hm
  refine ⟨_, _, haugmented, if_pos ?_⟩
  dsimp only
  rw [hmlabels]
  exact hwf.length_labels _ hmlabels

/-- The matrices, if they are asked for. -/
def matrixLines (options : Options) (augmented : ComplexMatrix R) (r : ReducedSystem R) :
    List String :=
  if options.showMatrix then
    ["Augmented matrix:", augmented.text, "Reduced:", r.matrix.text]
  else []

variable {s : LinearSystem R} {r : ReducedSystem R} {augmented : ComplexMatrix R}
  {solution : Solution}

theorem run_writeMatrices (h : s.augmentedMatrix = .ok augmented) (t : Transcript) :
    (writeMatrices s r).run t =
      .ok () (t.printed ["Augmented matrix:", augmented.text, "Reduced:", r.matrix.text]) := by
  unfold writeMatrices
  rw [run_bind_of_ok (run_ofExcept_of_ok h t), run_bind_of_ok (run_print _ _), run_print]
  simp only [Transcript.printed, unlines_cons, String.append_assoc]
  rfl

theorem run_writeSolution (h : r.solution = .ok solution) (t : Transcript) :
    (writeSolution r).run t = .ok () (t.printed ("Found:" :: solution.lines.map ("  " ++ ·))) := by
  unfold writeSolution
  rw [run_bind_of_ok (run_print _ _), run_bind_of_ok (run_ofExcept_of_ok h _), run_forM_print,
    Transcript.printed_printed, List.singleton_append]

/-- The system that a session reads. -/
def systemOf (R : Type) [Scalar R] (input : String) : LinearSystem R :=
  ⟨equations R (inputLines input)⟩

variable {options : Options} {input : String}

/-- A session reads its system and writes the title. -/
theorem run_session (t : Transcript) :
    (session options input).run t = (do
      let reduced ← ofExcept (systemOf R input).solve
      if options.showMatrix then writeMatrices (systemOf R input) reduced
      writeSolution reduced : Program R Unit).run
        ((t.complained (complaints R (inputLines input))).printed [title (systemOf R input)]) := by
  unfold session
  rw [run_bind_of_ok (run_takeLines _ _ _), String.ofList_toList, run_bind_of_ok (run_print _ _)]
  rfl

theorem run_session_of_ok (hsolve : (systemOf R input).solve = .ok r)
    (haugmented : (systemOf R input).augmentedMatrix = .ok augmented)
    (hsolution : r.solution = .ok solution) (t : Transcript) :
    (session (R := R) options input).run t =
      .ok () ((t.complained (complaints R (inputLines input))).printed
      (title (systemOf R input) :: (matrixLines options augmented r ++
        "Found:" :: solution.lines.map ("  " ++ ·)))) := by
  rw [run_session, run_bind_of_ok (run_ofExcept_of_ok hsolve _), matrixLines]
  split
  · rw [run_bind_of_ok (run_writeMatrices haugmented _), run_writeSolution hsolution,
      Transcript.printed_printed, Transcript.printed_printed, List.singleton_append]
  · rw [run_writeSolution hsolution, Transcript.printed_printed, List.nil_append,
      List.singleton_append]

theorem run_session_of_error {e : MatrixError R} (hsolve : (systemOf R input).solve = .error e)
    (t : Transcript) :
    (session options input).run t = .error e
      ((t.complained (complaints R (inputLines input))).printed [title (systemOf R input)]) := by
  rw [run_session, run_bind_of_error (run_ofExcept_of_error hsolve _)]

theorem run_of_ok (hsolve : (systemOf R input).solve = .ok r)
    (haugmented : (systemOf R input).augmentedMatrix = .ok augmented)
    (hsolution : r.solution = .ok solution) :
    run R options input = ⟨0, unlines (title (systemOf R input) ::
      (matrixLines options augmented r ++ "Found:" :: solution.lines.map ("  " ++ ·))),
      unlines (complaints R (inputLines input))⟩ := by
  have hreport : report options (systemOf R input) =
      .ok (matrixLines options augmented r ++ "Found:" :: solution.lines.map ("  " ++ ·)) := by
    rw [report, hsolve, ok_bind, haugmented, ok_bind, hsolution, ok_bind]
    rfl
  unfold systemOf at hreport
  unfold run
  dsimp only
  rw [hreport]
  rfl

theorem run_of_error {e : MatrixError R} (hsolve : (systemOf R input).solve = .error e) :
    run R options input = ⟨1, unlines [title (systemOf R input)],
      unlines (complaints R (inputLines input) ++ ["Error: " ++ e.describe])⟩ := by
  have hreport : report options (systemOf R input) = .error e := by
    rw [report, hsolve]
    rfl
  unfold systemOf at hreport
  unfold run
  dsimp only
  rw [hreport]
  rfl

/-- **A session leaves behind what `run` says.** -/
theorem session_eq_run (options : Options) (input : String) :
    outcome ((session (R := R) options input).run {}) = run R options input := by
  cases hsolve : (systemOf R input).solve with
  | ok r =>
    obtain ⟨augmented, solution, haugmented, hsolution⟩ := exists_of_solve hsolve
    rw [run_session_of_ok hsolve haugmented hsolution, run_of_ok hsolve haugmented hsolution]
    simp [outcome, Transcript.printed, Transcript.complained]
  | error e =>
    rw [run_session_of_error hsolve, run_of_error hsolve]
    simp [outcome, Transcript.printed, Transcript.complained, unlines_append]

/-! ### Accepted and rejected lines -/

/-- Whether a text is an equation. -/
def isEquation (R : Type) [Scalar R] (text : String) : Bool :=
  (Equation.parse (R := R) text).toOption.isSome

/-- The lines of an input that are equations. -/
def accepted (R : Type) [Scalar R] (input : String) : List String :=
  (inputLines input).filter (isEquation R)

/-- The lines of an input that are neither blank nor equations. -/
def rejected (R : Type) [Scalar R] (input : String) : List String :=
  (inputLines input).filter (!isEquation R ·)

/-- What is reported of a line that is no equation. -/
def IsReport (R : Type) [Scalar R] (line report : String) : Prop :=
  ∃ cause, Equation.parse (R := R) line = .error cause ∧
    report = "Unable to parse \"" ++ line ++ "\": " ++ cause.message

theorem areRead_filter (texts : List String) :
    AreRead (texts.filter (isEquation R)) (equations R texts) := by
  induction texts with
  | nil => exact .nil
  | cons text texts ih =>
    cases hparse : (Equation.parse text : Except ParseError (Equation R)) with
    | ok e =>
      rw [List.filter_cons_of_pos (by rw [isEquation, hparse]; rfl), equations,
        List.filterMap_cons_some (by rw [hparse]; rfl)]
      exact .cons hparse ih
    | error cause =>
      rw [List.filter_cons_of_neg (by rw [isEquation, hparse]; exact Bool.false_ne_true), equations,
        List.filterMap_cons_none (by rw [hparse]; rfl)]
      exact ih

theorem forall₂_isReport (texts : List String) :
    List.Forall₂ (IsReport R) (texts.filter (!isEquation R ·)) (complaints R texts) := by
  induction texts with
  | nil => exact .nil
  | cons text texts ih =>
    cases hparse : (Equation.parse text : Except ParseError (Equation R)) with
    | ok e =>
      rw [List.filter_cons_of_neg (by rw [isEquation, hparse]; exact Bool.false_ne_true),
        complaints, List.filterMap_cons_none (by rw [hparse])]
      exact ih
    | error cause =>
      rw [List.filter_cons_of_pos (by rw [isEquation, hparse]; rfl), complaints,
        List.filterMap_cons_some (by rw [hparse])]
      exact .cons ⟨cause, hparse, rfl⟩ ih

/-- **The command line tells what solving the accepted lines answers.**  A session comes to the end
that `run` describes.  There the title names the unknowns of the accepted lines, and there is a
report for each rejected line; if the accepted lines are solved, the matrices follow if they are
asked for, and then the solution; if not, nothing more is written than the error. -/
theorem run_tells_solveTexts (options : Options) (input : String) :
    outcome ((session (R := R) options input).run {}) = run R options input ∧
    ∃ (system : LinearSystem R) (reports : List String),
      AreRead (accepted R input) system.equations ∧
      List.Forall₂ (IsReport R) (rejected R input) reports ∧
      (∀ r, solveTexts (accepted R input) = .ok r → ∃ augmented solution,
        system.augmentedMatrix = .ok augmented ∧ r.solution = .ok solution ∧
        run R options input = ⟨0, unlines (title system ::
          (matrixLines options augmented r ++ "Found:" :: solution.lines.map ("  " ++ ·))),
          unlines reports⟩) ∧
      ∀ error, solveTexts (R := R) (accepted R input) = .error error →
        ∃ cause, error = .matrix cause ∧
        run R options input = ⟨1, unlines [title system],
          unlines (reports ++ ["Error: " ++ cause.describe])⟩ := by
  have hread : AreRead (accepted R input) (systemOf R input).equations := areRead_filter _
  refine ⟨session_eq_run options input, systemOf R input, _, hread, forall₂_isReport _,
    fun r h => ?_, fun error h => ?_⟩
  · have hsolve : (systemOf R input).solve = .ok r := mapError_eq_ok.mp (hread.solveTexts_eq ▸ h)
    obtain ⟨augmented, solution, haugmented, hsolution⟩ := exists_of_solve hsolve
    exact ⟨augmented, solution, haugmented, hsolution, run_of_ok hsolve haugmented hsolution⟩
  · obtain ⟨cause, hsolve, rfl⟩ := mapError_eq_error.mp (hread.solveTexts_eq ▸ h)
    exact ⟨cause, rfl, run_of_error hsolve⟩

/-- Two equations with a blank line and a line that is no equation between them; and no lines. -/
theorem run_tells_solveTexts_of_four_lines :
    (∃ (system : LinearSystem Float) (reports : List String) (r : ReducedSystem Float)
      (solution : Solution),
      AreRead ["x + y = 3", "x - y = 1"] system.equations ∧
      List.Forall₂ (IsReport Float) ["x = = 2"] reports ∧
      solveTexts ["x + y = 3", "x - y = 1"] = .ok r ∧ r.solution = .ok solution ∧
      run Float {} "x + y = 3\r\n \nx = = 2\nx - y = 1" =
        ⟨0, unlines (title system :: "Found:" :: solution.lines.map ("  " ++ ·)),
          unlines reports⟩) ∧
    ∃ (system : LinearSystem Float) (cause : MatrixError Float),
      solveTexts [] = .error (.matrix cause) ∧
      run Float {} "" = ⟨1, unlines [title system], unlines ["Error: " ++ cause.describe]⟩ := by
  constructor
  · have haccepted : accepted Float "x + y = 3\r\n \nx = = 2\nx - y = 1" =
        ["x + y = 3", "x - y = 1"] := by decide +kernel
    have hrejected : rejected Float "x + y = 3\r\n \nx = = 2\nx - y = 1" = ["x = = 2"] := by
      decide +kernel
    have hsolve : (solveTexts (R := Float) ["x + y = 3", "x - y = 1"]).toOption.isSome := by
      decide +kernel
    obtain ⟨r, hr⟩ := exists_eq_ok hsolve
    obtain ⟨-, system, reports, hread, hreports, hok, -⟩ :=
      run_tells_solveTexts (R := Float) {} "x + y = 3\r\n \nx = = 2\nx - y = 1"
    rw [haccepted] at hread hok
    rw [hrejected] at hreports
    obtain ⟨augmented, solution, -, hsolution, hrun⟩ := hok r hr
    exact ⟨system, reports, r, solution, hread, hreports, hr, hsolution, hrun⟩
  · obtain ⟨-, system, reports, -, hreports, -, herror⟩ :=
      run_tells_solveTexts (R := Float) {} ""
    obtain ⟨cause, hcause, hrun⟩ := herror (.matrix .empty) rfl
    cases hreports
    exact ⟨system, cause, congrArg Except.error hcause, hrun⟩

example : run Float {} "x + y = 3\r\n \nx = = 2\nx - y = 1" =
    ⟨0, "Solving for x, y\nFound:\n  x = 2\n  y = 1\n",
      "Unable to parse \"x = = 2\": unexpected character '=' at index 4\n"⟩ := by
  decide +kernel

end CommandLine
end LinearEquations
