import LinearEquations.Proofs.FlatElimination
import LinearEquations.Proofs.WorkspaceRun

/-! # Runs on arrays

A workspace whose matrices are kept in single arrays takes the same steps, by the programs on
arrays.  One step on layouts gives the layout of what the step on rows gives (`step_flat`), and so
does a run (`run_flat`).

As all matrices of a run are well formed, the programs fault nowhere but in one place: where a cell
is asked for by an index that is out of range (`run_sound`). -/

namespace LinearEquations
open LabelledMatrix

variable {R : Type}

/-! ### Workspaces of arrays -/

/-- What a step on arrays results in: a matrix in an array, or another answer. -/
inductive FlatAnswer (R : Type) where
  | matrix (m : FlatMatrix R)
  | other (answer : Answer R)

/-- Matrices in arrays under names. -/
abbrev FlatWorkspace (R : Type) := String → Option (FlatMatrix R)

namespace FlatWorkspace

/-- The workspace without matrices. -/
def empty : FlatWorkspace R := fun _ => none

/-- The matrix with a name. -/
def lookup (w : FlatWorkspace R) (name : String) : Checked R (FlatMatrix R) :=
  match w name with
  | some m => .ok m
  | none => .error (.unset name)

/-- Store a matrix under a name, in place of one that has it. -/
def store (w : FlatWorkspace R) (name : String) (m : FlatMatrix R) : FlatWorkspace R :=
  fun other => if other = name then some m else w other

/-- Store a matrix if there is a name for it. -/
def storeAs (w : FlatWorkspace R) (out : Option String) (m : FlatMatrix R) : FlatWorkspace R :=
  match out with
  | some name => w.store name m
  | none => w

end FlatWorkspace

variable [Scalar R]

/-- Apply an operation to a matrix in an array. -/
def UnaryOperation.applyFlat (m : FlatMatrix R) : UnaryOperation R → Checked R (FlatMatrix R)
  | copy => .ok m
  | transpose => m.transpose
  | conjugate => m.conjugate
  | adjoint => m.adjoint
  | minors => m.minors
  | cofactor => m.cofactor
  | adjugate => m.adjugate
  | dropColumn => m.dropColumn
  | rowEchelon => m.rowEchelon
  | reducedRowEchelon => m.reducedRowEchelon
  | withLabels labels => m.withLabels labels
  | minor row column => m.minor row column
  | scale k => m.scale k
  | swapRows first second => m.swapRows first second
  | scaleRow row k => m.scaleRow row k
  | addRow destination source => m.addRow destination source
  | addMultiple destination source k => m.addMultiple destination source k

/-- Apply an operation to two matrices in arrays. -/
def BinaryOperation.applyFlat (m n : FlatMatrix R) : BinaryOperation → Checked R (FlatMatrix R)
  | times => m.times n
  | plus => m.plus n
  | minus => m.minus n
  | beside => m.beside n
  | above => m.above n

namespace FlatWorkspace

/-- Make a matrix. -/
def make (w : FlatWorkspace R) : Construction R → Checked R (FlatMatrix R)
  | .rows cells => FlatMatrix.ofOperands cells
  | .identity n => FlatMatrix.identity n
  | .dense cells => FlatMatrix.ofColumnMajor cells
  | .unary operation m => do operation.applyFlat (← w.lookup m)
  | .binary operation m n => do
    let m ← w.lookup m
    let n ← w.lookup n
    operation.applyFlat m n

/-- Answer a query about a matrix. -/
def answer (w : FlatWorkspace R) (m : FlatMatrix R) : Query R → Checked R (Answer R)
  | .shape => .ok (.shape m.rowCount m.columnCount m.isSquare)
  | .row row => do return .row (← m.row? row)
  | .get column row => .ok (.cell (m.get? column row))
  | .index column row => do return .cell (some (← m.index column row))
  | .cells => do return .cells (← m.places)
  | .columns => do return .columns (← m.columns)
  | .describe => do return .text (← m.describe)
  | .determinant => do return .determinant (← m.determinant).1
  | .dense => do return .dense (← m.toColumnMajor)
  | .compare other epsilon proportion => do
    let n ← w.lookup other
    return .comparison (m.agree (Complex.isWithin epsilon) n)
      (m.agree (Complex.isWithinProportion epsilon proportion) n) (m.agree Complex.eq n)
  | .solution labels => do return .solution (← m.solution labels)

/-- The matrix after a query. -/
def after (m : FlatMatrix R) : Query R → Checked R (FlatMatrix R)
  | .determinant => do return (← m.determinant).2
  | _ => .ok m

/-- Do one step. -/
def step (w : FlatWorkspace R) : Step R → Checked R (FlatAnswer R) × FlatWorkspace R
  | .make construction out =>
    match w.make construction with
    | .ok m => (.ok (.matrix m), w.storeAs out m)
    | .error e => (.error e, w)
  | .invert name out =>
    match do FlatMatrix.determinant (← w.lookup name) with
    | .error e => (.error e, w)
    | .ok (_, m) =>
      let w := w.store name m
      match m.inverse with
      | .ok (some n) => (.ok (.matrix n), w.storeAs out n)
      | .ok none => (.ok (.other .noInverse), w)
      | .error e => (.error e, w)
  | .ask query name =>
    match w.lookup name with
    | .error e => (.error e, w)
    | .ok m =>
      match after m query with
      | .ok n => ((w.answer m query).map .other, w.store name n)
      | .error e => (.error e, w)

/-- Do steps one after another. -/
def run (w : FlatWorkspace R) :
    List (Step R) → List (Checked R (FlatAnswer R)) × FlatWorkspace R
  | [] => ([], w)
  | s :: rest =>
    let (result, w) := w.step s
    let (results, w) := run w rest
    (result :: results, w)

end FlatWorkspace

/-! ### One step -/

/-- A dense array that is read has all its cells. -/
def Step.IsFull : Step R → Prop
  | .make (.dense cells) _ => cells.IsFull
  | _ => True

/-- All matrices laid out. -/
def Workspace.flat (w : Workspace R) : FlatWorkspace R :=
  fun name => (w name).map LabelledMatrix.flat

/-- An answer in which matrices are laid out. -/
def Answer.flat : Answer R → FlatAnswer R
  | .matrix m => .matrix m.flat
  | answer => .other answer

/-- An index out of range is a fault; all other errors stay. -/
def StepError.flat : StepError R → Stop R
  | .unset name => .unset name
  | .matrix cause => .refused cause
  | .index _ => .fault

section Results
variable {A B C S : Type}

/-- A result or an error of a step as the end of a program. -/
def Checked.ofStep (f : A → B) : Except (StepError R) A → Checked R B
  | .ok a => .ok (f a)
  | .error e => .error e.flat

omit [Scalar R] in
theorem ofStep_bind {f : A → B} {g : C → S} {x : Except (StepError R) A} {y : Checked R B}
    {next : A → Except (StepError R) C} {next' : B → Checked R S} (hx : y = Checked.ofStep f x)
    (h : ∀ a, x = .ok a → next' (f a) = Checked.ofStep g (next a)) :
    y >>= next' = Checked.ofStep g (x >>= next) := by
  subst hx
  cases x with
  | error e => rfl
  | ok a => exact h a rfl

omit [Scalar R] in
theorem ofStep_mapError (f : A → B) (x : Except (MatrixError R) A) :
    Checked.ofStep f (x.mapError .matrix) = Checked.lift f x := by
  cases x <;> rfl

end Results

namespace FlatWorkspace
open FlatMatrix Checked

variable {w : Workspace R} {m n : ComplexMatrix R}

omit [Scalar R] in
theorem lookup_flat (w : Workspace R) (name : String) :
    w.flat.lookup name = ofStep LabelledMatrix.flat (w.lookup name) := by
  unfold lookup Workspace.lookup Workspace.flat
  cases w name <;> rfl

omit [Scalar R] in
theorem store_flat (w : Workspace R) (name : String) (m : ComplexMatrix R) :
    w.flat.store name m.flat = (w.store name m).flat := by
  funext other
  unfold store Workspace.flat Workspace.store
  split <;> rfl

omit [Scalar R] in
theorem storeAs_flat (w : Workspace R) (out : Option String) (m : ComplexMatrix R) :
    w.flat.storeAs out m.flat = (w.storeAs out m).flat := by
  cases out with
  | none => rfl
  | some name => exact store_flat w name m

/-- **One operation on a layout.** -/
theorem applyFlat_eq_unary (operation : UnaryOperation R) (hm : m.WellFormed) :
    operation.applyFlat m.flat = lift LabelledMatrix.flat (operation.apply m) := by
  cases operation with
  | copy => rfl
  | transpose => exact transpose_flat hm
  | conjugate => exact conjugate_flat hm
  | adjoint => exact adjoint_flat hm
  | minors => exact minors_flat hm
  | cofactor => exact cofactor_flat hm
  | adjugate => exact adjugate_flat hm
  | dropColumn => exact dropColumn_flat hm
  | rowEchelon => exact rowEchelon_flat hm
  | reducedRowEchelon => exact reducedRowEchelon_flat hm
  | withLabels labels => exact withLabels_flat m labels
  | minor row column => exact minor_flat hm
  | scale k => exact scale_flat hm k
  | swapRows first second => exact swapRows_flat hm
  | scaleRow row k => exact scaleRow_flat hm
  | addRow destination source => exact addRow_flat hm
  | addMultiple destination source k => exact addMultiple_flat hm

theorem applyFlat_eq_binary (operation : BinaryOperation) (hm : m.WellFormed)
    (hn : n.WellFormed) :
    operation.applyFlat m.flat n.flat = lift LabelledMatrix.flat (operation.apply m n) := by
  cases operation with
  | times => exact times_flat hm hn
  | plus => exact cellwise_flat .add _ hm hn
  | minus => exact cellwise_flat .subtract _ hm hn
  | beside => exact beside_flat hm hn
  | above => exact above_flat hm hn

theorem make_flat (hw : w.Holds WellFormed) {construction : Construction R}
    {out : Option String} (hfull : (Step.make construction out).IsFull) :
    w.flat.make construction = ofStep LabelledMatrix.flat (w.make construction) := by
  cases construction with
  | rows cells => exact (ofOperands_flat cells).trans (ofStep_mapError ..).symm
  | identity n => exact (identity_flat n).trans (ofStep_mapError ..).symm
  | dense cells => exact (ofColumnMajor_flat hfull).trans (ofStep_mapError ..).symm
  | unary operation name =>
    refine ofStep_bind (lookup_flat w name) fun m hm => ?_
    have hm := hw name m (Workspace.lookup_eq_ok.mp hm)
    exact (applyFlat_eq_unary operation hm).trans (ofStep_mapError ..).symm
  | binary operation name other =>
    refine ofStep_bind (lookup_flat w name) fun m hm => ?_
    refine ofStep_bind (lookup_flat w other) fun n hn => ?_
    have hm := hw name m (Workspace.lookup_eq_ok.mp hm)
    have hn := hw other n (Workspace.lookup_eq_ok.mp hn)
    exact (applyFlat_eq_binary operation hm hn).trans (ofStep_mapError ..).symm

theorem answer_flat (hw : w.Holds WellFormed) (hm : m.WellFormed) (query : Query R) :
    w.flat.answer m.flat query = ofStep id (w.answer m query) := by
  cases query with
  | shape => rfl
  | row row =>
    rw [answer, row?_flat hm]
    rfl
  | get column row => exact congrArg (fun x => Except.ok (Answer.cell x)) (get?_flat hm column row)
  | index column row =>
    rw [answer, index_eq hm, Workspace.answer]
    cases m.index column row <;> rfl
  | cells =>
    rw [answer, places_flat hm]
    rfl
  | columns =>
    rw [answer, columns_flat hm]
    rfl
  | describe =>
    rw [answer, describe_flat hm]
    rfl
  | determinant =>
    rw [answer, determinant_flat hm]
    rfl
  | dense =>
    rw [answer, toColumnMajor_flat hm]
    rfl
  | compare other epsilon proportion =>
    refine ofStep_bind (lookup_flat w other) fun n hn => ?_
    have hn := hw other n (Workspace.lookup_eq_ok.mp hn)
    rw [agree_flat _ hm hn, agree_flat _ hm hn, agree_flat _ hm hn]
    rfl
  | solution labels =>
    rw [answer, solution_flat hm, Workspace.answer]
    cases readSolution m labels <;> rfl

theorem after_flat (hm : m.WellFormed) (query : Query R) :
    after m.flat query = .ok (Workspace.after m query).flat := by
  cases query with
  | determinant =>
    rw [after, determinant_flat hm]
    rfl
  | _ => rfl

/-- **One step on layouts.** -/
theorem step_flat (hw : w.Holds WellFormed) {s : Step R} (hfull : s.IsFull) :
    w.flat.step s = (ofStep Answer.flat (w.step s).1, (w.step s).2.flat) := by
  cases s with
  | make construction out =>
    have hmake := make_flat hw hfull
    rw [step, hmake, Workspace.step]
    cases w.make construction with
    | error e => rfl
    | ok m => exact congrArg (Prod.mk _) (storeAs_flat w out m)
  | invert name out =>
    rw [step, lookup_flat, Workspace.step]
    cases hlookup : w.lookup name with
    | error e => rfl
    | ok m =>
      have hm := hw name m (Workspace.lookup_eq_ok.mp hlookup)
      -- the matrix that remembers its determinant has the same inverse
      have hinverse := inverse_flat hm.remember
      rw [inverse_remember] at hinverse
      simp only [ofStep, ok_bind, determinant_flat hm, store_flat, hinverse]
      cases m.inverse with
      | error e => rfl
      | ok result =>
        cases result with
        | none => rfl
        | some n => exact congrArg (Prod.mk _) (storeAs_flat _ out n)
  | ask query name =>
    rw [step, lookup_flat, Workspace.step]
    cases hlookup : w.lookup name with
    | error e => rfl
    | ok m =>
      have hm := hw name m (Workspace.lookup_eq_ok.mp hlookup)
      simp only [ofStep, after_flat hm, answer_flat hw hm, store_flat]
      cases hanswer : w.answer m query with
      | error e => rfl
      | ok answer =>
        cases answer with
        | matrix r => exact absurd hanswer (answer_ne_matrix w m query r)
        | _ => rfl

/-- **Runs on layouts**, by induction on the steps: all matrices stay well formed. -/
theorem run_flat (hw : w.Holds WellFormed) (steps : List (Step R))
    (hfull : ∀ s ∈ steps, s.IsFull) :
    w.flat.run steps = ((w.run steps).1.map (ofStep Answer.flat), (w.run steps).2.flat) := by
  induction steps generalizing w with
  | nil => rfl
  | cons s rest ih =>
    obtain ⟨hs, hrest⟩ := List.forall_mem_cons.mp hfull
    rw [run, step_flat hw hs, Workspace.run]
    simp only [ih (isInvariant_wellFormed.step hw s).1 hrest, List.map_cons]

/-- The result of a step in a run is that of the step after the steps before it. -/
theorem getElem?_run (w : FlatWorkspace R) (steps : List (Step R)) (i : Nat) :
    (w.run steps).1[i]? = steps[i]?.map fun s => ((w.run (steps.take i)).2.step s).1 := by
  induction steps generalizing w i with
  | nil => rfl
  | cons s rest ih =>
    cases i with
    | zero => rfl
    | succ i => exact ih (w.step s).2 i

/-! ### Faults -/

omit [Scalar R] in
theorem lookup_ne_index (w : Workspace R) (name : String) (e : IndexError) :
    w.lookup name ≠ .error (.index e) := by
  unfold Workspace.lookup
  cases w name <;> intro h <;> cases h

omit [Scalar R] in
theorem mapError_matrix_ne_index {A : Type} (x : Except (MatrixError R) A) (e : IndexError) :
    x.mapError StepError.matrix ≠ .error (.index e) := by
  cases x <;> intro h <;> cases h

theorem make_ne_index (w : Workspace R) (construction : Construction R) (e : IndexError) :
    w.make construction ≠ .error (.index e) := by
  intro h
  cases construction with
  | rows cells => exact mapError_matrix_ne_index _ e h
  | identity n => exact mapError_matrix_ne_index _ e h
  | dense cells => exact mapError_matrix_ne_index _ e h
  | unary operation name =>
    rcases bind_eq_error.mp h with h | ⟨m, -, h⟩
    · exact lookup_ne_index w name e h
    · exact mapError_matrix_ne_index _ e h
  | binary operation name other =>
    rcases bind_eq_error.mp h with h | ⟨m, -, h⟩
    · exact lookup_ne_index w name e h
    rcases bind_eq_error.mp h with h | ⟨n, -, h⟩
    · exact lookup_ne_index w other e h
    · exact mapError_matrix_ne_index _ e h

theorem answer_eq_index {query : Query R} {e : IndexError} :
    w.answer m query = .error (.index e) ↔ ∃ c r, query = .index c r ∧ m.index c r = .error e := by
  constructor
  · intro h
    cases query with
    | index c r =>
      refine ⟨c, r, rfl, ?_⟩
      rw [Workspace.answer] at h
      cases hindex : m.index c r with
      | error cause =>
        rw [hindex] at h
        cases h
        rfl
      | ok x =>
        rw [hindex] at h
        cases h
    | compare other epsilon proportion =>
      rcases bind_eq_error.mp h with h | ⟨n, -, h⟩
      · exact absurd h (lookup_ne_index w other e)
      · cases h
    | solution labels =>
      rw [Workspace.answer] at h
      cases hsolution : readSolution m labels <;> rw [hsolution] at h <;> cases h
    | _ => cases h
  · rintro ⟨c, r, rfl, h⟩
    rw [Workspace.answer, h]
    rfl

/-- Only looking at a cell by its index can fail without an error of matrices. -/
theorem step_eq_index {s : Step R} {e : IndexError} :
    (w.step s).1 = .error (.index e) ↔ ∃ c r name m, s = .ask (.index c r) name ∧
      w name = some m ∧ m.index c r = .error e := by
  constructor
  · intro h
    cases s with
    | make construction out =>
      rw [Workspace.step] at h
      cases hmake : w.make construction with
      | error cause =>
        rw [hmake] at h
        cases h
        exact absurd hmake (make_ne_index w construction e)
      | ok m =>
        rw [hmake] at h
        cases h
    | invert name out =>
      rw [Workspace.step] at h
      cases hlookup : w.lookup name with
      | error cause =>
        rw [hlookup] at h
        cases h
        exact absurd hlookup (lookup_ne_index w name e)
      | ok m =>
        rw [hlookup] at h
        simp only at h
        cases hinverse : m.inverse with
        | error cause =>
          rw [hinverse] at h
          cases h
        | ok result => cases result <;> rw [hinverse] at h <;> cases h
    | ask query name =>
      rw [Workspace.step] at h
      cases hlookup : w.lookup name with
      | error cause =>
        rw [hlookup] at h
        cases h
        exact absurd hlookup (lookup_ne_index w name e)
      | ok m =>
        rw [hlookup] at h
        obtain ⟨c, r, rfl, hindex⟩ := answer_eq_index.mp h
        exact ⟨c, r, name, m, rfl, Workspace.lookup_eq_ok.mp hlookup, hindex⟩
  · rintro ⟨c, r, name, m, rfl, hm, hindex⟩
    rw [Workspace.step, Workspace.lookup_eq_ok.mpr hm]
    have hanswer : w.answer m (.index c r) = .error (.index e) :=
      answer_eq_index.mpr ⟨c, r, rfl, hindex⟩
    exact hanswer

omit [Scalar R] in
theorem ofStep_eq_fault {A B : Type} {f : A → B} {x : Except (StepError R) A} :
    ofStep f x = .error .fault ↔ ∃ e, x = .error (.index e) := by
  constructor
  · intro h
    cases x with
    | ok a => cases h
    | error e =>
      cases e with
      | index e => exact ⟨e, rfl⟩
      | _ => cases h
  · rintro ⟨e, rfl⟩
    rfl

/-- **A step faults where an index is out of range, and nowhere else.** -/
theorem step_eq_fault (hw : w.Holds WellFormed) {s : Step R} (hfull : s.IsFull) :
    (w.flat.step s).1 = .error .fault ↔ ∃ c r name m, s = .ask (.index c r) name ∧
      w.flat name = some m ∧ (m.columnCount ≤ c ∨ m.rowCount ≤ r) := by
  rw [step_flat hw hfull, ofStep_eq_fault]
  constructor
  · rintro ⟨e, he⟩
    obtain ⟨c, r, name, m, hs, hm, hindex⟩ := step_eq_index.mp he
    exact ⟨c, r, name, m.flat, hs, congrArg (Option.map LabelledMatrix.flat) hm,
      ((hw name m hm).index_eq_error c r).mp ⟨e, hindex⟩⟩
  · rintro ⟨c, r, name, _, hs, hm, hout⟩
    obtain ⟨n, hn, rfl⟩ := Option.map_eq_some_iff.mp hm
    obtain ⟨e, he⟩ := ((hw name n hn).index_eq_error c r).mpr hout
    exact ⟨e, step_eq_index.mpr ⟨c, r, name, n, hs, hn, he⟩⟩

/-! ### Runs -/

/-- A matrix that a run leaves behind or answers. -/
def Obtains (steps : List (Step R)) (m : FlatMatrix R) : Prop :=
  (∃ name, (FlatWorkspace.run empty steps).2 name = some m) ∨
    .ok (.matrix m) ∈ (FlatWorkspace.run empty steps).1

/-- The matrices of a run on arrays are the layouts of those of the run on rows. -/
theorem Obtains.exists_flat {steps : List (Step R)} {m : FlatMatrix R}
    (hfull : ∀ s ∈ steps, s.IsFull) (h : Obtains steps m) :
    ∃ n : ComplexMatrix R, n.WellFormed ∧ n.flat = m := by
  obtain ⟨hstored, hanswered⟩ :=
    isInvariant_wellFormed.run (Workspace.holds_empty (R := R)) steps
  have hrun : FlatWorkspace.run empty steps =
      ((Workspace.run Workspace.empty steps).1.map (ofStep Answer.flat),
        (Workspace.run Workspace.empty steps).2.flat) :=
    run_flat Workspace.holds_empty steps hfull
  unfold Obtains at h
  rw [hrun] at h
  rcases h with ⟨name, h⟩ | h
  · obtain ⟨n, hn, rfl⟩ := Option.map_eq_some_iff.mp h
    exact ⟨n, hstored name n hn, rfl⟩
  · obtain ⟨result, hresult, heq⟩ := List.mem_map.mp h
    cases result with
    | error e => cases heq
    | ok answer =>
      cases answer with
      | matrix n =>
        cases heq
        exact ⟨n, hanswered n hresult, rfl⟩
      | _ => cases heq

/-- **All runs are sound, on rows and on arrays.**

* A matrix that a run on arrays leaves behind or answers has rows and columns, a cell for each
  place, as many labels as columns if it has any, and remembers a determinant only if it is square;
  its views agree, and it has a text.
* The same is true of the matrices of a run on rows.
* A step of a run on arrays faults if and only if it looks at a cell by an index that is out of
  range.
* A run on arrays does what the run on rows does. -/
theorem run_sound (steps : List (Step R)) (hfull : ∀ s ∈ steps, s.IsFull) :
    (∀ m : FlatMatrix R, Obtains steps m →
      m.WellFormed ∧ m.ViewsAgree ∧ ∃ text, m.text = .ok text) ∧
    (∀ m : ComplexMatrix R, (∃ name, (Workspace.run Workspace.empty steps).2 name = some m) ∨
        .ok (.matrix m) ∈ (Workspace.run Workspace.empty steps).1 →
      m.WellFormed ∧ m.ViewsAgree) ∧
    (∀ i s, steps[i]? = some s → ∃ result, (run empty steps).1[i]? = some result ∧
      (result = .error .fault ↔ ∃ c r name m, s = .ask (.index c r) name ∧
        (run empty (steps.take i)).2 name = some m ∧ (m.columnCount ≤ c ∨ m.rowCount ≤ r))) ∧
    run empty steps = ((Workspace.run Workspace.empty steps).1.map (ofStep Answer.flat),
      (Workspace.run Workspace.empty steps).2.flat) := by
  refine ⟨fun m hm => ?_, fun m hm => ?_, fun i s hs => ?_, ?_⟩
  · obtain ⟨n, hn, rfl⟩ := hm.exists_flat hfull
    exact ⟨wellFormed_flat hn, viewsAgree_flat hn, n.text, text_flat hn⟩
  · obtain ⟨hstored, hanswered⟩ :=
      isInvariant_wellFormed.run (Workspace.holds_empty (R := R)) steps
    have hwf : m.WellFormed := by
      rcases hm with ⟨name, hname⟩ | hm
      · exact hstored name m hname
      · exact hanswered m hm
    exact ⟨hwf, hwf.viewsAgree⟩
  · -- the steps before `s` leave a workspace of layouts
    have hbefore : ∀ s ∈ steps.take i, s.IsFull := fun s hs => hfull s (List.mem_of_mem_take hs)
    have hw := (isInvariant_wellFormed.run (Workspace.holds_empty (R := R)) (steps.take i)).1
    have hrun : (run empty (steps.take i)).2 =
        (Workspace.run Workspace.empty (steps.take i)).2.flat :=
      congrArg Prod.snd (run_flat Workspace.holds_empty (steps.take i) hbefore)
    refine ⟨_, (getElem?_run empty steps i).trans (congrArg (Option.map _) hs), ?_⟩
    rw [hrun]
    exact step_eq_fault hw (hfull s (List.mem_of_getElem? hs))
  · exact run_flat Workspace.holds_empty steps hfull

/-- A dense array of two rows and its transpose are asked for the same cell, which only the former
has. -/
theorem run_sound_of_transpose :
    let steps : List (Step Rat) :=
      [.make (.dense ⟨2, 3, [1, 4, 2, 5, 3, ⟨0, 6⟩]⟩) (some "a"),
        .make (.unary .transpose "a") (some "b"), .ask (.index 2 1) "a", .ask (.index 2 1) "b"]
    (∀ s ∈ steps, s.IsFull) ∧
      (∃ m, Obtains steps m ∧ m.rowCount = 3 ∧ m.columnCount = 2 ∧ m.WellFormed ∧ m.ViewsAgree) ∧
      (run empty steps).1[2]? ≠ some (.error .fault) ∧
      (run empty steps).1[3]? = some (.error .fault) := by
  intro steps
  have hfull : ∀ s ∈ steps, s.IsFull :=
    List.forall_mem_cons.mpr ⟨rfl, List.forall_mem_cons.mpr ⟨trivial, List.forall_mem_cons.mpr
      ⟨trivial, List.forall_mem_cons.mpr ⟨trivial, List.forall_mem_nil _⟩⟩⟩⟩
  obtain ⟨hmatrices, -, hfaults, -⟩ := run_sound steps hfull
  have ha : ((run empty (steps.take 2)).2 "a").map FlatMatrix.shape = some (2, 3) := by
    decide +kernel
  have hb : ((run empty (steps.take 3)).2 "b").map FlatMatrix.shape = some (3, 2) := by
    decide +kernel
  have hb' : ((run empty steps).2 "b").map FlatMatrix.shape = some (3, 2) := by decide +kernel
  refine ⟨hfull, ?_, fun h => ?_, ?_⟩
  · obtain ⟨m, hm, hshape⟩ := Option.map_eq_some_iff.mp hb'
    obtain ⟨hrows, hcols⟩ := Prod.mk.inj hshape
    have hobtained : Obtains steps m := .inl ⟨"b", hm⟩
    exact ⟨m, hobtained, hrows, hcols, (hmatrices m hobtained).1, (hmatrices m hobtained).2.1⟩
  · obtain ⟨result, hresult, hfault⟩ := hfaults 2 _ rfl
    obtain ⟨c, r, name, m, hs, hm, hout⟩ := hfault.mp (Option.some.inj (hresult.symm.trans h))
    cases hs
    rw [hm] at ha
    obtain ⟨hrows, hcols⟩ := Prod.mk.inj (Option.some.inj ha)
    omega
  · obtain ⟨result, hresult, hfault⟩ := hfaults 3 _ rfl
    obtain ⟨m, hm, hshape⟩ := Option.map_eq_some_iff.mp hb
    obtain ⟨hrows, hcols⟩ := Prod.mk.inj hshape
    rw [hresult, hfault.mpr ⟨2, 1, "b", m, rfl, hm, .inl hcols.le⟩]

end FlatWorkspace
end LinearEquations
