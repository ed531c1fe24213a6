import LinearEquations.Proofs.FlatElimination
import LinearEquations.Proofs.WorkspaceRun
import LinearEquations.Scalar.Double

/-! # What the remembering of determinants can change

Two runs take the same steps, except that each may also ask for determinants now and then.  Asking
makes a matrix remember the number that it would give anyway, so the matrices of the two runs keep
the same cells, labels and determinants (`SameView`).  The exception are transposes and products:
they inherit a determinant that is remembered, and where arithmetic rounds it need not be the number
that the expansion of their own cells gives.  A run in which somebody has asked before a product is
made can thus answer otherwise than a run in which nobody has (`not_sameAnswers_of_product`): there
a matrix loses its inverse.

This is all that can happen.  As long as each transpose and each product inherits in both runs or in
neither, or inherits what its expansion gives, no determinant and no inverse tells the runs apart
(`sameAnswers_of_isSettled`). -/

namespace LinearEquations
open LabelledMatrix

variable {R : Type} [Scalar R]

/-! ### Runs side by side -/

/-- A step of two runs: a common one, or the query of a determinant in only one of them. -/
inductive PairedStep (R : Type) where
  | both (s : Step R)
  | first (m : String)
  | second (m : String)

namespace PairedStep

/-- The steps of the first run. -/
def firsts : List (PairedStep R) → List (Step R)
  | [] => []
  | .both s :: rest => s :: firsts rest
  | .first m :: rest => .ask .determinant m :: firsts rest
  | .second _ :: rest => firsts rest

/-- The steps of the second run. -/
def seconds : List (PairedStep R) → List (Step R)
  | [] => []
  | .both s :: rest => s :: seconds rest
  | .first _ :: rest => seconds rest
  | .second m :: rest => .ask .determinant m :: seconds rest

end PairedStep
open PairedStep

/-- Whether a step asks for a determinant or an inverse. -/
def Step.needsDeterminant : Step R → Bool
  | .ask .determinant _ => true
  | .invert _ _ => true
  | _ => false

/-- The two runs give the same determinants and the same inverses. -/
def SameAnswers (w : Workspace R) (steps : List (PairedStep R)) : Prop :=
  ∀ before s after, steps = before ++ .both s :: after → s.needsDeterminant →
    ∃ answer, (w.run (firsts steps)).1[(firsts before).length]? = some answer ∧
      (w.run (seconds steps)).1[(seconds before).length]? = some answer

/-! ### Inherited determinants -/

/-- The determinant that the expansion of the cells gives. -/
def LabelledMatrix.expansion (m : ComplexMatrix R) : Complex R := expand (m.rowCount - 1) m.rows

theorem LabelledMatrix.squareDeterminant_eq (m : ComplexMatrix R) :
    m.squareDeterminant = m.remembered.getD m.expansion := rfl

/-- The determinant that a product inherits: both factors have to remember theirs. -/
def LabelledMatrix.inheritedProduct (m n : ComplexMatrix R) : Option (Complex R) := do
  return (← m.remembered) * (← n.remembered)

namespace Workspace

/-- The determinant that a matrix inherits as it is made. -/
def inherited? (w : Workspace R) : Construction R → Option (Complex R)
  | .unary .transpose m => do (← w m).remembered
  | .binary .times m n => do inheritedProduct (← w m) (← w n)
  | _ => none

/-- What is inherited is what the expansion of the new matrix gives. -/
def InheritsExpansion (w : Workspace R) (construction : Construction R) : Prop :=
  ∀ d m, w.inherited? construction = some d → w.make construction = .ok m → d = m.expansion

/-- A matrix inherits in both workspaces or in neither, or it inherits what its expansion gives. -/
def SettledAt (w w' : Workspace R) (construction : Construction R) : Prop :=
  ((w.inherited? construction).isSome ↔ (w'.inherited? construction).isSome) ∨
    w.InheritsExpansion construction ∧ w'.InheritsExpansion construction

/-- Each matrix that two runs make together is settled. -/
def IsSettled (w : Workspace R) (steps : List (PairedStep R)) : Prop :=
  ∀ before construction out after, steps = before ++ .both (.make construction out) :: after →
    SettledAt (w.run (firsts before)).2 (w.run (seconds before)).2 construction

end Workspace

/-! ### Matrices that look the same -/

/-- Two matrices with the same cells, labels and determinant, whether or not they remember it. -/
structure SameView (m n : ComplexMatrix R) : Prop where
  rows_eq : m.rows = n.rows
  labels_eq : m.labels = n.labels
  determinant_eq : m.squareDeterminant = n.squareDeterminant

namespace SameView
variable {m n : ComplexMatrix R}

theorem refl (m : ComplexMatrix R) : SameView m m := ⟨rfl, rfl, rfl⟩

theorem rowCount_eq (h : SameView m n) : m.rowCount = n.rowCount := by
  rw [rowCount, rowCount, h.rows_eq]

theorem columnCount_eq (h : SameView m n) : m.columnCount = n.columnCount := by
  rw [columnCount, columnCount, h.rows_eq]

theorem columns_eq (h : SameView m n) : m.columns = n.columns := by
  rw [columns, columns, h.columnCount_eq, h.rows_eq]

theorem isSquare_eq (h : SameView m n) : m.isSquare = n.isSquare := by
  rw [isSquare, isSquare, h.rowCount_eq, h.columnCount_eq]

theorem expansion_eq (h : m.rows = n.rows) : m.expansion = n.expansion := by
  rw [expansion, expansion, rowCount, rowCount, h]

theorem determinant_eq_determinant (h : SameView m n) : m.determinant = n.determinant := by
  rw [determinant, determinant, h.isSquare_eq, h.determinant_eq]

/-- The matrices differ in what they remember only. -/
theorem eq_with (h : SameView m n) : n = { m with remembered := n.remembered } := by
  cases m
  cases n
  cases h.rows_eq
  cases h.labels_eq
  rfl

/-- Asking for the determinant does not change what a matrix looks like. -/
theorem remember_left (h : SameView m n) : SameView m.remember n := by
  unfold LabelledMatrix.remember
  split
  · exact ⟨h.rows_eq, h.labels_eq, h.determinant_eq⟩
  · exact h

theorem symm (h : SameView m n) : SameView n m :=
  ⟨h.rows_eq.symm, h.labels_eq.symm, h.determinant_eq.symm⟩

theorem remember_right (h : SameView m n) : SameView m n.remember := h.symm.remember_left.symm

end SameView

/-! ### Results that look the same -/

/-- Both results are errors, the same ones, or both are values that are related. -/
inductive SameResult {E A : Type} (S : A → A → Prop) : Except E A → Except E A → Prop
  | error (e : E) : SameResult S (.error e) (.error e)
  | ok {a b : A} (h : S a b) : SameResult S (.ok a) (.ok b)

namespace SameResult
variable {E F A B : Type} {S : A → A → Prop} {T : B → B → Prop} {x y : Except E A}

theorem bind (h : SameResult S x y) {f g : A → Except E B}
    (hfg : ∀ a b, S a b → SameResult T (f a) (g b)) : SameResult T (x >>= f) (y >>= g) := by
  cases h with
  | error e => exact .error e
  | ok hab => exact hfg _ _ hab

theorem mapError (h : SameResult S x y) (f : E → F) :
    SameResult S (x.mapError f) (y.mapError f) := by
  cases h with
  | error e => exact .error _
  | ok hab => exact .ok hab

theorem of_eq (hS : ∀ a, S a a) (h : x = y) : SameResult S x y := by
  subst h
  cases x with
  | error e => exact .error e
  | ok a => exact .ok (hS a)

theorem eq (h : SameResult Eq x y) : x = y := by
  cases h with
  | error e => rfl
  | ok hab => rw [hab]

end SameResult

/-! ### Operations -/

section
variable {m n m' n' : ComplexMatrix R}

/-- A line of zeros is its own echelon form; any other echelon form remembers nothing. -/
theorem SameView.rowEchelon_cases (h : SameView m n) :
    allZero m.rows ∧ m.rowEchelon = .ok m ∧ n.rowEchelon = .ok n ∨
      m.rowEchelon = n.rowEchelon := by
  rw [h.eq_with]
  by_cases hzero : m.isZeroLine
  · exact .inl ⟨(Bool.and_eq_true_iff.mp hzero).2, if_pos hzero, if_pos hzero⟩
  · exact .inr ((if_neg hzero).trans (if_neg hzero).symm)

theorem SameView.rowEchelon (h : SameView m n) :
    SameResult SameView m.rowEchelon n.rowEchelon := by
  rcases h.rowEchelon_cases with ⟨-, hm, hn⟩ | heq
  · rw [hm, hn]
    exact .ok h
  · exact .of_eq SameView.refl heq

theorem LabelledMatrix.reducedRowEchelon_of_allZero (hzero : allZero m.rows)
    (hm : m.rowEchelon = .ok m) : m.reducedRowEchelon = .ok m := by
  rw [reducedRowEchelon, hm, ok_bind, clearUpward_of_allZero hzero]
  rfl

theorem SameView.reducedRowEchelon (h : SameView m n) :
    SameResult SameView m.reducedRowEchelon n.reducedRowEchelon := by
  rcases h.rowEchelon_cases with ⟨hzero, hm, hn⟩ | heq
  · rw [reducedRowEchelon_of_allZero hzero hm, reducedRowEchelon_of_allZero (h.rows_eq ▸ hzero) hn]
    exact .ok h
  · exact .of_eq SameView.refl (congrArg (· >>= _) heq)

theorem SameView.withLabels (h : SameView m n) (labels : List String) :
    SameResult (E := MatrixError R) SameView (m.withLabels labels) (n.withLabels labels) := by
  unfold LabelledMatrix.withLabels
  rw [← h.columnCount_eq]
  split
  · exact .ok ⟨h.rows_eq, rfl, h.determinant_eq⟩
  · exact .error _

/-- An operation on one matrix does not see what is remembered, unless it hands it over. -/
theorem UnaryOperation.sameResult (operation : UnaryOperation R) (h : SameView m n)
    (htranspose : operation = .transpose → SameView m.transpose n.transpose) :
    SameResult SameView (operation.apply m) (operation.apply n) := by
  cases operation with
  | copy => exact .ok h
  | transpose => exact .ok (htranspose rfl)
  | withLabels labels => exact h.withLabels labels
  | rowEchelon => exact h.rowEchelon
  | reducedRowEchelon => exact h.reducedRowEchelon
  | _ =>
    rw [h.eq_with]
    exact .of_eq SameView.refl rfl

/-- An operation on two matrices does not see what is remembered, unless it hands it over. -/
theorem BinaryOperation.sameResult (operation : BinaryOperation) (hm : SameView m m')
    (hn : SameView n n')
    (htimes : operation = .times → SameResult SameView (m.times n) (m'.times n')) :
    SameResult SameView (operation.apply m n) (operation.apply m' n') := by
  cases operation with
  | times => exact htimes rfl
  | _ =>
    rw [hm.eq_with, hn.eq_with]
    exact .of_eq SameView.refl rfl

/-- What both matrices remember is the same. -/
theorem SameView.remembered_eq (h : SameView m n) {x y : Complex R} (hx : m.remembered = some x)
    (hy : n.remembered = some y) : x = y := by
  have heq := h.determinant_eq
  rwa [squareDeterminant, squareDeterminant, hx, hy] at heq

theorem SameView.inheritedProduct_eq (hm : SameView m m') (hn : SameView n n') {x y : Complex R}
    (hx : inheritedProduct m n = some x) (hy : inheritedProduct m' n' = some y) : x = y := by
  simp only [inheritedProduct, Option.bind_eq_bind, Option.bind_eq_some_iff] at hx hy
  obtain ⟨p, hp, q, hq, hx⟩ := hx
  obtain ⟨p', hp', q', hq', hy⟩ := hy
  cases hx
  cases hy
  rw [hm.remembered_eq hp hp', hn.remembered_eq hq hq']

/-- Products fail together, or they have the same cells. -/
theorem SameView.times_cases (hm : SameView m m') (hn : SameView n n') :
    (∃ e, m.times n = .error e ∧ m'.times n' = .error e) ∨
      ∃ rows, m.times n = .ok { rows, remembered := inheritedProduct m n } ∧
        m'.times n' = .ok { rows, remembered := inheritedProduct m' n' } := by
  unfold times inheritedProduct shape
  rw [hm.columnCount_eq, hm.rowCount_eq, hm.rows_eq, hn.columnCount_eq, hn.rowCount_eq,
    hn.columns_eq]
  split
  · exact .inr ⟨_, rfl, rfl⟩
  · exact .inl ⟨_, rfl, rfl⟩

theorem SameView.after (h : SameView m n) (query : Query R) :
    SameView (Workspace.after m query) (Workspace.after n query) := by
  cases query with
  | determinant => exact h.remember_left.remember_right
  | _ => exact h

theorem SameView.inverse_eq (h : SameView m n) : m.inverse = n.inverse := by
  have hdeterminant := h.determinant_eq_determinant
  have hadjugate : m.adjugate = n.adjugate := by
    rw [h.eq_with]
    rfl
  rw [inverse, inverse, hdeterminant, hadjugate]

end

/-! ### Workspaces that look the same -/

namespace Workspace
variable {w w' : Workspace R}

/-- Two workspaces hold matrices that look the same under the same names. -/
def Alike (w w' : Workspace R) : Prop := ∀ name, Option.Rel SameView (w name) (w' name)

theorem Alike.refl (w : Workspace R) : Alike w w := by
  intro name
  cases w name with
  | none => exact .none
  | some m => exact .some (.refl m)

theorem Alike.cases (h : Alike w w') (name : String) :
    (w name = none ∧ w' name = none) ∨
      ∃ m n, w name = some m ∧ w' name = some n ∧ SameView m n := by
  have hname := h name
  generalize w name = a, w' name = b at hname
  cases hname with
  | none => exact .inl ⟨rfl, rfl⟩
  | some hm => exact .inr ⟨_, _, rfl, rfl, hm⟩

theorem Alike.lookup (h : Alike w w') (name : String) :
    SameResult SameView (w.lookup name) (w'.lookup name) := by
  unfold Workspace.lookup
  rcases h.cases name with ⟨hm, hn⟩ | ⟨m, n, hm, hn, hview⟩
  · rw [hm, hn]
    exact .error _
  · rw [hm, hn]
    exact .ok hview

theorem Alike.store {m n : ComplexMatrix R} (h : Alike w w') (name : String) (hm : SameView m n) :
    Alike (w.store name m) (w'.store name n) := by
  intro other
  unfold Workspace.store
  split
  · exact .some hm
  · exact h other

theorem Alike.storeAs {m n : ComplexMatrix R} (h : Alike w w') (out : Option String)
    (hm : SameView m n) : Alike (w.storeAs out m) (w'.storeAs out n) := by
  cases out with
  | none => exact h
  | some name => exact h.store name hm

theorem Alike.symm (h : Alike w w') : Alike w' w := by
  intro name
  rcases h.cases name with ⟨hm, hn⟩ | ⟨m, n, hm, hn, hview⟩
  · rw [hm, hn]
    exact .none
  · rw [hm, hn]
    exact .some hview.symm

omit [Scalar R] in
theorem lookup_of_none {name : String} (h : w name = none) :
    w.lookup name = .error (.unset name) := by
  rw [lookup, h]

omit [Scalar R] in
theorem lookup_of_some {name : String} {m : ComplexMatrix R} (h : w name = some m) :
    w.lookup name = .ok m := by
  rw [lookup, h]

/-! ### Making matrices -/

variable {a b : ComplexMatrix R} {construction : Construction R}

/-- Matrices with the same cells look the same if what they inherit is settled. -/
theorem SettledAt.sameView (h : SettledAt w w' construction) (ha : w.make construction = .ok a)
    (hb : w'.make construction = .ok b) (hrem : w.inherited? construction = a.remembered)
    (hrem' : w'.inherited? construction = b.remembered) (hrows : a.rows = b.rows)
    (hlabels : a.labels = b.labels)
    (hsame : ∀ x y, a.remembered = some x → b.remembered = some y → x = y) : SameView a b := by
  have hexpansion := SameView.expansion_eq hrows
  unfold SettledAt InheritsExpansion at h
  rw [hrem, hrem'] at h
  refine ⟨hrows, hlabels, ?_⟩
  rw [squareDeterminant_eq, squareDeterminant_eq]
  cases hx : a.remembered with
  | none =>
    cases hy : b.remembered with
    | none => exact hexpansion
    | some y =>
      -- only one of the two inherits a number, which is that of the expansion
      rcases h with hsome | ⟨-, hexact⟩
      · simp [hx, hy] at hsome
      · exact hexpansion.trans (hexact y b hy hb).symm
  | some x =>
    cases hy : b.remembered with
    | none =>
      rcases h with hsome | ⟨hexact, -⟩
      · simp [hx, hy] at hsome
      · exact (hexact x a hx ha).trans hexpansion
    | some y => exact hsame x y hx hy

theorem Alike.make_transpose {name : String} (h : Alike w w')
    (hsettled : SettledAt w w' (.unary .transpose name)) :
    SameResult SameView (w.make (.unary .transpose name)) (w'.make (.unary .transpose name)) := by
  rcases h.cases name with ⟨hm, hn⟩ | ⟨m, n, hm, hn, hview⟩
  · rw [make, make, lookup_of_none hm, lookup_of_none hn]
    exact .error _
  · have hmake : w.make (.unary .transpose name) = .ok m.transpose := by
      rw [make, lookup_of_some hm]
      rfl
    have hmake' : w'.make (.unary .transpose name) = .ok n.transpose := by
      rw [make, lookup_of_some hn]
      rfl
    rw [hmake, hmake']
    refine .ok (hsettled.sameView hmake hmake' ?_ ?_ hview.columns_eq rfl fun x y =>
      hview.remembered_eq)
    · rw [inherited?, hm]
      rfl
    · rw [inherited?, hn]
      rfl

theorem Alike.make_times {name other : String} (h : Alike w w')
    (hsettled : SettledAt w w' (.binary .times name other)) :
    SameResult SameView (w.make (.binary .times name other))
      (w'.make (.binary .times name other)) := by
  rcases h.cases name with ⟨hm, hm'⟩ | ⟨m, m', hm, hm', hview⟩
  · rw [make, make, lookup_of_none hm, lookup_of_none hm']
    exact .error _
  rcases h.cases other with ⟨hn, hn'⟩ | ⟨n, n', hn, hn', hview'⟩
  · rw [make, make, lookup_of_some hm, lookup_of_some hm', lookup_of_none hn, lookup_of_none hn']
    exact .error _
  have hmake : w.make (.binary .times name other) = (m.times n).mapError .matrix := by
    rw [make, lookup_of_some hm, lookup_of_some hn]
    rfl
  have hmake' : w'.make (.binary .times name other) = (m'.times n').mapError .matrix := by
    rw [make, lookup_of_some hm', lookup_of_some hn']
    rfl
  rcases hview.times_cases hview' with ⟨e, he, he'⟩ | ⟨rows, hp, hp'⟩
  · rw [hmake, hmake', he, he']
    exact .error _
  · rw [hp] at hmake
    rw [hp'] at hmake'
    rw [hmake, hmake']
    refine .ok (hsettled.sameView hmake hmake' ?_ ?_ rfl rfl fun x y =>
      hview.inheritedProduct_eq hview')
    · rw [inherited?, hm, hn]
      rfl
    · rw [inherited?, hm', hn']
      rfl

/-- **A matrix that two workspaces make looks the same**, if what it inherits is settled. -/
theorem Alike.make (h : Alike w w') (hsettled : SettledAt w w' construction) :
    SameResult SameView (w.make construction) (w'.make construction) := by
  cases construction with
  | rows cells => exact .of_eq SameView.refl rfl
  | identity n => exact .of_eq SameView.refl rfl
  | dense cells => exact .of_eq SameView.refl rfl
  | unary operation name =>
    by_cases htranspose : operation = .transpose
    · subst htranspose
      exact h.make_transpose hsettled
    · exact (h.lookup name).bind fun m n hview =>
        (operation.sameResult hview fun heq => absurd heq htranspose).mapError _
  | binary operation name other =>
    by_cases htimes : operation = .times
    · subst htimes
      exact h.make_times hsettled
    · exact (h.lookup name).bind fun m m' hm => (h.lookup other).bind fun n n' hn =>
        (operation.sameResult hm hn fun heq => absurd heq htimes).mapError _

/-! ### Steps and runs -/

/-- The query of a determinant in one workspace leaves it like the other. -/
theorem Alike.ask_determinant (h : Alike w w') (name : String) :
    Alike (w.step (.ask .determinant name)).2 w' := by
  rcases h.cases name with ⟨hm, -⟩ | ⟨m, n, hm, hn, hview⟩
  · rw [Workspace.step, lookup_of_none hm]
    exact h
  · rw [Workspace.step, lookup_of_some hm]
    intro other
    change Option.Rel SameView (if other = name then some m.remember else w other) (w' other)
    split
    · rename_i heq
      rw [heq, hn]
      exact .some hview.remember_left
    · exact h other

theorem Alike.answer_eq {m n : ComplexMatrix R} (h : Alike w w') (hview : SameView m n)
    (query : Query R) : w.answer m query = w'.answer n query := by
  cases query with
  | determinant =>
    exact congrArg (fun d => Except.ok (Answer.determinant d)) hview.determinant_eq_determinant
  | compare other epsilon proportion =>
    refine ((h.lookup other).bind fun p q hpq => ?_).eq
    rw [hview.eq_with, hpq.eq_with]
    exact .ok rfl
  | _ =>
    rw [hview.eq_with]
    rfl

theorem Alike.invert (h : Alike w w') (name : String) (out : Option String) :
    Alike (w.step (.invert name out)).2 (w'.step (.invert name out)).2 ∧
      (w.step (.invert name out)).1 = (w'.step (.invert name out)).1 := by
  rcases h.cases name with ⟨hm, hn⟩ | ⟨m, n, hm, hn, hview⟩
  · simp only [Workspace.step, lookup_of_none hm, lookup_of_none hn]
    exact ⟨h, trivial⟩
  · have hstore := h.store name hview.remember_left.remember_right
    simp only [Workspace.step, lookup_of_some hm, lookup_of_some hn, hview.inverse_eq]
    cases n.inverse with
    | error e => exact ⟨hstore, rfl⟩
    | ok inverse =>
      cases inverse with
      | none => exact ⟨hstore, rfl⟩
      | some r => exact ⟨hstore.storeAs out (.refl r), rfl⟩

theorem Alike.ask (h : Alike w w') (query : Query R) (name : String) :
    Alike (w.step (.ask query name)).2 (w'.step (.ask query name)).2 ∧
      (w.step (.ask query name)).1 = (w'.step (.ask query name)).1 := by
  rcases h.cases name with ⟨hm, hn⟩ | ⟨m, n, hm, hn, hview⟩
  · simp only [Workspace.step, lookup_of_none hm, lookup_of_none hn]
    exact ⟨h, trivial⟩
  · simp only [Workspace.step, lookup_of_some hm, lookup_of_some hn]
    exact ⟨h.store name (hview.after query), h.answer_eq hview query⟩

/-- **A common step leaves alike what is alike**, and only the matrices that it makes may remember
more in one workspace than in the other. -/
theorem Alike.step (h : Alike w w') (s : Step R)
    (hsettled : ∀ construction out, s = .make construction out → SettledAt w w' construction) :
    Alike (w.step s).2 (w'.step s).2 ∧
      ((∀ construction out, s ≠ .make construction out) → (w.step s).1 = (w'.step s).1) := by
  cases s with
  | make construction out =>
    refine ⟨?_, fun hne => absurd rfl (hne construction out)⟩
    have hmake := h.make (hsettled construction out rfl)
    simp only [Workspace.step]
    generalize w.make construction = x, w'.make construction = y at hmake
    cases hmake with
    | error e => exact h
    | ok hab => exact h.storeAs out hab
  | invert name out => exact ⟨(h.invert name out).1, fun _ => (h.invert name out).2⟩
  | ask query name => exact ⟨(h.ask query name).1, fun _ => (h.ask query name).2⟩

/-- **Two runs stay alike** up to any common step. -/
theorem Alike.run (h : Alike w w') (before : List (PairedStep R))
    (hsettled : ∀ pre construction out post,
      before = pre ++ .both (.make construction out) :: post →
        SettledAt (w.run (firsts pre)).2 (w'.run (seconds pre)).2 construction) :
    Alike (w.run (firsts before)).2 (w'.run (seconds before)).2 := by
  induction before generalizing w w' with
  | nil => exact h
  | cons p rest ih =>
    have hrest := fun pre construction out post heq =>
      hsettled (p :: pre) construction out post (congrArg (p :: ·) heq)
    cases p with
    | both s =>
      refine ih (h.step s fun construction out heq => ?_).1 hrest
      subst heq
      exact hsettled [] construction out rest rfl
    | first name => exact ih (h.ask_determinant name) hrest
    | second name => exact ih (h.symm.ask_determinant name).symm hrest

/-- The answer to a step of a run. -/
theorem getElem?_run (w : Workspace R) (before : List (Step R)) (s : Step R)
    (after : List (Step R)) :
    (w.run (before ++ s :: after)).1[before.length]? = some ((w.run before).2.step s).1 := by
  induction before generalizing w with
  | nil => rfl
  | cons t before ih => exact ih (w.step t).2

end Workspace

omit [Scalar R] in
theorem PairedStep.firsts_append (before after : List (PairedStep R)) :
    firsts (before ++ after) = firsts before ++ firsts after := by
  induction before with
  | nil => rfl
  | cons p before ih => cases p <;> simp [firsts, ih]

omit [Scalar R] in
theorem PairedStep.seconds_append (before after : List (PairedStep R)) :
    seconds (before ++ after) = seconds before ++ seconds after := by
  induction before with
  | nil => rfl
  | cons p before ih => cases p <;> simp [seconds, ih]

/-- **Settled runs cannot be told apart** by their determinants and inverses. -/
theorem sameAnswers_of_isSettled (w : Workspace R) (steps : List (PairedStep R))
    (h : w.IsSettled steps) : SameAnswers w steps := by
  intro before s after hsteps hneeds
  have halike := (Workspace.Alike.refl w).run before fun pre construction out post heq =>
    h pre construction out (post ++ .both s :: after) (by simp [hsteps, heq])
  have hsame := (halike.step s fun construction out heq => h before construction out after
    (heq ▸ hsteps)).2 (by
      rintro construction out rfl
      cases hneeds)
  refine ⟨((w.run (firsts before)).2.step s).1, ?_, ?_⟩
  · rw [hsteps, firsts_append]
    exact Workspace.getElem?_run w (firsts before) s (firsts after)
  · rw [hsteps, seconds_append, hsame]
    exact Workspace.getElem?_run w (seconds before) s (seconds after)

/-! ### Products of two matrices -/

/-- Two matrices are multiplied, and the inverse of their product is asked for.  In the second run
they are asked for their determinants first. -/
def queriedProduct (a b : List (List (Operand Float))) : List (PairedStep Float) :=
  [.both (.make (.rows a) (some "a")), .both (.make (.rows b) (some "b")), .second "a", .second "b",
    .both (.make (.binary .times "a" "b") (some "c")), .both (.invert "c" none)]

/-- Whether there is an inverse, as an answer tells. -/
def tellsInverse : Except (StepError R) (Answer R) → Option Bool
  | .ok (.matrix _) => some true
  | .ok .noInverse => some false
  | _ => none

/-- **Asking can make an inverse vanish.**  The first matrix has the determinant zero, which the
product inherits; its own expansion gives a number close to zero. -/
theorem not_sameAnswers_of_product :
    let steps := queriedProduct [[.real 0.1, .real 0.1], [.real 0.3, .real 0.3]]
      [[.real 0.1, .real 0.2], [.real 0.3, .real 0.7]]
    (Workspace.empty.run (firsts steps)).1[3]?.bind tellsInverse = some true ∧
      (Workspace.empty.run (seconds steps)).1[5]?.bind tellsInverse = some false ∧
      ¬SameAnswers Workspace.empty steps := by
  intro steps
  have hfirst : (Workspace.empty.run (firsts steps)).1[3]?.bind tellsInverse = some true := by
    decide +kernel
  have hsecond : (Workspace.empty.run (seconds steps)).1[5]?.bind tellsInverse = some false := by
    decide +kernel
  refine ⟨hfirst, hsecond, fun h => ?_⟩
  obtain ⟨answer, hanswer, hanswer'⟩ := h (steps.take 5) (.invert "c" none) [] rfl rfl
  have hanswer : (Workspace.empty.run (firsts steps)).1[3]? = some answer := hanswer
  have hanswer' : (Workspace.empty.run (seconds steps)).1[5]? = some answer := hanswer'
  rw [hanswer] at hfirst
  rw [hanswer'] at hsecond
  cases hfirst.symm.trans hsecond

/-- What is inherited can be compared with the expansion. -/
theorem Workspace.inheritsExpansion_of_eq {w : Workspace R} {construction : Construction R}
    (h : w.inherited? construction = (w.make construction).toOption.map expansion) :
    w.InheritsExpansion construction := by
  intro d m hd hm
  rw [hd, hm] at h
  exact Option.some.inj h

theorem isSettled_queriedProduct {a b : List (List (Operand Float))}
    (h : Workspace.SettledAt
      (Workspace.empty.run (firsts ((queriedProduct a b).take 4))).2
      (Workspace.empty.run (seconds ((queriedProduct a b).take 4))).2 (.binary .times "a" "b")) :
    Workspace.empty.IsSettled (queriedProduct a b) := by
  intro before construction out after hsteps
  rw [queriedProduct] at hsteps
  rcases before with _ | ⟨p₁, _ | ⟨p₂, _ | ⟨p₃, _ | ⟨p₄, _ | ⟨p₅, _ | ⟨p₆, before⟩⟩⟩⟩⟩⟩
  · cases hsteps
    exact .inl Iff.rfl
  · cases hsteps
    exact .inl Iff.rfl
  · cases hsteps
  · cases hsteps
  · cases hsteps
    exact h
  · cases hsteps
  · simp at hsteps

/-- The determinant of a product of whole numbers is exact, so it does not matter who asks. -/
theorem sameAnswers_of_isSettled_of_whole_numbers :
    let steps := queriedProduct [[.real 1, .real 2], [.real 3, .real 4]]
      [[.real 2, .real 1], [.real 1, .real 1]]
    Workspace.empty.IsSettled steps ∧ SameAnswers Workspace.empty steps := by
  intro steps
  have hsettled : Workspace.empty.IsSettled steps := by
    refine isSettled_queriedProduct (.inr ⟨?_, ?_⟩)
    · intro d m hd hm
      cases hd
    · exact Workspace.inheritsExpansion_of_eq (by decide +kernel)
  exact ⟨hsettled, sameAnswers_of_isSettled _ _ hsettled⟩

end LinearEquations
