import LinearEquations.Proofs.Shape

/-! # What holds of all matrices in a workspace

A property of matrices that the constructors establish and all operations keep (`IsInvariant`) holds
of every matrix that a run makes, whether it is stored or only returned (`IsInvariant.run`).  So a
proof about all runs comes down to one case for each operation.  The first example is that all
matrices are well formed (`isInvariant_wellFormed`). -/

namespace LinearEquations
open LabelledMatrix

namespace Workspace
variable {R : Type} {P : ComplexMatrix R → Prop} {w : Workspace R} {m : ComplexMatrix R}
variable {name : String}

/-- All matrices of a workspace have the property `P`. -/
def Holds (P : ComplexMatrix R → Prop) (w : Workspace R) : Prop := ∀ name m, w name = some m → P m

theorem holds_empty : Holds P (empty : Workspace R) := by
  intro name m h
  cases h

theorem lookup_eq_ok : w.lookup name = .ok m ↔ w name = some m := by
  unfold lookup
  cases w name <;> simp

theorem Holds.store (hw : w.Holds P) (hm : P m) : (w.store name m).Holds P := by
  intro other n hn
  unfold Workspace.store at hn
  split at hn
  · cases hn
    exact hm
  · exact hw other n hn

theorem Holds.storeAs (hw : w.Holds P) (out : Option String) (hm : P m) :
    (w.storeAs out m).Holds P := by
  cases out with
  | none => exact hw
  | some name => exact hw.store hm

end Workspace

variable {R : Type} [Scalar R]

/-- The matrices that are made have the property `P` if those do from which they are made. -/
structure IsInvariant (P : ComplexMatrix R → Prop) : Prop where
  ofRows : ∀ rows m, LabelledMatrix.ofRows rows = .ok m → P m
  identity : ∀ n m, LabelledMatrix.identity n = .ok m → P m
  unary : ∀ (operation : UnaryOperation R) m r, P m → operation.apply m = .ok r → P r
  binary : ∀ (operation : BinaryOperation) m n r, P m → P n → operation.apply m n = .ok r → P r
  inverse : ∀ m r, P m → m.inverse = .ok (some r) → P r
  remember : ∀ m, P m → P m.remember

variable {P : ComplexMatrix R → Prop} {w : Workspace R} {m : ComplexMatrix R}

theorem IsInvariant.make (h : IsInvariant P) (hw : w.Holds P) {construction : Construction R}
    (hmake : w.make construction = .ok m) : P m := by
  cases construction with
  | rows cells => exact h.ofRows _ m (mapError_eq_ok.mp hmake)
  | identity n => exact h.identity n m (mapError_eq_ok.mp hmake)
  | dense cells => exact h.ofRows _ m (mapError_eq_ok.mp hmake)
  | unary operation name =>
    obtain ⟨n, hn, hmake⟩ := bind_eq_ok.mp hmake
    exact h.unary operation n m (hw name n (Workspace.lookup_eq_ok.mp hn))
      (mapError_eq_ok.mp hmake)
  | binary operation name other =>
    obtain ⟨a, ha, hmake⟩ := bind_eq_ok.mp hmake
    obtain ⟨b, hb, hmake⟩ := bind_eq_ok.mp hmake
    exact h.binary operation a b m (hw name a (Workspace.lookup_eq_ok.mp ha))
      (hw other b (Workspace.lookup_eq_ok.mp hb)) (mapError_eq_ok.mp hmake)

/-- Only matrices that are made are answered. -/
theorem answer_ne_matrix (w : Workspace R) (m : ComplexMatrix R) (query : Query R)
    (r : ComplexMatrix R) : w.answer m query ≠ .ok (.matrix r) := by
  intro h
  cases query with
  | index column row =>
    simp only [Workspace.answer] at h
    cases hi : m.index column row <;> simp [hi, Except.mapError, Except.map] at h
  | compare other epsilon proportion =>
    obtain ⟨n, -, h⟩ := bind_eq_ok.mp h
    cases h
  | solution labels =>
    simp only [Workspace.answer] at h
    cases hs : readSolution m labels <;> simp [hs, Except.mapError, Except.map] at h
  | _ => cases h

/-- **One step keeps an invariant**, and the matrix that it answers has it as well. -/
theorem IsInvariant.step (h : IsInvariant P) (hw : w.Holds P) (s : Step R) :
    (w.step s).2.Holds P ∧ ∀ m, (w.step s).1 = .ok (.matrix m) → P m := by
  cases s with
  | make construction out =>
    cases hmake : w.make construction with
    | error e =>
      simp only [Workspace.step, hmake]
      exact ⟨hw, nofun⟩
    | ok m =>
      have hm := h.make hw hmake
      simp only [Workspace.step, hmake]
      refine ⟨hw.storeAs out hm, fun r hr => ?_⟩
      cases hr
      exact hm
  | invert name out =>
    cases hlookup : w.lookup name with
    | error e =>
      simp only [Workspace.step, hlookup]
      exact ⟨hw, nofun⟩
    | ok m =>
      have hm := hw name m (Workspace.lookup_eq_ok.mp hlookup)
      have hw' : (w.store name m.remember).Holds P := hw.store (h.remember m hm)
      cases hinverse : m.inverse with
      | error e =>
        simp only [Workspace.step, hlookup, hinverse]
        exact ⟨hw', nofun⟩
      | ok result =>
        cases result with
        | none =>
          simp only [Workspace.step, hlookup, hinverse]
          exact ⟨hw', nofun⟩
        | some n =>
          have hn := h.inverse m n hm hinverse
          simp only [Workspace.step, hlookup, hinverse]
          refine ⟨hw'.storeAs out hn, fun r hr => ?_⟩
          cases hr
          exact hn
  | ask query name =>
    cases hlookup : w.lookup name with
    | error e =>
      simp only [Workspace.step, hlookup]
      exact ⟨hw, nofun⟩
    | ok m =>
      have hm := hw name m (Workspace.lookup_eq_ok.mp hlookup)
      simp only [Workspace.step, hlookup]
      refine ⟨hw.store ?_, fun r hr => absurd hr (answer_ne_matrix w m query r)⟩
      cases query with
      | determinant => exact h.remember m hm
      | _ => exact hm

/-- **An invariant holds of every matrix that a run leaves behind or answers.** -/
theorem IsInvariant.run (h : IsInvariant P) (hw : w.Holds P) (steps : List (Step R)) :
    (w.run steps).2.Holds P ∧ ∀ m, .ok (.matrix m) ∈ (w.run steps).1 → P m := by
  induction steps generalizing w with
  | nil => exact ⟨hw, nofun⟩
  | cons s rest ih =>
    obtain ⟨hw', hs⟩ := h.step hw s
    obtain ⟨hrest, hresults⟩ := ih hw'
    refine ⟨hrest, fun m hm => ?_⟩
    rcases List.mem_cons.mp hm with hm | hm
    · exact hs m hm.symm
    · exact hresults m hm

/-- **Every matrix of a run is well formed.** -/
theorem isInvariant_wellFormed : IsInvariant (WellFormed : ComplexMatrix R → Prop) where
  ofRows _ _ := wellFormed_of_ofRows
  identity _ _ h := (WellFormed.identity h).1
  unary operation _ _ hm h := operation.wellFormed_of_apply hm h
  binary operation _ _ _ hm hn h := operation.wellFormed_of_apply hm hn h
  inverse _ _ hm h := (hm.inverse h).1
  remember _ hm := hm.remember

end LinearEquations
