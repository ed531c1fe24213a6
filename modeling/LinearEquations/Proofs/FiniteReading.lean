import LinearEquations.Proofs.DoubleValue
import LinearEquations.Proofs.Reading
import LinearEquations.Scalar.Basic

/-! # Only finite numbers are read

A number that is read from digits is finite, and so are zero, one and what is negated.  These are
laws of the arithmetic (`FiniteReading`), which doubles and rational numbers satisfy.  From them it
follows, symbol by symbol along the grammar, that all numbers of an equation that is read are finite
(`Equation.isFinite_of_parse`). -/

namespace LinearEquations
open Grammar

/-- A finite scalar stands for a number. -/
theorem Scalar.exists_value {R : Type} [Scalar R] {x : R} (h : isFinite x) :
    ∃ q, value x = .finite q := by
  unfold isFinite at h
  cases hx : value x with
  | finite q => exact ⟨q, rfl⟩
  | nan =>
    rw [hx] at h
    cases h
  | infinite negative =>
    rw [hx] at h
    cases h

/-- Reading makes finite scalars. -/
class FiniteReading (R : Type) [Scalar R] : Prop where
  isFinite_zero : Scalar.isFinite (0 : R)
  isFinite_one : Scalar.isFinite (1 : R)
  isFinite_neg : ∀ x : R, Scalar.isFinite x → Scalar.isFinite (-x)
  isFinite_of_ofDecimal? : ∀ (digits places : Nat) (x : R),
    Scalar.ofDecimal? digits places = some x → Scalar.isFinite x

instance : FiniteReading Float where
  isFinite_zero := by decide +kernel
  isFinite_one := by decide +kernel
  isFinite_neg x h := by
    obtain ⟨q, hq⟩ := Scalar.exists_value h
    change (Extended.ofFloat (-x)).isFinite
    rw [ofFloat_neg hq]
    rfl
  isFinite_of_ofDecimal? digits places x h := by
    simp only [Scalar.ofDecimal?] at h
    split at h
    · rename_i hfinite
      cases h
      exact (isFinite_iff _).symm.trans hfinite
    · cases h

instance : FiniteReading Rat where
  isFinite_zero := rfl
  isFinite_one := rfl
  isFinite_neg _ _ := rfl
  isFinite_of_ofDecimal? _ _ _ _ := rfl

variable {R : Type} [Scalar R] [FiniteReading R]

/-! ### Complex numbers -/

namespace Complex
variable {a : Complex R}

omit [FiniteReading R] in
theorem isFinite_iff : a.isFinite ↔ Scalar.isFinite a.re ∧ Scalar.isFinite a.im :=
  Bool.and_eq_true_iff

theorem isFinite_ofReal {x : R} (h : Scalar.isFinite x) : (ofReal x).isFinite :=
  isFinite_iff.mpr ⟨h, FiniteReading.isFinite_zero⟩

theorem isFinite_zero : (0 : Complex R).isFinite := isFinite_ofReal FiniteReading.isFinite_zero

theorem isFinite_one : (1 : Complex R).isFinite := isFinite_ofReal FiniteReading.isFinite_one

theorem isFinite_neg (h : a.isFinite) : (-a).isFinite :=
  isFinite_iff.mpr ((isFinite_iff.mp h).imp (FiniteReading.isFinite_neg _)
    (FiniteReading.isFinite_neg _))

end Complex

/-! ### Symbols -/

namespace Grammar
open Cursor (signed)
variable {s rest : List Char} {a : Complex R} {name : String} {x : R}

theorem isFinite_signed (negative : Bool) (h : Scalar.isFinite x) :
    Scalar.isFinite (signed negative x) := by
  cases negative with
  | false => exact h
  | true => exact FiniteReading.isFinite_neg x h

theorem Number.isFinite (h : Number s x rest) : Scalar.isFinite x := by
  obtain ⟨-, -, -, hnearest⟩ := h
  exact FiniteReading.isFinite_of_ofDecimal? _ _ _ hnearest

theorem Factor.isFinite (h : Factor s x rest) : Scalar.isFinite x := by
  cases h with
  | absent => exact FiniteReading.isFinite_one
  | present hnumber => exact hnumber.isFinite

theorem Literal.isFinite (h : Literal s a rest) : a.isFinite := by
  obtain ⟨-, -, hreal, -, -, -, hfactor, -, -⟩ := h
  exact Complex.isFinite_iff.mpr
    ⟨isFinite_signed _ hreal.isFinite, isFinite_signed _ hfactor.isFinite⟩

theorem Magnitude.isFinite (h : Magnitude s a rest) : a.isFinite := by
  cases h with
  | number hnumber => exact Complex.isFinite_ofReal hnumber.isFinite
  | literal hliteral => exact hliteral.isFinite

theorem Body.isFinite (h : Body s name a rest) : a.isFinite := by
  cases h with
  | bare => exact Complex.isFinite_one
  | sized hsize => exact hsize.isFinite

theorem Term.isFinite {first : Bool} {t : String × Complex R} (h : Term first s t rest) :
    t.2.isFinite := by
  cases h with
  | @signed _ negative _ _ _ _ _ _ _ _ hbody =>
    cases negative with
    | false => exact hbody.isFinite
    | true => exact Complex.isFinite_neg hbody.isFinite
  | bare hbody => exact hbody.isFinite

theorem Terms.isFinite {first : Bool} {ts : List (String × Complex R)}
    (h : Terms first s ts rest) : ∀ t ∈ ts, t.2.isFinite := by
  induction h with
  | done => exact List.forall_mem_nil _
  | more hterm _ _ ih => exact List.forall_mem_cons.mpr ⟨hterm.isFinite, ih⟩

theorem RightHandSide.isFinite (h : RightHandSide s a rest) : a.isFinite := by
  cases h with
  | plain hsize => exact hsize.isFinite
  | negated _ hsize => exact Complex.isFinite_neg hsize.isFinite

end Grammar

/-! ### Equations -/

namespace Equation
variable {e : Equation R}

/-- All numbers of an equation are finite. -/
structure IsFinite (e : Equation R) : Prop where
  terms : ∀ t ∈ e.terms, t.2.isFinite
  rhs : e.rhs.isFinite

/-- **The numbers of an equation that is read are finite.** -/
theorem isFinite_of_parse {text : String} (h : Equation.parse text = .ok e) : e.IsFinite := by
  obtain ⟨ts, rhs, hequation, rfl⟩ := exists_isEquation_of_parse h
  obtain ⟨-, hterms, -, hright, -⟩ := hequation
  exact ⟨fun t ht => hterms.isFinite t (mem_of_mem_setAll_empty ht), hright.isFinite⟩

end Equation
end LinearEquations
