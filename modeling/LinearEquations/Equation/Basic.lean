import LinearEquations.Complex.Basic

/-! # Linear equations

An equation has a coefficient for each of its unknowns, in the order in which they were first
mentioned, and a right hand side.  Mentioning an unknown again replaces its coefficient and keeps
its place, so no equation has two terms with the same unknown. -/

namespace LinearEquations

/-- The equation whose terms, each a coefficient times an unknown, add up to `rhs`. -/
@[ext]
structure Equation (R : Type) where
  terms : List (String × Complex R)
  rhs : Complex R
  /-- Each unknown has one term. -/
  nodup : (terms.map Prod.fst).Nodup

namespace Equation
variable {R : Type}

/-- The equation without terms. -/
def empty (rhs : Complex R) : Equation R := ⟨[], rhs, List.nodup_nil⟩

/-- Replace the coefficient of `name`, or add a term for it at the end. -/
def setTerm (name : String) (coefficient : Complex R) :
    List (String × Complex R) → List (String × Complex R)
  | [] => [(name, coefficient)]
  | term :: rest =>
    if term.1 = name then (name, coefficient) :: rest
    else term :: setTerm name coefficient rest

/-- Setting a term adds its unknown at the end, unless it is there already. -/
theorem map_fst_setTerm (name : String) (coefficient : Complex R)
    (terms : List (String × Complex R)) :
    (setTerm name coefficient terms).map Prod.fst =
      if name ∈ terms.map Prod.fst then terms.map Prod.fst else terms.map Prod.fst ++ [name] := by
  induction terms with
  | nil => simp [setTerm]
  | cons term rest ih =>
    by_cases h : term.1 = name
    · simp [setTerm, h]
    · have hne : ¬ name = term.1 := fun hx => h hx.symm
      simp only [setTerm, h, if_false, List.map_cons, ih, List.mem_cons, hne, false_or]
      split <;> rfl

theorem nodup_setTerm (name : String) (coefficient : Complex R)
    {terms : List (String × Complex R)} (h : (terms.map Prod.fst).Nodup) :
    ((setTerm name coefficient terms).map Prod.fst).Nodup := by
  rw [map_fst_setTerm]
  split
  · exact h
  · refine List.nodup_append.mpr ⟨h, by simp, ?_⟩
    intro a ha b hb hab
    rw [List.mem_singleton.mp hb] at hab
    subst hab
    contradiction

/-- The equation with the given coefficient for `name`. -/
def set (e : Equation R) (name : String) (coefficient : Complex R) : Equation R where
  terms := setTerm name coefficient e.terms
  rhs := e.rhs
  nodup := nodup_setTerm name coefficient e.nodup

/-- The equation with the given right hand side. -/
def withRhs (e : Equation R) (rhs : Complex R) : Equation R := { e with rhs }

/-- The coefficient of `name`, if the equation mentions it. -/
def coefficient? (e : Equation R) (name : String) : Option (Complex R) :=
  (e.terms.find? fun term => term.1 = name).map Prod.snd

/-- The unknowns that the equation mentions. -/
def unknowns (e : Equation R) : List String := e.terms.map Prod.fst

/-- Whether two equations have the same unknowns in the same order, with equal numbers. -/
def eq [Scalar R] (e f : Equation R) : Bool :=
  e.unknowns = f.unknowns &&
    (List.zipWith (fun s t => s.2.eq t.2) e.terms f.terms).all id && e.rhs.eq f.rhs

end Equation
end LinearEquations
