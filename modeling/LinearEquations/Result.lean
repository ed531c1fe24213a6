/-! # Results that may be errors

When a sequence of steps, each of which may fail, succeeds, and when it fails. -/

namespace LinearEquations
variable {E F A B : Type}

/-- A sequence of two steps succeeds if both do. -/
theorem bind_eq_ok {x : Except E A} {f : A → Except E B} {b : B} :
    x >>= f = .ok b ↔ ∃ a, x = .ok a ∧ f a = .ok b := by
  cases x <;> simp [bind, Except.bind]

/-- Wrapping errors leaves results alone. -/
theorem mapError_eq_ok {x : Except E A} {f : E → F} {a : A} :
    x.mapError f = .ok a ↔ x = .ok a := by
  cases x with
  | error e => exact ⟨nofun, nofun⟩
  | ok a =>
    constructor <;>
    · intro h
      cases h
      rfl

/-- A sequence of two steps fails if one of them does. -/
theorem bind_eq_error {x : Except E A} {f : A → Except E B} {e : E} :
    x >>= f = .error e ↔ x = .error e ∨ ∃ a, x = .ok a ∧ f a = .error e := by
  cases x <;> simp [bind, Except.bind]

/-- Wrapped errors come from errors. -/
theorem mapError_eq_error {x : Except E A} {f : E → F} {e : F} :
    x.mapError f = .error e ↔ ∃ cause, x = .error cause ∧ f cause = e := by
  cases x with
  | error cause =>
    constructor
    · exact fun h => ⟨cause, rfl, Except.error.inj h⟩
    · rintro ⟨_, h, rfl⟩
      cases h
      rfl
  | ok a => exact ⟨nofun, nofun⟩

theorem exists_eq_ok {x : Except E A} (h : x.toOption.isSome) : ∃ a, x = .ok a := by
  cases x with
  | error e => cases h
  | ok a => exact ⟨a, rfl⟩

/-- A result that was computed to be a result with a property. -/
theorem exists_ok_of_any {r : Except E A} {p : A → Bool} (h : r.toOption.any p) :
    ∃ a, r = .ok a ∧ p a := by
  cases r with
  | error e => cases h
  | ok a => exact ⟨a, rfl, h⟩

theorem exists_eq_error {x : Except E A} (h : x.toOption.isNone) : ∃ e, x = .error e := by
  cases x with
  | error e => exact ⟨e, rfl⟩
  | ok a => cases h

end LinearEquations
