import LinearEquations.LinearSystem.Basic
import LinearEquations.Proofs.FlatElimination

/-! # Solving on arrays

A system is solved on an array by building its augmented matrix cell by cell, reducing it, and
reading the rows of the result.  This comes to the same end as solving on rows
(`solveSystem_flat`); so the errors that the single programs could raise, and the faults, are out of
reach wherever they are out of reach on rows. -/

namespace LinearEquations

variable {R : Type} [Scalar R]

/-! ### The rows of equations -/

namespace LinearSystem
open LabelledMatrix
variable {e : Equation R} {names : List String} {x : String} {c : Nat}

theorem length_rowOf (names : List String) (e : Equation R) :
    (rowOf names e).length = names.length + 1 := by
  simp [rowOf]

theorem hasWidth_rowOf (s : LinearSystem R) (names : List String) :
    HasWidth (names.length + 1) (s.equations.map (rowOf names)) :=
  List.forall_mem_map.mpr fun e _ => length_rowOf names e

/-- The cells of a row are looked up by name. -/
theorem getElem?_rowOf (hx : names[c]? = some x) :
    (rowOf names e)[c]? = some ((e.coefficient? x).getD 0) := by
  have hc : c < names.length := (List.getElem?_eq_some_iff.mp hx).1
  rw [rowOf, List.getElem?_append_left (by rwa [List.length_map]), List.getElem?_map, hx]
  rfl

theorem getElem?_rowOf_length : (rowOf names e)[names.length]? = some e.rhs := by
  rw [rowOf, List.getElem?_append_right (by rw [List.length_map]), List.length_map, Nat.sub_self]
  rfl

end LinearSystem

/-! ### The programs on arrays -/

namespace FlatMatrix
open LabelledMatrix LinearSystem Checked

/-- The cell of an equation in a column of the augmented matrix: a coefficient, zero where the
unknown is missing, or the right hand side. -/
def augmentedCell (unknowns : List String) (e : Equation R) (column : Nat) : Complex R :=
  match unknowns[column]? with
  | some x => (e.coefficient? x).getD 0
  | none => e.rhs

/-- The augmented matrix of a system. -/
def augmentedMatrix (s : LinearSystem R) : Checked R (FlatMatrix R) :=
  if s.equations.isEmpty then refuse .empty
  else do
    let m ← init (s.unknowns.length + 1) s.equations.length fun column row => do
      let x := augmentedCell s.unknowns (← fetch s.equations row) column
      if x.isFinite then .ok x else refuse (.invalidElement row column)
    m.withLabels (s.unknowns ++ [rhsLabel])

/-- The reduced augmented matrix, its labels, and the solution that is read from them. -/
def solveSystem (s : LinearSystem R) : Checked R (FlatMatrix R × List String × Solution) := do
  let matrix ← (← augmentedMatrix s).reducedRowEchelon
  let labels := matrix.labels.getD []
  return (matrix, labels, ← matrix.solution labels)

/-! ### Agreement with solving on rows -/

variable {s : LinearSystem R}

theorem augmentedCell_eq {unknowns : List String} {e : Equation R} {c : Nat} {x : Complex R}
    (hx : (rowOf unknowns e)[c]? = some x) : augmentedCell unknowns e c = x := by
  cases hunknown : unknowns[c]? with
  | some name =>
    rw [getElem?_rowOf hunknown] at hx
    rw [augmentedCell, hunknown]
    exact Option.some.inj hx
  | none =>
    have hlt := (List.getElem?_eq_some_iff.mp hx).1
    rw [length_rowOf] at hlt
    obtain rfl : c = unknowns.length :=
      Nat.le_antisymm (Nat.le_of_lt_succ hlt) (List.getElem?_eq_none_iff.mp hunknown)
    rw [getElem?_rowOf_length] at hx
    rw [augmentedCell, hunknown]
    exact Option.some.inj hx

/-- **The augmented matrix is built cell by cell.** -/
theorem augmentedMatrix_flat (s : LinearSystem R) :
    FlatMatrix.augmentedMatrix s = lift flat s.augmentedMatrix := by
  unfold FlatMatrix.augmentedMatrix LinearSystem.augmentedMatrix
  split
  · rename_i hempty
    rw [List.isEmpty_iff.mp hempty]
    rfl
  · rename_i hne
    have hlen : (s.equations.map (rowOf s.unknowns)).length = s.equations.length :=
      List.length_map _
    have hw := hasWidth_rowOf s s.unknowns
    have hpos : 0 < s.equations.length :=
      List.length_pos_iff.mpr fun hnil => hne (List.isEmpty_iff.mpr hnil)
    refine lift_bind (init_checked hpos (Nat.succ_pos _) hlen hw fun r c x hx => ?_)
      fun m _ => withLabels_flat m s.labels
    obtain ⟨row, hrow, hc⟩ := Option.bind_eq_some_iff.mp hx
    obtain ⟨e, he, rfl⟩ := Option.map_eq_some_iff.mp (List.getElem?_map ▸ hrow)
    rw [fetch_eq_ok he, ok_bind, augmentedCell_eq hc]

theorem wellFormed_of_augmentedMatrix {m : ComplexMatrix R} (h : s.augmentedMatrix = .ok m) :
    m.WellFormed := by
  obtain ⟨a, ha, hm⟩ := bind_eq_ok.mp h
  exact (wellFormed_of_ofRows ha).withLabels hm

/-- **Solving on arrays is solving on rows.** -/
theorem solveSystem_flat (s : LinearSystem R) :
    solveSystem s = lift (fun out => (out.1.matrix.flat, out.1.labels, out.2)) (do
      let r ← s.solve
      return (r, ← r.solution)) := by
  rw [solveSystem, LinearSystem.solve, bind_assoc]
  refine lift_bind (augmentedMatrix_flat s) fun a ha => ?_
  have hwf := wellFormed_of_augmentedMatrix ha
  rw [bind_assoc]
  refine lift_bind (reducedRowEchelon_flat hwf) fun m hm => ?_
  have hm := (hwf.reducedRowEchelon hm).1
  rw [pure_bind]
  exact lift_bind (solution_flat hm _) fun _ _ => rfl

end FlatMatrix
end LinearEquations
