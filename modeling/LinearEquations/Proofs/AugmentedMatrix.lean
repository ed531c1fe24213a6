import LinearEquations.Proofs.SolveOutcome

/-! # The augmented matrix of a system

The columns of the augmented matrix are found by going through all equations and keeping each name
where it is first mentioned; every cell is then looked up by name.  `LinearSystem.IsTable` says what
table this has to give, in terms of the terms of the equations alone.

The table is checked cell by cell, row after row.  So the matrix is refused at the first cell that
is not finite in this order (`IsFirstBad`), which need not be the first such number in the order in
which an equation has its terms. -/

namespace LinearEquations
open LabelledMatrix

/-! ### Names in the order of first mention -/

/-- All names of `mentions`, each once, in the order of their first mention. -/
structure IsFirstMentionOrder (mentions names : List String) : Prop where
  mem_iff : ∀ x, x ∈ names ↔ x ∈ mentions
  ordered : names.Pairwise fun x y => mentions.idxOf x < mentions.idxOf y

/-- Leaving out names keeps the order of the others. -/
theorem idxOf_lt_of_filter {p : String → Bool} {l : List String} {x y : String} (hx : p x)
    (hy : p y) (h : (l.filter p).idxOf x < (l.filter p).idxOf y) : l.idxOf x < l.idxOf y := by
  induction l with
  | nil => exact absurd h (Nat.lt_irrefl 0)
  | cons a l ih =>
    by_cases ha : p a
    · rw [List.filter_cons_of_pos ha] at h
      by_cases hay : a = y
      · subst hay
        rw [List.idxOf_cons_self] at h
        exact absurd h (Nat.not_lt_zero _)
      · rw [List.idxOf_cons_ne _ hay] at h ⊢
        by_cases hax : a = x
        · subst hax
          rw [List.idxOf_cons_self]
          exact Nat.succ_pos _
        · rw [List.idxOf_cons_ne _ hax] at h ⊢
          exact Nat.succ_lt_succ (ih (Nat.lt_of_succ_lt_succ h))
    · have hax : a ≠ x := fun heq => ha (heq ▸ hx)
      have hay : a ≠ y := fun heq => ha (heq ▸ hy)
      rw [List.filter_cons_of_neg ha] at h
      rw [List.idxOf_cons_ne _ hax, List.idxOf_cons_ne _ hay]
      exact Nat.succ_lt_succ (ih h)

/-- **Removing repetitions keeps first mentions.** -/
theorem isFirstMentionOrder_eraseDups (l : List String) : IsFirstMentionOrder l l.eraseDups := by
  refine ⟨fun x => List.mem_eraseDups, ?_⟩
  induction hn : l.length using Nat.strong_induction_on generalizing l with
  | _ n ih =>
    cases l with
    | nil => exact List.Pairwise.nil
    | cons a l =>
      have hlen : (l.filter fun y => !y == a).length < n :=
        hn ▸ Nat.lt_succ_of_le (List.length_filter_le _ l)
      have hother : ∀ y ∈ (l.filter fun y => !y == a).eraseDups, (!y == a) = true := fun y hy =>
        (List.mem_filter.mp (List.mem_eraseDups.mp hy)).2
      have hne : ∀ y, (!y == a) = true → a ≠ y := fun y hy heq => by simp [heq] at hy
      rw [List.eraseDups_cons, List.pairwise_cons]
      refine ⟨fun y hy => ?_, (ih _ hlen _ rfl).imp_of_mem fun {x y} hx hy hlt => ?_⟩
      · rw [List.idxOf_cons_self, List.idxOf_cons_ne _ (hne y (hother y hy))]
        exact Nat.succ_pos _
      · rw [List.idxOf_cons_ne _ (hne x (hother x hx)), List.idxOf_cons_ne _ (hne y (hother y hy))]
        exact Nat.succ_lt_succ (idxOf_lt_of_filter (hother x hx) (hother y hy) hlt)

/-! ### The table -/

variable {R : Type} [Scalar R]

/-- The cell in the given row and column is the first one, row by row, that is not finite. -/
structure IsFirstBad (cell? : Nat → Nat → Option (Complex R)) (row column : Nat) : Prop where
  bad : ∃ x, cell? row column = some x ∧ ¬ x.isFinite
  earlier : ∀ r c, r < row ∨ r = row ∧ c < column → ∀ x, cell? r c = some x → x.isFinite

/-- There is only one first cell. -/
theorem IsFirstBad.unique {cell? : Nat → Nat → Option (Complex R)} {row column r c : Nat}
    (h : IsFirstBad cell? row column) (h' : IsFirstBad cell? r c) : r = row ∧ c = column := by
  obtain ⟨x, hx, hbad⟩ := h.bad
  obtain ⟨y, hy, hbad'⟩ := h'.bad
  have hle : ¬ (r < row ∨ r = row ∧ c < column) := fun hlt => hbad' (h.earlier r c hlt y hy)
  have hge : ¬ (row < r ∨ row = r ∧ column < c) := fun hlt => hbad (h'.earlier row column hlt x hx)
  omega

namespace LinearSystem
variable {s : LinearSystem R} {e : Equation R} {names : List String} {x : String} {c : Nat}

/-- The table of a system: a row for each equation, a column for each of its names, and a last one
for the right hand sides.  A name that an equation does not mention has a zero in its row. -/
structure IsTable (s : LinearSystem R) (names : List String)
    (cell? : Nat → Nat → Option (Complex R)) : Prop where
  names_order : IsFirstMentionOrder (s.equations.flatMap Equation.unknowns) names
  coefficient : ∀ row column e x a, s.equations[row]? = some e → names[column]? = some x →
    (x, a) ∈ e.terms → cell? row column = some a
  missing : ∀ row column e x, s.equations[row]? = some e → names[column]? = some x →
    x ∉ e.unknowns → cell? row column = some 0
  rhs : ∀ row e, s.equations[row]? = some e → cell? row names.length = some e.rhs
  outside : ∀ row column, s.equations.length ≤ row ∨ names.length < column →
    cell? row column = none

theorem cellAt?_rowOf (row : Nat) : cellAt? (s.equations.map (rowOf names)) row c =
    s.equations[row]?.bind fun e => (rowOf names e)[c]? := by
  rw [cellAt?, List.getElem?_map, Option.bind_map]
  rfl

/-- **The rows of the equations are the table of the system.** -/
theorem isTable_rowOf (s : LinearSystem R) :
    IsTable s s.unknowns (cellAt? (s.equations.map (rowOf s.unknowns))) where
  names_order := isFirstMentionOrder_eraseDups _
  coefficient row column e x a he hx ha := by
    rw [cellAt?_rowOf, he, Option.bind_some, getElem?_rowOf hx,
      Equation.coefficient?_eq_some_iff.mpr ha]
    rfl
  missing row column e x he hx hmissing := by
    rw [cellAt?_rowOf, he, Option.bind_some, getElem?_rowOf hx,
      Equation.coefficient?_eq_none_iff.mpr hmissing]
    rfl
  rhs row e he := by
    rw [cellAt?_rowOf, he, Option.bind_some, getElem?_rowOf_length]
  outside row column hout := by
    rcases hout with hrow | hcolumn
    · exact cellAt?_of_length_le (by rwa [List.length_map]) column
    · exact cellAt?_of_width_le (hasWidth_rowOf s s.unknowns) row hcolumn

/-- The table is finite if the equations are: all numbers of an equation are in its row. -/
theorem isFinite_of_rowOf (hnames : e.unknowns ⊆ names) (h : ∀ x ∈ rowOf names e, x.isFinite) :
    e.IsFinite := by
  refine ⟨fun t ht => ?_, h _ (List.mem_of_getElem? getElem?_rowOf_length)⟩
  obtain ⟨c, hc⟩ := List.mem_iff_getElem?.mp (hnames (List.mem_map_of_mem ht))
  have hcell := getElem?_rowOf (e := e) hc
  rw [Equation.coefficient?_eq_some_iff.mpr (show (t.1, t.2) ∈ e.terms from ht)] at hcell
  exact h _ (List.mem_of_getElem? hcell)

/-! ### The checks -/

/-- In rows of the expected length only a cell can be wrong. -/
theorem exists_isFirstBad {rows : List (List (Complex R))} {q : Nat} {error : MatrixError R}
    (hw : HasWidth q rows) (h : checkRows q 0 rows = .error error) :
    ∃ row column, IsFirstBad (cellAt? rows) row column ∧ error = .invalidElement row column := by
  obtain ⟨i, cells, hfirst, rfl⟩ := exists_isFirstBadRow h
  have hlen : cells.length = q := hw.length_eq hfirst.row_eq
  cases hfind : cells.findIdx? (!·.isFinite) with
  | none =>
    refine absurd ⟨fun x hx => ?_, hlen⟩ hfirst.bad
    simpa using List.findIdx?_eq_none_iff.mp hfind x hx
  | some column =>
    obtain ⟨hcolumn, hbad, hbefore⟩ := List.findIdx?_eq_some_iff_getElem.mp hfind
    refine ⟨i, column, ⟨⟨cells[column], ?_, by simpa using hbad⟩, ?_⟩, ?_⟩
    · rw [cellAt?, hfirst.row_eq, Option.bind_some, List.getElem?_eq_getElem hcolumn]
    · intro r c hlt x hx
      obtain ⟨other, hother, hx⟩ := Option.bind_eq_some_iff.mp hx
      rcases hlt with hr | ⟨rfl, hc⟩
      · exact (hfirst.before r hr other hother).1 x (List.mem_of_getElem? hx)
      · obtain rfl : cells = other := Option.some.inj (hfirst.row_eq.symm.trans hother)
        obtain ⟨hc', rfl⟩ := List.getElem?_eq_some_iff.mp hx
        simpa using hbefore c hc
    · rw [rowError, hfind, Nat.zero_add]

/-- What the augmented matrix of a system is, if it has one. -/
structure IsAugmented (s : LinearSystem R) (cell? : Nat → Nat → Option (Complex R))
    (m : ComplexMatrix R) : Prop where
  shape_eq : m.shape = (s.equations.length, s.unknowns.length + 1)
  labels_eq : m.labels = some (s.unknowns ++ ["rhs"])
  remembered_eq : m.remembered = none
  get?_eq : ∀ row column, m.get? column row = cell? row column

theorem isAugmented_of_augmentedMatrix {m : ComplexMatrix R} (h : s.augmentedMatrix = .ok m) :
    IsAugmented s (cellAt? (s.equations.map (rowOf s.unknowns))) m := by
  obtain ⟨a, ha, hm⟩ := bind_eq_ok.mp h
  obtain ⟨-, hne, rfl⟩ := ofRows_eq_ok.mp ha
  obtain ⟨-, rfl⟩ := withLabels_eq_ok.mp hm
  have hrows : s.equations.map (rowOf s.unknowns) ≠ [] := fun hnil => hne (by rw [hnil]; rfl)
  refine ⟨Prod.ext (List.length_map _) ?_, rfl, rfl, fun _ _ => rfl⟩
  exact columnCount_eq (List.length_pos_iff.mpr hrows) (hasWidth_rowOf s s.unknowns)

theorem augmentedMatrix_of_nil (hempty : s.equations = []) :
    s.augmentedMatrix = .error .empty := by
  rw [augmentedMatrix, hempty]
  rfl

/-- A number that is not finite makes the augmented matrix fail at the first cell of this kind. -/
theorem augmentedMatrix_of_not_isFinite (he : e ∈ s.equations) (hbad : ¬ e.IsFinite) :
    ∃ row column, IsFirstBad (cellAt? (s.equations.map (rowOf s.unknowns))) row column ∧
      s.augmentedMatrix = .error (.invalidElement row column) := by
  have hcolumns : ((s.equations.map (rowOf s.unknowns)).headD []).length =
      s.unknowns.length + 1 := by
    obtain ⟨first, rest, hcons⟩ := List.exists_cons_of_ne_nil (List.ne_nil_of_mem he)
    rw [hcons]
    simp [rowOf]
  cases hcheck : checkRows (s.unknowns.length + 1) 0 (s.equations.map (rowOf s.unknowns)) with
  | error error =>
    obtain ⟨row, column, hfirst, rfl⟩ := exists_isFirstBad (hasWidth_rowOf s s.unknowns) hcheck
    refine ⟨row, column, hfirst, ?_⟩
    rw [augmentedMatrix, ofRows, hcolumns, hcheck]
    rfl
  | ok =>
    have hnames : e.unknowns ⊆ s.unknowns := fun x hx =>
      List.mem_eraseDups.mpr (List.mem_flatMap.mpr ⟨e, he, hx⟩)
    have hrow := (checkRows_eq_ok.mp hcheck _ (List.mem_map_of_mem he)).1
    exact absurd (isFinite_of_rowOf hnames hrow) hbad

/-- A cell that is not finite is a number of an equation, and not a zero that was put in. -/
theorem exists_not_isFinite [FiniteReading R] {row column : Nat}
    (h : IsFirstBad (cellAt? (s.equations.map (rowOf s.unknowns))) row column) :
    ∃ e ∈ s.equations, ¬ e.IsFinite := by
  obtain ⟨x, hx, hbad⟩ := h.bad
  rw [cellAt?_rowOf] at hx
  obtain ⟨e, he, hx⟩ := Option.bind_eq_some_iff.mp hx
  refine ⟨e, List.mem_of_getElem? he, fun hfinite => hbad ?_⟩
  exact (forall_mem_rowOf hfinite s.unknowns).1 x (List.mem_of_getElem? hx)

/-- Building the augmented matrix ends in one of three ways. -/
theorem augmentedMatrix_cases [FiniteReading R] (s : LinearSystem R) :
    s.equations = [] ∧ s.augmentedMatrix = .error .empty ∨
      (∃ m, s.augmentedMatrix = .ok m) ∨
      ∃ row column, IsFirstBad (cellAt? (s.equations.map (rowOf s.unknowns))) row column ∧
        s.augmentedMatrix = .error (.invalidElement row column) := by
  by_cases hempty : s.equations = []
  · exact .inl ⟨hempty, augmentedMatrix_of_nil hempty⟩
  · by_cases hfinite : ∀ e ∈ s.equations, e.IsFinite
    · obtain ⟨m, hm, -⟩ := exists_augmentedMatrix hfinite hempty
      exact .inr (.inl ⟨m, hm⟩)
    · obtain ⟨e, he, hbad⟩ : ∃ e ∈ s.equations, ¬ e.IsFinite := by simpa using hfinite
      exact .inr (.inr (augmentedMatrix_of_not_isFinite he hbad))

/-- **The augmented matrix of a system**: what is refused, and what table it is otherwise. -/
theorem augmentedMatrix_spec [FiniteReading R] (s : LinearSystem R) :
    ∃ cell?, IsTable s s.unknowns cell? ∧
      (s.augmentedMatrix = .error .empty ↔ s.equations = []) ∧
      (∀ row column, s.augmentedMatrix = .error (.invalidElement row column) ↔
        IsFirstBad cell? row column) ∧
      ((∃ row column, IsFirstBad cell? row column) ↔ ∃ e ∈ s.equations, ¬ e.IsFinite) ∧
      (s.equations ≠ [] → (∀ e ∈ s.equations, e.IsFinite) →
        ∃ m, s.augmentedMatrix = .ok m ∧ IsAugmented s cell? m) ∧
      FlatMatrix.augmentedMatrix s = Checked.lift flat s.augmentedMatrix := by
  refine ⟨_, isTable_rowOf s, ⟨fun h => ?_, augmentedMatrix_of_nil⟩, fun row column => ⟨?_, ?_⟩,
    ⟨?_, ?_⟩, fun hne hfinite => ?_, FlatMatrix.augmentedMatrix_flat s⟩
  · rcases augmentedMatrix_cases s with ⟨hempty, -⟩ | ⟨m, hm⟩ | ⟨row, column, -, herror⟩
    · exact hempty
    · cases h.symm.trans hm
    · cases h.symm.trans herror
  · intro h
    rcases augmentedMatrix_cases s with ⟨-, herror⟩ | ⟨m, hm⟩ | ⟨r, c, hfirst, herror⟩
    · cases h.symm.trans herror
    · cases h.symm.trans hm
    · cases h.symm.trans herror
      exact hfirst
  · intro h
    obtain ⟨e, he, hbad⟩ := exists_not_isFinite h
    obtain ⟨r, c, hfirst, herror⟩ := augmentedMatrix_of_not_isFinite he hbad
    obtain ⟨rfl, rfl⟩ := h.unique hfirst
    exact herror
  · rintro ⟨row, column, h⟩
    exact exists_not_isFinite h
  · rintro ⟨e, he, hbad⟩
    obtain ⟨row, column, hfirst, -⟩ := augmentedMatrix_of_not_isFinite he hbad
    exact ⟨row, column, hfirst⟩
  · obtain ⟨m, hm, -⟩ := exists_augmentedMatrix hfinite hne
    exact ⟨m, hm, isAugmented_of_augmentedMatrix hm⟩

/-- The second equation mentions `y` before `x`, but `x` has the first column. -/
theorem augmentedMatrix_spec_of_infinite_coefficients :
    let s : LinearSystem Float := ⟨[⟨[("x", 1), ("z", 0)], 1, by decide⟩,
      ⟨[("y", ⟨0, 1 / 0⟩), ("x", ⟨1 / 0, 0⟩)], 1, by decide⟩]⟩
    s.unknowns = ["x", "z", "y"] ∧ s.augmentedMatrix = .error (.invalidElement 1 0) := by
  intro s
  have hunknowns : s.unknowns = ["x", "z", "y"] := by decide +kernel
  obtain ⟨cell?, htable, -, hinvalid, -⟩ := augmentedMatrix_spec s
  rw [hunknowns] at htable
  refine ⟨hunknowns, (hinvalid 1 0).mpr ⟨⟨⟨1 / 0, 0⟩, ?_, by decide +kernel⟩, ?_⟩⟩
  · exact htable.coefficient 1 0 _ "x" _ rfl rfl (by decide +kernel)
  · intro r c hlt x hx
    obtain rfl : r = 0 := by omega
    have hcell : ∀ {a}, cell? 0 c = some a → x = a := fun ha => Option.some.inj (hx.symm.trans ha)
    rcases c with _ | _ | _ | _ | c
    · rw [hcell (htable.coefficient 0 0 _ "x" 1 rfl rfl List.mem_cons_self)]
      exact Complex.isFinite_one
    · rw [hcell (htable.coefficient 0 1 _ "z" 0 rfl rfl (by decide +kernel))]
      exact Complex.isFinite_zero
    · rw [hcell (htable.missing 0 2 _ "y" rfl rfl (by decide +kernel))]
      exact Complex.isFinite_zero
    · rw [hcell (htable.rhs 0 _ rfl)]
      exact Complex.isFinite_one
    · rw [htable.outside 0 (c + 4) (.inr (by simp))] at hx
      cases hx

end LinearSystem
end LinearEquations
