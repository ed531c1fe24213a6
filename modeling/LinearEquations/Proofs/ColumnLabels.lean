import LinearEquations.Proofs.Mentions

/-! # Labels that identify columns

A column of the augmented matrix is found by its label.  The names of the unknowns are collected
without repetition, so each of them labels one column: upper case is folded when a text is read, an
equation has each unknown once, and going through all equations keeps each name where it is first
mentioned.

The label of the last column is put behind these names without being compared with them.  It is a
word like any other, and a text may mention it.  So the labels are distinct exactly if no text does
(`LabelsIdentify.nodup_iff`), and otherwise the reserved label has two columns, the first of which
holds coefficients. -/

namespace LinearEquations
open Grammar LabelledMatrix

/-! ### Places of distinct elements -/

section Places
variable {A : Type} {l : List A} {x y : A}

theorem existsUnique_getElem? (h : l.Nodup) (hx : x ∈ l) : ∃! c : Nat, l[c]? = some x := by
  obtain ⟨c, hc⟩ := List.mem_iff_getElem?.mp hx
  obtain ⟨hlt, -⟩ := List.getElem?_eq_some_iff.mp hc
  exact ⟨c, hc, fun d hd => ((List.getElem?_inj hlt h).mp (hc.trans hd.symm)).symm⟩

/-- An element behind a list has the places of no other element. -/
theorem getElem?_append_singleton_of_ne (hne : x ≠ y) (c : Nat) :
    (l ++ [y])[c]? = some x ↔ l[c]? = some x := by
  rw [List.getElem?_append]
  split
  · rfl
  · rename_i hc
    rw [List.getElem?_eq_none (Nat.le_of_not_lt hc)]
    refine iff_of_false (fun h => hne ?_) nofun
    exact List.mem_singleton.mp (List.mem_of_getElem? h)

theorem nodup_append_singleton_iff (h : l.Nodup) : (l ++ [y]).Nodup ↔ y ∉ l := by
  rw [← List.concat_eq_append, List.nodup_concat]
  exact and_iff_left h

/-- The last element has one place exactly if it is new. -/
theorem existsUnique_append_singleton_iff (h : l.Nodup) :
    (∃! c : Nat, (l ++ [y])[c]? = some y) ↔ y ∉ l := by
  refine ⟨fun ⟨c, _, hunique⟩ hmem => ?_, fun hnew => ?_⟩
  · -- a place in the list and the place behind it would be the same
    obtain ⟨d, hd⟩ := List.mem_iff_getElem?.mp hmem
    obtain ⟨hlt, -⟩ := List.getElem?_eq_some_iff.mp hd
    have hd' : d = c := hunique d ((List.getElem?_append_left hlt).trans hd)
    have hlast : l.length = c := hunique l.length List.getElem?_concat_length
    omega
  · exact existsUnique_getElem? ((nodup_append_singleton_iff h).mpr hnew)
      (List.mem_append_right l List.mem_cons_self)

/-- What is looked up behind the list is found there exactly if it is new. -/
theorem idxOf_append_singleton_iff [BEq A] [LawfulBEq A] :
    (l ++ [y]).idxOf y = l.length ↔ y ∉ l := by
  refine ⟨fun h hmem => ?_, fun hnew => ?_⟩
  · rw [List.idxOf_append_of_mem hmem] at h
    exact absurd (List.idxOf_lt_length_of_mem hmem) (Nat.not_lt_of_le h.ge)
  · rw [List.idxOf_append_of_notMem hnew, List.idxOf_cons_self, Nat.add_zero]

end Places

theorem IsFirstMentionOrder.nodup {mentions names : List String}
    (h : IsFirstMentionOrder mentions names) : names.Nodup :=
  h.ordered.imp fun {x y} hlt heq => by
    subst heq
    exact Nat.lt_irrefl _ hlt

/-! ### The names of a text -/

variable {R : Type} [Scalar R] {texts : List String} {equations : List (Equation R)}

/-- The text is an equation with a term in this unknown, written in lower or upper case. -/
def Mentions (R : Type) [Scalar R] (text name : String) : Prop :=
  ∃ (terms : List (String × Complex R)) (rhs : Complex R),
    IsEquation text.toList terms rhs ∧ name ∈ terms.map Prod.fst

/-- A later term in the same unknown replaces the coefficient but not the unknown. -/
theorem Equation.mem_unknowns_iff {text : String} {e : Equation R}
    (h : Equation.parse text = .ok e) (x : String) : x ∈ e.unknowns ↔ Mentions R text x := by
  have hrecords : ∀ (terms : List (String × Complex R)) (rhs : Complex R),
      x ∈ (((empty 0).setAll terms).withRhs rhs).unknowns ↔ x ∈ terms.map Prod.fst :=
    fun terms rhs => (((records_empty 0).setAll terms).withRhs rhs).order.mem_iff x
  constructor
  · intro hx
    obtain ⟨terms, rhs, hequation, rfl⟩ := exists_isEquation_of_parse h
    exact ⟨terms, rhs, hequation, (hrecords terms rhs).mp hx⟩
  · rintro ⟨terms, rhs, hequation, hx⟩
    obtain rfl := Except.ok.inj ((parse_of_isEquation hequation).symm.trans h)
    exact (hrecords terms rhs).mpr hx

/-- The unknowns of a system are the names that its texts mention. -/
theorem AreRead.mem_unknowns_iff (h : AreRead texts equations) (x : String) :
    x ∈ LinearSystem.unknowns ⟨equations⟩ ↔ ∃ text ∈ texts, Mentions R text x := by
  rw [LinearSystem.unknowns, List.mem_eraseDups, List.mem_flatMap]
  induction h with
  | nil => simp
  | cons hparse _ ih => simp [Equation.mem_unknowns_iff hparse, ih]

/-! ### The labels of the augmented matrix -/

/-- What the labels are that belong to some texts, and which of them identify a column. -/
structure LabelsIdentify (R : Type) [Scalar R] (texts labels : List String) : Prop where
  mem_iff : ∀ x ≠ rhsLabel, x ∈ labels ↔ ∃ text ∈ texts, Mentions R text x
  last_eq : labels.getLast? = some rhsLabel
  existsUnique : ∀ x ∈ labels, x ≠ rhsLabel → ∃! c : Nat, labels[c]? = some x
  existsUnique_rhs_iff :
    (∃! c : Nat, labels[c]? = some rhsLabel) ↔ ∀ text ∈ texts, ¬Mentions R text rhsLabel
  idxOf_rhs_iff :
    labels.idxOf rhsLabel + 1 = labels.length ↔ ∀ text ∈ texts, ¬Mentions R text rhsLabel
  nodup_iff : labels.Nodup ↔ ∀ text ∈ texts, ¬Mentions R text rhsLabel

theorem AreRead.labelsIdentify (h : AreRead texts equations) :
    LabelsIdentify R texts (LinearSystem.labels ⟨equations⟩) := by
  have hnodup : (LinearSystem.unknowns ⟨equations⟩).Nodup :=
    (isFirstMentionOrder_eraseDups _).nodup
  have hnew : rhsLabel ∉ LinearSystem.unknowns ⟨equations⟩ ↔
      ∀ text ∈ texts, ¬Mentions R text rhsLabel := by
    simp [h.mem_unknowns_iff]
  have hmem : ∀ x ≠ rhsLabel, x ∈ LinearSystem.labels ⟨equations⟩ ↔
      x ∈ LinearSystem.unknowns ⟨equations⟩ := fun x hne => by
    simp [LinearSystem.labels, hne]
  have hlast : (LinearSystem.labels ⟨equations⟩).idxOf rhsLabel + 1 =
      (LinearSystem.labels ⟨equations⟩).length ↔
      (LinearSystem.labels ⟨equations⟩).idxOf rhsLabel =
        (LinearSystem.unknowns ⟨equations⟩).length := by
    simp [LinearSystem.labels]
  refine ⟨fun x hne => (hmem x hne).trans (h.mem_unknowns_iff x), List.getLast?_concat,
    fun x hx hne => ?_, (existsUnique_append_singleton_iff hnodup).trans hnew,
    hlast.trans (idxOf_append_singleton_iff.trans hnew),
    (nodup_append_singleton_iff hnodup).trans hnew⟩
  simp only [LinearSystem.labels, getElem?_append_singleton_of_ne hne]
  exact existsUnique_getElem? hnodup ((hmem x hne).mp hx)

namespace LinearSystem

/-- **Texts that are read have an augmented matrix, and its labels identify columns** up to the
reserved label: that one does exactly if no text mentions it. -/
theorem augmentedMatrix_labelsIdentify [FiniteReading R] (hread : AreRead texts equations)
    (hne : texts ≠ []) : ∃ m labels, augmentedMatrix ⟨equations⟩ = .ok m ∧
      m.labels = some labels ∧ labels.length = m.columnCount ∧ LabelsIdentify R texts labels ∧
      FlatMatrix.augmentedMatrix ⟨equations⟩ = .ok m.flat := by
  have hne' : equations ≠ [] := by
    rintro rfl
    exact hne (List.forall₂_nil_right_iff.mp hread)
  obtain ⟨m, hm, hwf, -, hlabels⟩ :=
    exists_augmentedMatrix (s := ⟨equations⟩) hread.isFinite hne'
  refine ⟨m, _, hm, hlabels, hwf.length_labels _ hlabels, hread.labelsIdentify, ?_⟩
  rw [FlatMatrix.augmentedMatrix_flat, hm]
  rfl

/-- The first text mentions `x` twice and the second one in upper case: it still has one column. -/
theorem augmentedMatrix_labelsIdentify_of_two_texts :
    ∃ (e e' : Equation Float) (m : ComplexMatrix Float),
      AreRead ["x + y - x = 3", "X - z = 1"] [e, e'] ∧ augmentedMatrix ⟨[e, e']⟩ = .ok m ∧
      m.labels = some ["x", "y", "z", "rhs"] ∧
      LabelsIdentify Float ["x + y - x = 3", "X - z = 1"] ["x", "y", "z", "rhs"] := by
  obtain ⟨e, he⟩ : ∃ e : Equation Float, Equation.parse "x + y - x = 3" = .ok e :=
    exists_eq_ok (by decide +kernel)
  obtain ⟨e', he'⟩ : ∃ e : Equation Float, Equation.parse "X - z = 1" = .ok e :=
    exists_eq_ok (by decide +kernel)
  have hread : AreRead ["x + y - x = 3", "X - z = 1"] [e, e'] := .cons he (.cons he' .nil)
  have hshown : LinearSystem.labels ⟨[e, e']⟩ = ["x", "y", "z", "rhs"] := by
    have hlabels : (((LinearSystem.parse ["x + y - x = 3", "X - z = 1"] :
        Except (SolveError Float) (LinearSystem Float)).toOption.map LinearSystem.labels) =
          some ["x", "y", "z", "rhs"]) := by
      decide +kernel
    rw [LinearSystem.parse, hread.parseFrom_eq 0] at hlabels
    exact Option.some.inj hlabels
  obtain ⟨m, labels, hm, hlabels, -, hidentify, -⟩ :=
    augmentedMatrix_labelsIdentify hread (List.cons_ne_nil _ _)
  obtain rfl : labels = ["x", "y", "z", "rhs"] := by
    rw [(isAugmented_of_augmentedMatrix hm).labels_eq] at hlabels
    exact (Option.some.inj hlabels).symm.trans hshown
  exact ⟨e, e', m, hread, hm, hlabels, hidentify⟩

/-- The first column with the reserved label is that of an unknown. -/
theorem exists_augmentedMatrix_labels_repeat :
    ∃ (e : Equation Float) (m : ComplexMatrix Float), AreRead ["x + rhs = 3"] [e] ∧
      augmentedMatrix ⟨[e]⟩ = .ok m ∧ m.labels = some ["x", "rhs", "rhs"] ∧
      ¬["x", "rhs", "rhs"].Nodup ∧ (["x", "rhs", "rhs"].idxOf? rhsLabel = some 1) ∧
      (m.rows.map (List.map Complex.text)) = [["1", "1", "3"]] := by
  obtain ⟨e, he⟩ : ∃ e : Equation Float, Equation.parse "x + rhs = 3" = .ok e :=
    exists_eq_ok (by decide +kernel)
  have hread : AreRead ["x + rhs = 3"] [e] := .cons he .nil
  have hshown : ((LinearSystem.parse ["x + rhs = 3"] :
      Except (SolveError Float) (LinearSystem Float)).toOption.bind fun s =>
        s.augmentedMatrix.toOption.map fun m =>
          (m.labels, m.rows.map (List.map Complex.text))) =
      some (some ["x", "rhs", "rhs"], [["1", "1", "3"]]) := by
    decide +kernel
  obtain ⟨m, hm, -⟩ := exists_augmentedMatrix (s := ⟨[e]⟩) hread.isFinite (List.cons_ne_nil _ _)
  rw [LinearSystem.parse, hread.parseFrom_eq 0] at hshown
  change Option.map _ (augmentedMatrix ⟨[e]⟩).toOption = _ at hshown
  rw [hm] at hshown
  obtain ⟨hlabels, hrows⟩ := Prod.mk.inj (Option.some.inj hshown)
  exact ⟨e, m, hread, hm, hlabels, by decide, by decide, hrows⟩

end LinearSystem
end LinearEquations
