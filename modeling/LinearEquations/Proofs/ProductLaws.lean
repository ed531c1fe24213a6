import LinearEquations.Proofs.MatrixView

/-! # The laws of sums and products

Over the Gaussian rationals products and sums of rows are those of linear algebra, so the laws of
linear algebra hold of them.  What has to be added is that both sides of a law are refused together:
shapes fit on one side exactly if they fit on the other.  A result is compared with all it carries:
labels, which no product has, and the determinant it remembers. -/

namespace LinearEquations.LabelledMatrix

/-! ### Sums as matrices -/

theorem cellAt?_zipWith {K L M : Type} (f : K → L → M) (rows : List (List K))
    (other : List (List L)) (r c : Nat) :
    cellAt? (List.zipWith (List.zipWith f) rows other) r c =
      (cellAt? rows r c).bind fun x => (cellAt? other r c).map (f x) := by
  simp only [cellAt?, List.getElem?_zipWith]
  cases rows[r]? with
  | none => rfl
  | some row =>
    cases other[r]? with
    | none => simp
    | some row' =>
      simp only [Option.bind_some, List.getElem?_zipWith]
      cases row[c]? <;> cases row'[c]? <;> rfl

variable {p q s : Nat} {a b c r : ComplexMatrix Rat}

theorem plus_eq_ok : a.plus b = .ok r ↔ a.shape = b.shape ∧ r = a.zipWith (· + ·) b :=
  ⟨cellwise_eq_ok, fun h => (if_pos h.1).trans (congrArg _ h.2.symm)⟩

theorem toMatrix_plus (ha : a.WellFormed) (hb : b.WellFormed) (h : a.plus b = .ok r)
    (hp : a.rowCount = p) (hq : a.columnCount = q) :
    toMatrix p q r.rows = toMatrix p q a.rows + toMatrix p q b.rows := by
  obtain ⟨hshape, rfl⟩ := plus_eq_ok.mp h
  obtain ⟨hrows, hcols⟩ := Prod.mk.inj hshape
  refine Matrix.ext fun i j => ?_
  rw [toMatrix_apply, Matrix.add_apply, LabelledMatrix.zipWith, cellAt?_zipWith,
    cellAt?_eq_toMatrix hp (hq ▸ ha.length_row) i j,
    cellAt?_eq_toMatrix (hrows.symm.trans hp) ((hcols.symm.trans hq) ▸ hb.length_row) i j]
  rfl

/-! ### Products of products -/

/-- Whole results are equal if they have the same shape, the same matrix, and remember the same. -/
theorem eq_of_toMatrix_eq {d : ComplexMatrix Rat} (hc : c.WellFormed) (hd : d.WellFormed)
    (hcs : c.shape = (p, q)) (hds : d.shape = (p, q))
    (hrows : toMatrix p q c.rows = toMatrix p q d.rows) (hlabels : c.labels = d.labels)
    (hremembered : c.remembered = d.remembered) : c = d := by
  obtain ⟨hcp, hcq⟩ := Prod.mk.inj hcs
  obtain ⟨hdp, hdq⟩ := Prod.mk.inj hds
  exact LabelledMatrix.ext
    (rows_eq_of_toMatrix_eq hcp hdp (hcq ▸ hc.length_row) (hdq ▸ hd.length_row) hrows)
    hlabels hremembered

/-- What a product of three factors remembers does not depend on the parentheses. -/
theorem remembered_assoc (x y z : Option (Complex Rat)) :
    (do let d ← (do return (← x) * (← y) : Option (Complex Rat)); return d * (← z)) =
      (do let k ← x; let d ← (do return (← y) * (← z) : Option (Complex Rat)); return k * d) := by
  cases x <;> cases y <;> cases z <;> simp [mul_assoc]

/-- The two products of three factors, if there are both. -/
theorem WellFormed.times_times_unique {ab bc x y : ComplexMatrix Rat} (ha : a.WellFormed)
    (hb : b.WellFormed) (hc : c.WellFormed) (hab : a.times b = .ok ab) (hx : ab.times c = .ok x)
    (hbc : b.times c = .ok bc) (hy : a.times bc = .ok y) : x = y := by
  obtain ⟨habwf, habshape⟩ := ha.times hb hab
  obtain ⟨hbcwf, hbcshape⟩ := hb.times hc hbc
  obtain ⟨hxwf, hxshape⟩ := habwf.times hc hx
  obtain ⟨hywf, hyshape⟩ := ha.times hbcwf hy
  obtain ⟨habrows, habcols⟩ := Prod.mk.inj habshape
  obtain ⟨-, hbccols⟩ := Prod.mk.inj hbcshape
  have hinner : b.rowCount = a.columnCount := (times_eq_ok.mp hab).1.symm
  refine eq_of_toMatrix_eq (p := a.rowCount) (q := c.columnCount) hxwf hywf
    (by rw [hxshape, habrows]) (by rw [hyshape, hbccols]) ?_ ?_ ?_
  · rw [toMatrix_times habwf hc hx habrows habcols rfl, toMatrix_times ha hb hab rfl rfl rfl,
      toMatrix_times ha hbcwf hy rfl rfl hbccols, toMatrix_times hb hc hbc hinner rfl rfl,
      Matrix.mul_assoc]
  · rw [(times_eq_ok.mp hx).2, (times_eq_ok.mp hy).2]
  · rw [(times_eq_ok.mp hx).2, (times_eq_ok.mp hy).2, (times_eq_ok.mp hab).2,
      (times_eq_ok.mp hbc).2]
    exact remembered_assoc a.remembered b.remembered c.remembered

/-- **Products are associative**, and refused together. -/
theorem WellFormed.times_assoc (ha : a.WellFormed) (hb : b.WellFormed) (hc : c.WellFormed) :
    (do (← a.times b).times c) = .ok r ↔ (do a.times (← b.times c)) = .ok r := by
  constructor
  · intro h
    obtain ⟨ab, hab, habc⟩ := bind_eq_ok.mp h
    have hcols : b.columnCount = c.rowCount := by
      rw [← (Prod.mk.inj (ha.times hb hab).2).2]
      exact (times_eq_ok.mp habc).1
    have hbc : b.times c = .ok _ := times_eq_ok.mpr ⟨hcols, rfl⟩
    have hrows := (Prod.mk.inj (hb.times hc hbc).2).1
    have hinner : a.columnCount = b.rowCount := (times_eq_ok.mp hab).1
    have hy : a.times _ = .ok _ := times_eq_ok.mpr ⟨hinner.trans hrows.symm, rfl⟩
    exact bind_eq_ok.mpr ⟨_, hbc, ha.times_times_unique hb hc hab habc hbc hy ▸ hy⟩
  · intro h
    obtain ⟨bc, hbc, habc⟩ := bind_eq_ok.mp h
    have hrows : a.columnCount = b.rowCount := by
      rw [← (Prod.mk.inj (hb.times hc hbc).2).1]
      exact (times_eq_ok.mp habc).1
    have hab : a.times b = .ok _ := times_eq_ok.mpr ⟨hrows, rfl⟩
    have hcols := (Prod.mk.inj (ha.times hb hab).2).2
    have hinner : b.columnCount = c.rowCount := (times_eq_ok.mp hbc).1
    have hx : LabelledMatrix.times _ c = .ok _ := times_eq_ok.mpr ⟨hcols.trans hinner, rfl⟩
    exact bind_eq_ok.mpr ⟨_, hab, ha.times_times_unique hb hc hab hx hbc habc ▸ hx⟩

/-- **A product distributes over a sum.** -/
theorem WellFormed.times_plus (ha : a.WellFormed) (hb : b.WellFormed) (hc : c.WellFormed)
    (hshape : b.shape = c.shape) (hinner : a.columnCount = b.rowCount) :
    ∃ r, (do a.times (← b.plus c)) = .ok r ∧ (do (← a.times b).plus (← a.times c)) = .ok r := by
  obtain ⟨hrows, hcols⟩ := Prod.mk.inj hshape
  have hbc : b.plus c = .ok _ := plus_eq_ok.mpr ⟨hshape, rfl⟩
  have hab : a.times b = .ok _ := times_eq_ok.mpr ⟨hinner, rfl⟩
  have hac : a.times c = .ok _ := times_eq_ok.mpr ⟨hinner.trans hrows, rfl⟩
  obtain ⟨hbcwf, hbcshape⟩ := hb.cellwise hc hbc
  obtain ⟨habwf, habshape⟩ := ha.times hb hab
  obtain ⟨hacwf, hacshape⟩ := ha.times hc hac
  obtain ⟨hbcrows, hbccols⟩ := Prod.mk.inj hbcshape
  obtain ⟨habrows, habcols⟩ := Prod.mk.inj habshape
  have hx : a.times _ = .ok _ := times_eq_ok.mpr ⟨hinner.trans hbcrows.symm, rfl⟩
  have hy : LabelledMatrix.plus _ _ = .ok _ :=
    plus_eq_ok.mpr ⟨habshape.trans (by rw [hacshape, hcols]), rfl⟩
  obtain ⟨hxwf, hxshape⟩ := ha.times hbcwf hx
  obtain ⟨hywf, hyshape⟩ := habwf.cellwise hacwf hy
  refine ⟨_, bind_eq_ok.mpr ⟨_, hbc, hx⟩, bind_eq_ok.mpr ⟨_, hab, bind_eq_ok.mpr ⟨_, hac, ?_⟩⟩⟩
  rw [hy]
  refine congrArg Except.ok (eq_of_toMatrix_eq (p := a.rowCount) (q := b.columnCount) hywf hxwf
    (hyshape.trans habshape) (by rw [hxshape, hbccols]) ?_ rfl ?_)
  · rw [toMatrix_plus habwf hacwf hy habrows habcols, toMatrix_times ha hb hab rfl rfl rfl,
      toMatrix_times ha hc hac rfl rfl hcols.symm, toMatrix_times ha hbcwf hx rfl rfl hbccols,
      toMatrix_plus hb hc hbc hinner.symm rfl, Matrix.mul_add]
  · cases a.remembered <;> rfl

/-! ### Identities -/

theorem WellFormed.withoutLabels (ha : a.WellFormed) :
    ({ a with labels := none } : ComplexMatrix Rat).WellFormed :=
  ⟨ha.rowCount_pos, ha.columnCount_pos, ha.length_row, nofun, ha.square_of_remembered⟩

/-- **An identity on the right changes nothing but that the labels are lost.** -/
theorem WellFormed.times_identity (ha : a.WellFormed) :
    (do a.times (← LabelledMatrix.identity a.columnCount)) = .ok { a with labels := none } := by
  have hone : (LabelledMatrix.identity a.columnCount : Except (MatrixError Rat) _) = .ok _ :=
    if_neg ha.columnCount_pos.ne'
  obtain ⟨honewf, honeshape⟩ := WellFormed.identity hone
  obtain ⟨honerows, honecols⟩ := Prod.mk.inj honeshape
  have hr : a.times _ = .ok _ := times_eq_ok.mpr ⟨honerows.symm, rfl⟩
  obtain ⟨hrwf, hrshape⟩ := ha.times honewf hr
  refine bind_eq_ok.mpr ⟨_, hone, hr.trans (congrArg Except.ok ?_)⟩
  refine eq_of_toMatrix_eq (p := a.rowCount) (q := a.columnCount) hrwf
    ha.withoutLabels (by rw [hrshape, honecols]) rfl ?_ rfl ?_
  · rw [toMatrix_times ha honewf hr rfl rfl honecols, toMatrix_identity, Matrix.mul_one]
  · cases a.remembered <;> simp

/-- **An identity on the left changes nothing but that the labels are lost.** -/
theorem WellFormed.identity_times (ha : a.WellFormed) :
    (do (← LabelledMatrix.identity a.rowCount).times a) = .ok { a with labels := none } := by
  have hone : (LabelledMatrix.identity a.rowCount : Except (MatrixError Rat) _) = .ok _ :=
    if_neg ha.rowCount_pos.ne'
  obtain ⟨honewf, honeshape⟩ := WellFormed.identity hone
  obtain ⟨honerows, honecols⟩ := Prod.mk.inj honeshape
  have hr : LabelledMatrix.times _ a = .ok _ := times_eq_ok.mpr ⟨honecols, rfl⟩
  obtain ⟨hrwf, hrshape⟩ := honewf.times ha hr
  refine bind_eq_ok.mpr ⟨_, hone, hr.trans (congrArg Except.ok ?_)⟩
  refine eq_of_toMatrix_eq (p := a.rowCount) (q := a.columnCount) hrwf
    ha.withoutLabels (by rw [hrshape, honerows]) rfl ?_ rfl ?_
  · rw [toMatrix_times honewf ha hr honerows honecols rfl, toMatrix_identity, Matrix.one_mul]
  · cases a.remembered <;> simp

/-! ### All laws -/

/-- **The laws of products.**  A product of three factors does not depend on the parentheses, a
product distributes over a sum, and identities give the other factor back. -/
theorem WellFormed.product_laws (ha : a.WellFormed) (hb : b.WellFormed) (hc : c.WellFormed) :
    (∀ r, (do (← a.times b).times c) = .ok r ↔ (do a.times (← b.times c)) = .ok r) ∧
    (b.shape = c.shape → a.columnCount = b.rowCount → ∃ r,
      (do a.times (← b.plus c)) = .ok r ∧ (do (← a.times b).plus (← a.times c)) = .ok r) ∧
    (do a.times (← LabelledMatrix.identity a.columnCount)) = .ok { a with labels := none } ∧
    (do (← LabelledMatrix.identity a.rowCount).times a) = .ok { a with labels := none } :=
  ⟨fun _ => ha.times_assoc hb hc, ha.times_plus hb hc, ha.times_identity, ha.identity_times⟩

/-- A single row with labels and two square matrices. -/
theorem product_laws_of_single_row :
    let a : ComplexMatrix Rat := { rows := [[⟨1, 2⟩, ⟨0, 1⟩]], labels := some ["x", "y"] }
    let b : ComplexMatrix Rat := { rows := [[⟨1, 0⟩, ⟨0, 2⟩], [⟨3, 0⟩, ⟨4, 0⟩]] }
    let c : ComplexMatrix Rat := { rows := [[⟨0, 1⟩, ⟨5, 0⟩], [⟨1, 1⟩, ⟨0, 0⟩]] }
    a.WellFormed ∧ b.WellFormed ∧ c.WellFormed ∧
      (∃ r, (do (← a.times b).times c) = .ok r ∧ (do a.times (← b.times c)) = .ok r) ∧
      (∃ r, (do a.times (← b.plus c)) = .ok r ∧ (do (← a.times b).plus (← a.times c)) = .ok r) ∧
      (do a.times (← identity 2)) = .ok { a with labels := none } ∧
      (do (← identity 1).times a) = .ok { a with labels := none } := by
  intro a b c
  have ha : a.WellFormed := by decide
  have hb : b.WellFormed := by decide
  have hc : c.WellFormed := by decide
  obtain ⟨hassoc, hplus, hright, hleft⟩ := WellFormed.product_laws ha hb hc
  have hproduct : ∃ r, (do (← a.times b).times c) = .ok r := ⟨_, rfl⟩
  obtain ⟨r, hr⟩ := hproduct
  exact ⟨ha, hb, hc, ⟨r, hr, (hassoc r).mp hr⟩, hplus rfl rfl, hright, hleft⟩

end LinearEquations.LabelledMatrix
