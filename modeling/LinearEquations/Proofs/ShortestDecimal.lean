import LinearEquations.Proofs.NegligibleCells

/-! # The shortest decimal of a double

What `BinaryFraction.shortest` finds: a decimal that is read as the fraction
(`contains_shortest`), with as few digits as any that is (`length_figures_shortest_le`).  How many
places it has after the point is decided by a grid: it has at most `p` of them if and only if some
multiple of `10 ^ -p` is read as the fraction (`exponent_shortest_iff`).

All of it rests on one observation.  The numbers that are read as a fraction lie on both sides of it
without gaps, so that a grid meets them only if it does so in one of the two neighbours of the
fraction (`withDigits?_ne_none_of_contains`), and these are what the search looks at.  With
seventeen digits the grid is fine enough for one of them to be near enough (`exists_contains`). -/

namespace LinearEquations.BinaryFraction
open Decimal
variable {b : BinaryFraction} {x y z : Rat} {n i k : Nat}

/-! ### What is read as a fraction -/

theorem Interval.contains_iff {i : Interval} : i.contains x ↔
    i.lower < x ∧ x < i.upper ∨ i.closed = true ∧ (x = i.lower ∨ x = i.upper) := by
  simp [Interval.contains]

theorem Interval.bounds_of_contains {i : Interval} (hi : i.lower < i.upper) (h : i.contains x) :
    i.lower ≤ x ∧ x ≤ i.upper := by
  rcases contains_iff.mp h with ⟨hlow, hhigh⟩ | ⟨-, rfl | rfl⟩
  · exact ⟨hlow.le, hhigh.le⟩
  · exact ⟨le_rfl, hi.le⟩
  · exact ⟨hi.le, le_rfl⟩

/-- What lies between two numbers of an interval belongs to it. -/
theorem Interval.contains_of_between {i : Interval} (hi : i.lower < i.upper) (hx : i.contains x)
    (hy : i.contains y) (hxz : x ≤ z) (hzy : z ≤ y) : i.contains z := by
  rcases hxz.eq_or_lt with rfl | hxz
  · exact hx
  rcases hzy.eq_or_lt with rfl | hzy
  · exact hy
  exact contains_iff.mpr (.inl ⟨(bounds_of_contains hi hx).1.trans_lt hxz,
    hzy.trans_le (bounds_of_contains hi hy).2⟩)

/-- The interval reaches at least a quarter of the last bit below the fraction, and half of it
unless the significand is a power of two. -/
theorem exists_gap (b : BinaryFraction) : ∃ gap, b.readInterval.lower = b.magnitude - gap ∧
    2 ^ b.exponent / 4 ≤ gap ∧ gap ≤ 2 ^ b.exponent / 2 ∧
    (b.significand ≠ 2 ^ 52 → gap = 2 ^ b.exponent / 2) := by
  have hunit := two_zpow_pos b.exponent
  refine ⟨_, rfl, ?_, ?_, fun hne => if_neg fun h =>
    hne (of_decide_eq_true (Bool.and_eq_true_iff.mp h).1)⟩ <;> split <;> linarith

theorem upper_eq (b : BinaryFraction) :
    b.readInterval.upper = b.magnitude + 2 ^ b.exponent / 2 := rfl

/-- A fraction is read as itself. -/
theorem contains_magnitude (b : BinaryFraction) : b.readInterval.contains b.magnitude := by
  have hunit := two_zpow_pos b.exponent
  obtain ⟨gap, hlower, hgap, -, -⟩ := b.exists_gap
  refine Interval.contains_iff.mpr (.inl ⟨?_, ?_⟩)
  · rw [hlower]
    linarith
  · rw [upper_eq]
    linarith

/-- What is read as a fraction is at most half of its last bit away from it. -/
theorem abs_sub_le_of_contains (h : b.readInterval.contains x) :
    |x - b.magnitude| ≤ 2 ^ b.exponent / 2 := by
  obtain ⟨gap, hlower, -, hgap, -⟩ := b.exists_gap
  obtain ⟨hlow, hhigh⟩ := Interval.bounds_of_contains b.lower_lt_upper h
  rw [hlower] at hlow
  rw [upper_eq] at hhigh
  exact abs_le.mpr ⟨by linarith, by linarith⟩

/-! ### Neighbours on a grid -/

/-- The number of grid points up to the fraction. -/
theorem exists_neighbours (b : BinaryFraction) (n : Nat) :
    ∃ low : Nat, low = (b.magnitude / lastPlace b.magnitude n).floor.toNat ∧
      low * lastPlace b.magnitude n ≤ b.magnitude ∧
      b.magnitude < (low + 1) * lastPlace b.magnitude n := by
  have hplace : 0 < lastPlace b.magnitude n := ten_zpow_pos _
  have hnonneg : 0 ≤ b.magnitude / lastPlace b.magnitude n :=
    div_nonneg b.magnitude_nonneg hplace.le
  have hfloor : 0 ≤ (b.magnitude / lastPlace b.magnitude n).floor := Rat.le_floor_iff.mpr hnonneg
  have hcast : (((b.magnitude / lastPlace b.magnitude n).floor.toNat : Nat) : Rat) =
      (b.magnitude / lastPlace b.magnitude n).floor := by
    rw [← Int.cast_natCast, Int.toNat_of_nonneg hfloor]
  refine ⟨_, rfl, ?_, ?_⟩
  · rw [hcast, ← le_div_iff₀ hplace]
    exact Rat.floor_le _
  · rw [hcast, ← div_lt_iff₀ hplace]
    exact_mod_cast Rat.lt_floor_add_one _

/-- **A point of the grid that is read as the fraction leads to a candidate.** -/
theorem withDigits?_ne_none_of_contains
    (h : b.readInterval.contains (k * lastPlace b.magnitude n)) : b.withDigits? n ≠ none := by
  obtain ⟨low, hlow, hbelow, habove⟩ := b.exists_neighbours n
  have hplace : 0 < lastPlace b.magnitude n := ten_zpow_pos _
  have hreads : b.readInterval.contains (low * lastPlace b.magnitude n) ∨
      b.readInterval.contains ((low + 1) * lastPlace b.magnitude n) := by
    have hself := b.contains_magnitude
    rcases Nat.lt_or_ge low k with hk | hk
    · refine .inr (Interval.contains_of_between b.lower_lt_upper hself h habove.le ?_)
      exact mul_le_mul_of_nonneg_right (by exact_mod_cast hk) hplace.le
    · refine .inl (Interval.contains_of_between b.lower_lt_upper h hself ?_ hbelow)
      exact mul_le_mul_of_nonneg_right (by exact_mod_cast hk) hplace.le
  unfold lastPlace at hlow hreads
  unfold withDigits?
  simp only [← hlow]
  split
  · exact nofun
  · rename_i hnot
    split
    · exact nofun
    · rename_i hbelow
      rcases hreads with hreads | hreads
      · exact absurd hreads hbelow
      · exact absurd (by simp [hreads, hbelow]) hnot

/-- The grid of `n` digits, and how many points it has below the fraction. -/
theorem spec_of_withDigits? {d : Decimal} (hpos : 0 < b.magnitude) (hn : 0 < n)
    (h : b.withDigits? n = some d) :
    b.readInterval.contains d.magnitude ∧ d.exponent = exponentOf b.magnitude - n + 1 ∧
      d.digits ≤ 10 ^ n := by
  refine ⟨(withDigits?_spec h).2, ?_⟩
  obtain ⟨low, hlow, hbelow, -⟩ := b.exists_neighbours n
  have hlt : low < 10 ^ n := by
    have hplace : 0 < lastPlace b.magnitude n := ten_zpow_pos _
    have hlow : (low : Rat) < (10 ^ n : Nat) :=
      ((le_div_iff₀ hplace).mpr hbelow).trans_lt (between_lastPlace hpos hn).2
    exact_mod_cast hlow
  unfold lastPlace at hlow
  unfold withDigits? at h
  simp only [← hlow] at h
  split at h
  · cases h
    exact ⟨rfl, hlt⟩
  · split at h
    · cases h
      exact ⟨rfl, hlt.le⟩
    · cases h

/-- **Seventeen digits are enough**: their grid is finer than the interval. -/
theorem IsCanonical.exists_contains (hb : b.IsCanonical) (hpos : 0 < b.magnitude) :
    ∃ k : Nat, b.readInterval.contains (k * lastPlace b.magnitude enoughDigits) := by
  obtain ⟨low, -, hbelow, habove⟩ := b.exists_neighbours enoughDigits
  obtain ⟨gap, hlower, hgap, -, hhalf⟩ := b.exists_gap
  have hunit := two_zpow_pos b.exponent
  have hplace : 10 ^ 16 * lastPlace b.magnitude enoughDigits ≤ b.magnitude := by
    have hdigits := (between_lastPlace hpos (p := enoughDigits) (by decide)).1
    exact_mod_cast (le_div_iff₀ (ten_zpow_pos _)).mp hdigits
  have hmagnitude : b.magnitude = b.significand * 2 ^ b.exponent := rfl
  have hreads : ∀ {y}, b.readInterval.lower < y → y < b.readInterval.upper →
      b.readInterval.contains y := fun hlow hhigh => Interval.contains_iff.mpr (.inl ⟨hlow, hhigh⟩)
  rw [hlower, upper_eq] at hreads
  generalize lastPlace b.magnitude enoughDigits = u at *
  by_cases hleast : b.significand = 2 ^ 52
  · -- below a power of two the interval is shorter, but then the grid is finer, too
    rw [hleast] at hmagnitude
    push_cast at hmagnitude
    exact ⟨low + 1, hreads (by push_cast; linarith) (by push_cast; linarith)⟩
  · have hlt : (b.significand : Rat) ≤ 2 ^ 53 := by exact_mod_cast hb.lt.le
    have hscaled : b.magnitude ≤ 2 ^ 53 * 2 ^ b.exponent :=
      hmagnitude ▸ mul_le_mul_of_nonneg_right hlt hunit.le
    rw [hhalf hleast] at hreads
    rcases le_total (b.magnitude - low * u) ((low + 1) * u - b.magnitude) with hle | hle
    · exact ⟨low, hreads (by linarith) (by linarith)⟩
    · exact ⟨low + 1, hreads (by push_cast; linarith) (by push_cast; linarith)⟩

/-! ### The search -/

theorem exists_found_of_lt (hpos : 0 < b.magnitude) (hi : i < enoughDigits)
    (h : b.readInterval.contains (k * lastPlace b.magnitude (i + 1))) :
    ∃ j ≤ i, ∃ d, b.withDigits? (j + 1) = some d ∧ b.shortest = d.trimmed := by
  obtain ⟨j, hj, d, hd, hfind⟩ := exists_findSome?_range
    (f := fun n => b.withDigits? (n + 1)) hi (withDigits?_ne_none_of_contains h)
  refine ⟨j, hj, d, hd, ?_⟩
  have hsignificand : b.significand ≠ 0 := by
    intro hzero
    rw [BinaryFraction.magnitude, hzero, Nat.cast_zero, zero_mul] at hpos
    exact hpos.false
  rw [shortest, if_neg hsignificand]
  simp only [hfind, Option.getD_some]

/-- **A point of a grid that is read as the fraction ends the search.** -/
theorem IsCanonical.exists_found (hb : b.IsCanonical) (hpos : 0 < b.magnitude)
    (h : b.readInterval.contains (k * lastPlace b.magnitude (i + 1))) :
    ∃ j ≤ i, ∃ d, b.withDigits? (j + 1) = some d ∧ b.shortest = d.trimmed := by
  rcases Nat.lt_or_ge i enoughDigits with hfew | hmany
  · exact exists_found_of_lt hpos hfew h
  · obtain ⟨k, hk⟩ := hb.exists_contains hpos
    obtain ⟨j, hj, hfound⟩ := exists_found_of_lt hpos (i := 16) (by decide) hk
    exact ⟨j, hj.trans (Nat.le_of_lt hmany), hfound⟩

/-- **The shortest decimal is read as the fraction.** -/
theorem IsCanonical.contains_shortest (hb : b.IsCanonical) (hpos : 0 < b.magnitude) :
    b.readInterval.contains b.shortest.magnitude := by
  obtain ⟨k, hk⟩ := hb.exists_contains hpos
  obtain ⟨j, -, d, hd, hshortest⟩ := hb.exists_found hpos (i := 16) hk
  rw [hshortest, magnitude_trimmed]
  exact (withDigits?_spec hd).2

/-! ### How short it is -/

/-- A power of ten loses its zeros, so that it has no more digits than the numbers below it. -/
theorem length_figures_trimmed {d : Decimal} (h : d.digits ≤ 10 ^ n) (hn : 0 < n) :
    (figures d.trimmed.digits).length ≤ n := by
  rw [length_figures_le_iff hn]
  unfold trimmed
  split
  · exact Nat.pow_pos (by decide)
  · rename_i hzero
    have hpower : 10 ^ n = 10 ^ (n - 1) * 10 := by
      rw [← Nat.pow_succ, Nat.succ_eq_add_one, Nat.sub_add_cancel hn]
    rcases h.eq_or_lt with heq | hlt
    · obtain ⟨fuel, hfuel⟩ : ∃ fuel, (figures d.digits).length = fuel + 1 :=
        ⟨_, (Nat.sub_add_cancel (length_figures_pos d.digits)).symm⟩
      rw [hfuel, dropZeros, if_pos (by omega)]
      obtain ⟨k, -, hdigits⟩ := dropZeros_spec fuel (d.digits / 10) (d.exponent + 1)
      have := Nat.le_mul_of_pos_right (dropZeros fuel (d.digits / 10) (d.exponent + 1)).1
        (Nat.pow_pos (n := k) (show 0 < 10 by decide))
      have : 0 < 10 ^ (n - 1) := Nat.pow_pos (by decide)
      simp only
      omega
    · obtain ⟨k, -, hdigits⟩ := dropZeros_spec (figures d.digits).length d.digits d.exponent
      have := Nat.le_mul_of_pos_right
        (dropZeros (figures d.digits).length d.digits d.exponent).1
        (Nat.pow_pos (n := k) (show 0 < 10 by decide))
      simp only
      omega

theorem le_exponent_trimmed {d : Decimal} {e : Int} (h : e ≤ d.exponent) (he : e ≤ 0) :
    e ≤ d.trimmed.exponent := by
  unfold trimmed
  split
  · exact he
  · obtain ⟨k, hexponent, -⟩ := dropZeros_spec (figures d.digits).length d.digits d.exponent
    simp only
    omega

/-- A decimal that is read as the fraction leads to a point of the grid with as many digits. -/
theorem exists_contains_of_digits (hpos : 0 < b.magnitude) {d : Decimal}
    (h : b.readInterval.contains d.magnitude) : ∃ k : Nat,
      b.readInterval.contains (k * lastPlace b.magnitude (figures d.digits).length) := by
  have hlen := length_figures_pos d.digits
  rcases lt_or_ge d.leadingExponent (exponentOf b.magnitude) with hlead | hlead
  · -- the power of ten below the fraction lies between the two
    have hpower : ((10 ^ ((figures d.digits).length - 1) : Nat) : Rat) *
        lastPlace b.magnitude (figures d.digits).length = 10 ^ exponentOf b.magnitude := by
      rw [Nat.cast_pow, Nat.cast_ofNat, lastPlace, ← zpow_natCast, ← zpow_add₀ (by decide)]
      congr 1
      omega
    refine ⟨10 ^ ((figures d.digits).length - 1), ?_⟩
    rw [hpower]
    exact Interval.contains_of_between b.lower_lt_upper h b.contains_magnitude
      (magnitude_lt_of_leadingExponent hlead).le (exponentOf_le hpos)
  · obtain ⟨j, hj⟩ : ∃ j : Nat, d.exponent =
        j + (exponentOf b.magnitude - (figures d.digits).length + 1) := by
      unfold leadingExponent at hlead
      exact ⟨(d.exponent - (exponentOf b.magnitude - (figures d.digits).length + 1)).toNat,
        by omega⟩
    refine ⟨d.digits * 10 ^ j, ?_⟩
    rw [Decimal.magnitude, hj, zpow_add₀ (by decide), zpow_natCast, ← mul_assoc] at h
    rw [Nat.cast_mul, Nat.cast_pow, Nat.cast_ofNat]
    exact h

/-- **No decimal with fewer digits is read as the fraction.** -/
theorem IsCanonical.length_figures_shortest_le (hb : b.IsCanonical) (hpos : 0 < b.magnitude)
    {d : Decimal} (h : b.readInterval.contains d.magnitude) :
    (figures b.shortest.digits).length ≤ (figures d.digits).length := by
  have hlen := Nat.sub_add_cancel (length_figures_pos d.digits)
  obtain ⟨k, hk⟩ := exists_contains_of_digits hpos h
  rw [← hlen] at hk
  obtain ⟨j, hj, d', hd', hshortest⟩ := hb.exists_found hpos hk
  have hshort := length_figures_trimmed (spec_of_withDigits? hpos (Nat.succ_pos j) hd').2.2
    (Nat.succ_pos j)
  rw [hshortest]
  omega

/-- A shortest decimal with at most `p` places is a multiple of `10 ^ -p`. -/
theorem IsCanonical.exists_contains_of_exponent (hb : b.IsCanonical) (hpos : 0 < b.magnitude)
    {p : Nat} (h : -p ≤ b.shortest.exponent) :
    ∃ k : Nat, b.readInterval.contains (k / 10 ^ p) := by
  obtain ⟨j, hj⟩ : ∃ j : Nat, b.shortest.exponent = j + -p :=
    ⟨(b.shortest.exponent + p).toNat, by omega⟩
  have hreads := hb.contains_shortest hpos
  rw [Decimal.magnitude, hj, zpow_add₀ (by decide), zpow_natCast, zpow_neg, zpow_natCast,
    ← div_eq_mul_inv, ← mul_div_assoc] at hreads
  refine ⟨b.shortest.digits * 10 ^ j, ?_⟩
  rw [Nat.cast_mul, Nat.cast_pow, Nat.cast_ofNat]
  exact hreads

/-- **How many places the shortest decimal has**: at most `p` if and only if some multiple of
`10 ^ -p` is read as the fraction. -/
theorem IsCanonical.exponent_shortest_iff (hb : b.IsCanonical) {p : Nat}
    (hlow : (10 : Rat) ^ (-p : Int) ≤ b.magnitude) :
    -p ≤ b.shortest.exponent ↔ ∃ k : Nat, b.readInterval.contains (k / 10 ^ p) := by
  have hpos : 0 < b.magnitude := (ten_zpow_pos _).trans_le hlow
  have hleading : -(p : Int) < exponentOf b.magnitude + 1 :=
    (zpow_lt_zpow_iff_right₀ (by norm_num)).mp (hlow.trans_lt (lt_exponentOf hpos))
  refine ⟨hb.exists_contains_of_exponent hpos, ?_⟩
  rintro ⟨k, hk⟩
  -- the grid of as many digits as the fraction has down to the last of `p` places
  obtain ⟨i, hi⟩ : ∃ i : Nat, exponentOf b.magnitude - (i + 1 : Nat) + 1 = -p :=
    ⟨(exponentOf b.magnitude + p).toNat, by omega⟩
  have hgrid : (k : Rat) / 10 ^ p = k * lastPlace b.magnitude (i + 1) := by
    rw [lastPlace, hi, zpow_neg, zpow_natCast, div_eq_mul_inv]
  rw [hgrid] at hk
  obtain ⟨j, hj, d, hd, hshortest⟩ := hb.exists_found hpos hk
  rw [hshortest]
  refine le_exponent_trimmed ?_ (by omega)
  rw [(spec_of_withDigits? hpos (Nat.succ_pos j) hd).2.1]
  omega

end LinearEquations.BinaryFraction
