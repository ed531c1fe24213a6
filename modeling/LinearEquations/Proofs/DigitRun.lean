import LinearEquations.Proofs.SignificantDigits
import Mathlib.Data.List.Induction

/-! # Rounding by digits

Digits are rounded to the first few of them without a computation with numbers.  The others are cut
off, and if the first of those is at least five, one is added to the last that is left, with a carry
from the lowest digit up.  A carry out of the first digit leaves a one and zeros
(`DigitRun.increment_spec`), and makes the power of ten one more.

It is enough to look at a single digit, because what is cut off is at least one half of the last
place just if its first digit is at least five (`DigitRun.round_spec`). -/

namespace LinearEquations
open Grammar Decimal

/-! ### Digits -/

namespace DigitRun

/-- The number with the given digits, the highest first. -/
def value (digits : List Nat) : Nat := digits.foldl (fun n d => 10 * n + d) 0

/-- Add one to digits, the lowest first, and tell whether there is a carry beyond the highest. -/
def carryOne : List Nat → List Nat × Bool
  | [] => ([], true)
  | d :: digits =>
    if d = 9 then (0 :: (carryOne digits).1, (carryOne digits).2) else ((d + 1) :: digits, false)

/-- Add one to digits, the highest first. -/
def increment (digits : List Nat) : List Nat × Bool :=
  ((carryOne digits.reverse).1.reverse, (carryOne digits.reverse).2)

/-- Round digits to the first `precision` of them; `leading` is the power of ten of the first. -/
def round (precision : Nat) (digits : List Nat) (leading : Int) : List Nat × Int :=
  let kept := digits.take precision
  if digits[precision]?.any (5 ≤ ·) then
    let (raised, carried) := increment kept
    if carried then ((1 :: raised).take precision, leading + 1) else (raised, leading)
  else (kept, leading)

variable {digits more : List Nat} {p : Nat} {leading : Int}

/-- Digits are below ten. -/
def IsRun (digits : List Nat) : Prop := ∀ d ∈ digits, d < 10

theorem foldl_eq (n : Nat) (digits : List Nat) :
    digits.foldl (fun n d => 10 * n + d) n = n * 10 ^ digits.length + value digits := by
  induction digits generalizing n with
  | nil => simp [value]
  | cons d digits ih =>
    rw [value, List.foldl_cons, List.foldl_cons, ih, ih (10 * 0 + d), List.length_cons, Nat.pow_succ]
    ring

theorem value_append (digits more : List Nat) :
    value (digits ++ more) = value digits * 10 ^ more.length + value more := by
  rw [value, List.foldl_append, foldl_eq]
  rfl

theorem value_concat (digits : List Nat) (d : Nat) :
    value (digits ++ [d]) = 10 * value digits + d := by
  rw [value, List.foldl_append]
  rfl

theorem value_cons (d : Nat) (digits : List Nat) :
    value (d :: digits) = d * 10 ^ digits.length + value digits := by
  simpa [value] using value_append [d] digits

theorem IsRun.value_lt (h : IsRun digits) : value digits < 10 ^ digits.length := by
  induction digits with
  | nil => exact Nat.one_pos
  | cons d digits ih =>
    obtain ⟨hd, hdigits⟩ := List.forall_mem_cons.mp h
    have hrest := ih hdigits
    have hfirst := Nat.mul_le_mul_right (10 ^ digits.length) (Nat.succ_le_of_lt hd)
    rw [value_cons, List.length_cons, Nat.pow_succ]
    rw [Nat.succ_mul] at hfirst
    omega

/-- Digits that do not begin with a zero are those of a number. -/
theorem IsRun.figures_value {k : Nat} (h : IsRun digits) (hlength : digits.length = k + 1)
    (hfirst : 10 ^ k ≤ value digits) : figures (value digits) = digits.map Nat.digitChar := by
  induction digits using List.reverseRecOn generalizing k with
  | nil => cases hlength
  | append_singleton digits d ih =>
    obtain ⟨hdigits, hd⟩ := List.forall_mem_append.mp h
    have hd : d < 10 := hd d (List.mem_singleton_self d)
    have hlength : digits.length = k := by simpa using hlength
    rw [value_concat] at hfirst ⊢
    cases k with
    | zero =>
      obtain rfl := List.length_eq_zero_iff.mp hlength
      exact (Nat.toDigits_of_lt_base (by simpa [value] using hd)).trans (by simp [value])
    | succ k =>
      rw [Nat.pow_succ] at hfirst
      have hpos : 0 < 10 ^ k := Nat.pow_pos (by decide)
      have happend := Nat.toDigits_append_toDigits (b := 10) (by decide)
        (show 0 < value digits by omega) hd
      rw [figures, ← happend, Nat.toDigits_of_lt_base hd, List.map_append]
      exact congrArg (· ++ _) (ih hdigits hlength (by omega))

/-! ### Adding one -/

/-- **One step of the carry**: nothing is lost, and a carry beyond the highest digit counts for the
power of ten after it. -/
theorem carryOne_spec (h : IsRun digits) :
    (carryOne digits).1.length = digits.length ∧ IsRun (carryOne digits).1 ∧
      value (carryOne digits).1.reverse +
        (if (carryOne digits).2 then 10 ^ digits.length else 0) = value digits.reverse + 1 := by
  induction digits with
  | nil => exact ⟨rfl, nofun, rfl⟩
  | cons d digits ih =>
    obtain ⟨hd, hdigits⟩ := List.forall_mem_cons.mp h
    obtain ⟨hlength, hrun, hvalue⟩ := ih hdigits
    rw [carryOne]
    split
    · rename_i hnine
      refine ⟨congrArg (· + 1) hlength, List.forall_mem_cons.mpr ⟨by decide, hrun⟩, ?_⟩
      simp only [List.reverse_cons, value_concat, List.length_cons, Nat.pow_succ]
      cases hcarry : (carryOne digits).2 <;> simp only [hcarry, if_true, if_false,
        Bool.false_eq_true] at hvalue ⊢ <;> omega
    · refine ⟨rfl, List.forall_mem_cons.mpr ⟨by omega, hdigits⟩, ?_⟩
      simp only [List.reverse_cons, value_concat]
      exact Nat.add_assoc _ _ _

theorem increment_spec (h : IsRun digits) :
    (increment digits).1.length = digits.length ∧ IsRun (increment digits).1 ∧
      value (increment digits).1 + (if (increment digits).2 then 10 ^ digits.length else 0) =
        value digits + 1 := by
  have hreverse : IsRun digits.reverse := fun d hd => h d (List.mem_reverse.mp hd)
  obtain ⟨hlength, hrun, hvalue⟩ := carryOne_spec hreverse
  rw [List.length_reverse, List.reverse_reverse] at hvalue
  refine ⟨?_, fun d hd => hrun d (List.mem_reverse.mp hd), hvalue⟩
  rw [increment, List.length_reverse, hlength, List.length_reverse]

/-! ### Rounding -/

/-- **The digit after the last place decides**: it is at least five from one half on. -/
theorem isNearest_of_add {a d rest k : Nat} (hd : d < 10) (hrest : rest < 10 ^ k) :
    IsNearest ((a * 10 ^ (k + 1) + (d * 10 ^ k + rest) : Nat) / 10 ^ (k + 1))
      (if 5 ≤ d then a + 1 else a) := by
  have hpos : (0 : Rat) < 10 ^ (k + 1) := by positivity
  have hsplit : ((a * 10 ^ (k + 1) + (d * 10 ^ k + rest) : Nat) : Rat) / 10 ^ (k + 1) =
      a + (d * 10 ^ k + rest : Nat) / 10 ^ (k + 1) := by
    push_cast
    rw [add_div, mul_div_cancel_right₀ _ hpos.ne']
  have hpow : 10 ^ (k + 1) = 10 * 10 ^ k := Nat.pow_succ'
  have hpart := Nat.mul_le_mul_right (10 ^ k) (Nat.le_of_lt_succ hd)
  have hbelow : ((d * 10 ^ k + rest : Nat) : Rat) / 10 ^ (k + 1) < 1 := by
    rw [div_lt_one hpos]
    exact_mod_cast (show d * 10 ^ k + rest < 10 ^ (k + 1) by omega)
  have hnonneg : (0 : Rat) ≤ (d * 10 ^ k + rest : Nat) / 10 ^ (k + 1) := by positivity
  rw [hsplit]
  split
  · rename_i hfive
    have hfive := Nat.mul_le_mul_right (10 ^ k) hfive
    have hhalf : (1 : Rat) / 2 ≤ (d * 10 ^ k + rest : Nat) / 10 ^ (k + 1) := by
      rw [div_le_div_iff₀ two_pos hpos]
      exact_mod_cast (show 1 * 10 ^ (k + 1) ≤ (d * 10 ^ k + rest) * 2 by omega)
    constructor <;> push_cast at * <;> linarith
  · rename_i hfive
    have hfour := Nat.mul_le_mul_right (10 ^ k) (show d ≤ 4 by omega)
    have hhalf : ((d * 10 ^ k + rest : Nat) : Rat) / 10 ^ (k + 1) < 1 / 2 := by
      rw [div_lt_div_iff₀ hpos two_pos]
      exact_mod_cast (show (d * 10 ^ k + rest) * 2 < 1 * 10 ^ (k + 1) by omega)
    constructor <;> push_cast at * <;> linarith

/-- The digits kept, the one after them and the rest. -/
theorem exists_split {k : Nat} (h : IsRun digits) (hlength : digits.length = p + (k + 1)) :
    ∃ d rest, digits[p]? = some d ∧ d < 10 ∧ rest < 10 ^ k ∧
      value digits = value (digits.take p) * 10 ^ (k + 1) + (d * 10 ^ k + rest) := by
  have hlt : p < digits.length := by omega
  have hdrop := List.drop_eq_getElem_cons hlt
  have hvalue := value_append (digits.take p) (digits.drop p)
  have hrest : IsRun (digits.drop (p + 1)) := fun d hd => h d (List.mem_of_mem_drop hd)
  have hrestLength : (digits.drop (p + 1)).length = k := by
    rw [List.length_drop]
    omega
  have hdropLength : (digits.drop p).length = k + 1 := by
    rw [List.length_drop]
    omega
  rw [List.take_append_drop, hdropLength, hdrop, value_cons, hrestLength] at hvalue
  refine ⟨digits[p], value (digits.drop (p + 1)), List.getElem?_eq_getElem hlt,
    h _ (List.getElem_mem hlt), ?_, hvalue⟩
  have := hrest.value_lt
  rwa [hrestLength] at this

theorem IsRun.take (h : IsRun digits) (p : Nat) : IsRun (digits.take p) := fun d hd =>
  h d (List.mem_of_mem_take hd)

/-- **A carry leaves zeros**, before which the one is put; the last of them is dropped. -/
theorem value_take_of_carry (hp : 0 < p) (h : IsRun digits) (hlength : digits.length = p)
    (hcarry : (increment digits).2) :
    ((1 :: (increment digits).1).take p).length = p ∧ IsRun ((1 :: (increment digits).1).take p) ∧
      value ((1 :: (increment digits).1).take p) = 10 ^ (p - 1) ∧ value digits + 1 = 10 ^ p := by
  obtain ⟨hraised, hrun, hsum⟩ := increment_spec h
  rw [if_pos hcarry, hlength] at hsum
  have hone : IsRun (1 :: (increment digits).1) := List.forall_mem_cons.mpr ⟨by decide, hrun⟩
  have hlong : (1 :: (increment digits).1).length = p + 1 := congrArg (· + 1) (hraised.trans hlength)
  obtain ⟨d, rest, -, hd, hrest, hvalue⟩ := exists_split (k := 0) hone hlong
  refine ⟨by rw [List.length_take, hlong]; omega, hone.take p, ?_⟩
  have hlt := hlength ▸ h.value_lt
  have hten : 10 ^ p = 10 * 10 ^ (p - 1) := by
    rw [← Nat.pow_succ', Nat.succ_eq_add_one, Nat.sub_add_cancel hp]
  rw [value_cons, hraised, hlength] at hvalue
  simp only [Nat.zero_add, Nat.pow_zero, Nat.pow_one, Nat.mul_one, Nat.one_mul] at hvalue hrest
  omega

/-- **Rounding a run of digits.**  What is left are `p` digits of the nearest number, or of a power
of ten if there was a carry. -/
theorem round_spec {k : Nat} (leading : Int) (hp : 0 < p) (h : IsRun digits)
    (hlength : digits.length = p + (k + 1)) :
    ∃ m, IsNearest (value digits / 10 ^ (k + 1)) m ∧
      (round p digits leading).1.length = p ∧ IsRun (round p digits leading).1 ∧
      ((round p digits leading).2 = leading ∧ value (round p digits leading).1 = m ∨
        (round p digits leading).2 = leading + 1 ∧ value (round p digits leading).1 = 10 ^ (p - 1) ∧
          m = 10 ^ p) := by
  obtain ⟨d, rest, hd, hlt, hrest, hvalue⟩ := exists_split h hlength
  have hkept : (digits.take p).length = p := by
    rw [List.length_take]
    omega
  have hnearest := isNearest_of_add (a := value (digits.take p)) hlt hrest
  rw [← hvalue] at hnearest
  refine ⟨_, hnearest, ?_⟩
  obtain ⟨hraised, hrun, hsum⟩ := increment_spec (h.take p)
  unfold round
  simp only [hd, Option.any_some, decide_eq_true_eq]
  split
  · cases hcarry : (increment (digits.take p)).2 with
    | false =>
      simp only [hcarry, Bool.false_eq_true, if_false] at hsum ⊢
      exact ⟨hraised.trans hkept, hrun, .inl ⟨trivial, hsum⟩⟩
    | true =>
      obtain ⟨hlength, hrun, hvalue⟩ := value_take_of_carry hp (h.take p) hkept hcarry
      simp only [if_true]
      exact ⟨hlength, hrun, .inr ⟨trivial, hvalue⟩⟩
  · exact ⟨hkept, h.take p, .inl ⟨rfl, rfl⟩⟩

end DigitRun
end LinearEquations
