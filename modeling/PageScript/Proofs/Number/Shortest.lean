import Mathlib.Algebra.Order.Field.Power
import Mathlib.Data.Rat.Cast.Order
import Mathlib.Tactic.Linarith
import Mathlib.Tactic.NormNum
import Mathlib.Tactic.Positivity
import Mathlib.Tactic.Ring
import Mathlib.Tactic.SplitIfs
import PageScript.Number.Shortest

/-! Shortest decimals tell doubles apart. The numbers that round to a double
form an interval around it. Main statements: the search for a decimal ends
within seventeen digits, with one that lies in the interval of the double; and
the intervals of different doubles have no number in common. -/
namespace PageScript.Shortest

/-- The number that a decimal stands for. -/
def Decimal.value (d : Decimal) : ℚ := d.digits * (10 : ℚ) ^ d.exponent

/-- The size of a unit of the interval. -/
def Interval.step (i : Interval) : ℚ := i.unit / i.base

def Interval.low (i : Interval) : ℚ := (4 * i.significand - i.below : ℕ) * i.step

def Interval.high (i : Interval) : ℚ := (4 * i.significand + 2 : ℕ) * i.step

/-- A number lies in the interval. Where the significand is odd, the ends do
not belong to it. -/
structure Interval.Contains (i : Interval) (v : ℚ) : Prop where
  low_le : i.low ≤ v
  le_high : v ≤ i.high
  inside : i.significand % 2 = 1 → i.low < v ∧ v < i.high

/-- What positive doubles are made of: below the normal ones the exponent is
the least. -/
structure IsDouble (significand : ℕ) (exponent : ℤ) : Prop where
  positive : 0 < significand
  small : significand < 2 ^ 53
  least : -1074 ≤ exponent
  most : exponent ≤ 971
  normal : -1074 < exponent → 2 ^ 52 ≤ significand

/-! ### Scaling -/

/-- A power with any exponent is a quotient of two with natural ones, of which
one is trivial. -/
theorem pow_toNat_div {b : ℚ} (hb : b ≠ 0) (k : ℤ) :
    b ^ k.toNat / b ^ (-k).toNat = b ^ k := by
  rw [← zpow_natCast, ← zpow_natCast, ← zpow_sub₀ hb, Int.toNat_sub_toNat_neg]

section intervals

variable {i : Interval}

theorem base_overTen_pos (hBase : 0 < i.base) (e : ℤ) : 0 < (i.overTen e).base :=
  Nat.mul_pos hBase (Nat.pow_pos (by decide))

theorem step_overTen (i : Interval) (e : ℤ) :
    (i.overTen e).step = i.step * (10 : ℚ) ^ (-e) := by
  have hTen : (10 : ℚ) ^ (-e).toNat / (10 : ℚ) ^ (- -e).toNat = (10 : ℚ) ^ (-e) :=
    pow_toNat_div (by norm_num) (-e)
  rw [neg_neg] at hTen
  rw [Interval.step, Interval.step, ← hTen, div_mul_div_comm]
  simp [Interval.overTen, Nat.pow_eq]

/-- A number in a scaled interval, scaled back, lies in the interval. -/
theorem contains_of_overTen {e : ℤ} {v : ℚ} (h : (i.overTen e).Contains v) :
    i.Contains (v * (10 : ℚ) ^ e) := by
  have hTen : (0 : ℚ) < (10 : ℚ) ^ e := by positivity
  have hEnd (n : ℕ) : (n : ℚ) * (i.overTen e).step = n * i.step / (10 : ℚ) ^ e := by
    rw [step_overTen, zpow_neg, ← mul_assoc, div_eq_mul_inv]
  have hLow : (i.overTen e).low = i.low / (10 : ℚ) ^ e := hEnd _
  have hHigh : (i.overTen e).high = i.high / (10 : ℚ) ^ e := hEnd _
  obtain ⟨hLowLe, hLeHigh, hInside⟩ := h
  rw [hLow, div_le_iff₀ hTen] at hLowLe
  rw [hHigh, le_div_iff₀ hTen] at hLeHigh
  rw [hLow, div_lt_iff₀ hTen, hHigh, lt_div_iff₀ hTen] at hInside
  exact ⟨hLowLe, hLeHigh, hInside⟩

/-- What the search takes for a number in the interval lies in it. The search
compares whole numbers, over the base of the interval. -/
theorem contains_of_holds (hBase : 0 < i.base) {c : ℕ} (h : i.holds c = true) : i.Contains c := by
  have hPos : (0 : ℚ) < i.base := by exact_mod_cast hBase
  have hEnd (n : ℕ) : (n : ℚ) * i.step = ((n * i.unit : ℕ) : ℚ) / i.base := by
    rw [Interval.step, Nat.cast_mul, mul_div_assoc]
  have hMiddle : (c : ℚ) = ((c * i.base : ℕ) : ℚ) / i.base := by
    rw [Nat.cast_mul, mul_div_cancel_right₀ _ hPos.ne']
  have hLess (m n : ℕ) (hmn : m ≤ n) : (m : ℚ) / i.base ≤ (n : ℚ) / i.base :=
    (div_le_div_iff_of_pos_right hPos).mpr (by exact_mod_cast hmn)
  have hStrict (m n : ℕ) (hmn : m < n) : (m : ℚ) / i.base < (n : ℚ) / i.base :=
    (div_lt_div_iff_of_pos_right hPos).mpr (by exact_mod_cast hmn)
  unfold Interval.holds at h
  rw [hMiddle]
  by_cases hEven : i.significand % 2 = 0
  · rw [if_pos hEven, Bool.and_eq_true, decide_eq_true_eq, decide_eq_true_eq] at h
    refine ⟨?_, ?_, fun hOdd => absurd hEven (by omega)⟩
    · rw [Interval.low, hEnd]
      exact hLess _ _ h.1
    · rw [Interval.high, hEnd]
      exact hLess _ _ h.2
  · rw [if_neg hEven, Bool.and_eq_true, decide_eq_true_eq, decide_eq_true_eq] at h
    refine ⟨?_, ?_, fun _ => ?_⟩
    · rw [Interval.low, hEnd]
      exact hLess _ _ h.1.le
    · rw [Interval.high, hEnd]
      exact hLess _ _ h.2.le
    · rw [Interval.low, Interval.high, hEnd, hEnd]
      exact ⟨hStrict _ _ h.1, hStrict _ _ h.2⟩

/-- What the search finds it takes for a number in the interval. -/
theorem holds_of_nearest? {c : ℕ} (h : i.nearest? = some c) : i.holds c = true := by
  unfold Interval.nearest? at h
  cases hLower : i.holds (i.centre / i.base) <;> cases hUpper : i.holds (i.centre / i.base + 1) <;>
    simp only [hLower, hUpper] at h
  · cases h
  · cases h
    exact hUpper
  · cases h
    exact hLower
  · split at h
    · cases h
      exact hLower
    · split at h
      · cases h
        exact hUpper
      · split at h
        · cases h
          exact hLower
        · cases h
          exact hUpper

end intervals

/-! ### Orders of magnitude -/

/-- How a fraction compares with a power of two, in whole numbers. -/
theorem scale_le_iff {num den : ℕ} (hDen : 0 < den) (e : ℤ) :
    (Double.scale num den e).2 ≤ (Double.scale num den e).1 ↔
      (2 : ℚ) ^ e ≤ (num : ℚ) / den := by
  have hPos : (0 : ℚ) < den := by exact_mod_cast hDen
  have hTwo : (0 : ℚ) < (2 : ℚ) ^ (-e).toNat := by positivity
  rw [← pow_toNat_div (by norm_num) e, div_le_div_iff₀ hTwo hPos, Double.scale]
  split
  · next hSign =>
      have hZero : (-e).toNat = 0 := by omega
      rw [hZero, pow_zero, mul_one, mul_comm]
      exact_mod_cast Iff.rfl
  · next hSign =>
      have hZero : e.toNat = 0 := by omega
      rw [hZero, pow_zero, one_mul]
      exact_mod_cast Iff.rfl

/-- The binary order of a fraction is at most its logarithm. -/
theorem zpow_binaryOrder_le {num den : ℕ} (hNum : 0 < num) (hDen : 0 < den) :
    (2 : ℚ) ^ Double.binaryOrder num den ≤ (num : ℚ) / den := by
  unfold Double.binaryOrder
  dsimp only
  split
  · next hScaled => exact (scale_le_iff hDen _).mp hScaled
  · have hPos : (0 : ℚ) < den := by exact_mod_cast hDen
    have hLow : (2 : ℚ) ^ num.log2 ≤ num := by exact_mod_cast Nat.log2_self_le hNum.ne'
    have hHigh : (den : ℚ) ≤ (2 : ℚ) ^ (den.log2 + 1) := by exact_mod_cast Nat.lt_log2_self.le
    calc (2 : ℚ) ^ ((num.log2 : ℤ) - den.log2 - 1)
      _ = (2 : ℚ) ^ num.log2 / (2 : ℚ) ^ (den.log2 + 1) := by
          rw [← zpow_natCast, ← zpow_natCast, ← zpow_sub₀ (by norm_num)]
          congr 1
          push_cast
          ring
      _ ≤ (num : ℚ) / den := div_le_div₀ (by positivity) hLow hPos hHigh

/-- The estimate of the decimal order from the binary one, less one, is not too
large. The largest doubles are below `2 ^ 1024`, and quarters of the smallest
are `2 ^ (-1076)`. -/
theorem zpow_estimate_le {k : ℤ} (hLeast : -1100 ≤ k) (hMost : k ≤ 1100) :
    (10 : ℚ) ^ (k * 30103 / 100000 - 1) ≤ (2 : ℚ) ^ k := by
  have hAll : ∀ m ∈ List.range 1101,
      Nat.pow 10 (m * 30103 / 100000 - 1) ≤ Nat.pow 2 m ∧
        Nat.pow 2 m ≤ Nat.pow 10 ((m * 30103 + 99999) / 100000 + 1) := by decide +kernel
  obtain ⟨m, rfl | rfl⟩ := Int.eq_nat_or_neg k
  · obtain ⟨hUp, -⟩ := hAll m (List.mem_range.mpr (by omega))
    calc (10 : ℚ) ^ ((m : ℤ) * 30103 / 100000 - 1)
      _ ≤ (10 : ℚ) ^ ((m * 30103 / 100000 - 1 : ℕ) : ℤ) :=
        zpow_le_zpow_right₀ (by norm_num) (by omega)
      _ ≤ (2 : ℚ) ^ (m : ℤ) := by
          rw [zpow_natCast, zpow_natCast]
          exact_mod_cast hUp
  · obtain ⟨-, hDown⟩ := hAll m (List.mem_range.mpr (by omega))
    calc (10 : ℚ) ^ (-(m : ℤ) * 30103 / 100000 - 1)
      _ ≤ (10 : ℚ) ^ (-(((m * 30103 + 99999) / 100000 + 1 : ℕ) : ℤ)) :=
        zpow_le_zpow_right₀ (by norm_num) (by omega)
      _ ≤ (2 : ℚ) ^ (-(m : ℤ)) := by
          rw [zpow_neg, zpow_neg, zpow_natCast, zpow_natCast]
          refine inv_anti₀ (by positivity) ?_
          exact_mod_cast hDown

/-- The double that the interval lies around. -/
def Interval.magnitude (i : Interval) : ℚ := (i.centre : ℚ) / i.base

/-- How a double compares with a power of ten, in whole numbers. -/
theorem le_centre_overTen_iff {i : Interval} (hBase : 0 < i.base) (p : ℤ) (more : ℕ) :
    10 ^ more * (i.overTen p).base ≤ (i.overTen p).centre ↔
      (10 : ℚ) ^ (p + more) ≤ i.magnitude := by
  have hPos : (0 : ℚ) < i.base := by exact_mod_cast hBase
  have hTen : (0 : ℚ) < (10 : ℚ) ^ (-p).toNat := by positivity
  have hCentre : (i.overTen p).centre = i.centre * 10 ^ (-p).toNat := by
    simp [Interval.overTen, Interval.centre, Nat.pow_eq, mul_assoc]
  have hOver : 10 ^ more * (i.overTen p).base = 10 ^ more * 10 ^ p.toNat * i.base := by
    simp [Interval.overTen, Nat.pow_eq, mul_assoc, mul_comm i.base]
  have hPower : (10 : ℚ) ^ (p + more) = 10 ^ more * 10 ^ p.toNat / 10 ^ (-p).toNat := by
    rw [mul_div_assoc, pow_toNat_div (by norm_num) p, mul_comm, zpow_add₀ (by norm_num),
      zpow_natCast]
  rw [hPower, Interval.magnitude, div_le_div_iff₀ hTen hPos, hCentre, hOver]
  exact_mod_cast Iff.rfl

/-- A scaled interval has its centre above its base exactly if the double
reaches the power of ten. -/
theorem reaches_iff {i : Interval} (hBase : 0 < i.base) (p : ℤ) :
    (i.overTen p).base ≤ (i.overTen p).centre ↔ (10 : ℚ) ^ p ≤ i.magnitude := by
  simpa using le_centre_overTen_iff hBase p 0

theorem base_interval_pos (significand : ℕ) (exponent : ℤ) :
    0 < (interval significand exponent).base :=
  Nat.pow_pos (by decide)

theorem unit_interval_pos (significand : ℕ) (exponent : ℤ) :
    0 < (interval significand exponent).unit :=
  Nat.pow_pos (by decide)

section doubles

variable {significand : ℕ} {exponent : ℤ}

theorem centre_interval_pos (h : IsDouble significand exponent) :
    0 < (interval significand exponent).centre :=
  Nat.mul_pos (Nat.mul_pos (by decide) h.positive) (unit_interval_pos significand exponent)

/-- The binary order of a double is within the range of its exponents. -/
theorem binaryOrder_interval_bounds (h : IsDouble significand exponent) :
    -1100 ≤ Double.binaryOrder (interval significand exponent).centre
      (interval significand exponent).base ∧
      Double.binaryOrder (interval significand exponent).centre
        (interval significand exponent).base ≤ 1100 := by
  have hBase : (interval significand exponent).base.log2 = (-(exponent - 2)).toNat :=
    Nat.log2_two_pow
  have hCentre : (interval significand exponent).centre.log2 < 55 + (exponent - 2).toNat := by
    have hSmall : 4 * significand < 2 ^ 55 := by
      have := h.small
      omega
    rw [Nat.log2_lt (centre_interval_pos h).ne', Nat.pow_add]
    exact Nat.mul_lt_mul_of_pos_right hSmall (unit_interval_pos significand exponent)
  have hLeast := h.least
  have hMost := h.most
  unfold Double.binaryOrder
  dsimp only
  rw [hBase]
  split <;> omega

/-- A double reaches ten to the power of its decimal order. -/
theorem zpow_decimalOrder_le (h : IsDouble significand exponent) :
    (10 : ℚ) ^ decimalOrder (interval significand exponent) ≤
    (interval significand exponent).magnitude := by
  have hBase := base_interval_pos significand exponent
  obtain ⟨hLeast, hMost⟩ := binaryOrder_interval_bounds h
  unfold decimalOrder
  dsimp only
  split
  · exact (zpow_estimate_le hLeast hMost).trans (zpow_binaryOrder_le (centre_interval_pos h) hBase)
  · next hGuess =>
      split
      · next hNext => exact (reaches_iff hBase _).mp (of_decide_eq_true hNext)
      · rw [Bool.not_eq_true', Bool.not_eq_false, decide_eq_true_eq] at hGuess
        exact (reaches_iff hBase _).mp hGuess

end doubles

/-! ### The search -/

section search

variable {i : Interval}

/-- A number strictly between the ends of the interval is taken for one in it,
whatever the significand is. -/
theorem holds_of_lt {c : ℕ} (hLow : (4 * i.significand - i.below) * i.unit < c * i.base)
    (hHigh : c * i.base < (4 * i.significand + 2) * i.unit) : i.holds c = true := by
  unfold Interval.holds
  split
  · simp [hLow.le, hHigh.le]
  · simp [hLow, hHigh]

/-- The search finds nothing exactly if neither of the two numbers around the
centre is in the interval. -/
theorem nearest?_eq_none_iff : i.nearest? = none ↔
    i.holds (i.centre / i.base) = false ∧ i.holds (i.centre / i.base + 1) = false := by
  unfold Interval.nearest?
  cases hLower : i.holds (i.centre / i.base) <;> cases hUpper : i.holds (i.centre / i.base + 1) <;>
    simp only [hLower, hUpper]
  · simp
  · simp
  · simp
  · split_ifs <;> simp

/-- Seventeen digits in front of the point are more than a significand has, so
that a whole number next to the double is less than half a unit in the last
place away from it. One of the two neighbours is at most half a step away from
the double. -/
theorem nearest?_ne_none (hUnit : 0 < i.unit) (hBase : 0 < i.base) (hSmall : i.significand < 2 ^ 53)
    (hBelow : i.below = 1 ∧ i.significand = 2 ^ 52 ∨ i.below = 2)
    (hLarge : 10 ^ 16 * i.base ≤ i.centre) :
    i.nearest? ≠ none := by
  have hCentre : i.centre = 4 * (i.significand * i.unit) := Nat.mul_assoc _ _ _
  have hLow : (4 * i.significand - i.below) * i.unit = i.centre - i.below * i.unit := by
    rw [Nat.sub_mul, Nat.mul_assoc, hCentre]
  have hHigh : (4 * i.significand + 2) * i.unit = i.centre + 2 * i.unit := by
    rw [Nat.add_mul, Nat.mul_assoc, hCentre]
  have hNarrow : i.base < 2 * (i.below * i.unit) ∧ i.base < 4 * i.unit ∧
      0 < i.below * i.unit := by
    rcases hBelow with ⟨hOne, hLeast⟩ | hTwo
    · rw [hLeast] at hCentre
      rw [hOne]
      omega
    · have hMost : i.significand * i.unit ≤ (2 ^ 53 - 1) * i.unit :=
        Nat.mul_le_mul_right _ (by omega)
      rw [hTwo]
      omega
  have hLower : i.centre / i.base * i.base ≤ i.centre := Nat.div_mul_le_self _ _
  have hUpper : i.centre < (i.centre / i.base + 1) * i.base := by
    rw [Nat.mul_comm]
    exact Nat.lt_mul_div_succ _ hBase
  rw [ne_eq, nearest?_eq_none_iff]
  rintro ⟨hNotLower, hNotUpper⟩
  by_cases hNear : 2 * (i.centre - i.centre / i.base * i.base) ≤ i.base
  · have hHolds : i.holds (i.centre / i.base) = true :=
      holds_of_lt (by rw [hLow]; omega) (by rw [hHigh]; omega)
    simp [hHolds] at hNotLower
  · rw [Nat.add_mul, Nat.one_mul] at hUpper
    have hHolds : i.holds (i.centre / i.base + 1) = true :=
      holds_of_lt (by rw [hLow, Nat.add_mul, Nat.one_mul]; omega)
        (by rw [hHigh, Nat.add_mul, Nat.one_mul]; omega)
    simp [hHolds] at hNotUpper

/-- A search that comes to a number of digits for which there is a decimal ends
with one. -/
theorem contains_search {order : ℤ} (hBase : 0 < i.base) {k : ℕ}
    (hFound : (i.overTen (order + 1 - k)).nearest? ≠ none) {used left : ℕ} (hUsed : used ≤ k)
    (hLeft : k < used + left) : i.Contains (search i order used left).value := by
  induction left generalizing used with
  | zero => omega
  | succ left ih =>
      unfold search
      dsimp only
      split
      · next c hNearest =>
          exact contains_of_overTen (contains_of_holds (base_overTen_pos hBase _)
            (holds_of_nearest? hNearest))
      · next hNone =>
          refine ih (Nat.lt_of_le_of_ne hUsed ?_) (by omega)
          rintro rfl
          exact hFound hNone

/-- A decimal stands for the same number without the zeros at its end. -/
theorem value_strip (d : Decimal) (left : ℕ) : (d.strip left).value = d.value := by
  induction left generalizing d with
  | zero => rfl
  | succ left ih =>
      unfold Decimal.strip
      split
      · next hZero =>
          have hDigits : (d.digits : ℚ) = 10 * (d.digits / 10 : ℕ) := by
            exact_mod_cast (Nat.mul_div_cancel' (Nat.dvd_of_mod_eq_zero hZero)).symm
          rw [ih, Decimal.value, Decimal.value, hDigits, zpow_add_one₀ (by norm_num)]
          ring
      · rfl

end search

/-! ### Doubles and their decimals -/

section doubles

variable {significand other : ℕ} {exponent otherExponent : ℤ} {v : ℚ}

/-- The lower half of an interval is narrower exactly at a power of two, the
least exponent apart. -/
theorem below_interval (significand : ℕ) (exponent : ℤ) :
    (interval significand exponent).below = 1 ∧ significand = 2 ^ 52 ∧ -1074 < exponent ∨
      (interval significand exponent).below = 2 ∧
        ¬(significand = 2 ^ 52 ∧ -1074 < exponent) := by
  by_cases h : significand = Nat.pow 2 52 ∧ -1074 < exponent
  · exact .inl ⟨if_pos h, h⟩
  · exact .inr ⟨if_neg h, h⟩

/-- The decimal of a double lies in the interval of the double. Seventeen
digits are enough, so the search does not end without one. -/
theorem contains_decimal (h : IsDouble significand exponent) :
    (interval significand exponent).Contains (decimal significand exponent).value := by
  have hBase := base_interval_pos significand exponent
  have hUnit := unit_interval_pos significand exponent
  have hLarge :
      10 ^ 16 * ((interval significand exponent).overTen
        (decimalOrder (interval significand exponent) + 1 - 17)).base ≤
        ((interval significand exponent).overTen
          (decimalOrder (interval significand exponent) + 1 - 17)).centre := by
    rw [le_centre_overTen_iff hBase]
    convert zpow_decimalOrder_le h using 2
    push_cast
    ring
  have hFound := nearest?_ne_none (Nat.mul_pos hUnit (Nat.pow_pos (by decide)))
    (base_overTen_pos hBase _) h.small
    ((below_interval significand exponent).imp (fun hOne => ⟨hOne.1, hOne.2.1⟩) And.left) hLarge
  unfold decimal
  rw [value_strip]
  exact contains_search hBase hFound (by decide) (by decide)

theorem step_interval (significand : ℕ) (exponent : ℤ) :
    (interval significand exponent).step = (2 : ℚ) ^ (exponent - 2) := by
  rw [← pow_toNat_div (by norm_num) (exponent - 2), Interval.step]
  simp [interval, Nat.pow_eq]

theorem decimal_value_pos (h : IsDouble significand exponent) :
    0 < (decimal significand exponent).value := by
  refine lt_of_lt_of_le ?_ (contains_decimal h).low_le
  have hStep : (0 : ℚ) < (2 : ℚ) ^ (exponent - 2) := by positivity
  have hLow : 0 < 4 * significand - (interval significand exponent).below := by
    have hPositive := h.positive
    rcases below_interval significand exponent with hBelow | hBelow <;> omega
  rw [Interval.low, step_interval]
  exact mul_pos (by exact_mod_cast hLow) hStep

/-- Intervals of doubles in order do not overlap. Where they meet, one of the
significands is odd. The next exponent begins where the significands of this
one are used up, and there the lower half of the interval is narrower. -/
theorem high_le_low (h : IsDouble significand exponent) (hOther : IsDouble other otherExponent)
    (hOrder : exponent < otherExponent ∨ exponent = otherExponent ∧ significand < other) :
    (interval significand exponent).high ≤ (interval other otherExponent).low ∧
      ((interval significand exponent).high = (interval other otherExponent).low →
        significand % 2 = 1 ∨ other % 2 = 1) := by
  have hStep : (0 : ℚ) < (2 : ℚ) ^ (exponent - 2) := by positivity
  have hSmall := h.small
  rw [Interval.high, Interval.low, step_interval, step_interval]
  change ((4 * significand + 2 : ℕ) : ℚ) * _ ≤
    (4 * other - (interval other otherExponent).below : ℕ) * _ ∧
    (((4 * significand + 2 : ℕ) : ℚ) * _ =
      (4 * other - (interval other otherExponent).below : ℕ) * _ → _)
  have hBelow := below_interval other otherExponent
  generalize (interval other otherExponent).below = below at hBelow ⊢
  rcases hOrder with hLess | ⟨rfl, hLess⟩
  · have hAbove : -1074 < otherExponent := lt_of_le_of_lt h.least hLess
    have hNormal := hOther.normal hAbove
    have hDouble : 2 * (2 : ℚ) ^ (exponent - 2) ≤ (2 : ℚ) ^ (otherExponent - 2) := by
      rw [← zpow_one_add₀ (by norm_num)]
      exact zpow_le_zpow_right₀ (by norm_num) (by omega)
    have hTwice : 4 * significand + 2 ≤ 2 * (4 * other - below) := by omega
    have hLow : ((2 * (4 * other - below) : ℕ) : ℚ) * (2 : ℚ) ^ (exponent - 2) ≤
        (4 * other - below : ℕ) * (2 : ℚ) ^ (otherExponent - 2) := by
      rw [Nat.cast_mul, Nat.cast_ofNat, mul_comm (2 : ℚ), mul_assoc]
      exact mul_le_mul_of_nonneg_left hDouble (Nat.cast_nonneg _)
    refine ⟨(mul_le_mul_of_nonneg_right (by exact_mod_cast hTwice) hStep.le).trans hLow,
      fun hMeet => ?_⟩
    rw [← hMeet, mul_le_mul_iff_of_pos_right hStep, Nat.cast_le] at hLow
    omega
  · have hEnds : 4 * significand + 2 ≤ 4 * other - below := by omega
    refine ⟨mul_le_mul_of_nonneg_right (by exact_mod_cast hEnds) hStep.le, fun hMeet => ?_⟩
    rw [mul_left_inj' hStep.ne', Nat.cast_inj] at hMeet
    omega

/-- A number in the interval of a double is in that of no larger one. -/
theorem not_contains_of_contains (h : IsDouble significand exponent)
    (hOther : IsDouble other otherExponent)
    (hOrder : exponent < otherExponent ∨ exponent = otherExponent ∧ significand < other)
    (hFirst : (interval significand exponent).Contains v) :
    ¬(interval other otherExponent).Contains v := by
  intro hSecond
  obtain ⟨hLe, hMeet⟩ := high_le_low h hOther hOrder
  have hHigh : (interval significand exponent).high = v :=
    le_antisymm (hLe.trans hSecond.low_le) hFirst.le_high
  have hLow : (interval other otherExponent).low = v :=
    le_antisymm hSecond.low_le (hFirst.le_high.trans hLe)
  rcases hMeet (hHigh.trans hLow.symm) with hOdd | hOdd
  · exact (hFirst.inside hOdd).2.ne hHigh.symm
  · exact (hSecond.inside hOdd).1.ne hLow

/-- A decimal in the interval of a double is in that of no other. -/
theorem eq_of_contains (h : IsDouble significand exponent) (hOther : IsDouble other otherExponent)
    (hFirst : (interval significand exponent).Contains v)
    (hSecond : (interval other otherExponent).Contains v) :
    significand = other ∧ exponent = otherExponent := by
  rcases lt_trichotomy exponent otherExponent with hLess | rfl | hMore
  · exact absurd hSecond (not_contains_of_contains h hOther (.inl hLess) hFirst)
  · rcases lt_trichotomy significand other with hLess | rfl | hMore
    · exact absurd hSecond (not_contains_of_contains h hOther (.inr ⟨rfl, hLess⟩) hFirst)
    · exact ⟨rfl, rfl⟩
    · exact absurd hFirst (not_contains_of_contains hOther h (.inr ⟨rfl, hMore⟩) hSecond)
  · exact absurd hFirst (not_contains_of_contains hOther h (.inl hMore) hSecond)

/-- Doubles with decimals of one value are one double. -/
theorem eq_of_decimal_value (h : IsDouble significand exponent)
    (hOther : IsDouble other otherExponent)
    (hValue : (decimal significand exponent).value = (decimal other otherExponent).value) :
    significand = other ∧ exponent = otherExponent := by
  have hSecond := contains_decimal hOther
  rw [← hValue] at hSecond
  exact eq_of_contains h hOther (contains_decimal h) hSecond

end doubles

end PageScript.Shortest
