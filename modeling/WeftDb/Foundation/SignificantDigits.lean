import Mathlib.Algebra.Order.Floor.Ring
import Mathlib.Data.Int.Log
import Mathlib.Data.Rat.Floor
import Mathlib.Data.Sign.Basic
import Mathlib.Tactic.Linarith
import Mathlib.Tactic.NormNum

/-!
# Rounding to significant digits

A decimal division keeps the leading digits of its quotient.  The last of them is rounded, half a
unit away from zero.
-/

namespace SignificantDigits

/-- What the last of the significant digits of a value counts. -/
def unit (digits : ℕ) (value : ℚ) : ℚ :=
  (10 : ℚ) ^ (Int.log 10 |value| + 1 - digits)

/-- A value to so many significant digits. -/
def roundTo (digits : ℕ) (value : ℚ) : ℚ :=
  SignType.sign value * (⌊|value| / unit digits value + 1 / 2⌋ * unit digits value)

theorem unit_pos (digits : ℕ) (value : ℚ) : 0 < unit digits value :=
  zpow_pos (by norm_num) _

variable {digits : ℕ} {value : ℚ}

theorem unit_le_abs (some_digit : 0 < digits) (nonzero : value ≠ 0) : unit digits value ≤ |value| :=
  calc
    unit digits value ≤ (10 : ℚ) ^ Int.log 10 |value| :=
      zpow_le_zpow_right₀ (by norm_num) (by omega)
    _ ≤ |value| := Int.zpow_log_le_self (by norm_num) (abs_pos.mpr nonzero)

@[simp]
theorem roundTo_zero (digits : ℕ) : roundTo digits 0 = 0 := by
  simp [roundTo]

@[simp]
theorem sign_roundTo (some_digit : 0 < digits) (value : ℚ) :
    SignType.sign (roundTo digits value) = SignType.sign value := by
  rcases eq_or_ne value 0 with rfl | nonzero
  · rw [roundTo_zero]
  have positive := unit_pos digits value
  have leading : (1 : ℤ) ≤ ⌊|value| / unit digits value + 1 / 2⌋ := by
    rw [Int.le_floor, Int.cast_one]
    have whole := (one_le_div positive).mpr (unit_le_abs some_digit nonzero)
    linarith
  have magnitude : 0 < (⌊|value| / unit digits value + 1 / 2⌋ : ℚ) * unit digits value := by
    have counted : (0 : ℚ) < ⌊|value| / unit digits value + 1 / 2⌋ := by exact_mod_cast leading
    exact mul_pos counted positive
  rw [roundTo, sign_mul, sign_pos magnitude, mul_one]
  rcases lt_or_gt_of_ne nonzero with negative | positive
  · simp [sign_neg negative]
  · simp [sign_pos positive]

@[simp]
theorem roundTo_neg (digits : ℕ) (value : ℚ) : roundTo digits (-value) = -roundTo digits value := by
  rw [roundTo, roundTo, unit, unit, abs_neg, Left.sign_neg, SignType.coe_neg, neg_mul]

theorem roundTo_of_leading {exponent : ℤ} (low : (10 : ℚ) ^ ((digits : ℤ) - 1) ≤ value)
    (high : value < (10 : ℚ) ^ (digits : ℤ)) :
    roundTo digits (value * 10 ^ exponent) = ⌊value + 1 / 2⌋ * (10 : ℚ) ^ exponent := by
  have ten : (0 : ℚ) < 10 := by norm_num
  have power := zpow_pos ten exponent
  have positive : 0 < value := (zpow_pos ten _).trans_le low
  have scaled : |value * 10 ^ exponent| = value * 10 ^ exponent :=
    abs_of_pos (mul_pos positive power)
  have position : Int.log 10 |value * 10 ^ exponent| = digits - 1 + exponent := by
    rw [scaled]
    refine le_antisymm (Int.lt_add_one_iff.mp ?_) ?_
    · refine (Int.lt_zpow_iff_log_lt (b := 10) (by norm_num) (mul_pos positive power)).mp ?_
      rw [show (digits : ℤ) - 1 + exponent + 1 = digits + exponent by ring,
        show ((10 : ℕ) : ℚ) = 10 by norm_num, zpow_add₀ ten.ne']
      exact mul_lt_mul_of_pos_right high power
    · refine (Int.zpow_le_iff_le_log (b := 10) (by norm_num) (mul_pos positive power)).mp ?_
      rw [show ((10 : ℕ) : ℚ) = 10 by norm_num, zpow_add₀ ten.ne']
      exact mul_le_mul_of_nonneg_right low power.le
  have counts : unit digits (value * 10 ^ exponent) = 10 ^ exponent := by
    rw [unit, position]
    congr 1
    ring
  rw [roundTo, counts, scaled, mul_div_cancel_right₀ _ power.ne', sign_pos (mul_pos positive power),
    SignType.coe_one, one_mul]

/-- Whether a value is some digits times a power of ten. -/
def HasDigits (digits : ℕ) (value : ℚ) : Prop :=
  ∃ mantissa exponent : ℤ, |mantissa| < 10 ^ digits ∧ value = mantissa * (10 : ℚ) ^ exponent

theorem HasDigits.zero (digits : ℕ) : HasDigits digits 0 := ⟨0, 0, by simp, by simp⟩

theorem abs_lt_unit_mul (digits : ℕ) (value : ℚ) : |value| < 10 ^ digits * unit digits value :=
  calc
    |value| < (10 : ℚ) ^ (Int.log 10 |value| + 1) :=
      Int.lt_zpow_succ_log_self (by norm_num) _
    _ = 10 ^ digits * unit digits value := by
      rw [unit, ← zpow_natCast, ← zpow_add₀ (by norm_num)]
      congr 1
      omega

theorem floor_le_pow (digits : ℕ) (value : ℚ) :
    ⌊|value| / unit digits value + 1 / 2⌋ ≤ 10 ^ digits := by
  have counted : |value| / unit digits value < 10 ^ digits :=
    (div_lt_iff₀ (unit_pos digits value)).mpr (abs_lt_unit_mul digits value)
  rw [← Int.lt_add_one_iff, Int.floor_lt]
  push_cast
  linarith

theorem abs_roundTo (digits : ℕ) (nonzero : value ≠ 0) :
    |roundTo digits value| =
      ⌊|value| / unit digits value + 1 / 2⌋ * unit digits value := by
  have positive := unit_pos digits value
  have counted : 0 ≤ ⌊|value| / unit digits value + 1 / 2⌋ := by
    have magnitude := div_nonneg (abs_nonneg value) positive.le
    exact Int.floor_nonneg.mpr (by linarith)
  have whole : (0 : ℚ) ≤ ⌊|value| / unit digits value + 1 / 2⌋ := by exact_mod_cast counted
  rw [roundTo, abs_mul, abs_of_nonneg (mul_nonneg whole positive.le)]
  rcases lt_or_gt_of_ne nonzero with negative | positive
  · simp [sign_neg negative]
  · simp [sign_pos positive]

theorem HasDigits.roundTo_eq (kept : HasDigits digits value) : roundTo digits value = value := by
  obtain ⟨mantissa, exponent, few, rfl⟩ := kept
  rcases eq_or_ne mantissa 0 with rfl | nonzero
  · simp
  have ten : (0 : ℚ) < 10 := by norm_num
  have power := zpow_pos ten exponent
  set value : ℚ := mantissa * 10 ^ exponent with is_value
  have magnitude : |value| = (|mantissa| : ℤ) * (10 : ℚ) ^ exponent := by
    rw [is_value, abs_mul, abs_of_pos power, Int.cast_abs]
  have some_value : 0 < |value| := by
    rw [magnitude]
    exact mul_pos (by exact_mod_cast abs_pos.mpr nonzero) power
  have small : |value| < (10 : ℚ) ^ (digits + exponent : ℤ) := by
    rw [magnitude, zpow_add₀ ten.ne', zpow_natCast]
    exact mul_lt_mul_of_pos_right (by exact_mod_cast few) power
  have position := (Int.lt_zpow_iff_log_lt (b := 10) (by norm_num) some_value).mp
    (by exact_mod_cast small)
  obtain ⟨places, above⟩ := Int.eq_ofNat_of_zero_le
    (show 0 ≤ exponent - (Int.log 10 |value| + 1 - digits) by omega)
  have whole : |value| / unit digits value = ((|mantissa| * 10 ^ places : ℤ) : ℚ) := by
    rw [div_eq_iff (unit_pos digits value).ne', magnitude, unit, Int.cast_mul, mul_assoc,
      Int.cast_pow, ← zpow_natCast, Int.cast_ofNat, ← zpow_add₀ ten.ne']
    congr 2
    omega
  have half : ⌊((|mantissa| * 10 ^ places : ℤ) : ℚ) + 1 / 2⌋ = |mantissa| * 10 ^ places := by
    rw [Int.floor_intCast_add]
    norm_num
  rw [roundTo, whole, half, ← whole, div_mul_cancel₀ _ (unit_pos digits value).ne']
  exact sign_mul_abs value

theorem hasDigits_roundTo (some_digit : 0 < digits) (value : ℚ) :
    HasDigits digits (roundTo digits value) := by
  rcases eq_or_ne value 0 with rfl | nonzero
  · rw [roundTo_zero]
    exact .zero digits
  have signed (count : ℤ) (exponent : ℤ) (nonneg : 0 ≤ count) (few : count < 10 ^ digits) :
      HasDigits digits (SignType.sign value * (count * (10 : ℚ) ^ exponent)) := by
    refine ⟨SignType.sign value * count, exponent, ?_, by push_cast; ring⟩
    rcases lt_or_gt_of_ne nonzero with negative | positive
    · simpa [sign_neg negative, abs_of_nonneg nonneg] using few
    · simpa [sign_pos positive, abs_of_nonneg nonneg] using few
  have counted : 0 ≤ ⌊|value| / unit digits value + 1 / 2⌋ := by
    have magnitude := div_nonneg (abs_nonneg value) (unit_pos digits value).le
    exact Int.floor_nonneg.mpr (by linarith)
  rcases (floor_le_pow digits value).lt_or_eq with few | carried
  · exact signed _ _ counted few
  · -- All digits are nines and the last one carries.
    have carry : ((10 ^ digits : ℤ) : ℚ) * unit digits value =
        ((1 : ℤ) : ℚ) * 10 ^ (Int.log 10 |value| + 1) := by
      rw [unit, Int.cast_one, one_mul, Int.cast_pow, ← zpow_natCast, Int.cast_ofNat,
        ← zpow_add₀ (by norm_num)]
      congr 1
      omega
    rw [roundTo, carried, carry]
    exact signed 1 _ (by norm_num) (one_lt_pow₀ (by norm_num) some_digit.ne')

theorem roundTo_eq_self_iff (some_digit : 0 < digits) :
    roundTo digits value = value ↔ HasDigits digits value :=
  ⟨fun same => same ▸ hasDigits_roundTo some_digit value, HasDigits.roundTo_eq⟩

@[simp]
theorem roundTo_one (some_digit : 0 < digits) : roundTo digits 1 = 1 :=
  HasDigits.roundTo_eq ⟨1, 0, by simpa using one_lt_pow₀ (by norm_num) some_digit.ne', by simp⟩

theorem unit_of_abs_lt_one (digits : ℕ) (nonzero : value ≠ 0) (small : |value| < 1) :
    unit digits value ≤ (10 : ℚ) ^ (-(digits : ℤ)) := by
  have below := (Int.lt_zpow_iff_log_lt (b := 10) (x := 0) (by norm_num)
    (abs_pos.mpr nonzero)).mp (by simpa using small)
  exact zpow_le_zpow_right₀ (by norm_num) (by omega)

theorem hasDigits_of_abs_eq_one (some_digit : 0 < digits) (one : |value| = 1) :
    HasDigits digits value := by
  have few : (1 : ℤ) < 10 ^ digits := one_lt_pow₀ (by norm_num) some_digit.ne'
  rcases (abs_eq (by norm_num)).mp one with rfl | rfl
  · exact ⟨1, 0, by simpa using few, by simp⟩
  · exact ⟨-1, 0, by simpa using few, by simp⟩

theorem abs_roundTo_le_one (some_digit : 0 < digits) (small : |value| ≤ 1) :
    |roundTo digits value| ≤ 1 := by
  rcases eq_or_ne value 0 with rfl | nonzero
  · simp
  rcases small.lt_or_eq with less | one
  · rw [abs_roundTo digits nonzero]
    have counted : (⌊|value| / unit digits value + 1 / 2⌋ : ℚ) ≤ 10 ^ digits := by
      exact_mod_cast floor_le_pow digits value
    calc
      ⌊|value| / unit digits value + 1 / 2⌋ * unit digits value ≤
          10 ^ digits * (10 : ℚ) ^ (-(digits : ℤ)) :=
        mul_le_mul counted (unit_of_abs_lt_one digits nonzero less)
          (unit_pos digits value).le (by positivity)
      _ = 1 := by
        rw [zpow_neg, zpow_natCast]
        exact mul_inv_cancel₀ (by positivity)
  · rw [(hasDigits_of_abs_eq_one some_digit one).roundTo_eq]
    exact small

theorem abs_roundTo_sub_le (digits : ℕ) (value : ℚ) :
    |roundTo digits value - value| ≤ unit digits value / 2 := by
  rcases eq_or_ne value 0 with rfl | nonzero
  · rw [roundTo_zero, sub_zero, abs_zero]
    exact (half_pos (unit_pos digits 0)).le
  have positive := unit_pos digits value
  set count := ⌊|value| / unit digits value + 1 / 2⌋ with is_count
  have below : (count : ℚ) ≤ |value| / unit digits value + 1 / 2 := Int.floor_le _
  have above : |value| / unit digits value + 1 / 2 < count + 1 := Int.lt_floor_add_one _
  have distance : abs (count * unit digits value - |value|) ≤ unit digits value / 2 := by
    have scaled : |value| / unit digits value * unit digits value = |value| :=
      div_mul_cancel₀ _ positive.ne'
    have lower := mul_le_mul_of_nonneg_right below positive.le
    have upper := mul_lt_mul_of_pos_right above positive
    rw [abs_le]
    constructor <;> nlinarith only [lower, upper, scaled]
  have apart : roundTo digits value - value =
      SignType.sign value * (count * unit digits value - |value|) := by
    rw [mul_sub, sign_mul_abs, roundTo]
  rw [apart, abs_mul]
  rcases lt_or_gt_of_ne nonzero with negative | positive
  · simpa [sign_neg negative] using distance
  · simpa [sign_pos positive] using distance

theorem abs_roundTo_sub_le_of_small (some_digit : 0 < digits) (small : |value| ≤ 1) :
    |roundTo digits value - value| ≤ (10 : ℚ) ^ (-(digits : ℤ)) / 2 := by
  have positive : (0 : ℚ) < 10 ^ (-(digits : ℤ)) := zpow_pos (by norm_num) _
  rcases eq_or_ne value 0 with rfl | nonzero
  · rw [roundTo_zero, sub_zero, abs_zero]
    linarith
  rcases small.lt_or_eq with less | one
  · have close := abs_roundTo_sub_le digits value
    have fine := unit_of_abs_lt_one digits nonzero less
    linarith
  · rw [(hasDigits_of_abs_eq_one some_digit one).roundTo_eq, sub_self, abs_zero]
    linarith

theorem roundTo_lt_roundTo (some_digit : 0 < digits) {low high : ℚ} (low_small : |low| ≤ 1)
    (high_small : |high| ≤ 1) (apart : (10 : ℚ) ^ (-(digits : ℤ)) < high - low) :
    roundTo digits low < roundTo digits high := by
  have near_low := abs_le.mp (abs_roundTo_sub_le_of_small some_digit low_small)
  have near_high := abs_le.mp (abs_roundTo_sub_le_of_small some_digit high_small)
  linarith [near_low.2, near_high.1]

theorem abs_roundTo_sub_le_mul (digits : ℕ) (value : ℚ) :
    |roundTo digits value - value| ≤ |value| * (10 : ℚ) ^ (1 - digits : ℤ) / 2 := by
  rcases eq_or_ne value 0 with rfl | nonzero
  · simp
  have leading : (10 : ℚ) ^ Int.log 10 |value| ≤ |value| :=
    Int.zpow_log_le_self (by norm_num) (abs_pos.mpr nonzero)
  have fine : unit digits value ≤ |value| * (10 : ℚ) ^ (1 - digits : ℤ) :=
    calc
      unit digits value = (10 : ℚ) ^ Int.log 10 |value| * (10 : ℚ) ^ (1 - digits : ℤ) := by
        rw [unit, ← zpow_add₀ (by norm_num), add_sub_assoc]
      _ ≤ |value| * (10 : ℚ) ^ (1 - digits : ℤ) :=
        mul_le_mul_of_nonneg_right leading (zpow_pos (by norm_num) _).le
  have close := abs_roundTo_sub_le digits value
  linarith

theorem eq_of_roundTo_eq {left right bound : ℚ} {num num' den den' : ℤ} (den_pos : 0 < den)
    (den'_pos : 0 < den') (left_eq : left = num / den) (right_eq : right = num' / den')
    (left_le : |left| ≤ bound) (right_le : |right| ≤ bound)
    (few : bound * (den * den') < (10 : ℚ) ^ (digits - 1 : ℤ))
    (same : roundTo digits left = roundTo digits right) : left = right := by
  have step : (0 : ℚ) < (10 : ℚ) ^ (1 - digits : ℤ) := zpow_pos (by norm_num) _
  have parts : (0 : ℚ) < den * den' := by exact_mod_cast mul_pos den_pos den'_pos
  have near : |left - right| ≤ bound * (10 : ℚ) ^ (1 - digits : ℤ) := by
    have near_left := abs_le.mp (abs_roundTo_sub_le_mul digits left)
    have near_right := abs_le.mp (abs_roundTo_sub_le_mul digits right)
    have left_scaled := mul_le_mul_of_nonneg_right left_le step.le
    have right_scaled := mul_le_mul_of_nonneg_right right_le step.le
    rw [same] at near_left
    rw [abs_le]
    constructor <;> linarith [near_left.1, near_left.2, near_right.1, near_right.2]
  have whole : (left - right) * (den * den') = ((num * den' - num' * den : ℤ) : ℚ) := by
    have left_nonzero : (den : ℚ) ≠ 0 := by exact_mod_cast den_pos.ne'
    have right_nonzero : (den' : ℚ) ≠ 0 := by exact_mod_cast den'_pos.ne'
    rw [left_eq, right_eq]
    push_cast
    field_simp
  have small : |((num * den' - num' * den : ℤ) : ℚ)| < 1 :=
    calc
      |((num * den' - num' * den : ℤ) : ℚ)| = |left - right| * (den * den') := by
        rw [← whole, abs_mul, abs_of_pos parts]
      _ ≤ bound * (10 : ℚ) ^ (1 - digits : ℤ) * (den * den') :=
        mul_le_mul_of_nonneg_right near parts.le
      _ = bound * (den * den') * (10 : ℚ) ^ (1 - digits : ℤ) := by ring
      _ < (10 : ℚ) ^ (digits - 1 : ℤ) * (10 : ℚ) ^ (1 - digits : ℤ) :=
        mul_lt_mul_of_pos_right few step
      _ = 1 := by
        rw [← zpow_add₀ (by norm_num), show (digits - 1 + (1 - digits) : ℤ) = 0 by ring, zpow_zero]
  have none : num * den' - num' * den = 0 := Int.abs_lt_one_iff.mp (by exact_mod_cast small)
  rw [none, Int.cast_zero, mul_eq_zero] at whole
  exact sub_eq_zero.mp (whole.resolve_right parts.ne')

end SignificantDigits
