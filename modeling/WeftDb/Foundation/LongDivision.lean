import Mathlib.Data.Nat.Cast.Field
import Mathlib.Data.Nat.Log
import Mathlib.Tactic.FieldSimp
import Mathlib.Tactic.Ring
import WeftDb.Foundation.SignificantDigits

/-!
# Division digit by digit

A quotient is brought out one decimal place after the other, until nothing remains or enough
digits are there.  The remainder then decides whether the last digit is rounded up.
-/

namespace LongDivision

open SignificantDigits

variable {numerator divisor digits places : ℕ}

theorem mul_ten_div (numerator divisor : ℕ) :
    numerator * 10 / divisor = numerator / divisor * 10 + numerator % divisor * 10 / divisor := by
  rcases Nat.eq_zero_or_pos divisor with rfl | positive
  · simp
  · have split : numerator * 10 =
        numerator % divisor * 10 + divisor * (numerator / divisor * 10) := by
      have whole := Nat.div_add_mod numerator divisor
      calc
        numerator * 10 = (divisor * (numerator / divisor) + numerator % divisor) * 10 := by
          rw [whole]
        _ = numerator % divisor * 10 + divisor * (numerator / divisor * 10) := by ring
    rw [split, Nat.add_mul_div_left _ _ positive, add_comm]

theorem mul_ten_mod (numerator divisor : ℕ) :
    numerator * 10 % divisor = numerator % divisor * 10 % divisor := by
  rw [Nat.mul_mod (numerator % divisor), Nat.mod_mod, ← Nat.mul_mod]

theorem next_digit_lt (positive : 0 < divisor) : numerator % divisor * 10 / divisor < 10 := by
  rw [Nat.div_lt_iff_lt_mul positive, mul_comm]
  exact Nat.mul_lt_mul_of_pos_left (Nat.mod_lt _ positive) (by decide)

theorem log_mul_ten_div (reached : divisor ≤ numerator) (positive : 0 < divisor) :
    Nat.log 10 (numerator * 10 / divisor) = Nat.log 10 (numerator / divisor) + 1 := by
  have lead : 0 < numerator / divisor := Nat.div_pos reached positive
  have back : numerator * 10 / divisor / 10 = numerator / divisor := by
    rw [Nat.div_div_eq_div_mul, Nat.mul_div_mul_right _ _ (by decide)]
  have many : 10 ≤ numerator * 10 / divisor := by
    rw [mul_ten_div]
    exact (Nat.mul_le_mul_right 10 lead).trans (Nat.le_add_right _ _)
  rw [Nat.log_of_one_lt_of_le (by decide) many, back]

theorem log_mul_pow_div (reached : divisor ≤ numerator) (positive : 0 < divisor) (places : ℕ) :
    Nat.log 10 (numerator * 10 ^ places / divisor) =
      Nat.log 10 (numerator / divisor) + places := by
  induction places with
  | zero => rw [pow_zero, mul_one, add_zero]
  | succ places ih =>
      have further : divisor ≤ numerator * 10 ^ places :=
        reached.trans (Nat.le_mul_of_pos_right _ (by positivity))
      rw [pow_succ, ← mul_assoc, log_mul_ten_div further positive, ih, add_assoc]

/-- Whether so many places leave nothing over or bring a quotient to so many digits. -/
def Exhausts (digits numerator divisor places : ℕ) : Prop :=
  divisor ∣ numerator * 10 ^ places ∨ 10 ^ (digits - 1) ≤ numerator * 10 ^ places / divisor

/-- The fewest places which do. -/
def Fewest (digits numerator divisor places : ℕ) : Prop :=
  Exhausts digits numerator divisor places ∧
    ∀ fewer < places, ¬Exhausts digits numerator divisor fewer

theorem Fewest.le (least : Fewest digits numerator divisor places) {other : ℕ}
    (exhausts : Exhausts digits numerator divisor other) : places ≤ other := by
  by_contra fewer
  exact least.2 other (not_le.mp fewer) exhausts

theorem not_exhausts_of_lt (nonzero : 0 < numerator)
    (below : numerator * 10 ^ places < divisor) :
    ¬Exhausts digits numerator divisor places := by
  rintro (divides | many)
  · exact absurd (Nat.le_of_dvd (by positivity) divides) (not_le.mpr below)
  · rw [Nat.div_eq_of_lt below] at many
    exact absurd many (not_le.mpr (by positivity))

theorem not_exhausts_of_log (unfinished : ¬divisor ∣ numerator * 10 ^ places)
    (few : Nat.log 10 (numerator * 10 ^ places / divisor) + 1 < digits) :
    ¬Exhausts digits numerator divisor places := by
  rintro (divides | many)
  · exact unfinished divides
  · have enough := Nat.log_mono_right (b := 10) many
    rw [Nat.log_pow (by decide)] at enough
    omega

/-- The quotient, its last digit rounded up if the next one is at least five. -/
def rounded (numerator divisor : ℕ) : ℕ :=
  if 5 ≤ numerator % divisor * 10 / divisor then numerator / divisor + 1
  else numerator / divisor

theorem rounded_of_dvd (divides : divisor ∣ numerator) :
    rounded numerator divisor = numerator / divisor := by
  rw [rounded, Nat.mod_eq_zero_of_dvd divides]
  simp

theorem floor_div_add_half (positive : 0 < divisor) :
    ⌊(numerator : ℚ) / divisor + 1 / 2⌋ = rounded numerator divisor := by
  have divisor_pos : (0 : ℚ) < divisor := by exact_mod_cast positive
  have split : (numerator : ℚ) / divisor =
      (numerator / divisor : ℕ) + ((numerator % divisor : ℕ) : ℚ) / divisor := by
    have whole := Nat.div_add_mod numerator divisor
    rw [eq_comm, add_comm, div_add' _ _ _ divisor_pos.ne']
    congr 1
    exact_mod_cast (by linarith [mul_comm divisor (numerator / divisor)] :
      numerator % divisor + numerator / divisor * divisor = numerator)
  have small : ((numerator % divisor : ℕ) : ℚ) / divisor < 1 :=
    (div_lt_one divisor_pos).mpr (by exact_mod_cast Nat.mod_lt _ positive)
  have nonneg : (0 : ℚ) ≤ ((numerator % divisor : ℕ) : ℚ) / divisor := by positivity
  have digit : 5 ≤ numerator % divisor * 10 / divisor ↔
      (1 : ℚ) / 2 ≤ ((numerator % divisor : ℕ) : ℚ) / divisor := by
    rw [Nat.le_div_iff_mul_le positive, div_le_div_iff₀ (by norm_num) divisor_pos]
    constructor
    · intro half
      exact_mod_cast (by omega : 1 * divisor ≤ numerator % divisor * 2)
    · intro half
      have counted : 1 * divisor ≤ numerator % divisor * 2 := by exact_mod_cast half
      omega
  rw [rounded, Int.floor_eq_iff, split, Int.cast_natCast]
  split
  · rename_i up
    have half := digit.mp up
    rw [Nat.cast_add, Nat.cast_one]
    constructor <;> linarith
  · rename_i down
    have half := not_le.mp (mt digit.mpr down)
    constructor <;> linarith

theorem roundTo_quotient (some_digit : 0 < digits) (positive : 0 < divisor)
    (stopped : divisor ∣ numerator ∨ 10 ^ (digits - 1) ≤ numerator / divisor)
    (few : numerator / divisor < 10 ^ digits) (exponent : ℤ) :
    roundTo digits ((numerator : ℚ) / divisor * 10 ^ exponent) =
      rounded numerator divisor * (10 : ℚ) ^ exponent := by
  rcases stopped with divides | many
  · have divisor_ne : (divisor : ℚ) ≠ 0 := by exact_mod_cast positive.ne'
    rw [rounded_of_dvd divides, ← Nat.cast_div divides divisor_ne]
    refine HasDigits.roundTo_eq ⟨(numerator / divisor : ℕ), exponent, ?_, by push_cast; rfl⟩
    rw [abs_of_nonneg (Int.natCast_nonneg _)]
    exact_mod_cast few
  · have divisor_pos : (0 : ℚ) < divisor := by exact_mod_cast positive
    have low : (10 : ℚ) ^ ((digits : ℤ) - 1) ≤ (numerator : ℚ) / divisor := by
      rw [le_div_iff₀ divisor_pos]
      have counted := Nat.mul_le_of_le_div _ _ _ many
      have places : ((digits : ℤ) - 1) = ((digits - 1 : ℕ) : ℤ) := by omega
      rw [places, zpow_natCast]
      exact_mod_cast counted
    have high : (numerator : ℚ) / divisor < (10 : ℚ) ^ (digits : ℤ) := by
      rw [div_lt_iff₀ divisor_pos, zpow_natCast]
      exact_mod_cast (Nat.div_lt_iff_lt_mul positive).mp few
    have power : (0 : ℚ) < 10 ^ exponent := zpow_pos (by norm_num) _
    rw [roundTo_of_leading low high, floor_div_add_half positive]
    push_cast
    rfl

end LongDivision
