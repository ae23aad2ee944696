import Mathlib.Algebra.Order.Group.Int
import Mathlib.Order.Basic
import Mathlib.Order.Lattice
import Mathlib.Tactic.Linarith

/-!
# Machine integers

The range of an `i64`, the arithmetic which stays inside it by saturating, and division which rounds
towards zero.
-/

namespace Word64

/-- The least value of a word. -/
def least : Int := -9223372036854775808

/-- The greatest value of a word. -/
def greatest : Int := 9223372036854775807

/-- Whether a value is one of a word. -/
def Fits (value : Int) : Prop :=
  least ≤ value ∧ value ≤ greatest

instance (value : Int) : Decidable (Fits value) :=
  inferInstanceAs (Decidable (_ ∧ _))

/-- The word nearest to a value. -/
def saturate (value : Int) : Int :=
  max least (min greatest value)

/-- The difference of two words, saturating at the ends of the range. -/
def saturatingSub (left right : Int) : Int :=
  saturate (left - right)

theorem saturate_of_fits {value : Int} (fits : Fits value) : saturate value = value := by
  obtain ⟨low, high⟩ := fits
  simp only [saturate]
  omega

theorem saturatingSub_le {left right value : Int} (fits : Fits value)
    (below : left - right ≤ value) : saturatingSub left right ≤ value := by
  simp only [Fits, least, greatest] at fits
  simp only [saturatingSub, saturate, least, greatest]
  omega

end Word64

/-!
## Truncating division on a grid

Rounded towards zero, the quotients of a whole step below zero and of a whole step above it are one.
So the comparison of a quotient with an index is that of the dividend with the grid point of the
index, but for index zero.
-/

namespace TruncatedDiv

variable {step : Int}
variable {value : Int}

theorem ediv_eq_zero_iff (positive : 0 < step) (nonneg : 0 ≤ value) :
    value / step = 0 ↔ value < step := by
  constructor
  · intro zero
    have below := (Int.ediv_lt_iff_lt_mul positive).mp (show value / step < 1 by omega)
    omega
  · exact Int.ediv_eq_zero_of_lt nonneg

theorem le_tdiv_iff (positive : 0 < step) {index : Int} (nonneg : 0 ≤ index) :
    index ≤ value.tdiv step ↔ index * step ≤ value ∨ index = 0 ∧ -step < value := by
  have product : 0 ≤ index * step := mul_nonneg nonneg positive.le
  by_cases sign : 0 ≤ value
  · rw [Int.tdiv_eq_ediv_of_nonneg sign, Int.le_ediv_iff_mul_le positive]
    constructor
    · exact .inl
    · rintro (below | ⟨rfl, -⟩)
      · exact below
      · omega
  · have opposite : 0 ≤ -value := by omega
    have quotient := Int.ediv_nonneg opposite positive.le
    have zero := ediv_eq_zero_iff positive opposite
    rw [← neg_neg value, Int.neg_tdiv, Int.tdiv_eq_ediv_of_nonneg opposite]
    omega

theorem tdiv_lt_iff (positive : 0 < step) {index : Int} (nonneg : 0 ≤ index) :
    value.tdiv step < index ↔ value < index * step ∧ ¬(index = 0 ∧ -step < value) := by
  rw [← not_le, le_tdiv_iff positive nonneg, not_or, not_le]

end TruncatedDiv

namespace Fnv1a

def new : UInt64 := 0xcbf29ce484222325

/-- Absorb one byte. -/
def byte (hash : UInt64) (input : UInt8) : UInt64 :=
  (hash ^^^ input.toUInt64) * 0x00000100000001b3

/-- Absorb bytes in order. -/
def feed (hash : UInt64) (input : List UInt8) : UInt64 :=
  input.foldl byte hash

end Fnv1a
