import Mathlib.Order.Defs.LinearOrder
import Mathlib.Order.Lattice

/-!
# Instants of the clock

An instant is a whole second with the nanoseconds into it.  A leap second is not a second of its
own: it lengthens the one before it, whose nanoseconds then run to two thousand million.
-/

/-- An instant in time. -/
@[ext]
structure Instant where
  /-- The whole seconds since the epoch. -/
  timestamp : Int
  subsecNanos : Nat
  bounded : subsecNanos < 2000000000
  deriving DecidableEq

namespace Instant

/-- The instant at which a second begins. -/
def ofSeconds (timestamp : Int) : Instant where
  timestamp := timestamp
  subsecNanos := 0
  bounded := by decide

/-- Whether an instant lies in a leap second. -/
def IsLeap (instant : Instant) : Prop :=
  1000000000 ≤ instant.subsecNanos

instance (instant : Instant) : Decidable instant.IsLeap :=
  inferInstanceAs (Decidable (_ ≤ _))

/-- The milliseconds since the epoch, rounded down. -/
def timestampMillis (instant : Instant) : Int :=
  instant.timestamp * 1000 + (instant.subsecNanos / 1000000 : Nat)

/-- The nanoseconds since the epoch. -/
def timestampNanos (instant : Instant) : Int :=
  instant.timestamp * 1000000000 + instant.subsecNanos

/-- The instant a number of nanoseconds after the epoch. -/
def ofNanos (nanos : Int) : Instant where
  timestamp := nanos / 1000000000
  subsecNanos := (nanos % 1000000000).toNat
  bounded := by omega

/-- Seconds decide, then the nanoseconds. -/
def Before (left right : Instant) : Prop :=
  left.timestamp < right.timestamp ∨
    left.timestamp = right.timestamp ∧ left.subsecNanos ≤ right.subsecNanos

instance : LE Instant where
  le := Before

variable {left right : Instant}

theorem le_iff :
    left ≤ right ↔
      left.timestamp < right.timestamp ∨
        left.timestamp = right.timestamp ∧ left.subsecNanos ≤ right.subsecNanos :=
  Iff.rfl

instance (left right : Instant) : Decidable (left ≤ right) :=
  inferInstanceAs (Decidable (_ ∨ _))

instance : LinearOrder Instant where
  le_refl instant := .inr ⟨rfl, le_refl _⟩
  le_trans := by
    intro first second third
    simp only [le_iff]
    omega
  le_antisymm := by
    intro left right
    simp only [le_iff, Instant.ext_iff]
    omega
  le_total := by
    intro left right
    simp only [le_iff]
    omega
  toDecidableLE := inferInstance

theorem lt_iff :
    left < right ↔
      left.timestamp < right.timestamp ∨
        left.timestamp = right.timestamp ∧ left.subsecNanos < right.subsecNanos := by
  rw [lt_iff_le_not_ge, le_iff, le_iff]
  omega

theorem timestampNanos_le_iff (left_plain : ¬ left.IsLeap) (right_plain : ¬ right.IsLeap) :
    left.timestampNanos ≤ right.timestampNanos ↔ left ≤ right := by
  simp only [IsLeap, timestampNanos, le_iff] at *
  omega

end Instant
