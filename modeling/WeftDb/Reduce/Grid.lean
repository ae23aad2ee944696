import WeftDb.Foundation.Instant
import WeftDb.Physical.Encoding

/-!
# Points and the grid of their buckets

A bucket is a step of the grid at a resolution.  Below a second the steps are counted in
nanoseconds and rounded down, from a second up in whole seconds and rounded towards the epoch.
-/

namespace WeftDb.Reduce

/-- A measurement. -/
structure Point where
  timestamp : Instant
  value : BigDecimal
  deriving DecidableEq

/-- Why a reduction fails. -/
inductive ReduceError
  /-- "a timestamp cannot be indexed at the requested resolution" -/
  | timestampRange
  /-- "a bucket start overflows the representable time range" -/
  | bucketStartOverflow
  /-- "a value cannot be represented in the quantile sketch" -/
  | sketchValue
  deriving DecidableEq

inductive Resolution
  | nanoseconds
  | microseconds
  | milliseconds
  | seconds
  | minutes
  | hours
  | days
  | weeks
  | months
  | years
  deriving DecidableEq

/-- The nanoseconds of a second. -/
def nanosPerSecond : Int := 1000000000

namespace Resolution

/-- How long a step lasts, in nanoseconds: a month has 30 days and a year 365. -/
def stepNanos : Resolution → Int
  | nanoseconds => 1
  | microseconds => 1000
  | milliseconds => 1000000
  | seconds => nanosPerSecond
  | minutes => 60 * nanosPerSecond
  | hours => 3600 * nanosPerSecond
  | days => 86400 * nanosPerSecond
  | weeks => 604800 * nanosPerSecond
  | months => 2592000 * nanosPerSecond
  | years => 31536000 * nanosPerSecond

/-- How long a step lasts in whole seconds, from a second up. -/
def stepSecs (resolution : Resolution) : Option Int :=
  if nanosPerSecond ≤ resolution.stepNanos ∧ resolution.stepNanos % nanosPerSecond = 0 then
    some (resolution.stepNanos / nanosPerSecond)
  else none

theorem stepNanos_pos (resolution : Resolution) : 0 < resolution.stepNanos := by
  cases resolution <;> decide

theorem stepSecs_pos {resolution : Resolution} {step : Int}
    (whole : resolution.stepSecs = some step) : 0 < step := by
  unfold stepSecs at whole
  split at whole
  · rename_i second
    cases whole
    have positive : 0 < nanosPerSecond := by decide
    exact Int.ediv_pos_of_pos_of_dvd resolution.stepNanos_pos positive.le
      (Int.dvd_of_emod_eq_zero second.2)
  · cases whole

end Resolution

/-- The bucket of an instant. -/
def bucketIndex (resolution : Resolution) (timestamp : Instant) : Except ReduceError Int :=
  match resolution.stepSecs with
  | some step => .ok (timestamp.timestamp.tdiv step)
  | none =>
      let index := timestamp.timestampNanos / resolution.stepNanos
      if Word64.Fits index then .ok index else .error .timestampRange

end WeftDb.Reduce
