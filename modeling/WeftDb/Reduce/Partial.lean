import Mathlib.Data.String.Basic
import WeftDb.Foundation.StableOrder
import WeftDb.Reduce.Grid
import WeftDb.Reduce.Sketch

/-!
# Partial reductions

A reduction folds its points into one accumulator for each bucket.  The accumulators of parts of a
series can be merged.
-/

namespace WeftDb.Reduce

inductive Aggregation
  | min
  | max
  | avg
  | sum
  | first
  | last
  | p50
  | p90
  | p95
  | p99
  | twa
  | twaLinear
  | twaBucketEnd
  | sketchP50
  | sketchP90
  | sketchP95
  | sketchP99
  deriving DecidableEq

namespace Aggregation

/-- The reductions of a request which names none. -/
def default : List Aggregation := [.min, .max, .avg]

def asStr : Aggregation → String
  | min => "min"
  | max => "max"
  | avg => "avg"
  | sum => "sum"
  | first => "first"
  | last => "last"
  | p50 => "p50"
  | p90 => "p90"
  | p95 => "p95"
  | p99 => "p99"
  | twa => "twa"
  | twaLinear => "twa_linear"
  | twaBucketEnd => "twa_bucket_end"
  | sketchP50 => "sketch_p50"
  | sketchP90 => "sketch_p90"
  | sketchP95 => "sketch_p95"
  | sketchP99 => "sketch_p99"

def percentileRank : Aggregation → Option Nat
  | p50 => some 50
  | p90 => some 90
  | p95 => some 95
  | p99 => some 99
  | _ => none

/-- The quantile which is read from the sketch, in percent. -/
def sketchQuantile : Aggregation → Option Nat
  | sketchP50 => some 50
  | sketchP90 => some 90
  | sketchP95 => some 95
  | sketchP99 => some 99
  | _ => none

/-- Whether all samples of a bucket are needed. -/
def needsFullBucket (aggregation : Aggregation) : Bool :=
  aggregation.percentileRank.isSome ||
    match aggregation with
    | twa | twaLinear | twaBucketEnd => true
    | _ => false

end Aggregation

/-- A resolution, the bounds of the points, and the reductions. -/
structure Request where
  resolution : Resolution
  start : Option Instant
  finish : Option Instant
  aggregations : List Aggregation

namespace Request

variable (request : Request)

/-- The reductions which the request stands for. -/
def requested : List Aggregation :=
  if request.aggregations.isEmpty then Aggregation.default else request.aggregations

/-- Whether the samples are kept. -/
def collecting : Bool :=
  request.requested.any (·.needsFullBucket)

/-- Whether the samples are sketched. -/
def sketching : Bool :=
  request.requested.any (·.sketchQuantile.isSome)

end Request

/-- What the crates under the reduction compute. -/
structure Reducer where
  /-- The quotient of two decimals, to the precision of their division. -/
  divide : Rat → Int → Rat
  /-- The sketch bucket of the number which is nearest to a decimal in floating point. -/
  bin : Rat → Option SketchBin
  /-- The value which a sketch reports for a percentage of its samples. -/
  quantile : Nat → DdSketch → Option Rat
  /-- The milliseconds from one instant to a later one. -/
  milliseconds : Instant → Instant → Int
  /-- The seconds of the first and the last instant which the calendar represents. -/
  firstSecond : Int
  lastSecond : Int

/-- The running state of a bucket. -/
@[ext]
structure BucketAcc where
  count : Nat
  sum : Rat
  min : Option BigDecimal
  max : Option BigDecimal
  first : Option (Instant × BigDecimal)
  last : Option (Instant × BigDecimal)
  samples : List (Instant × BigDecimal)
  collect : Bool
  sketch : Option DdSketch

/-! Of two equal values the earlier one is kept as the least and as the greatest.  Of two samples at
one instant the first sample is the earlier one, and the last sample the later one. -/

def leastValue : Preference BigDecimal := .least BigDecimal.toRat

def greatestValue : Preference BigDecimal := .greatest BigDecimal.toRat

def firstSample : Preference (Instant × BigDecimal) := .least Prod.fst

def lastSample : Preference (Instant × BigDecimal) := .latest Prod.fst

namespace BucketAcc

def new (collect : Bool) (sketch : Option DdSketch) : BucketAcc where
  count := 0
  sum := 0
  min := none
  max := none
  first := none
  last := none
  samples := []
  collect := collect
  sketch := sketch

/-- Fold a value into the sketch, if there is one. -/
def foldSketch (reducer : Reducer) (value : BigDecimal) :
    Option DdSketch → Except ReduceError (Option DdSketch)
  | none => .ok none
  | some sketch =>
      match reducer.bin value.toRat with
      | none => .error .sketchValue
      | some bin => .ok (some (sketch.add bin))

/-- Fold a sample in. -/
def push (reducer : Reducer) (acc : BucketAcc) (timestamp : Instant) (value : BigDecimal) :
    Except ReduceError BucketAcc := do
  let sketch ← foldSketch reducer value acc.sketch
  pure
    { count := acc.count + 1
      sum := acc.sum + value.toRat
      min := leastValue.pick acc.min value
      max := greatestValue.pick acc.max value
      first := firstSample.pick acc.first (timestamp, value)
      last := lastSample.pick acc.last (timestamp, value)
      samples := if acc.collect then acc.samples ++ [(timestamp, value)] else acc.samples
      collect := acc.collect
      sketch := sketch }

/-- Fold the state of the same bucket of another part in. -/
def merge (acc other : BucketAcc) : BucketAcc where
  count := acc.count + other.count
  sum := acc.sum + other.sum
  min := leastValue.combine acc.min other.min
  max := greatestValue.combine acc.max other.max
  first := firstSample.combine acc.first other.first
  last := lastSample.combine acc.last other.last
  samples := acc.samples ++ other.samples
  collect := acc.collect
  sketch :=
    match acc.sketch, other.sketch with
    | some mine, some theirs => some (mine.merge theirs)
    | none, some theirs => some theirs
    | mine, none => mine

end BucketAcc

/-- The accumulators of the buckets which are not empty. -/
abbrev PartialReduction := SortedMap Int BucketAcc

/-- Fold another partial in. -/
def PartialReduction.merge (reduction other : PartialReduction) : PartialReduction :=
  reduction.mergeWith BucketAcc.merge other.entries

/-- Whether an instant lies within the bounds. -/
def Request.Inside (request : Request) (timestamp : Instant) : Prop :=
  (∀ bound ∈ request.start, bound ≤ timestamp) ∧ ∀ bound ∈ request.finish, timestamp ≤ bound

instance (request : Request) (timestamp : Instant) : Decidable (request.Inside timestamp) :=
  inferInstanceAs (Decidable (_ ∧ _))

/-- The accumulator of a bucket before its first sample. -/
def Request.newAcc (request : Request) : BucketAcc :=
  .new request.collecting (if request.sketching then some .withDefaultAccuracy else none)

/-- Fold one point into its bucket. -/
def foldPoint (reducer : Reducer) (request : Request) (buckets : PartialReduction)
    (point : Point) : Except ReduceError PartialReduction :=
  if request.Inside point.timestamp then do
    let base ← bucketIndex request.resolution point.timestamp
    let acc := (buckets.find? base).getD request.newAcc
    let pushed ← acc.push reducer point.timestamp point.value
    pure (buckets.insert base pushed)
  else pure buckets

/-- The reduction in decimal arithmetic. -/
def reducePartialDecimal (reducer : Reducer) (request : Request) (points : List Point) :
    Except ReduceError PartialReduction :=
  points.foldlM (foldPoint reducer request) .empty

/-- A bucket with the reductions which were asked for, by name. -/
@[ext]
structure Bucket where
  timestamp : Instant
  count : Nat
  values : SortedMap String Rat

/-- How the span between two samples is valued: by the first of them, or by their mean. -/
inductive TwaMethod
  | locf
  | linear
  deriving DecidableEq

/-- The weighted sum of the spans between consecutive samples, and their length. -/
def spanWeights (reducer : Reducer) (method : TwaMethod) : List (Instant × Rat) → Rat × Int
  | first :: second :: later =>
      let (weighted, total) := spanWeights reducer method (second :: later)
      let duration := max (reducer.milliseconds first.1 second.1) 0
      let value :=
        match method with
        | .locf => first.2
        | .linear => reducer.divide (first.2 + second.2) 2
      if 0 < duration then (weighted + value * duration, total + duration) else (weighted, total)
  | _ => (0, 0)

/-- The time-weighted average of two or more samples, or up to the end of the bucket. -/
def twaDecimal (reducer : Reducer) (samples : List (Instant × Rat)) (method : TwaMethod)
    (bucketEnd : Option Instant) : Rat :=
  let ordered := StableOrder.sortBy Prod.fst samples
  let (weighted, total) := spanWeights reducer method ordered
  -- The last sample has no successor; the end of the bucket, if it counts, takes its place.
  let dwell :=
    match bucketEnd, ordered.getLast? with
    | some finish, some last => max (reducer.milliseconds last.1 finish) 0
    | _, _ => 0
  let held := (ordered.getLast?.map Prod.snd).getD 0
  if total + dwell = 0 then reducer.divide (samples.map Prod.snd).sum samples.length
  else reducer.divide (weighted + held * dwell) (total + dwell)

/-- The start of a bucket. -/
def bucketStart (reducer : Reducer) (resolution : Resolution) (base : Int) : Option Instant :=
  let timestamp := Instant.ofNanos (base * resolution.stepNanos)
  if reducer.firstSecond ≤ timestamp.timestamp ∧ timestamp.timestamp ≤ reducer.lastSecond then
    some timestamp
  else none

/-- The next bucket, wrapping at the end of the word. -/
def nextBase (base : Int) : Int :=
  if base = Word64.greatest then Word64.least else base + 1

end WeftDb.Reduce
