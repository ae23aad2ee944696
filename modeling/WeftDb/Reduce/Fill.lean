import WeftDb.Foundation.DenseWalk
import WeftDb.Foundation.PartitionPoint
import WeftDb.Reduce.Partial

/-!
# Filling the gaps of a reduction

A reduction has a bucket only where there were samples.  A fill gives one for every step between two
bounds: the buckets which there are stay as they are, and the others have a count of zero and values
which a method makes up from the buckets around them.
-/

namespace WeftDb.Reduce

open DenseWalk

/-- How wide a bucket is: some steps of a unit. -/
structure BucketWidth where
  unit : Resolution
  count : Nat
  count_pos : 0 < count

namespace BucketWidth

def ofUnit (unit : Resolution) : BucketWidth where
  unit := unit
  count := 1
  count_pos := Nat.one_pos

variable (width : BucketWidth)

/-- The bucket of an instant. -/
def index (timestamp : Instant) : Except ReduceError Int :=
  (bucketIndex width.unit timestamp).map fun base => base / width.count

/-- The start of a bucket, if the calendar represents it. -/
def start (reducer : Reducer) (index : Int) : Option Instant :=
  if Word64.Fits (index * width.count) then bucketStart reducer width.unit (index * width.count)
  else none

end BucketWidth

/-- What the crate of the splines computes. -/
structure Splines where
  Spline : Type
  /-- The points of a spline through some knots, one for every step of a unit from one instant to
  another, each with whether it is interpolated; or why there are none. -/
  interpolate : List (Instant × Rat) → Instant → Instant → Resolution → Spline →
    Except String (List (Bool × Rat))

/-- How the values of a bucket without samples are made up. -/
inductive Fill (Spline : Type)
  | null
  | previous
  | linear
  | value (constant : Rat)
  | spline (spline : Spline)

/-- Why a fill fails. -/
inductive FillError
  /-- "buckets must be in strictly ascending grid order" -/
  | unordered
  /-- "the filled grid would hold {grid} buckets, more than the limit of {max}" -/
  | tooManyBuckets (grid max : Nat)
  /-- "a timestamp cannot be indexed at the requested resolution" -/
  | timestampRange
  /-- "a bucket start overflows the representable time range" -/
  | bucketStartOverflow
  /-- "spline fill failed: {0}" -/
  | spline (reason : String)
  deriving DecidableEq

section Gaps

variable (reducer : Reducer) (splines : Splines)

/-- The value of a reduction in a bucket. -/
def valueOf (key : String) (bucket : Bucket) : Option Rat := bucket.values.find? key

/-- Every reduction which a bucket carries. -/
def carriedKeys (buckets : List Bucket) : SortedMap String Unit :=
  buckets.foldl
    (fun keys bucket => keys.extend (bucket.values.entries.map fun entry => (entry.1, ()))) .empty

/-- The most recent value of each reduction, with its step. -/
abbrev LatestValues := SortedMap String (Int × Rat)

/-- Note the values of a bucket. -/
def noteLatest (latest : LatestValues) (entry : Int × Bucket) : LatestValues :=
  latest.extend (entry.2.values.entries.map fun value => (value.1, entry.1, value.2))

/-- The value between two others, by the steps between them. -/
def linearValue (step : Int) (before behind : Int × Rat) : Rat :=
  before.2 + reducer.divide ((behind.2 - before.2) * (step - before.1 : Int)) (behind.1 - before.1)

/-- Each reduction between its most recent value and the first one to come. -/
def linearValues (latest : LatestValues) (later : List (Int × Bucket)) (step : Int) :
    SortedMap String Rat :=
  latest.filterMap fun key before =>
    (findFirst (valueOf key) later).map fun behind => linearValue reducer step before behind

/-- Every element some places behind the one before, `skip` places from here on. -/
def stepBy {Element : Type} (per : Nat) : Nat → List Element → List Element
  | _, [] => []
  | 0, element :: elements => element :: stepBy per (per - 1) elements
  | skip + 1, _ :: elements => stepBy per skip elements

/-- The points of a reduction's spline which are interpolated, by their step. -/
def splineSteps (first : Int) (per grid : Nat) (series : List (Bool × Rat)) :
    SortedMap Int Rat :=
  let points := (stepsFrom first grid).zip (stepBy per 0 series)
  .extend .empty ((points.filter fun point => point.2.1).map fun point => (point.1, point.2.2))

/-- The knots of a reduction's spline. -/
def knots (buckets : List Bucket) (key : String) : List (Instant × Rat) :=
  buckets.filterMap fun bucket =>
    (valueOf key bucket).map fun value => (bucket.timestamp, value)

/-- The spline of a reduction, at the steps of a grid. -/
def splineByStep (buckets : List Bucket) (width : BucketWidth) (first last : Int)
    (spline : splines.Spline) (start finish : Instant) (key : String) :
    Except FillError (SortedMap Int Rat) := do
  let series ← (splines.interpolate (knots buckets key) start finish width.unit spline).mapError
    .spline
  return splineSteps first width.count (last - first + 1).toNat series

/-- The spline of each reduction. -/
def splineValues (buckets : List Bucket) (width : BucketWidth) (first last : Int)
    (spline : splines.Spline) : Except FillError (SortedMap String (SortedMap Int Rat)) :=
  match width.start reducer first, width.start reducer last with
  | some start, some finish =>
      (carriedKeys buckets).keys.foldlM (fun values key => do
        return values.insert key
          (← splineByStep splines buckets width first last spline start finish key)) .empty
  | _, _ => .error .bucketStartOverflow

/-- The reductions to which a constant is given. -/
def constantKeys (buckets : List Bucket) (method : Fill splines.Spline) : SortedMap String Unit :=
  match method with
  | .value _ => carriedKeys buckets
  | _ => .empty

/-- The splines which a method needs. -/
def methodSplines (buckets : List Bucket) (width : BucketWidth) (first last : Int)
    (method : Fill splines.Spline) : Except FillError (SortedMap String (SortedMap Int Rat)) :=
  match method with
  | .spline spline => splineValues reducer splines buckets width first last spline
  | _ => .ok .empty

/-- The values of a bucket without samples. -/
def gapValues (method : Fill splines.Spline) (keys : SortedMap String Unit)
    (splined : SortedMap String (SortedMap Int Rat)) (step : Int) (latest : LatestValues)
    (later : List (Int × Bucket)) : SortedMap String Rat :=
  match method with
  | .null => .empty
  | .value constant => keys.filterMap fun _ _ => some constant
  | .previous => latest.filterMap fun _ found => some found.2
  | .linear => linearValues reducer latest later step
  | .spline _ => splined.filterMap fun _ byStep => byStep.find? step

/-- The bucket of a step without samples. -/
def gapBucket (width : BucketWidth) (method : Fill splines.Spline) (keys : SortedMap String Unit)
    (splined : SortedMap String (SortedMap Int Rat)) (step : Int) (latest : LatestValues)
    (later : List (Int × Bucket)) : Except FillError Bucket :=
  match width.start reducer step with
  | none => .error .bucketStartOverflow
  | some timestamp =>
      .ok
        { timestamp := timestamp
          count := 0
          values := gapValues reducer splines method keys splined step latest later }

/-- Fill the steps of a grid. -/
def fillGrid (buckets : List Bucket) (steps : List Int) (width : BucketWidth) (first last : Int)
    (method : Fill splines.Spline) (maxBuckets : Nat) : Except FillError (List Bucket) :=
  if last < first then .ok []
  else
    let grid := (last - first + 1).toNat
    if maxBuckets < grid then .error (.tooManyBuckets grid maxBuckets)
    else do
      let keys := constantKeys splines buckets method
      let entries := steps.zip buckets
      let next := partitionPoint (fun step => step < first) steps
      let latest := (entries.take next).foldl noteLatest .empty
      let splined ← methodSplines reducer splines buckets width first last method
      walk noteLatest (gapBucket reducer splines width method keys splined) id grid first latest
        (entries.drop next)

/-- Fill between two steps; without one of them there are no buckets. -/
def fillBetween (buckets : List Bucket) (steps : List Int) (width : BucketWidth)
    (method : Fill splines.Spline) (maxBuckets : Nat) :
    Option Int → Option Int → Except FillError (List Bucket)
  | some first, some last =>
      fillGrid reducer splines buckets steps width first last method maxBuckets
  | _, _ => .ok []

/-- The bucket of an instant, for a fill. -/
def fillIndex (width : BucketWidth) (timestamp : Instant) : Except FillError Int :=
  (width.index timestamp).mapError fun _ => .timestampRange

/-- Fill the grid of a width between two bounds. -/
def fillWidth (buckets : List Bucket) (width : BucketWidth) (start finish : Option Instant)
    (method : Fill splines.Spline) (maxBuckets : Nat) : Except FillError (List Bucket) := do
  let steps ← buckets.mapM fun bucket => fillIndex width bucket.timestamp
  require (¬(steps.zip steps.tail).any fun pair => pair.2 ≤ pair.1) .unordered
  let first ← start.mapM (fillIndex width)
  let last ← finish.mapM (fillIndex width)
  fillBetween reducer splines buckets steps width method maxBuckets (first.or steps.head?)
    (last.or steps.getLast?)

/-- Fill the grid of a resolution. -/
def fill (buckets : List Bucket) (resolution : Resolution) (start finish : Option Instant)
    (method : Fill splines.Spline) (maxBuckets : Nat) : Except FillError (List Bucket) :=
  fillWidth reducer splines buckets (.ofUnit resolution) start finish method maxBuckets

end Gaps

end WeftDb.Reduce
