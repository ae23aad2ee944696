import WeftDb.Reduce.TimeWeighted

/-!
# Finished reductions

A bucket is finished into the reductions which were asked for.  A time-weighted average is taken on
integers where the samples allow it, and else in decimal arithmetic.
-/

namespace WeftDb.Reduce

/-- The average on integers, or else in decimal arithmetic. -/
def scaledOrDecimal (reducer : Reducer) (samples : List (Instant × BigDecimal))
    (method : TwaMethod) (bucketEnd : Option Instant) : Rat :=
  match twaScaled samples (method = .linear) bucketEnd with
  | some average => average.toRat
  | none => twaDecimal reducer (samples.map measuredSample) method bucketEnd

def timeWeightedAverage (reducer : Reducer) (samples : List (Instant × BigDecimal))
    (method : TwaMethod) (bucketEnd : Option Instant) : Option Rat :=
  match samples with
  | [] => none
  | [(_, value)] =>
      if bucketEnd.isNone then some value.toRat
      else some (scaledOrDecimal reducer samples method bucketEnd)
  | _ => some (scaledOrDecimal reducer samples method bucketEnd)

/-- The nearest-rank percentile. -/
def percentile (values : List Rat) (rank : Nat) : Option Rat :=
  let ordinal := (rank * values.length + 99) / 100
  (StableOrder.sortBy id values)[min (ordinal - 1) (values.length - 1)]?

namespace BucketAcc

/-- A reduction of a bucket. -/
def aggregate (reducer : Reducer) (resolution : Resolution) (base : Int) (acc : BucketAcc)
    (aggregation : Aggregation) : Option Rat :=
  let values := acc.samples.map fun sample => sample.2.toRat
  match aggregation with
  | .min => acc.min.map BigDecimal.toRat
  | .max => acc.max.map BigDecimal.toRat
  | .sum => some acc.sum
  | .avg => if 0 < acc.count then some (reducer.divide acc.sum acc.count) else none
  | .first => acc.first.map (·.2.toRat)
  | .last => acc.last.map (·.2.toRat)
  | .p50 => percentile values 50
  | .p90 => percentile values 90
  | .p95 => percentile values 95
  | .p99 => percentile values 99
  | .twa => timeWeightedAverage reducer acc.samples .locf none
  | .twaLinear => timeWeightedAverage reducer acc.samples .linear none
  | .twaBucketEnd =>
      (bucketStart reducer resolution (nextBase base)).bind fun finish =>
        timeWeightedAverage reducer acc.samples .locf (some finish)
  | .sketchP50 => acc.sketch.bind (reducer.quantile 50)
  | .sketchP90 => acc.sketch.bind (reducer.quantile 90)
  | .sketchP95 => acc.sketch.bind (reducer.quantile 95)
  | .sketchP99 => acc.sketch.bind (reducer.quantile 99)

/-- Note a reduction under its name, if the bucket has it. -/
def note (values : SortedMap String Rat) (aggregation : Aggregation) (value : Option Rat) :
    SortedMap String Rat :=
  value.elim values (values.insert aggregation.asStr)

/-- The reductions which were asked for. -/
def finish (reducer : Reducer) (resolution : Resolution) (base : Int)
    (aggregations : List Aggregation) (acc : BucketAcc) : Except ReduceError Bucket :=
  match bucketStart reducer resolution base with
  | none => .error .bucketStartOverflow
  | some timestamp =>
      .ok
        { timestamp := timestamp
          count := acc.count
          values := aggregations.foldl
            (fun values aggregation =>
              note values aggregation (acc.aggregate reducer resolution base aggregation))
            .empty }

end BucketAcc

/-- Finish every bucket, in ascending order. -/
def PartialReduction.finish (reducer : Reducer) (request : Request)
    (reduction : PartialReduction) : Except ReduceError (List Bucket) :=
  reduction.entries.mapM fun entry =>
    entry.2.finish reducer request.resolution entry.1 request.requested

end WeftDb.Reduce
