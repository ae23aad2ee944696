import WeftDb.Reduce.Partial

/-!
# Partial reductions on integers

A series whose values all fit words at one common scale is reduced on integers.  Its instants are
counted in nanoseconds, and a bucket stays open while the samples stay in its range of them.
-/

namespace WeftDb.Reduce

/-- A result of checked arithmetic. -/
def checked (value : Int) : Option Int :=
  if Word64.Fits value then some value else none

/-- The nanoseconds of an instant since the epoch, if they are computed inside a word.  Before the
epoch the second is taken from its end, so that the product does not underflow first. -/
def timestampNanosOpt (timestamp : Instant) : Option Int := do
  let seconds :=
    if timestamp.timestamp < 0 then timestamp.timestamp + 1 else timestamp.timestamp
  let subsec : Int :=
    if timestamp.timestamp < 0 then timestamp.subsecNanos - nanosPerSecond
    else timestamp.subsecNanos
  let product ← checked (seconds * nanosPerSecond)
  checked (product + subsec)

/-- The bucket of an instant given in nanoseconds. -/
def baseOf (resolution : Resolution) (nanos : Int) : Int :=
  match resolution.stepSecs with
  | some step => (nanos / nanosPerSecond).tdiv step
  | none => nanos / resolution.stepNanos

/-- The first and the last second of a bucket of whole seconds. -/
def secondRange (step base anchor : Int) : Option (Int × Int) :=
  if 0 < base then (checked (anchor + (step - 1))).map fun high => (anchor, high)
  else if base = 0 then some (-(step - 1), step - 1)
  else (checked (anchor - (step - 1))).map fun low => (low, anchor)

/-- The nanoseconds of a bucket, if they can be represented. -/
def baseRange (resolution : Resolution) (base : Int) : Option (Int × Int) :=
  match resolution.stepSecs with
  | none => do
      let low ← checked (base * resolution.stepNanos)
      let high ← checked (low + (resolution.stepNanos - 1))
      pure (low, high)
  | some step => do
      let anchor ← checked (base * step)
      let (low, high) ← secondRange step base anchor
      let first ← checked (low * nanosPerSecond)
      let product ← checked (high * nanosPerSecond)
      let last ← checked (product + (nanosPerSecond - 1))
      pure (first, last)

/-- Whether a range is known and has the nanoseconds in it. -/
def Covers (span : Option (Int × Int)) (nanos : Int) : Prop :=
  ∃ range ∈ span, range.1 ≤ nanos ∧ nanos ≤ range.2

instance (span : Option (Int × Int)) (nanos : Int) : Decidable (Covers span nanos) :=
  match span with
  | none => .isFalse fun ⟨_, member, _⟩ => by cases member
  | some range =>
      decidable_of_iff (range.1 ≤ nanos ∧ nanos ≤ range.2)
        ⟨fun within => ⟨range, rfl, within⟩,
          fun ⟨_, member, within⟩ => Option.some.inj member ▸ within⟩

/-- A point as integers, with its position in the series. -/
structure LiftedPoint where
  nanos : Int
  mantissa : Int
  scale : Nat
  position : Nat

/-- The bound of a scale which is read as an unsigned word. -/
def scaleLimit : Int := 4294967296

def liftPoint (point : Point) (position : Nat) : Option LiftedPoint := do
  let nanos ← timestampNanosOpt point.timestamp
  let mantissa ← checked point.value.mantissa
  if 0 ≤ point.value.scale ∧ point.value.scale < scaleLimit then
    pure ⟨nanos, mantissa, point.value.scale.toNat, position⟩
  else none

/-- The most decimal places to which a series is brought. -/
def maxCommonScale : Nat := 18

/-- A point brought to the common scale. -/
def LiftedPoint.rescale (common : Nat) (point : LiftedPoint) : Option LiftedPoint := do
  let mantissa ← checked (point.mantissa * 10 ^ (common - point.scale))
  pure { point with mantissa := mantissa }

/-- The greatest scale of a series. -/
def commonScale (lifted : List LiftedPoint) : Nat :=
  (lifted.map LiftedPoint.scale).foldl max 0

/-- Bring a series to the common scale: one whose points share a scale already is at it. -/
def rescaleSeries (common : Nat) (lifted : List LiftedPoint) : Option (List LiftedPoint) :=
  if lifted.any fun point => point.scale < common then lifted.mapM (·.rescale common)
  else some lifted

/-- The series as integers at one scale, with that scale. -/
def liftSeries (points : List Point) : Option (List LiftedPoint × Nat) := do
  let lifted ← points.zipIdx.mapM fun item => liftPoint item.1 item.2
  if lifted.isEmpty ∨ maxCommonScale < commonScale lifted then none
  else
    let rescaled ← rescaleSeries (commonScale lifted) lifted
    pure (rescaled, commonScale lifted)

/-- The nanoseconds of a bound, if there is one. -/
def boundNanos : Option Instant → Option (Option Int)
  | none => some none
  | some bound => (timestampNanosOpt bound).map some

/-- Whether nanoseconds lie within the bounds. -/
def InsideNanos (low high : Option Int) (nanos : Int) : Prop :=
  (∀ bound ∈ low, bound ≤ nanos) ∧ ∀ bound ∈ high, nanos ≤ bound

instance (low high : Option Int) (nanos : Int) : Decidable (InsideNanos low high nanos) :=
  inferInstanceAs (Decidable (_ ∧ _))

/-- The running state of a bucket, with the positions of the samples which it singles out. -/
structure PointAcc where
  count : Nat
  sum : Int
  maxScale : Nat
  min : Int × Nat
  max : Int × Nat
  first : Int × Nat
  last : Int × Nat

namespace PointAcc

def new (point : LiftedPoint) : PointAcc where
  count := 1
  sum := point.mantissa
  maxScale := point.scale
  min := (point.mantissa, point.position)
  max := (point.mantissa, point.position)
  first := (point.nanos, point.position)
  last := (point.nanos, point.position)

def push (acc : PointAcc) (point : LiftedPoint) : PointAcc where
  count := acc.count + 1
  sum := acc.sum + point.mantissa
  maxScale := if acc.maxScale < point.scale then point.scale else acc.maxScale
  min := if point.mantissa < acc.min.1 then (point.mantissa, point.position) else acc.min
  max := if acc.max.1 < point.mantissa then (point.mantissa, point.position) else acc.max
  first := if point.nanos < acc.first.1 then (point.nanos, point.position) else acc.first
  last := if acc.last.1 ≤ point.nanos then (point.nanos, point.position) else acc.last

/-- Fold a later run of the same bucket in. -/
def merge (acc other : PointAcc) : PointAcc where
  count := acc.count + other.count
  sum := acc.sum + other.sum
  maxScale := if acc.maxScale < other.maxScale then other.maxScale else acc.maxScale
  min := if other.min.1 < acc.min.1 then other.min else acc.min
  max := if acc.max.1 < other.max.1 then other.max else acc.max
  first := if other.first.1 < acc.first.1 then other.first else acc.first
  last := if acc.last.1 ≤ other.last.1 then other.last else acc.last

end PointAcc

/-- The bucket which is being filled: its key, its state, and its range of nanoseconds. -/
structure OpenBucket where
  key : Int
  acc : PointAcc
  span : Option (Int × Int)

/-- The closed runs in the order in which they closed, whether that is the order of their keys, and
the open bucket. -/
structure Runs where
  closed : List (Int × PointAcc)
  ordered : Bool
  current : Option OpenBucket

namespace Runs

def empty : Runs where
  closed := []
  ordered := true
  current := none

/-- Close the open bucket, if there is one. -/
def close (runs : Runs) : Runs :=
  match runs.current with
  | none => runs
  | some bucket =>
      { closed := runs.closed ++ [(bucket.key, bucket.acc)]
        ordered := runs.ordered && runs.closed.getLast?.all fun last => last.1 < bucket.key
        current := none }

/-- Open a bucket with its first sample. -/
def opened (runs : Runs) (resolution : Resolution) (point : LiftedPoint) : Runs :=
  let base := baseOf resolution point.nanos
  { runs with current := some ⟨base, .new point, baseRange resolution base⟩ }

/-- Fold one sample in. -/
def add (resolution : Resolution) (runs : Runs) (point : LiftedPoint) : Runs :=
  match runs.current with
  | none => runs.opened resolution point
  | some bucket =>
      -- A sample in the range of the open bucket is not indexed.
      if Covers bucket.span point.nanos then
        { runs with current := some { bucket with acc := bucket.acc.push point } }
      else if bucket.key = baseOf resolution point.nanos then
        { runs with current := some { bucket with acc := bucket.acc.push point } }
      else runs.close.opened resolution point

/-- The runs of the samples within the bounds. -/
def ofSeries (resolution : Resolution) (low high : Option Int) (lifted : List LiftedPoint) :
    Runs :=
  ((lifted.filter fun point => decide (InsideNanos low high point.nanos)).foldl
    (add resolution) empty).close

/-- The closed runs with each key once, in ascending order. -/
def inKeyOrder (runs : Runs) : List (Int × PointAcc) :=
  if runs.ordered then runs.closed
  else (SortedMap.mergeWith PointAcc.merge .empty runs.closed).entries

end Runs

/-- The accumulator of a bucket, without its samples and sketch. -/
def PointAcc.convert (request : Request) (points : List Point) (common : Nat)
    (acc : PointAcc) : BucketAcc where
  count := acc.count
  sum := BigDecimal.toRat
    { mantissa := acc.sum.tdiv (10 ^ (common - acc.maxScale)), scale := acc.maxScale }
  min := points[acc.min.2]?.map Point.value
  max := points[acc.max.2]?.map Point.value
  first := points[acc.first.2]?.map fun point => (point.timestamp, point.value)
  last := points[acc.last.2]?.map fun point => (point.timestamp, point.value)
  samples := []
  collect := request.collecting
  sketch := if request.sketching then some .withDefaultAccuracy else none

/-- The accumulators of the buckets, without their samples and sketches. -/
def Runs.convert (request : Request) (points : List Point) (common : Nat) (runs : Runs) :
    PartialReduction :=
  SortedMap.mergeWith (fun _ later => later) .empty
    (runs.inKeyOrder.map fun entry => (entry.1, entry.2.convert request points common))

/-- The buckets, and the bucket of the sample before with its range. -/
structure Filling where
  buckets : PartialReduction
  current : Option (Int × Option (Int × Int))

/-- Fold a sample into the sketch and the samples of its bucket. -/
def fillPoint (reducer : Reducer) (request : Request) (low high : Option Int) (filling : Filling)
    (point : Point × LiftedPoint) : Except ReduceError Filling :=
  if InsideNanos low high point.2.nanos then
    let known := filling.current.filter fun bucket => decide (Covers bucket.2 point.2.nanos)
    let base := (known.map Prod.fst).getD (baseOf request.resolution point.2.nanos)
    match filling.buckets.find? base with
    | none => .ok filling
    | some acc => do
        let sketch ← BucketAcc.foldSketch reducer point.1.value acc.sketch
        let samples :=
          if request.collecting then acc.samples ++ [(point.1.timestamp, point.1.value)]
          else acc.samples
        pure
          { buckets := filling.buckets.insert base { acc with sketch := sketch, samples := samples }
            current := some (known.getD (base, baseRange request.resolution base)) }
  else .ok filling

/-- The reduction on integers, or nothing if the series does not fit them. -/
def reducePartialPoints (reducer : Reducer) (request : Request) (points : List Point) :
    Except ReduceError (Option PartialReduction) :=
  match liftSeries points, boundNanos request.start, boundNanos request.finish with
  | some (lifted, common), some low, some high => do
      let runs := Runs.ofSeries request.resolution low high lifted
      let converted := runs.convert request points common
      if request.sketching ∨ request.collecting then do
        let filled ← (points.zip lifted).foldlM (fillPoint reducer request low high)
          { buckets := converted, current := none }
        pure (some filled.buckets)
      else pure (some converted)
  | _, _, _ => .ok none

/-- The reduction on integers where the series fits them, and in decimal arithmetic otherwise. -/
def reducePartial (reducer : Reducer) (request : Request) (points : List Point) :
    Except ReduceError PartialReduction := do
  match ← reducePartialPoints reducer request points with
  | some reduction => pure reduction
  | none => reducePartialDecimal reducer request points

end WeftDb.Reduce
