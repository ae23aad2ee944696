import WeftDb.Foundation.SignificantDigits
import WeftDb.Reduce.Grid

/-!
# The shape of a batch

A batch is processed in passes: its ends are levelled to zero, its locations moved to start at zero,
the points between two slopes of one sign dropped, and what is left is put relative to its extent.
Decimals are rationals, and their division keeps a hundred digits.
-/

namespace WeftDb.Shape

/-- A measured value.  The timestamp is in nanoseconds since the epoch. -/
structure Point where
  timestamp : Int
  value : ℚ
  deriving DecidableEq

/-- The quotient of two decimals, to a hundred significant digits. -/
def divide (dividend divisor : ℚ) : ℚ := SignificantDigits.roundTo 100 (dividend / divisor)

/-- A point of the plane. -/
structure MeasurementVector where
  location : ℚ
  amplitude : ℚ
  deriving DecidableEq

/-- How far a measurement lies between the ends of its batch, from the first and from the last. -/
structure BatchDistance where
  positive : ℚ
  negative : ℚ
  deriving DecidableEq

/-- A vector relative to the extent of its batch. -/
structure Relative where
  vector : MeasurementVector
  maxX : ℚ
  maxY : ℚ
  deriving DecidableEq

/-- A measurement of a batch and what the passes set on it. -/
structure BatchedMeasurement where
  point : Point
  distance : Option BatchDistance
  vector : Option MeasurementVector
  relative : Option Relative
  deriving DecidableEq

/-- Why a pass fails. -/
inductive BatchError
  /-- "Batch is empty, cannot perform level transform" -/
  | emptyLevel
  /-- "No amplitudes found in the batch" -/
  | noAmplitudes
  /-- "Distance is not set for all measurements in the batch" -/
  | distanceUnset
  /-- "Measurement vector is not set for all measurements in the batch" -/
  | vectorUnset
  /-- "No locations found in the batch" -/
  | noLocations
  /-- "Batch is empty, cannot perform simplification" -/
  | emptySimplification
  /-- "Previous measurement vector not set" -/
  | previousUnset
  /-- "Current measurement vector not set" -/
  | currentUnset
  /-- "Next measurement vector not set" -/
  | nextUnset
  /-- "Batch is empty, cannot perform relative analysis" -/
  | emptyRelative
  /-- "No valid locations or amplitudes found in measurements" -/
  | noneValid
  /-- "Cannot perform relative analysis: max_x or max_y is zero" -/
  | zeroExtent
  /-- "Location is not set for all measurements in the batch" -/
  | locationUnset
  /-- "Amplitude is not set for all measurements in the batch" -/
  | amplitudeUnset
  /-- "Batch is empty, cannot initialize measurement vectors" -/
  | emptyVectors
  /-- "Batch is empty, cannot initialize distances" -/
  | emptyDistances
  /-- "First measurement location is not set" -/
  | firstLocationUnset
  /-- "Last measurement location is not set" -/
  | lastLocationUnset
  /-- "Location range is zero, cannot initialize distances" -/
  | zeroRange
  /-- "Measurement location is not set" -/
  | measurementLocationUnset
  deriving DecidableEq

variable {α : Type}

/-- A value which must be set. -/
def expect (failure : BatchError) : Option α → Except BatchError α
  | some value => .ok value
  | none => .error failure

/-- The points of a list which have two neighbours, with them. -/
def neighbours : List α → List (α × α × α)
  | before :: point :: after :: rest => (before, point, after) :: neighbours (point :: after :: rest)
  | _ => []

/-- The first and the last of a list, and those of the middle which are kept. -/
def withEnds (points middle : List α) : List α :=
  points.head?.toList ++ middle ++ points.getLast?.toList

/-- The sign of a slope. -/
def slopeSign (slope : ℚ) : SignType :=
  match compare slope 0 with
  | .lt => -1
  | .eq => 0
  | .gt => 1

/-- The slope from one vector to the next. -/
def slope (before after : MeasurementVector) : ℚ :=
  if after.location = before.location then 0
  else divide (after.amplitude - before.amplitude) (after.location - before.location)

/-- Drop the measurements between two slopes of one sign. -/
def simplifyTransformation (batch : List BatchedMeasurement) :
    Except BatchError (List BatchedMeasurement) :=
  if batch = [] then .error .emptySimplification
  else if batch.length ≤ 2 then .ok batch
  else do
    let kept ← (neighbours batch).mapM fun (before, measurement, after) => do
      let previous ← expect .previousUnset before.vector
      let current ← expect .currentUnset measurement.vector
      let next ← expect .nextUnset after.vector
      return if SignType.sign (slope previous current) ≠ SignType.sign (slope current next) then
        some measurement else none
    return withEnds batch kept.reduceOption

/-- The vector of a measurement, where it is not set that of its point, at whole seconds. -/
def BatchedMeasurement.located (measurement : BatchedMeasurement) : MeasurementVector :=
  measurement.vector.getD
    ⟨↑(measurement.point.timestamp / Reduce.nanosPerSecond), measurement.point.value⟩

/-- Set the vectors which are not. -/
def initializeMeasurementVectors (batch : List BatchedMeasurement) :
    Except BatchError (List BatchedMeasurement) :=
  if batch = [] then .error .emptyVectors
  else .ok (batch.map fun measurement => { measurement with vector := some measurement.located })

/-- Set how far each measurement lies between the first and the last one. -/
def initializeDistances (batch : List BatchedMeasurement) :
    Except BatchError (List BatchedMeasurement) :=
  if batch = [] then .error .emptyDistances
  else do
    let first ← expect .firstLocationUnset (batch.head? >>= BatchedMeasurement.vector)
    let last ← expect .lastLocationUnset (batch.getLast? >>= BatchedMeasurement.vector)
    let locationRange := last.location - first.location
    if locationRange = 0 then .error .zeroRange
    else
      batch.mapM fun measurement => do
        let vector ← expect .measurementLocationUnset measurement.vector
        let positive := divide (vector.location - first.location) locationRange
        return { measurement with distance := some ⟨positive, 1 - positive⟩ }

/-- A new batch of some measurements.  Its construction panics where this fails. -/
def newBatch (measurements : List BatchedMeasurement) :
    Except BatchError (List BatchedMeasurement) := do
  let batch ← initializeMeasurementVectors measurements
  initializeDistances batch

/-- Move a measurement by a share of its distance. -/
def moveAmplitude (movement : ℚ) (share : BatchDistance → ℚ) (measurement : BatchedMeasurement) :
    Except BatchError BatchedMeasurement := do
  let distance ← expect .distanceUnset measurement.distance
  let amplitude := measurement.located.amplitude + movement * share distance
  let vector ← expect .vectorUnset measurement.vector
  return { measurement with vector := some { vector with amplitude := amplitude } }

/-- Move the first amplitude to zero, and each other by its distance from the last. -/
def positiveLevelTransform (batch : List BatchedMeasurement) :
    Except BatchError (List BatchedMeasurement) := do
  let first ← expect .noAmplitudes batch.head?
  batch.mapM (moveAmplitude (0 - first.located.amplitude) BatchDistance.negative)

/-- Move the last amplitude to zero, and each other by its distance from the first. -/
def negativeLevelTransform (batch : List BatchedMeasurement) :
    Except BatchError (List BatchedMeasurement) := do
  let last ← expect .noAmplitudes batch.getLast?
  batch.mapM (moveAmplitude (0 - last.located.amplitude) BatchDistance.positive)

def levelTransform (batch : List BatchedMeasurement) :
    Except BatchError (List BatchedMeasurement) :=
  if batch = [] then .error .emptyLevel
  else do
    let batch ← positiveLevelTransform batch
    negativeLevelTransform batch

/-- Move the first location to zero. -/
def transposeOrigin (batch : List BatchedMeasurement) :
    Except BatchError (List BatchedMeasurement) := do
  let first ← expect .noLocations batch.head?
  let movement := 0 - first.located.location
  batch.mapM fun measurement => do
    let location := measurement.located.location + movement
    let vector ← expect .vectorUnset measurement.vector
    return { measurement with vector := some { vector with location := location } }

/-- The difference between the highest and the lowest of some values. -/
def extent (values : List ℚ) : Option ℚ :=
  values.max?.bind fun highest => values.min?.map fun lowest => highest - lowest

/-- Put each measurement relative to the extent of the batch. -/
def relativeAnalysis (batch : List BatchedMeasurement) :
    Except BatchError (List BatchedMeasurement) :=
  if batch = [] then .error .emptyRelative
  else do
    let vectors := batch.filterMap BatchedMeasurement.vector
    let maxX ← expect .noneValid (extent (vectors.map MeasurementVector.location))
    let maxY ← expect .noneValid (extent (vectors.map MeasurementVector.amplitude))
    if maxX = 0 ∨ maxY = 0 then .error .zeroExtent
    else
      batch.mapM fun measurement => do
        let vector ← expect .locationUnset measurement.vector
        let relative := ⟨divide vector.location maxX, divide vector.amplitude maxY⟩
        return { measurement with relative := some ⟨relative, maxX, maxY⟩ }

def process (batch : List BatchedMeasurement) : Except BatchError (List BatchedMeasurement) := do
  let batch ← levelTransform batch
  let batch ← transposeOrigin batch
  let batch ← simplifyTransformation batch
  relativeAnalysis batch

/-- The pattern of some measurements: the relative vectors of their processed batch. -/
def pattern (measurements : List BatchedMeasurement) :
    Except BatchError (List MeasurementVector) := do
  let batch ← newBatch measurements
  let processed ← process batch
  return processed.filterMap fun measurement => measurement.relative.map Relative.vector

end WeftDb.Shape
