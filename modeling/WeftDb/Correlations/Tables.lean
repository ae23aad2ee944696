import WeftDb.Foundation.PlainText
import WeftDb.Foundation.TextCodec
import WeftDb.Reduce.Grid

/-!
# Correlations and their tables

A correlation is a row of one table, its error rates and its occurrences are rows of two more.  It
is written by an insertion, which appends rows, and by updates, which change the row of the
correlation and put new rows in place of the others; it is read from the rows of its id.  No table
has an index, so nothing keeps an id from being inserted twice.
-/

namespace WeftDb.Correlations

open Reduce (Resolution)

/-- The first second of the calendar, that of the year -262143. -/
def firstSecond : Int := -8334601228800

/-- The last second of the calendar, that of the year 262142. -/
def lastSecond : Int := 8210266876799

/-- An instant of the calendar. -/
structure DateTime where
  instant : Instant
  first_le : firstSecond ≤ instant.timestamp
  le_last : instant.timestamp ≤ lastSecond
  deriving DecidableEq

namespace DateTime

/-- The milliseconds since the epoch. -/
def timestampMillis (date : DateTime) : Int := date.instant.timestampMillis

/-- The seconds since the epoch. -/
def timestamp (date : DateTime) : Int := date.instant.timestamp

/-- The date so many milliseconds after the epoch. -/
def fromTimestampMillis (millis : Int) : Option DateTime :=
  if calendar : firstSecond ≤ millis / 1000 ∧ millis / 1000 ≤ lastSecond then
    some {
      instant := {
        timestamp := millis / 1000
        subsecNanos := (millis % 1000).toNat * 1000000
        bounded := by omega }
      first_le := calendar.1
      le_last := calendar.2 }
  else none

/-- Whether a date is a whole number of milliseconds after the epoch. -/
def IsMillisecond (date : DateTime) : Prop :=
  ¬ date.instant.IsLeap ∧ 1000000 ∣ date.instant.subsecNanos

instance (date : DateTime) : Decidable date.IsMillisecond :=
  inferInstanceAs (Decidable (_ ∧ _))

end DateTime

inductive SignalType
  | predictStart
  | predictMid
  | predictEnd
  deriving DecidableEq

namespace SignalType

def name : SignalType → List Char
  | predictStart => "PredictStart".toList
  | predictMid => "PredictMid".toList
  | predictEnd => "PredictEnd".toList

def toString (signal_type : SignalType) : String :=
  String.ofList ("Custom(".toList ++ signal_type.name ++ [')'])

/-- Both "Custom(X)" and "X" are read. -/
def fromStr (text : String) : Option SignalType :=
  let type_name := ((PlainText.stripPrefix "Custom(".toList text.toList).bind
    (PlainText.stripSuffix [')'])).getD text.toList
  [predictStart, predictMid, predictEnd].find? (·.name = type_name)

def codec : TextCodec SignalType where
  render := toString
  parse := fromStr
  parse_render signal_type := by cases signal_type <;> decide

end SignalType

structure Distance (Decimal : Type) where
  value : Decimal
  units : Resolution
  deriving DecidableEq

structure Occurrence (Id Info : Type) where
  aspect : Id
  resolution : Resolution
  size : Nat
  databaseInfo : Info
  patternId : Id
  beginning : DateTime
  «end» : DateTime
  deriving DecidableEq

structure CorrelationKeys (Id : Type) where
  dictionaryId : Id
  subjectId : Id
  aspectId : Id
  patternId : Id
  eventId : Id
  deriving DecidableEq

@[ext]
structure Correlation (Id Decimal Info : Type) where
  id : Id
  keys : CorrelationKeys Id
  errorRate : SignalType → Option (Distance Decimal)
  occurrences : List (Occurrence Id Info)
  averageDistance : Option (Distance Decimal)

structure CorrelationRow where
  id : String
  dictionaryId : String
  subjectId : String
  aspectId : String
  patternId : String
  eventId : String
  averageDistanceValue : Option String
  averageDistanceUnits : Option String
  createdAt : Int
  updatedAt : Int
  deriving DecidableEq

structure ErrorRateRow where
  correlationId : String
  signalType : String
  errorRateValue : String
  errorRateUnits : String
  deriving DecidableEq

structure OccurrenceRow where
  correlationId : String
  occurrenceIndex : Int
  aspectId : String
  resolution : String
  size : Int
  databaseInfo : String
  patternId : String
  beginningTimestamp : Int
  endTimestamp : Int
  deriving DecidableEq

/-- The tables of an aspect, each in the order of insertion. -/
structure Tables where
  correlations : List CorrelationRow
  errorRates : List ErrorRateRow
  occurrences : List OccurrenceRow

/-- How what a correlation is made of is kept as text. -/
structure Codecs (Id Decimal Info : Type) where
  id : TextCodec Id
  decimal : TextCodec Decimal
  resolution : TextCodec Resolution
  databaseInfo : TextCodec Info

/-- The order in which a hash map yields its entries. -/
structure HashOrder where
  signals : List SignalType
  nodup : signals.Nodup
  complete : ∀ signal_type, signal_type ∈ signals

inductive WriteError
  /-- "Occurrence index too large for i64" -/
  | occurrenceIndexTooLarge
  /-- "Occurrence size too large for i64" -/
  | occurrenceSizeTooLarge
  deriving DecidableEq

inductive ReadError
  /-- "Correlation with ID {correlation_id} not found" -/
  | notFound
  /-- `Error::InvalidIdError`, with what the id is of -/
  | invalidId (kind : String)
  /-- `Error::DatabaseError` -/
  | databaseError (message : String)
  deriving DecidableEq

variable {Id Decimal Info : Type} (codecs : Codecs Id Decimal Info)

/-- An integer as one of 64 bits. -/
def toI64 (number : Nat) (failure : WriteError) : Except WriteError Int :=
  if number < 2 ^ 63 then .ok number else .error failure

/-- The rows of the error rates, in the order in which the map yields them. -/
def errorRateRows (order : HashOrder) (correlation : Correlation Id Decimal Info) :
    List ErrorRateRow :=
  (order.signals.filterMap fun signal_type =>
    (correlation.errorRate signal_type).map (signal_type, ·)).map fun (signal_type, distance) =>
      { correlationId := codecs.id.render correlation.id
        signalType := signal_type.toString
        errorRateValue := codecs.decimal.render distance.value
        errorRateUnits := codecs.resolution.render distance.units }

/-- The rows of the occurrences, with the times in some unit. -/
def occurrenceRows (unit : DateTime → Int) (correlation : Correlation Id Decimal Info) :
    Except WriteError (List OccurrenceRow) :=
  correlation.occurrences.zipIdx.mapM fun (occurrence, index) => do
    let occurrence_index ← toI64 index .occurrenceIndexTooLarge
    let size ← toI64 occurrence.size .occurrenceSizeTooLarge
    return {
      correlationId := codecs.id.render correlation.id
      occurrenceIndex := occurrence_index
      aspectId := codecs.id.render occurrence.aspect
      resolution := codecs.resolution.render occurrence.resolution
      size := size
      databaseInfo := codecs.databaseInfo.render occurrence.databaseInfo
      patternId := codecs.id.render occurrence.patternId
      beginningTimestamp := unit occurrence.beginning
      endTimestamp := unit occurrence.end }

def insertCorrelation (created_at updated_at : Int) (order : HashOrder)
    (correlation : Correlation Id Decimal Info) (tables : Tables) : Except WriteError Tables := do
  let row : CorrelationRow := {
    id := codecs.id.render correlation.id
    dictionaryId := codecs.id.render correlation.keys.dictionaryId
    subjectId := codecs.id.render correlation.keys.subjectId
    aspectId := codecs.id.render correlation.keys.aspectId
    patternId := codecs.id.render correlation.keys.patternId
    eventId := codecs.id.render correlation.keys.eventId
    averageDistanceValue := correlation.averageDistance.map (codecs.decimal.render ·.value)
    averageDistanceUnits := correlation.averageDistance.map (codecs.resolution.render ·.units)
    createdAt := created_at
    updatedAt := updated_at }
  let occurrences ← occurrenceRows codecs DateTime.timestampMillis correlation
  return {
    correlations := tables.correlations ++ [row]
    errorRates := tables.errorRates ++ errorRateRows codecs order correlation
    occurrences := tables.occurrences ++ occurrences }

def updateCorrelation (updated_at : Int) (order : HashOrder)
    (correlation : Correlation Id Decimal Info) (tables : Tables) : Except WriteError Tables := do
  let id := codecs.id.render correlation.id
  let update (row : CorrelationRow) : CorrelationRow := { row with
    dictionaryId := codecs.id.render correlation.keys.dictionaryId
    subjectId := codecs.id.render correlation.keys.subjectId
    aspectId := codecs.id.render correlation.keys.aspectId
    patternId := codecs.id.render correlation.keys.patternId
    eventId := codecs.id.render correlation.keys.eventId
    averageDistanceValue := correlation.averageDistance.map (codecs.decimal.render ·.value)
    averageDistanceUnits := correlation.averageDistance.map (codecs.resolution.render ·.units)
    updatedAt := updated_at }
  let occurrences ← occurrenceRows codecs DateTime.timestamp correlation
  return {
    correlations := tables.correlations.map fun row => if row.id = id then update row else row
    errorRates := tables.errorRates.filter (·.correlationId ≠ id) ++
      errorRateRows codecs order correlation
    occurrences := tables.occurrences.filter (·.correlationId ≠ id) ++ occurrences }

/-- Read a text or fail. -/
def parseOr {α : Type} (codec : TextCodec α) (failure : ReadError) (text : String) :
    Except ReadError α :=
  match codec.parse text with
  | some value => .ok value
  | none => .error failure

/-- The average distance, unless it is missing or unreadable. -/
def parseAverageDistance : Option String → Option String → Option (Distance Decimal)
  | some value, some units => do
      return { value := ← codecs.decimal.parse value, units := ← codecs.resolution.parse units }
  | _, _ => none

def parseCorrelationRow (row : CorrelationRow) :
    Except ReadError (Id × CorrelationKeys Id × Option (Distance Decimal)) := do
  let id ← parseOr codecs.id (.invalidId "correlation") row.id
  let dictionaryId ← parseOr codecs.id (.invalidId "dictionary") row.dictionaryId
  let subjectId ← parseOr codecs.id (.invalidId "subject") row.subjectId
  let aspectId ← parseOr codecs.id (.invalidId "aspect") row.aspectId
  let patternId ← parseOr codecs.id (.invalidId "pattern") row.patternId
  let eventId ← parseOr codecs.id (.invalidId "event") row.eventId
  return (id, { dictionaryId, subjectId, aspectId, patternId, eventId },
    parseAverageDistance codecs row.averageDistanceValue row.averageDistanceUnits)

/-- Put the error rate of a row into the map. -/
def readErrorRate (error_rate : SignalType → Option (Distance Decimal)) (row : ErrorRateRow) :
    Except ReadError (SignalType → Option (Distance Decimal)) := do
  let value ← parseOr codecs.decimal (.databaseError "Invalid error rate value format")
    row.errorRateValue
  let units ← parseOr codecs.resolution (.databaseError "Invalid error rate units format")
    row.errorRateUnits
  let signal_type ← parseOr SignalType.codec (.databaseError "Invalid error type format")
    row.signalType
  return putEntry error_rate (signal_type, { value, units })

def loadCorrelationErrorRates (tables : Tables) (correlation_id : Id) :
    Except ReadError (SignalType → Option (Distance Decimal)) :=
  (tables.errorRates.filter (·.correlationId = codecs.id.render correlation_id)).foldlM
    (readErrorRate codecs) fun _ => none

/-- An integer as a natural number. -/
def toUsize (number : Int) (failure : ReadError) : Except ReadError Nat :=
  if 0 ≤ number then .ok number.toNat else .error failure

/-- A date from its milliseconds. -/
def toDate (millis : Int) (failure : ReadError) : Except ReadError DateTime :=
  match DateTime.fromTimestampMillis millis with
  | some date => .ok date
  | none => .error failure

/-- Put the occurrence of a row into the map. -/
def readOccurrence (occ_map : SortedMap Nat (Occurrence Id Info)) (row : OccurrenceRow) :
    Except ReadError (SortedMap Nat (Occurrence Id Info)) := do
  let occ_index ← toUsize row.occurrenceIndex (.databaseError "Occurrence index out of range")
  let size ← toUsize row.size (.databaseError "Occurrence size out of range")
  let aspect ← parseOr codecs.id (.invalidId "occurrence Aspect") row.aspectId
  let resolution ← parseOr codecs.resolution (.databaseError "Invalid resolution format")
    row.resolution
  let databaseInfo ← parseOr codecs.databaseInfo
    (.databaseError "Failed to parse occurrence database info JSON") row.databaseInfo
  let patternId ← parseOr codecs.id (.invalidId "occurrence Pattern") row.patternId
  let beginning ← toDate row.beginningTimestamp (.databaseError "Invalid beginning timestamp")
  let finish ← toDate row.endTimestamp (.databaseError "Invalid end timestamp")
  return occ_map.insert occ_index
    { aspect, resolution, size, databaseInfo, patternId, beginning, «end» := finish }

def loadCorrelationOccurrences (tables : Tables) (correlation_id : Id) :
    Except ReadError (List (Occurrence Id Info)) := do
  let occ_map ←
    (tables.occurrences.filter (·.correlationId = codecs.id.render correlation_id)).foldlM
      (readOccurrence codecs) .empty
  return occ_map.keys.filterMap occ_map.find?

/-- A correlation as the tables have it, not the cache. -/
def fetchCorrelationById (tables : Tables) (correlation_id : Id) :
    Except ReadError (Correlation Id Decimal Info) := do
  match tables.correlations.find? (·.id = codecs.id.render correlation_id) with
  | none => .error .notFound
  | some row =>
      let (id, keys, averageDistance) ← parseCorrelationRow codecs row
      let errorRate ← loadCorrelationErrorRates codecs tables id
      let occurrences ← loadCorrelationOccurrences codecs tables id
      return { id, keys, errorRate, occurrences, averageDistance }

end WeftDb.Correlations
