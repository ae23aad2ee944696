import Mathlib.Data.Int.Order.Basic
import Mathlib.Order.WithBot
import WeftDb.Foundation.StableOrder
import WeftDb.Physical.Declared

/-!
# The import of a legacy series

A series of the old format is read through a cursor, never as a whole.  A first pass over its rows
surveys which encodings hold every value, a second one tries those which need the scale, and a last
one seals the rows in chunks, which do not part the rows of one instant.
-/

namespace WeftDb.Physical.Legacy

variable (decimals : Decimals)

/-- A cell of a legacy table. -/
inductive Cell
  | integer (value : Int)
  | text (value : List Char)
  /-- A null, a real number or a blob. -/
  | other
  deriving DecidableEq

/-- A row of `measurements`. -/
structure LegacyRow where
  timestamp : Cell
  value : Cell
  deriving DecidableEq

inductive RowsModeError
  /-- A timestamp which is not an integer, with the place of its row. -/
  | rowShape (rowid : Nat) (found : Cell)
  /-- A value which is not the text of a decimal, with the place of its row. -/
  | valueNotDecimal (rowid : Nat) (found : Cell)
  deriving DecidableEq

/-- Where a timestamp is ordered: integers by their value, and before texts. -/
def Cell.order : Cell → WithTop Int
  | .integer value => value
  | _ => ⊤

/-- `SELECT timestamp, value … ORDER BY timestamp`, which keeps the order of arrival in a tie. -/
def rowsSql (table : List LegacyRow) : List LegacyRow :=
  StableOrder.sortBy (fun row => row.timestamp.order) table

/-- One row of the cursor; the position counts from one. -/
def parseRow (row : LegacyRow) (position : Nat) : Except RowsModeError (Int × BigDecimal) := do
  let instant ← match row.timestamp with
    | .integer instant => pure instant
    | found => throw (.rowShape position found)
  match row.value with
  | .text text =>
      match decimals.parse text with
      | some value => return (instant, value)
      | none => throw (.valueNotDecimal position (.text text))
  | found => throw (.valueNotDecimal position found)

/-- Whether a value encodes under a type without loss. -/
def encodesExactly (physicalType : PhysicalType) (value : BigDecimal) : Bool :=
  match (physicalType.encode value : Except EncodeError (Encoded decimals)) with
  | .ok encoded => decide (encoded.exactness = .exact)
  | .error _ => false

/-- The decimal places of a value, as far as a byte counts them. -/
def fractionalDigits (value : BigDecimal) : Nat :=
  min (decimals.normalized value).scale.toNat 255

/-- What the first pass aggregates. -/
structure Survey where
  scale : Nat
  f32Exact : Bool
  f64Exact : Bool
  decimal128Exact : Bool
  deriving DecidableEq

namespace Survey

/-- The survey of no value. -/
def initial : Survey where
  scale := 0
  f32Exact := true
  f64Exact := true
  decimal128Exact := true

/-- The survey of one more value. -/
def see (survey : Survey) (value : BigDecimal) : Survey where
  scale := max survey.scale (fractionalDigits decimals value)
  f32Exact := survey.f32Exact && encodesExactly decimals .f32 value
  f64Exact := survey.f64Exact && encodesExactly decimals .f64 value
  decimal128Exact := survey.decimal128Exact && encodesExactly decimals .decimal128 value

end Survey

/-- The first pass over the rows behind a position. -/
def firstPass : List LegacyRow → Nat → Survey → Except RowsModeError Survey
  | [], _, survey => .ok survey
  | row :: rows, position, survey =>
      match parseRow decimals row (position + 1) with
      | .error error => .error error
      | .ok (_, value) => firstPass rows (position + 1) (survey.see decimals value)

/-- The second pass, which tells whether either scaled type holds every value.  It stops as soon as
neither does. -/
def secondPass (scale : Nat) : List LegacyRow → Nat → Bool → Bool →
    Except RowsModeError (Bool × Bool)
  | [], _, scaledI64Exact, scaledI128Exact => .ok (scaledI64Exact, scaledI128Exact)
  | row :: rows, position, scaledI64Exact, scaledI128Exact =>
      match parseRow decimals row (position + 1) with
      | .error error => .error error
      | .ok (_, value) =>
          let scaledI64Exact := scaledI64Exact && encodesExactly decimals (.scaledI64 scale) value
          let scaledI128Exact :=
            scaledI128Exact && encodesExactly decimals (.scaledI128 scale) value
          if !scaledI64Exact && !scaledI128Exact then .ok (scaledI64Exact, scaledI128Exact)
          else secondPass scale rows (position + 1) scaledI64Exact scaledI128Exact

/-- The narrowest encoding which holds the values of a table exactly. -/
def surveyEncoding (table : List LegacyRow) : Except RowsModeError PhysicalType := do
  let survey ← firstPass decimals (rowsSql table) 0 .initial
  if survey.f32Exact then return .f32
  if survey.f64Exact then return .f64
  let (scaledI64Exact, scaledI128Exact) ←
    secondPass decimals survey.scale (rowsSql table) 0 true true
  if scaledI64Exact then return .scaledI64 survey.scale
  if scaledI128Exact then return .scaledI128 survey.scale
  if survey.decimal128Exact then return .decimal128
  return .bigDecimalText

/-- The rows of a chunk which is not sealed yet. -/
structure SealingChunk where
  rows : List (Int × BigDecimal)
  limit : Nat

namespace SealingChunk

/-- An empty chunk. -/
def new (limit : Nat) : SealingChunk where
  rows := []
  limit := limit

/-- Whether a row starts a new instant past the limit. -/
def startsNext (limit : Nat) (rows : List (Int × BigDecimal)) (row : Int × BigDecimal) : Bool :=
  decide (limit ≤ rows.length) && rows.getLast?.any fun last => decide (row.1 ≠ last.1)

/-- Push a row: it joins the chunk, or the chunk is returned to seal and the row starts the next. -/
def push (chunk : SealingChunk) (row : Int × BigDecimal) :
    SealingChunk × Option (List (Int × BigDecimal)) :=
  if startsNext chunk.limit chunk.rows row then ({ chunk with rows := [row] }, some chunk.rows)
  else ({ chunk with rows := chunk.rows ++ [row] }, none)

/-- The rows still held, if any. -/
def finish (chunk : SealingChunk) : Option (List (Int × BigDecimal)) :=
  if chunk.rows.isEmpty then none else some chunk.rows

end SealingChunk

inductive ImportError
  | row (error : RowsModeError)
  | sealing (error : SealError)
  deriving DecidableEq

/-- The segments of an import, with the counts which it returns. -/
structure Imported where
  segments : List (Segment decimals)
  sealedRows : Nat
  sealedSegments : Nat

variable {decimals}

/-- Seal the rows of a chunk, and count them. -/
def sealChunk (schema : AspectSchema) (done : Imported decimals)
    (chunk : List (Int × BigDecimal)) : Except ImportError (Imported decimals) :=
  match sealDeclared schema (chunk.map Prod.fst) (chunk.map Prod.snd) with
  | .error error => .error (.sealing error)
  | .ok segment =>
      .ok
        { segments := done.segments ++ [segment]
          sealedRows := done.sealedRows + chunk.length
          sealedSegments := done.sealedSegments + 1 }

/-- Seal the rows behind a position, where a chunk is held. -/
def sealRows (schema : AspectSchema) : List LegacyRow → Nat → SealingChunk → Imported decimals →
    Except ImportError (Imported decimals)
  | [], _, chunk, done =>
      match chunk.finish with
      | some rest => sealChunk schema done rest
      | none => .ok done
  | row :: rows, position, chunk, done =>
      match parseRow decimals row (position + 1) with
      | .error error => .error (.row error)
      | .ok parsed =>
          match chunk.push parsed with
          | (chunk, some full) =>
              match sealChunk schema done full with
              | .error error => .error error
              | .ok done => sealRows schema rows (position + 1) chunk done
          | (chunk, none) => sealRows schema rows (position + 1) chunk done

/-- Seal the rows of a table in chunks. -/
def sealStreaming (schema : AspectSchema) (table : List LegacyRow) (rowsPerSegment : Nat) :
    Except ImportError (Imported decimals) :=
  sealRows schema (rowsSql table) 0 (.new rowsPerSegment) ⟨[], 0, 0⟩

/-- The schema under which a series is imported: no loss is tolerated. -/
def declaredSchema (chosen : PhysicalType) : AspectSchema where
  value := chosen
  valueTolerance := BigDecimal.zero

/-- Import one series: survey it, and seal it under the type which was chosen. -/
def importSeries (table : List LegacyRow) (rowsPerSegment : Nat) :
    Except ImportError (Imported decimals) :=
  match surveyEncoding decimals table with
  | .error error => .error (.row error)
  | .ok chosen => sealStreaming (declaredSchema chosen) table rowsPerSegment

end WeftDb.Physical.Legacy
