import WeftDb.Physical.Encoding

/-!
# Columns as Arrow record batches

The logical columns of a read are exported as a batch of two columns, the timestamps and the values.
The values are text, or under a physical type with a fixed width the Arrow array of that width.  A
column of one scale is an array of mantissas at that scale, unless a mantissa leaves 128 bits or
Arrow refuses the scale.
-/

namespace WeftDb.Arrow

open Physical (Decimals PhysicalType FitsI128)

/-- A decimal at another scale.  Digits beyond the scale are dropped. -/
def withScale (value : BigDecimal) (scale : Int) : BigDecimal where
  mantissa :=
    if value.scale ≤ scale then value.mantissa * 10 ^ (scale - value.scale).toNat
    else value.mantissa.tdiv (10 ^ (value.scale - scale).toNat)
  scale := scale

/-- The decimal which the plain form of a decimal spells: no scale is negative. -/
def spelled (value : BigDecimal) : BigDecimal :=
  if value.scale < 0 then ⟨value.mantissa * 10 ^ value.scale.natAbs, 0⟩ else value

/-- The most digits of a decimal of 128 bits. -/
def decimal128MaxPrecision : Nat := 38

/-- An Arrow array. -/
inductive ArrayRef (decimals : Decimals)
  | int64 (cells : List (Option Int))
  | utf8 (cells : List (Option (List Char)))
  | float64 (cells : List (Option decimals.Float64))
  | float32 (cells : List (Option decimals.Float32))
  | decimal128 (precision : Nat) (scale : Int) (cells : List (Option Int))
  /-- An array of a type which is never exported -/
  | other (length : Nat)

/-- What the Arrow crate does with an array of mantissas. -/
structure ArrowDecimals where
  /-- The array under a precision and a scale, or a refusal. -/
  withPrecisionAndScale : List (Option Int) → Nat → Int → Option (List (Option Int))
  /-- A scale is refused past the precision, and an array keeps the mantissas it is given. -/
  withPrecisionAndScale_eq : ∀ mantissas (scale : Nat),
    withPrecisionAndScale mantissas decimal128MaxPrecision scale =
      if scale ≤ decimal128MaxPrecision then some mantissas else none

def timestampColumn : String := "timestamp"

def valueColumn : String := "value"

inductive ConvertError
  /-- "record batch is missing the `{column}` column" -/
  | missingColumn (column : String)
  /-- "column `{column}` is not the expected Arrow {expected}" -/
  | wrongType (column expected : String)
  /-- "value cell `{text}` does not parse as a decimal" -/
  | badValue (text : List Char)
  /-- "value's plain form has {digits} digits, over the 1024-digit decimal domain bound" -/
  | decimalOutOfRange (digits : Nat)
  /-- "column `{column}` has {actual} rows, expected {expected}" -/
  | lengthMismatch (column : String) (expected actual : Nat)
  deriving DecidableEq

/-- A batch of named columns. -/
structure RecordBatch (decimals : Decimals) where
  metadata : List (String × String)
  columns : List (String × ArrayRef decimals)

variable {decimals : Decimals}

def RecordBatch.columnByName (batch : RecordBatch decimals) (name : String) :
    Option (ArrayRef decimals) :=
  (batch.columns.find? (·.1 = name)).map Prod.snd

def checkLen (column : String) (expected actual : Nat) : Except ConvertError Unit :=
  require (actual = expected) (.lengthMismatch column expected actual)

/-- The name of a physical type. -/
def typeName : PhysicalType → String
  | .f64 => "f64"
  | .f32 => "f32"
  | .scaledI64 _ => "scaled_i64"
  | .scaledI128 _ => "scaled_i128"
  | .decimal128 => "decimal128"
  | .bigDecimalText => "bigdecimal_text"

/-- The name of a time unit. -/
def unitName : TimeUnit → String
  | .seconds => "seconds"
  | .millis => "millis"
  | .micros => "micros"
  | .nanos => "nanos"

/-- The version of a batch which is not of one segment. -/
def logicalExportVersion : Nat := 0

def buildRecordBatch (unit : TimeUnit) (physical_type_name : String) (version : Nat)
    (timestamps : List Int) (val_array : ArrayRef decimals × String) : RecordBatch decimals where
  metadata := [
    ("weft:time_unit", unitName unit),
    ("weft:physical_type", physical_type_name),
    ("weft:value_encoding", val_array.2),
    ("weft:format_version", toString version)]
  columns := [(timestampColumn, .int64 (timestamps.map some)), (valueColumn, val_array.1)]

/-- The values as their plain forms. -/
def textValueArray (values : List (Option BigDecimal)) : ArrayRef decimals × String :=
  (.utf8 (values.map (·.map BigDecimal.toPlainString)), "text")

/-- A mantissa, if it has 128 bits. -/
def toI128 (mantissa : Int) : Option Int :=
  if FitsI128 mantissa then some mantissa else none

/-- A scale, if it has 8 bits. -/
def toI8 (scale : Nat) : Option Int :=
  if scale ≤ 127 then some scale else none

variable (arrow : ArrowDecimals)

/-- The mantissa of a value at a scale. -/
def tryMantissa (scale : Nat) : Option BigDecimal → Option (Option Int)
  | some value => (toI128 (withScale value scale).mantissa).map some
  | none => some none

/-- The values as mantissas at one scale. -/
def tryDecimal128Array (values : List (Option BigDecimal)) (scale : Nat) :
    Option (ArrayRef decimals) := do
  let mantissas ← values.mapM (tryMantissa scale)
  let scale_i8 ← toI8 scale
  let array ← arrow.withPrecisionAndScale mantissas decimal128MaxPrecision scale_i8
  return .decimal128 decimal128MaxPrecision scale_i8 array

/-- The values as the array of a physical type. -/
def typedValueArray (physical_type : PhysicalType) (values : List (Option BigDecimal)) :
    ArrayRef decimals × String :=
  match physical_type with
  | .f64 => (.float64 (values.map (·.bind decimals.toFloat64)), "f64")
  | .f32 => (.float32 (values.map (·.bind decimals.toFloat32)), "f32")
  | .scaledI64 scale | .scaledI128 scale =>
      match tryDecimal128Array arrow values scale with
      | some array => (array, "decimal128")
      | none => textValueArray values
  | .decimal128 | .bigDecimalText => textValueArray values

def columnsToRecordBatch (unit : TimeUnit) (timestamps : List Int)
    (values : List (Option BigDecimal)) : Except ConvertError (RecordBatch decimals) := do
  checkLen valueColumn timestamps.length values.length
  return buildRecordBatch unit (typeName .bigDecimalText) logicalExportVersion timestamps
    (textValueArray values)

def columnsToRecordBatchTyped (unit : TimeUnit) (physical_type : PhysicalType)
    (timestamps : List Int) (values : List (Option BigDecimal)) :
    Except ConvertError (RecordBatch decimals) := do
  checkLen valueColumn timestamps.length values.length
  return buildRecordBatch unit (typeName physical_type) logicalExportVersion timestamps
    (typedValueArray arrow physical_type values)

/-- The decimal in a cell of text. -/
def parseCell : Option (List Char) → Except ConvertError (Option BigDecimal)
  | none => .ok none
  | some text =>
      match decimals.parse text with
      | some value => .ok (some value)
      | none => .error (.badValue text)

/-- The values in an array. -/
def readValues : ArrayRef decimals → Except ConvertError (List (Option BigDecimal))
  | .utf8 cells => cells.mapM (@parseCell decimals)
  | .float64 cells => .ok (cells.map (·.bind decimals.ofFloat64))
  | .float32 cells => .ok (cells.map (·.bind decimals.ofFloat32))
  | .decimal128 _ scale cells => .ok (cells.map (·.map fun mantissa => ⟨mantissa, scale⟩))
  | .int64 _ | .other _ =>
      .error (.wrongType valueColumn "Utf8, Float64, Float32, or Decimal128")

/-- The timestamps in an array. -/
def readTimestamps : ArrayRef decimals → Except ConvertError (List Int)
  | .int64 cells =>
      if cells.all Option.isSome then .ok cells.reduceOption
      else .error (.wrongType timestampColumn "Int64 with no nulls")
  | _ => .error (.wrongType timestampColumn "Int64")

def columnOr (batch : RecordBatch decimals) (name : String) :
    Except ConvertError (ArrayRef decimals) :=
  match batch.columnByName name with
  | some column => .ok column
  | none => .error (.missingColumn name)

/-- Refuse a value outside the decimal domain. -/
def checkValue : Option BigDecimal → Except ConvertError Unit
  | some value => require (checkDecimalDomain value) (.decimalOutOfRange value.plainDigitCount)
  | none => .ok ()

def recordBatchToColumns (batch : RecordBatch decimals) :
    Except ConvertError (List Int × List (Option BigDecimal)) := do
  let timestamps ← readTimestamps (← columnOr batch timestampColumn)
  let values ← readValues (← columnOr batch valueColumn)
  values.forM checkValue
  return (timestamps, values)

end WeftDb.Arrow
