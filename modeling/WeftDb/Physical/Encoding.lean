import Mathlib.Algebra.Order.Field.Rat
import Mathlib.Algebra.Order.Group.Unbundled.Abs
import WeftDb.Foundation.Results
import WeftDb.Ingest.Batch

/-!
# Physical encodings of a value column

A column of decimals is encoded under one physical type.  An encoding measures its error against
what it decodes to, and the first candidate whose error is tolerated is recommended.
-/

namespace WeftDb

/-- The number which a decimal stands for. -/
def BigDecimal.toRat (value : BigDecimal) : Rat :=
  value.mantissa * (10 : Rat) ^ (-value.scale)

/-- Zero, which stands in where a value cannot be reconstructed. -/
def BigDecimal.zero : BigDecimal where
  mantissa := 0
  scale := 0

namespace Physical

/-- What the decimal crate and the floating-point types compute. -/
structure Decimals where
  /-- The finite binary64 numbers. -/
  Float64 : Type
  /-- The finite binary32 numbers. -/
  Float32 : Type
  toFloat64 : BigDecimal → Option Float64
  toFloat32 : BigDecimal → Option Float32
  ofFloat64 : Float64 → Option BigDecimal
  ofFloat32 : Float32 → Option BigDecimal
  /-- The form without trailing zeros. -/
  normalized : BigDecimal → BigDecimal
  /-- The integer to which a decimal is rounded. -/
  round : BigDecimal → Int
  /-- The decimal which a text spells. -/
  parse : List Char → Option BigDecimal

inductive PhysicalType
  | f64
  | f32
  | scaledI64 (scale : Nat)
  | scaledI128 (scale : Nat)
  | decimal128
  | bigDecimalText
  deriving DecidableEq

/-- A value in its encoded form. -/
inductive PhysicalValue (decimals : Decimals)
  | f64 (value : decimals.Float64)
  | f32 (value : decimals.Float32)
  | scaledI64 (mantissa : Int) (scale : Nat)
  | scaledI128 (mantissa : Int) (scale : Nat)
  | decimal128 (mantissa scale : Int)
  | bigDecimalText (text : List Char)

/-- The decimal which an encoded value stands for. -/
def PhysicalValue.toLogical {decimals : Decimals} : PhysicalValue decimals → BigDecimal
  | .f64 value => (decimals.ofFloat64 value).getD BigDecimal.zero
  | .f32 value => (decimals.ofFloat32 value).getD BigDecimal.zero
  | .scaledI64 mantissa scale => ⟨mantissa, scale⟩
  | .scaledI128 mantissa scale => ⟨mantissa, scale⟩
  | .decimal128 mantissa scale => ⟨mantissa, scale⟩
  | .bigDecimalText text => (decimals.parse text).getD BigDecimal.zero

/-- Whether a value was kept, and by how much it was missed otherwise. -/
inductive Exactness
  | exact
  | lossy (absError : Rat)
  deriving DecidableEq

def Exactness.absError : Exactness → Rat
  | exact => 0
  | lossy absError => absError

structure Encoded (decimals : Decimals) where
  value : PhysicalValue decimals
  exactness : Exactness

inductive EncodeError
  /-- "value magnitude overflows the target integer encoding" -/
  | overflow
  /-- "value is not representable as a finite f64" -/
  | notFinite
  /-- "value's plain form has {digits} digits, over the 1024-digit decimal domain bound" -/
  | decimalOutOfRange (digits : Nat)
  deriving DecidableEq

/-- The loss between a value and its reconstruction. -/
def measure (original decoded : BigDecimal) : Exactness :=
  let diff := original.toRat - decoded.toRat
  if diff = 0 then .exact else .lossy |diff|

/-- The quotient by ten, rounding half away from zero. -/
def roundDiv10 (mantissa : Int) : Int :=
  (mantissa + if mantissa < 0 then -5 else 5).tdiv 10

/-- Whether an integer is one of 128 bits. -/
def FitsI128 (value : Int) : Prop :=
  -170141183460469231731687303715884105728 ≤ value ∧
    value ≤ 170141183460469231731687303715884105727

instance (value : Int) : Decidable (FitsI128 value) :=
  inferInstanceAs (Decidable (_ ∧ _))

theorem natAbs_roundDiv10_lt {mantissa : Int} (wide : ¬FitsI128 mantissa) :
    (roundDiv10 mantissa).natAbs < mantissa.natAbs := by
  unfold FitsI128 at wide
  unfold roundDiv10
  rcases lt_or_ge mantissa 0 with negative | positive
  · rw [if_pos negative, ← Int.neg_neg (mantissa + -5), Int.neg_tdiv,
      Int.tdiv_eq_ediv_of_nonneg (by omega)]
    omega
  · rw [if_neg (not_lt.mpr positive), Int.tdiv_eq_ediv_of_nonneg (by omega)]
    omega

/-- Shed low-order digits until the mantissa fits 128 bits. -/
def fitI128 (mantissa scale : Int) : Int × Int :=
  if FitsI128 mantissa then (mantissa, scale) else fitI128 (roundDiv10 mantissa) (scale - 1)
  termination_by mantissa.natAbs
  decreasing_by exact natAbs_roundDiv10_lt ‹_›

/-- A decimal, shifted by a number of decimal places. -/
def shifted (value : BigDecimal) (scale : Nat) : BigDecimal where
  mantissa := value.mantissa * 10 ^ scale
  scale := value.scale

section Encode

variable {decimals : Decimals}

/-- An encoded value with its measured loss. -/
def measured (value : BigDecimal) (encoded : PhysicalValue decimals) : Encoded decimals where
  value := encoded
  exactness := measure value encoded.toLogical

/-- Encode one value. -/
def PhysicalType.encode (physicalType : PhysicalType) (value : BigDecimal) :
    Except EncodeError (Encoded decimals) :=
  if checkDecimalDomain value then
    match physicalType with
    | .f64 =>
        match decimals.toFloat64 value with
        | some float => .ok (measured value (.f64 float))
        | none => .error .notFinite
    | .f32 =>
        match decimals.toFloat32 value with
        | some float => .ok (measured value (.f32 float))
        | none => .error .notFinite
    | .scaledI64 scale =>
        let mantissa := decimals.round (shifted value scale)
        if Word64.Fits mantissa then .ok (measured value (.scaledI64 mantissa scale))
        else .error .overflow
    | .scaledI128 scale =>
        let mantissa := decimals.round (shifted value scale)
        if FitsI128 mantissa then .ok (measured value (.scaledI128 mantissa scale))
        else .error .overflow
    | .decimal128 =>
        let fitted := fitI128 value.mantissa value.scale
        .ok (measured value (.decimal128 fitted.1 fitted.2))
    | .bigDecimalText => .ok ⟨.bigDecimalText value.toPlainString, .exact⟩
  else .error (.decimalOutOfRange value.plainDigitCount)

/-- A column under one encoding. -/
structure ColumnEncoding (decimals : Decimals) where
  physicalType : PhysicalType
  values : List (PhysicalValue decimals)
  lossyCount : Nat
  maxAbsError : Rat

/-- A value which cannot be encoded, with its place in the column. -/
structure ColumnEncodeError where
  index : Nat
  source : EncodeError
  deriving DecidableEq

namespace ColumnEncoding

/-- The column without values. -/
def empty (physicalType : PhysicalType) : ColumnEncoding decimals where
  physicalType := physicalType
  values := []
  lossyCount := 0
  maxAbsError := 0

/-- The column with one more value. -/
def push (column : ColumnEncoding decimals) (encoded : Encoded decimals) :
    ColumnEncoding decimals where
  physicalType := column.physicalType
  values := column.values ++ [encoded.value]
  lossyCount :=
    match encoded.exactness with
    | .exact => column.lossyCount
    | .lossy _ => column.lossyCount + 1
  maxAbsError :=
    match encoded.exactness with
    | .exact => column.maxAbsError
    | .lossy absError =>
        if column.maxAbsError < absError then absError else column.maxAbsError

/-- The decimals of the column. -/
def decode (column : ColumnEncoding decimals) : List BigDecimal :=
  column.values.map PhysicalValue.toLogical

end ColumnEncoding

/-- Encode a column, up to the first value which cannot be encoded. -/
def encodeColumn (physicalType : PhysicalType) (values : List BigDecimal) :
    Except ColumnEncodeError (ColumnEncoding decimals) :=
  values.zipIdx.foldlM
    (fun column item =>
      match physicalType.encode item.1 with
      | .ok encoded => .ok (column.push encoded)
      | .error source => .error ⟨item.2, source⟩)
    (.empty physicalType)

variable (decimals)

/-- The decimal places which keep every value of a column, as far as a byte counts them. -/
def maxFractionalDigits (values : List BigDecimal) : Nat :=
  (values.map fun value => min (decimals.normalized value).scale.toNat 255).foldl max 0

/-- The encodings which are tried, the narrowest first. -/
def candidates (scale : Nat) : List PhysicalType :=
  [.f32, .f64, .scaledI64 scale, .scaledI128 scale, .decimal128, .bigDecimalText]

/-- The column under an encoding, if its error is tolerated. -/
def tolerated (values : List BigDecimal) (maxAbsError : BigDecimal)
    (physicalType : PhysicalType) : Option (ColumnEncoding decimals) :=
  match encodeColumn physicalType values with
  | .ok column => if column.maxAbsError ≤ maxAbsError.toRat then some column else none
  | .error _ => none

/-- The narrowest encoding within a tolerance. -/
def recommendEncoding (values : List BigDecimal) (maxAbsError : BigDecimal) :
    ColumnEncoding decimals :=
  match (candidates (maxFractionalDigits decimals values)).findSome?
      (tolerated decimals values maxAbsError) with
  | some column => column
  | none =>
      -- Held to be unreachable: the text encodes every value of the decimal domain.
      match encodeColumn .bigDecimalText values with
      | .ok column => column
      | .error _ => .empty .bigDecimalText

end Encode

end Physical

end WeftDb
