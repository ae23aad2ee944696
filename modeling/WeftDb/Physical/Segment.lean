import Mathlib.Data.List.MinMax
import WeftDb.Physical.Columns
import WeftDb.Physical.Recommendation

/-!
# A segment of rows

The rows of a segment are stored as a column of present values, a column of timestamps and a mask.
Where every present value lies in the decimal domain the rows come back within the tolerance;
otherwise every value of the segment is lost.
-/

namespace WeftDb.Physical

variable (decimals : Decimals)

/-- What a header tells of its rows: their counts, their order and the ends of their times and
values. -/
structure SegmentStats extends WeftDb.SegmentStats where
  timeSorted : Bool
  minTs : Option Int
  maxTs : Option Int
  minValue : Option BigDecimal
  maxValue : Option BigDecimal
  deriving DecidableEq

/-- The statistics of a nullable column.  Of equal values the first is the least and the last is the
greatest. -/
def SegmentStats.fromColumnsNullable (timestamps : List Int) (presentValues : List BigDecimal)
    (nullCount : Nat) : SegmentStats where
  toSegmentStats := WeftDb.fromColumnsNullable timestamps nullCount
  timeSorted := (timestamps.zip timestamps.tail).all fun step => step.1 ≤ step.2
  minTs := timestamps.min?
  maxTs := timestamps.max?
  minValue := presentValues.argmin BigDecimal.toRat
  maxValue := presentValues.reverse.argmax BigDecimal.toRat

/-- The columns of a block of rows. -/
structure Page where
  values : ColumnEncoding decimals
  timestamps : DeltaOfDeltaColumn
  nulls : NullMask
  stats : SegmentStats

/-- The value of the first row from the start of a run on which has one. -/
def firstOfRun (instant : Int) : List (Int × Option BigDecimal) → Option BigDecimal
  | [] => none
  | (timestamp, value) :: rows =>
      if timestamp = instant then
        match value with
        | some value => some value
        | none => firstOfRun instant rows
      else none

/-- Look an instant up in decoded columns. -/
def pointLookup (timestamps : List Int) (values : List (Option BigDecimal)) (sorted : Bool)
    (instant : Int) : Option BigDecimal :=
  if sorted then
    let partitionPoint := (timestamps.takeWhile (· < instant)).length
    firstOfRun instant ((timestamps.zip values).drop partitionPoint)
  else
    (timestamps.zip values).findSome? fun row => if row.1 = instant then row.2 else none

namespace Page

variable {decimals}

/-- The columns of a nullable batch. -/
def buildNullable (timestamps : List Int) (values : List (Option BigDecimal))
    (valueTolerance : BigDecimal) : Page decimals :=
  let nulls := NullMask.fromPresence (values.map Option.isSome)
  { values := recommendEncoding decimals (presentValues values) valueTolerance
    timestamps := encodeDeltaOfDelta timestamps
    nulls := nulls
    stats := .fromColumnsNullable timestamps (presentValues values) nulls.nullCount }

variable (page : Page decimals)

def timeRange : Option (Int × Int) :=
  match page.stats.minTs, page.stats.maxTs with
  | some low, some high => some (low, high)
  | _, _ => none

/-- Whether the span of the page meets a range. -/
def overlapsTime (start stop : Int) : Bool :=
  match page.timeRange with
  | some (low, high) => low ≤ stop && start ≤ high
  | none => false

def decodeTimestamps : List Int :=
  if page.stats.rowCount = 0 then [] else decodeDeltaOfDelta page.timestamps

/-- The timestamps of the page, and its values with the nulls among them. -/
def decodeNullable : List Int × List (Option BigDecimal) :=
  (page.decodeTimestamps, interleave page.nulls page.values.decode page.stats.rowCount 0 0)

def valueAt (instant : Int) : Option BigDecimal :=
  if page.overlapsTime instant instant then
    pointLookup page.decodeNullable.1 page.decodeNullable.2 page.stats.timeSorted instant
  else none

end Page

inductive SegmentError
  /-- "segment column height mismatch: {timestamps} timestamps vs {values} values" -/
  | lengthMismatch (timestamps values : Nat)
  /-- "paged segment page height must be at least one row, got zero" -/
  | emptyPageSize
  deriving DecidableEq

/-- A single block of rows, which has the columns of a page. -/
structure Segment extends Page decimals where
  version : Nat

def segmentFormatVersion : Nat := 5

namespace Segment

variable {decimals}

def buildNullable (timestamps : List Int) (values : List (Option BigDecimal))
    (valueTolerance : BigDecimal) : Except SegmentError (Segment decimals) :=
  if timestamps.length ≠ values.length then
    .error (.lengthMismatch timestamps.length values.length)
  else .ok ⟨Page.buildNullable timestamps values valueTolerance, segmentFormatVersion⟩

variable (segment : Segment decimals)

def decodeNullable : List Int × List (Option BigDecimal) :=
  segment.toPage.decodeNullable

/-- Whether an instant lies in the span of the segment. -/
def containsTimestamp (instant : Int) : Bool :=
  segment.toPage.overlapsTime instant instant

def valueAt (instant : Int) : Option BigDecimal :=
  if segment.containsTimestamp instant then
    pointLookup segment.decodeNullable.1 segment.decodeNullable.2 segment.stats.timeSorted instant
  else none

end Segment

variable {decimals} {timestamps : List Int} {values : List (Option BigDecimal)}
  {tolerance : BigDecimal}

/-- Whether a value is read back within an error. -/
def Within (error : Rat) (value decoded : BigDecimal) : Prop :=
  |value.toRat - decoded.toRat| ≤ error

/-- Whether decoded columns hold the given rows: the same timestamps, the same nulls, and every
value within an error. -/
structure Holds (timestamps : List Int) (values : List (Option BigDecimal)) (error : Rat)
    (decoded : List Int × List (Option BigDecimal)) : Prop where
  timestamps : decoded.1 = timestamps
  values : List.Forall₂ (Option.Rel (Within error)) values decoded.2

theorem Holds.mono {error larger : Rat} {decoded : List Int × List (Option BigDecimal)}
    (holds : Holds timestamps values error decoded) (grows : error ≤ larger) :
    Holds timestamps values larger decoded where
  timestamps := holds.timestamps
  values := holds.values.imp fun _ _ related => by
    cases related with
    | some within => exact .some (within.trans grows)
    | none => exact .none

theorem decodeTimestamps_buildNullable
    (fits : ∀ timestamp ∈ timestamps, Word64.Fits timestamp) :
    (Page.buildNullable timestamps values tolerance : Page decimals).decodeTimestamps =
      timestamps := by
  cases timestamps with
  | nil => rfl
  | cons first later => exact decode_encodeDeltaOfDelta (List.cons_ne_nil _ _) fits

theorem isPresent_row (values : List (Option BigDecimal)) (place : Nat) :
    (NullMask.fromPresence (values.map Option.isSome)).isPresent (0 + place) =
      (values.map Option.isSome).getD place false := by
  rw [Nat.zero_add, NullMask.isPresent_fromPresence]

theorem Page.holds_buildNullable (heights : timestamps.length = values.length)
    (fits : ∀ timestamp ∈ timestamps, Word64.Fits timestamp) (nonneg : 0 ≤ tolerance.toRat)
    (reads : Reads decimals (presentValues values)) (domain : InDomain (presentValues values)) :
    Holds timestamps values
        (Page.buildNullable timestamps values tolerance : Page decimals).values.maxAbsError
        (Page.buildNullable timestamps values tolerance : Page decimals).decodeNullable ∧
      (Page.buildNullable timestamps values tolerance : Page decimals).values.maxAbsError ≤
        tolerance.toRat := by
  obtain ⟨keeps, small⟩ := recommendEncoding_keeps reads domain nonneg
  refine ⟨⟨decodeTimestamps_buildNullable fits, ?_⟩, small⟩
  have near : List.Forall₂
      (Within (recommendEncoding decimals (presentValues values) tolerance).maxAbsError)
      (presentValues values)
      ((recommendEncoding decimals (presentValues values) tolerance).decode.drop 0) :=
    List.forall₂_map_right_iff.mpr keeps.within
  have rows := interleave_forall₂ values 0 0 (fun place _ => isPresent_row values place) near
  rwa [← heights] at rows

theorem Page.values_buildNullable_outside (reads : Reads decimals (presentValues values))
    (outside : ¬InDomain (presentValues values)) :
    (Page.buildNullable timestamps values tolerance : Page decimals).decodeNullable.2 =
      List.replicate timestamps.length none := by
  have lost : (Page.buildNullable timestamps values tolerance : Page decimals).values.decode =
      [] :=
    congrArg ColumnEncoding.decode (recommendEncoding_outside reads outside)
  rw [Page.decodeNullable, lost]
  exact interleave_nil ..

theorem presentValues_eq_nil {decoded : List (Option BigDecimal)}
    {near : BigDecimal → BigDecimal → Prop}
    (rows : List.Forall₂ (Option.Rel near) values decoded)
    (lost : ∀ value ∈ decoded, value = none) : presentValues values = [] := by
  induction rows with
  | nil => rfl
  | cons related rows ih =>
      obtain ⟨rfl, others⟩ := List.forall_mem_cons.mp lost
      cases related
      exact ih others

/-- A segment holds its rows, and its encoding all of their values, exactly when every value lies in
the decimal domain. -/
theorem segment_holds_iff_domain (decimals : Decimals) (timestamps : List Int)
    (values : List (Option BigDecimal)) (tolerance : BigDecimal)
    (heights : timestamps.length = values.length)
    (fits : ∀ timestamp ∈ timestamps, Word64.Fits timestamp) (nonneg : 0 ≤ tolerance.toRat)
    (reads : Reads decimals (presentValues values)) :
    (∃ segment : Segment decimals,
        Segment.buildNullable timestamps values tolerance = .ok segment ∧
          Holds timestamps values tolerance.toRat segment.decodeNullable ∧
          (recommendEncoding decimals (presentValues values) tolerance).decode.length =
            (presentValues values).length) ↔
      ∀ value ∈ presentValues values, value.plainDigitCount ≤ maxPlainDigits := by
  constructor
  · rintro ⟨segment, built, holds, -⟩
    obtain rfl := Except.ok.inj ((if_neg (not_not.mpr heights)).symm.trans built)
    by_contra outside
    have lost := holds.values
    rw [Segment.decodeNullable, Page.values_buildNullable_outside reads outside] at lost
    have nothing := presentValues_eq_nil lost fun _ member => (List.mem_replicate.mp member).2
    exact outside (nothing ▸ List.forall_mem_nil _)
  · intro domain
    obtain ⟨keeps, -⟩ := recommendEncoding_keeps reads domain nonneg
    obtain ⟨holds, small⟩ := Page.holds_buildNullable heights fits nonneg reads domain
    refine ⟨_, if_neg (not_not.mpr heights), holds.mono small, ?_⟩
    rw [ColumnEncoding.decode, List.length_map, keeps.within.length_eq]

/-- The nearest number of `bits` significant bits, the even one of two. -/
def nearestEven (bits value : Nat) : Nat :=
  let exponent := value.log2 + 1 - bits
  let unit := 2 ^ exponent
  let whole := value / unit
  if 2 * (value % unit) < unit ∨ (2 * (value % unit) = unit ∧ whole % 2 = 0) then whole * unit
  else (whole + 1) * unit

/-- What the decimal crate computes of nonnegative whole numbers without a trailing zero. -/
def wholeNumbers : Decimals where
  Float64 := Nat
  Float32 := Nat
  toFloat64 value := some (nearestEven 53 value.mantissa.toNat)
  toFloat32 value := some (nearestEven 24 value.mantissa.toNat)
  ofFloat64 value := some ⟨value, 0⟩
  ofFloat32 value := some ⟨value, 0⟩
  normalized value := value
  round value := value.mantissa
  parse text :=
    some ⟨text.foldl (fun number digit => 10 * number + (digit.toNat - '0'.toNat)) (0 : Int), 0⟩

theorem reads_whole : Reads wholeNumbers [⟨16777217, 0⟩] := by
  intro value member _
  obtain rfl := List.mem_singleton.mp member
  rw [show wholeNumbers.parse (BigDecimal.toPlainString ⟨16777217, 0⟩) = some ⟨16777217, 0⟩ by
    decide, Option.map_some]

theorem segment_holds_whole :
    ∃ segment : Segment wholeNumbers,
      Segment.buildNullable [20, 10] [some ⟨16777217, 0⟩, none] ⟨1, 0⟩ = .ok segment ∧
        Holds [20, 10] [some ⟨16777217, 0⟩, none] (BigDecimal.toRat ⟨1, 0⟩) segment.decodeNullable ∧
        (recommendEncoding wholeNumbers (presentValues [some ⟨16777217, 0⟩, none])
          ⟨1, 0⟩).decode.length = (presentValues [some ⟨16777217, 0⟩, none]).length :=
  (segment_holds_iff_domain wholeNumbers [20, 10] [some ⟨16777217, 0⟩, none] ⟨1, 0⟩ rfl
    (by decide) (by simp [BigDecimal.toRat]) reads_whole).mpr (by decide)

/-- A value of two thousand digits is lost. -/
theorem huge_value_is_lost :
    ∃ segment : Segment wholeNumbers,
      Segment.buildNullable [0] [some ⟨1, -2000⟩] ⟨0, 0⟩ = .ok segment ∧
        segment.decodeNullable = ([0], [none]) ∧
        ¬Holds [0] [some ⟨1, -2000⟩] (BigDecimal.toRat ⟨0, 0⟩) segment.decodeNullable := by
  have long : ¬BigDecimal.plainDigitCount ⟨1, -2000⟩ ≤ maxPlainDigits := by decide
  have outside : ¬InDomain (presentValues [some ⟨1, -2000⟩]) := fun domain =>
    long (domain _ List.mem_cons_self)
  have reads : Reads wholeNumbers (presentValues [some ⟨1, -2000⟩]) := by
    intro value member domain
    obtain rfl := List.mem_singleton.mp member
    exact absurd domain long
  have lost : (Page.buildNullable [0] [some ⟨1, -2000⟩] ⟨0, 0⟩ :
      Page wholeNumbers).decodeNullable = ([0], [none]) :=
    Prod.ext rfl (Page.values_buildNullable_outside reads outside)
  refine ⟨_, rfl, lost, fun holds => ?_⟩
  have rows := holds.values
  rw [Segment.decodeNullable, lost] at rows
  cases rows with
  | cons related => cases related

end WeftDb.Physical
