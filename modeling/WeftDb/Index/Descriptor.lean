import Mathlib.Data.Rat.Defs
import Mathlib.Algebra.Order.Ring.Unbundled.Rat
import Mathlib.Algebra.BigOperators.Group.List.Basic
import Mathlib.Algebra.GroupWithZero.Nat
import WeftDb.Foundation.Hull

/-!
# Segment descriptors and the aspect rollup

A descriptor is the index's summary of one sealed frame.  `AspectMetadata` summarizes all frames
of an aspect, either derived from the whole index by `fromIndex` or carried forward one segment
at a time by `folded`.  Value bounds are compared as numbers, so they are rationals here.
-/

namespace WeftDb

/-- The name of an aspect. -/
abbrev AspectName := String

/-- The resolution of a timestamp column. -/
inductive TimeUnit
  | seconds
  | millis
  | micros
  | nanos
  deriving DecidableEq

/-- The physical encoding of a value column. -/
inductive PhysicalType
  | f64
  | f32
  | scaledI64 (scale : Nat)
  | scaledI128 (scale : Nat)
  | decimal128
  | bigDecimalText
  deriving DecidableEq

/-- The file name of a frame: a write-once name, a legacy name, or any other text. -/
inductive FrameName
  /-- The frame of one generation, under the stem of its aspect. -/
  | writeOnce (stem : String) (gen prec : Nat)
  /-- The frame `{aspect}-{id}` of the older layout. -/
  | legacy (aspect : AspectName) (id : Nat)
  | other (text : String)
  deriving DecidableEq

/-- The path recorded for a frame: a file directly in `segments/`, or anything else. -/
inductive FramePath
  | segments (name : FrameName)
  | elsewhere (text : String)
  deriving DecidableEq

/-- The index's description of one sealed segment. -/
structure SegmentDescriptor where
  /-- Identity within the aspect. -/
  id : Nat
  /-- Where the frame lives. -/
  path : FramePath
  /-- Version of the frame format. -/
  formatVersion : Nat
  /-- Value encoding, absent for an empty paged segment. -/
  physicalType : Option PhysicalType
  /-- Timestamp resolution, absent for an empty paged segment. -/
  timeUnit : Option TimeUnit
  /-- Rows with and without a value. -/
  rowCount : Nat
  /-- Rows without a value. -/
  nullCount : Nat
  /-- Whether the timestamps never decrease. -/
  timeSorted : Bool
  minTs : Option Int
  maxTs : Option Int
  minValue : Option ℚ
  maxValue : Option ℚ
  /-- Size of the frame on disk. -/
  byteLen : Nat
  deriving DecidableEq

namespace SegmentDescriptor

/-- The closed time span, absent for an empty segment. -/
def timeRange (descriptor : SegmentDescriptor) : Option (Int × Int) :=
  match descriptor.minTs, descriptor.maxTs with
  | some low, some high => some (low, high)
  | _, _ => none

/-- The closed value span, absent for a segment without values. -/
def valueRange (descriptor : SegmentDescriptor) : Option (ℚ × ℚ) :=
  match descriptor.minValue, descriptor.maxValue with
  | some low, some high => some (low, high)
  | _, _ => none

/-- Whether the segment holds rows and every one of them is null. -/
def isAllNull (descriptor : SegmentDescriptor) : Bool :=
  decide (descriptor.rowCount > 0 ∧ descriptor.nullCount = descriptor.rowCount)

/-- Whether the segment may hold a row in a closed time range. -/
def overlapsTime (descriptor : SegmentDescriptor) (start stop : Int) : Bool :=
  match descriptor.timeRange with
  | some (low, high) => decide (low ≤ stop ∧ start ≤ high)
  | none => false

/-- Whether the segment may hold a value in a closed value range. -/
def mayContainValue (descriptor : SegmentDescriptor) (low high : ℚ) : Bool :=
  match descriptor.valueRange with
  | some (least, greatest) => decide (least ≤ high ∧ low ≤ greatest)
  | none => false

end SegmentDescriptor

/-- The resident index of one aspect. -/
structure SegmentIndex where
  /-- Descriptors in insertion order. -/
  descriptors : List SegmentDescriptor
  deriving DecidableEq

namespace SegmentIndex

def totalRows (index : SegmentIndex) : Nat :=
  (index.descriptors.map (·.rowCount)).sum

def totalBytes (index : SegmentIndex) : Nat :=
  (index.descriptors.map (·.byteLen)).sum

def unsortedCount (index : SegmentIndex) : Nat :=
  (index.descriptors.filter fun descriptor => !descriptor.timeSorted).length

/-- The time span of all non-empty segments. -/
def timeRange (index : SegmentIndex) : Option (Int × Int) :=
  (index.descriptors.filterMap (·.timeRange)).foldl
    (fun span (low, high) =>
      match span with
      | some (spanLow, spanHigh) => some (min spanLow low, max spanHigh high)
      | none => some (low, high))
    none

end SegmentIndex

/-- The materialized summary of an aspect's segments. -/
@[ext]
structure AspectMetadata where
  segmentCount : Nat := 0
  totalRows : Nat := 0
  totalNulls : Nat := 0
  totalBytes : Nat := 0
  /-- Segments whose timestamps are out of order. -/
  unsortedSegments : Nat := 0
  timeRange : Option (Int × Int) := none
  valueRange : Option (ℚ × ℚ) := none
  deriving DecidableEq

/-- The value span of a list of descriptors. -/
def valueSpan (descriptors : List SegmentDescriptor) : Option (ℚ × ℚ) :=
  descriptors.foldl
    (fun span descriptor =>
      match descriptor.minValue, descriptor.maxValue with
      | some low, some high =>
          match span with
          | some (spanLow, spanHigh) => some (min spanLow low, max spanHigh high)
          | none => some (low, high)
      | _, _ => span)
    none

namespace AspectMetadata

/-- Derive the rollup from every descriptor of the aspect. -/
def fromIndex (index : SegmentIndex) : AspectMetadata where
  segmentCount := index.descriptors.length
  totalRows := index.totalRows
  totalNulls := (index.descriptors.map (·.nullCount)).sum
  totalBytes := index.totalBytes
  unsortedSegments := index.unsortedCount
  timeRange := index.timeRange
  valueRange := valueSpan index.descriptors

/-- Carry the rollup forward over one new segment. -/
def folded (rollup : AspectMetadata) (descriptor : SegmentDescriptor) : AspectMetadata where
  segmentCount := rollup.segmentCount + 1
  totalRows := rollup.totalRows + descriptor.rowCount
  totalNulls := rollup.totalNulls + descriptor.nullCount
  totalBytes := rollup.totalBytes + descriptor.byteLen
  unsortedSegments := rollup.unsortedSegments + if descriptor.timeSorted then 0 else 1
  timeRange :=
    match descriptor.timeRange with
    | some (low, high) =>
        match rollup.timeRange with
        | some (spanLow, spanHigh) => some (min spanLow low, max spanHigh high)
        | none => some (low, high)
    | none => rollup.timeRange
  valueRange :=
    match descriptor.minValue, descriptor.maxValue with
    | some low, some high =>
        match rollup.valueRange with
        | some (spanLow, spanHigh) => some (min spanLow low, max spanHigh high)
        | none => some (low, high)
    | _, _ => rollup.valueRange

end AspectMetadata

namespace SegmentIndex

theorem timeRange_eq_hull (index : SegmentIndex) :
    index.timeRange = Hull.ofList (index.descriptors.map (·.timeRange)) := by
  suffices accumulate : ∀ (descriptors : List SegmentDescriptor) (span : Option (Int × Int)),
      (descriptors.filterMap (·.timeRange)).foldl
        (fun span (low, high) =>
          match span with
          | some (spanLow, spanHigh) => some (min spanLow low, max spanHigh high)
          | none => some (low, high)) span =
        (descriptors.map (·.timeRange)).foldl Hull.join span from accumulate index.descriptors none
  intro descriptors
  induction descriptors with
  | nil => intro span; rfl
  | cons descriptor descriptors ih =>
      intro span
      cases range : descriptor.timeRange with
      | none => simp [range, ih]
      | some interval =>
          simp only [List.filterMap_cons, range, List.map_cons, List.foldl_cons, ih]
          cases span <;> rfl

end SegmentIndex

theorem valueSpan_eq_hull (descriptors : List SegmentDescriptor) :
    valueSpan descriptors = Hull.ofList (descriptors.map (·.valueRange)) := by
  suffices accumulate : ∀ span : Option (ℚ × ℚ),
      descriptors.foldl
        (fun span descriptor =>
          match descriptor.minValue, descriptor.maxValue with
          | some low, some high =>
              match span with
              | some (spanLow, spanHigh) => some (min spanLow low, max spanHigh high)
              | none => some (low, high)
          | _, _ => span) span =
        (descriptors.map (·.valueRange)).foldl Hull.join span from accumulate none
  induction descriptors with
  | nil => intro span; rfl
  | cons descriptor descriptors ih =>
      intro span
      simp only [List.foldl_cons, List.map_cons, ih, SegmentDescriptor.valueRange]
      cases descriptor.minValue <;> cases descriptor.maxValue <;> cases span <;> rfl

namespace AspectMetadata

theorem fromIndex_perm {left right : List SegmentDescriptor} (same : left.Perm right) :
    fromIndex ⟨left⟩ = fromIndex ⟨right⟩ := by
  have time : SegmentIndex.timeRange ⟨left⟩ = SegmentIndex.timeRange ⟨right⟩ := by
    rw [SegmentIndex.timeRange_eq_hull, SegmentIndex.timeRange_eq_hull]
    exact Hull.ofList_perm (same.map _)
  have value : valueSpan left = valueSpan right := by
    rw [valueSpan_eq_hull, valueSpan_eq_hull]
    exact Hull.ofList_perm (same.map _)
  have rows : SegmentIndex.totalRows ⟨left⟩ = SegmentIndex.totalRows ⟨right⟩ :=
    (same.map _).sum_eq
  have bytes : SegmentIndex.totalBytes ⟨left⟩ = SegmentIndex.totalBytes ⟨right⟩ :=
    (same.map _).sum_eq
  have unsorted : SegmentIndex.unsortedCount ⟨left⟩ = SegmentIndex.unsortedCount ⟨right⟩ :=
    (same.filter _).length_eq
  have nulls : (left.map (·.nullCount)).sum = (right.map (·.nullCount)).sum := (same.map _).sum_eq
  simp only [fromIndex, time, value, rows, bytes, unsorted, nulls, same.length_eq]

end AspectMetadata

end WeftDb
