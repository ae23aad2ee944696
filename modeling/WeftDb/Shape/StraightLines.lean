import Mathlib.Data.Int.ModEq
import WeftDb.Shape.Levelling

/-!
# Straight lines under a pattern

A batch is levelled by the line between its ends.  The line is removed by a quotient of locations to
a hundred digits, so that a straight line leaves nothing, and a line under a pattern changes nothing,
exactly where these quotients have no more digits.
-/

namespace WeftDb.Shape

open Turns Option

variable {values : List ℚ} {vector : MeasurementVector}

theorem extent_eq {low high : ℚ} (low_in : low ∈ values) (high_in : high ∈ values)
    (between : ∀ value ∈ values, low ≤ value ∧ value ≤ high) :
    extent values = some (high - low) := by
  have greatest : values.max? = some high :=
    List.max?_eq_some_iff.mpr ⟨high_in, fun value member => (between value member).2⟩
  have least : values.min? = some low :=
    List.min?_eq_some_iff.mpr ⟨low_in, fun value member => (between value member).1⟩
  rw [extent, greatest, least]
  rfl

theorem exists_bounds (filled : values ≠ []) :
    ∃ low ∈ values, ∃ high ∈ values, ∀ value ∈ values, low ≤ value ∧ value ≤ high := by
  obtain ⟨low, least⟩ := ne_none_iff_exists'.mp (mt List.min?_eq_none_iff.mp filled)
  obtain ⟨high, greatest⟩ := ne_none_iff_exists'.mp (mt List.max?_eq_none_iff.mp filled)
  obtain ⟨low_in, below⟩ := List.min?_eq_some_iff.mp least
  obtain ⟨high_in, above⟩ := List.max?_eq_some_iff.mp greatest
  exact ⟨low, low_in, high, high_in, fun value member => ⟨below value member, above value member⟩⟩

/-- A path from the origin to some width, with both ends at amplitude zero. -/
structure Grounded (path : List MeasurementVector) (width : ℚ) : Prop where
  first : path.head? = some ⟨0, 0⟩
  last : path.getLast? = some ⟨width, 0⟩
  rising : path.Pairwise fun vector next => vector.location < next.location
  wide : 0 < width

/-- The turns of a path. -/
def keptOf (path : List MeasurementVector) : List MeasurementVector :=
  Turns.turns vectorHeading path

/-- The lowest and the highest amplitude of a path, which turns of it have. -/
structure Peaks (path : List MeasurementVector) (low high : ℚ) : Prop where
  lowest : ∃ vector ∈ keptOf path, vector.amplitude = low
  highest : ∃ vector ∈ keptOf path, vector.amplitude = high
  within : ∀ vector ∈ path, low ≤ vector.amplitude ∧ vector.amplitude ≤ high

theorem eq_of_location {path : List MeasurementVector}
    (rising : path.Pairwise fun vector next => vector.location < next.location)
    {other : MeasurementVector} (vector_in : vector ∈ path) (other_in : other ∈ path)
    (same : vector.location = other.location) : vector = other := by
  induction rising with
  | nil => cases vector_in
  | cons below _ ih =>
      rcases List.mem_cons.mp vector_in with rfl | later <;>
        rcases List.mem_cons.mp other_in with rfl | later'
      · rfl
      · exact absurd same (below _ later').ne
      · exact absurd same (below _ later).ne'
      · exact ih later later'

section Paths

variable {path : List MeasurementVector} {width : ℚ} (grounded : Grounded path width)

include grounded

theorem Grounded.filled : path ≠ [] := by
  rintro rfl
  cases grounded.first

theorem Grounded.origin_mem : ⟨0, 0⟩ ∈ path := List.mem_of_mem_head? grounded.first

theorem Grounded.end_mem : ⟨width, 0⟩ ∈ path := List.mem_of_mem_getLast? grounded.last

theorem Grounded.location_le (member : vector ∈ path) :
    0 ≤ vector.location ∧ vector.location ≤ width := by
  obtain ⟨rest, from_origin⟩ := List.head?_eq_some_iff.mp grounded.first
  obtain ⟨front, to_end⟩ := List.getLast?_eq_some_iff.mp grounded.last
  exact ⟨first_le grounded.rising (from_origin ▸ List.infix_rfl) (from_origin ▸ member),
    le_last grounded.rising front (to_end ▸ List.infix_rfl) (to_end ▸ member)⟩

theorem Grounded.keptOf_eq :
    keptOf path = turns (rise MeasurementVector.amplitude) path := by
  refine turns_congr (grounded.rising.isChain.imp fun vector next later => ?_)
  rw [vectorHeading, slope, if_neg later.ne', sign_divide (sub_pos.mpr later), rise]

theorem Grounded.cut :
    Turns.Cut (rise MeasurementVector.amplitude) path (keptOf path) := by
  rw [grounded.keptOf_eq]
  exact cut_turns _ grounded.filled

theorem Grounded.kept : Grounded (keptOf path) width where
  first := grounded.cut.head?.trans grounded.first
  last := grounded.cut.getLast?.trans grounded.last
  rising := grounded.rising.sublist grounded.cut.sublist
  wide := grounded.wide

theorem Grounded.extent_location : extent (path.map MeasurementVector.location) = some width := by
  have found := extent_eq (List.mem_map_of_mem (f := MeasurementVector.location) grounded.origin_mem)
    (List.mem_map_of_mem (f := MeasurementVector.location) grounded.end_mem)
    (List.forall_mem_map.mpr fun _ => grounded.location_le)
  rwa [sub_zero] at found

theorem Grounded.exists_peaks : ∃ low high, Peaks path low high := by
  obtain ⟨low, low_in, high, high_in, between⟩ := exists_bounds
    (mt List.map_eq_nil_iff.mp grounded.kept.filled : (keptOf path).map
      MeasurementVector.amplitude ≠ [])
  refine ⟨low, high, List.mem_map.mp low_in, List.mem_map.mp high_in, fun vector member => ?_⟩
  obtain ⟨lower, lower_in, higher, higher_in, above, below⟩ :=
    exists_turns_around grounded.cut member
  exact ⟨(between _ (List.mem_map_of_mem lower_in)).1.trans above,
    below.trans (between _ (List.mem_map_of_mem higher_in)).2⟩

variable {low high : ℚ} (peaks : Peaks path low high)

include peaks

theorem Grounded.extent_amplitude :
    extent ((keptOf path).map MeasurementVector.amplitude) = some (high - low) :=
  extent_eq (List.mem_map.mpr peaks.lowest) (List.mem_map.mpr peaks.highest)
    (List.forall_mem_map.mpr fun vector member =>
      peaks.within vector (grounded.cut.sublist.subset member))

theorem Grounded.peaks_around : low ≤ 0 ∧ 0 ≤ high := peaks.within _ grounded.origin_mem

theorem Grounded.flat_iff : high - low = 0 ↔ ∀ vector ∈ path, vector.amplitude = 0 := by
  have around := grounded.peaks_around peaks
  constructor
  · intro flat vector member
    have between := peaks.within vector member
    linarith
  · intro zero
    obtain ⟨lower, lower_in, rfl⟩ := peaks.lowest
    obtain ⟨higher, higher_in, rfl⟩ := peaks.highest
    rw [zero lower (grounded.cut.sublist.subset lower_in),
      zero higher (grounded.cut.sublist.subset higher_in), sub_zero]

end Paths

/-- Measurements of a batch: several, at whole seconds which increase. -/
structure Ordered (measurements : List BatchedMeasurement) : Prop where
  several : 2 ≤ measurements.length
  whole : ∀ measurement ∈ measurements, ∃ seconds : ℤ, Word64.Fits seconds ∧
    measurement.located.location = seconds
  rising : measurements.Pairwise fun measurement next =>
    measurement.located.location < next.located.location

section Pattern

variable {measurements : List BatchedMeasurement} (ordered : Ordered measurements)

include ordered

theorem Ordered.exists_ends : ∃ head tail, measurements.head? = some head ∧
    measurements.getLast? = some tail ∧ head.located.location < tail.located.location := by
  match measurements, ordered.several with
  | head :: next :: rest, _ =>
      obtain ⟨tail, at_tail⟩ := ne_none_iff_exists'.mp
        (mt List.getLast?_eq_none_iff.mp (List.cons_ne_nil next rest))
      refine ⟨head, tail, rfl, List.getLast?_cons_cons.trans at_tail, ?_⟩
      exact (List.pairwise_cons.mp ordered.rising).1 tail (List.mem_of_mem_getLast? at_tail)

variable {head tail : BatchedMeasurement} (at_head : measurements.head? = some head)
  (at_tail : measurements.getLast? = some tail)
  (apart : head.located.location < tail.located.location)

include at_head at_tail apart

theorem Ordered.grounded :
    Grounded (levelledPath head.located tail.located measurements)
      (tail.located.location - head.located.location) where
  first := by
    rw [levelledPath, List.head?_map, at_head, map_some, levelled_first]
  last := by
    rw [levelledPath, List.getLast?_map, at_tail, map_some, levelled_last apart.ne]
  rising := by
    refine List.pairwise_map.mpr (ordered.rising.imp fun later => ?_)
    exact sub_lt_sub_right later _
  wide := sub_pos.mpr apart

theorem Ordered.pattern_eq {low high : ℚ}
    (peaks : Peaks (levelledPath head.located tail.located measurements) low high) :
    pattern measurements =
      if high - low = 0 then .error .zeroExtent
      else .ok ((keptOf (levelledPath head.located tail.located measurements)).map
        (relativeTo (tail.located.location - head.located.location) (high - low))) := by
  have grounded := ordered.grounded at_head at_tail apart
  have zero : ¬tail.located.location - head.located.location = 0 := grounded.wide.ne'
  rw [Shape.pattern_eq at_head at_tail apart.ne grounded.kept.extent_location
    (grounded.extent_amplitude peaks)]
  simp only [zero, false_or]
  rfl

theorem Ordered.pattern_fails_iff :
    pattern measurements = .error .zeroExtent ↔
      ∀ measurement ∈ measurements,
        (levelled head.located tail.located measurement.located).amplitude = 0 := by
  have grounded := ordered.grounded at_head at_tail apart
  obtain ⟨low, high, peaks⟩ := grounded.exists_peaks
  rw [ordered.pattern_eq at_head at_tail apart peaks]
  refine Iff.trans ?_ ((grounded.flat_iff peaks).trans List.forall_mem_map)
  simp

theorem Ordered.relative_lt {next : MeasurementVector} (maxY : ℚ)
    (vector_in : vector ∈ levelledPath head.located tail.located measurements)
    (next_in : next ∈ levelledPath head.located tail.located measurements)
    (later : vector.location < next.location) :
    (relativeTo (tail.located.location - head.located.location) maxY vector).location <
      (relativeTo (tail.located.location - head.located.location) maxY next).location := by
  have grounded := ordered.grounded at_head at_tail apart
  obtain ⟨low, -⟩ := grounded.location_le vector_in
  obtain ⟨-, high⟩ := grounded.location_le next_in
  have wide := grounded.wide
  have step : vector.location + 1 ≤ next.location := by
    obtain ⟨measurement, measurement_in, rfl⟩ := List.mem_map.mp vector_in
    obtain ⟨other, other_in, rfl⟩ := List.mem_map.mp next_in
    obtain ⟨seconds, -, place⟩ := ordered.whole measurement measurement_in
    obtain ⟨seconds', -, place'⟩ := ordered.whole other other_in
    simp only [levelled, place, place', sub_lt_sub_iff_right, Int.cast_lt] at later ⊢
    have whole : ((seconds + 1 : ℤ) : ℚ) ≤ seconds' := by exact_mod_cast later
    push_cast at whole
    linarith
  have short : tail.located.location - head.located.location < (10 : ℚ) ^ (100 : ℤ) := by
    obtain ⟨first, first_fits, place⟩ := ordered.whole head (List.mem_of_mem_head? at_head)
    obtain ⟨last, last_fits, place'⟩ := ordered.whole tail (List.mem_of_mem_getLast? at_tail)
    rw [place, place']
    have bound : last - first < 10 ^ 100 := by
      unfold Word64.Fits Word64.least Word64.greatest at first_fits last_fits
      omega
    exact_mod_cast bound
  generalize tail.located.location - head.located.location = width at *
  refine SignificantDigits.roundTo_lt_roundTo (by decide) ?_ ?_ ?_
  · rw [abs_of_nonneg (div_nonneg low wide.le), div_le_one wide]
    linarith
  · rw [abs_of_nonneg (div_nonneg (by linarith) wide.le), div_le_one wide]
    exact high
  · rw [← sub_div, lt_div_iff₀ wide]
    calc
      (10 : ℚ) ^ (-((100 : ℕ) : ℤ)) * width < (10 : ℚ) ^ (-((100 : ℕ) : ℤ)) * 10 ^ (100 : ℤ) :=
        mul_lt_mul_of_pos_left short (zpow_pos (by norm_num) _)
      _ = 1 := by
        rw [← zpow_add₀ (by norm_num)]
        rfl
      _ ≤ next.location - vector.location := by linarith

end Pattern

/-- The vectors of a pattern: from the origin to one at amplitude zero, and no higher than one. -/
structure WithinUnit (relatives : List MeasurementVector) : Prop where
  first : relatives.head? = some ⟨0, 0⟩
  last : relatives.getLast? = some ⟨1, 0⟩
  rising : relatives.Pairwise fun vector next => vector.location < next.location
  amplitudes : ∀ vector ∈ relatives, |vector.amplitude| ≤ 1

theorem withinUnit_pattern {measurements : List BatchedMeasurement}
    (ordered : Ordered measurements) {relatives : List MeasurementVector}
    (done : pattern measurements = .ok relatives) : WithinUnit relatives := by
  obtain ⟨head, tail, at_head, at_tail, apart⟩ := ordered.exists_ends
  have grounded := ordered.grounded at_head at_tail apart
  obtain ⟨low, high, peaks⟩ := grounded.exists_peaks
  rw [ordered.pattern_eq at_head at_tail apart peaks] at done
  split_ifs at done with flat
  obtain rfl := Except.ok.inj done
  have around := grounded.peaks_around peaks
  have kept := grounded.kept
  have inside := grounded.cut.sublist.subset
  constructor
  · rw [List.head?_map, kept.first]
    simp [relativeTo, divide]
  · rw [List.getLast?_map, kept.last]
    simp [relativeTo, divide, div_self grounded.wide.ne', SignificantDigits.roundTo_one]
  · rw [List.pairwise_map]
    exact kept.rising.imp_of_mem fun vector_in next_in later =>
      ordered.relative_lt at_head at_tail apart _ (inside vector_in) (inside next_in) later
  · refine List.forall_mem_map.mpr fun vector member => ?_
    have between := peaks.within vector (inside member)
    have height : 0 < high - low := (by linarith : 0 ≤ high - low).lt_of_ne' flat
    refine SignificantDigits.abs_roundTo_le_one (by decide) ?_
    rw [abs_div, abs_of_pos height, div_le_one height, abs_le]
    constructor <;> linarith

/-- A vector with a line under it. -/
def MeasurementVector.raise (slope intercept : ℚ) (vector : MeasurementVector) :
    MeasurementVector where
  location := vector.location
  amplitude := vector.amplitude + (slope * vector.location + intercept)

/-- What the rounding of the distance leaves of a line of slope one. -/
def residue (first last vector : MeasurementVector) : ℚ :=
  vector.location - first.location -
    (last.location - first.location) * portion first last vector

theorem levelled_raise (slope intercept : ℚ) (first last vector : MeasurementVector) :
    levelled (first.raise slope intercept) (last.raise slope intercept)
        (vector.raise slope intercept) =
      { levelled first last vector with
        amplitude := (levelled first last vector).amplitude +
          slope * residue first last vector } := by
  have same : portion (first.raise slope intercept) (last.raise slope intercept)
      (vector.raise slope intercept) = portion first last vector := rfl
  simp only [levelled, same, residue]
  simp only [MeasurementVector.raise, MeasurementVector.mk.injEq, true_and]
  ring

/-- Whether the values of some measurements lie on one straight line over their locations. -/
def OnOneLine (measurements : List BatchedMeasurement) : Prop :=
  ∃ slope intercept : ℚ, ∀ measurement ∈ measurements,
    measurement.located.amplitude = slope * measurement.located.location + intercept

/-- Whether two batches over the same locations differ by a line. -/
def DifferByLine (slope intercept : ℚ) (measurements others : List BatchedMeasurement) : Prop :=
  others.map BatchedMeasurement.located =
    measurements.map fun measurement => measurement.located.raise slope intercept

/-- Whether a straight line never becomes the pattern of a batch and the line under it does not
matter. -/
structure LinesVanish (measurements : List BatchedMeasurement) : Prop where
  fails_iff : pattern measurements = .error .zeroExtent ↔ OnOneLine measurements
  same : ∀ slope intercept others, DifferByLine slope intercept measurements others →
    pattern others = pattern measurements

/-- Whether the share of each location on the way from the first to the last one is a decimal of a
hundred digits. -/
def Terminating (measurements : List BatchedMeasurement) : Prop :=
  ∀ head ∈ measurements.head?, ∀ tail ∈ measurements.getLast?, ∀ measurement ∈ measurements,
    SignificantDigits.HasDigits 100
      ((measurement.located.location - head.located.location) /
        (tail.located.location - head.located.location))

/-- A levelled measurement with what a line leaves of it. -/
def raisedLevel (first last : MeasurementVector) (slope : ℚ) (measurement : BatchedMeasurement) :
    MeasurementVector :=
  { levelled first last measurement.located with
    amplitude := (levelled first last measurement.located).amplitude +
      slope * residue first last measurement.located }

/-- A measurement with a line under it. -/
def raise (slope : ℚ) (measurement : BatchedMeasurement) : BatchedMeasurement :=
  { measurement with vector := some (measurement.located.raise slope 0) }

section Lines

variable {measurements : List BatchedMeasurement} {head tail : BatchedMeasurement}
variable {others : List BatchedMeasurement}

theorem terminating_iff (at_head : measurements.head? = some head)
    (at_tail : measurements.getLast? = some tail)
    (apart : head.located.location < tail.located.location) :
    Terminating measurements ↔ ∀ measurement ∈ measurements,
      residue head.located tail.located measurement.located = 0 := by
  have wide := sub_pos.mpr apart
  simp only [Terminating, at_head, at_tail, mem_def, some.injEq, forall_eq']
  refine forall₂_congr fun measurement _ => ?_
  rw [← SignificantDigits.roundTo_eq_self_iff (by decide), eq_div_iff wide.ne', residue,
    sub_eq_zero, eq_comm, mul_comm]
  rfl

section

variable {slope intercept : ℚ} {others : List BatchedMeasurement}
  (differ : DifferByLine slope intercept measurements others)

include differ

theorem levelledPath_of_differ (first last : MeasurementVector) :
    levelledPath (first.raise slope intercept) (last.raise slope intercept) others =
      measurements.map (raisedLevel first last slope) := by
  have placed_first : levelledPath (first.raise slope intercept) (last.raise slope intercept) others =
      (others.map BatchedMeasurement.located).map
        (levelled (first.raise slope intercept) (last.raise slope intercept)) := by
    rw [List.map_map]
    rfl
  rw [placed_first, differ, List.map_map]
  exact List.map_congr_left fun measurement _ => levelled_raise ..

theorem Ordered.of_differ (ordered : Ordered measurements) : Ordered others where
  several := by
    have lengths := congrArg List.length differ
    rw [List.length_map, List.length_map] at lengths
    exact lengths ▸ ordered.several
  whole := by
    have located : ∀ vector ∈ others.map BatchedMeasurement.located,
        ∃ seconds : ℤ, Word64.Fits seconds ∧ vector.location = seconds := by
      rw [differ]
      exact List.forall_mem_map.mpr ordered.whole
    exact fun other member => located _ (List.mem_map_of_mem member)
  rising := by
    have located : (others.map BatchedMeasurement.located).Pairwise fun vector next =>
        vector.location < next.location := by
      rw [differ]
      exact List.pairwise_map.mpr ordered.rising
    rwa [List.pairwise_map] at located

theorem head?_of_differ (at_head : measurements.head? = some head) :
    ∃ other, others.head? = some other ∧ other.located = head.located.raise slope intercept := by
  have found := congrArg List.head? differ
  rw [List.head?_map, List.head?_map, at_head] at found
  exact map_eq_some_iff.mp found

theorem getLast?_of_differ (at_tail : measurements.getLast? = some tail) :
    ∃ other, others.getLast? = some other ∧
      other.located = tail.located.raise slope intercept := by
  have found := congrArg List.getLast? differ
  rw [List.getLast?_map, List.getLast?_map, at_tail] at found
  exact map_eq_some_iff.mp found

end

variable (ordered : Ordered measurements) (at_head : measurements.head? = some head)
  (at_tail : measurements.getLast? = some tail)
  (apart : head.located.location < tail.located.location)

include ordered at_head at_tail apart

theorem pattern_fails_of_terminating (terminating : Terminating measurements) :
    pattern measurements = .error .zeroExtent ↔ OnOneLine measurements := by
  have exact_share := (terminating_iff at_head at_tail apart).mp terminating
  have wide := (sub_pos.mpr apart).ne'
  rw [ordered.pattern_fails_iff at_head at_tail apart]
  constructor
  · intro level
    refine ⟨(tail.located.amplitude - head.located.amplitude) /
      (tail.located.location - head.located.location),
      head.located.amplitude - (tail.located.amplitude - head.located.amplitude) /
        (tail.located.location - head.located.location) * head.located.location,
      fun measurement member => ?_⟩
    have none := exact_share measurement member
    have zero := level measurement member
    have share : portion head.located tail.located measurement.located =
        (measurement.located.location - head.located.location) /
          (tail.located.location - head.located.location) := by
      rw [residue] at none
      rw [eq_div_iff wide]
      linarith
    rw [levelled, share] at zero
    field_simp at zero ⊢
    linarith
  · rintro ⟨slope, intercept, line⟩ measurement member
    have none := exact_share measurement member
    rw [residue] at none
    rw [levelled, line _ member, line _ (List.mem_of_mem_head? at_head),
      line _ (List.mem_of_mem_getLast? at_tail)]
    calc
      _ = slope * (measurement.located.location - head.located.location -
            (tail.located.location - head.located.location) *
              portion head.located tail.located measurement.located) := by
        ring
      _ = 0 := by rw [none, mul_zero]

theorem pattern_same_of_terminating (terminating : Terminating measurements) {slope intercept : ℚ}
    (differ : DifferByLine slope intercept measurements others) :
    pattern others = pattern measurements := by
  have exact_share := (terminating_iff at_head at_tail apart).mp terminating
  obtain ⟨head', at_head', head_raised⟩ := head?_of_differ differ at_head
  obtain ⟨tail', at_tail', tail_raised⟩ := getLast?_of_differ differ at_tail
  have apart' : head'.located.location < tail'.located.location := by
    rw [head_raised, tail_raised]
    exact apart
  have same : levelledPath head'.located tail'.located others =
      levelledPath head.located tail.located measurements := by
    rw [head_raised, tail_raised, levelledPath_of_differ differ]
    refine List.map_congr_left fun measurement member => ?_
    rw [raisedLevel, exact_share measurement member, mul_zero, add_zero]
  have width : tail'.located.location - head'.located.location =
      tail.located.location - head.located.location := by
    rw [head_raised, tail_raised]
    rfl
  obtain ⟨low, high, peaks⟩ := (ordered.grounded at_head at_tail apart).exists_peaks
  rw [ordered.pattern_eq at_head at_tail apart peaks,
    (ordered.of_differ differ).pattern_eq at_head' at_tail' apart' (same ▸ peaks), same, width]

theorem pattern_raised (slope : ℚ) (differ : DifferByLine slope 0 measurements others) :
    ∃ low high, Peaks (measurements.map (raisedLevel head.located tail.located slope)) low high ∧
      (low ≤ 0 ∧ 0 ≤ high) ∧ pattern others =
        if high - low = 0 then .error .zeroExtent
        else .ok ((keptOf (measurements.map (raisedLevel head.located tail.located slope))).map
          (relativeTo (tail.located.location - head.located.location) (high - low))) := by
  obtain ⟨head', at_head', head_raised⟩ := head?_of_differ differ at_head
  obtain ⟨tail', at_tail', tail_raised⟩ := getLast?_of_differ differ at_tail
  have apart' : head'.located.location < tail'.located.location := by
    rw [head_raised, tail_raised]
    exact apart
  have ordered' := ordered.of_differ differ
  have grounded := ordered'.grounded at_head' at_tail' apart'
  obtain ⟨low, high, peaks⟩ := grounded.exists_peaks
  have around := grounded.peaks_around peaks
  have found := ordered'.pattern_eq at_head' at_tail' apart' peaks
  rw [head_raised, tail_raised, levelledPath_of_differ differ] at peaks found
  exact ⟨low, high, peaks, around, found⟩

theorem located_eq {maxY maxY' : ℚ} {measurement other : BatchedMeasurement}
    (member : measurement ∈ measurements) (other_in : other ∈ measurements) (slope slope' : ℚ)
    (same : (relativeTo (tail.located.location - head.located.location) maxY
        (raisedLevel head.located tail.located slope measurement)).location =
      (relativeTo (tail.located.location - head.located.location) maxY'
        (raisedLevel head.located tail.located slope' other)).location) :
    measurement.located = other.located := by
  have rising : (measurements.map BatchedMeasurement.located).Pairwise fun vector next =>
      vector.location < next.location := List.pairwise_map.mpr ordered.rising
  refine eq_of_location rising (List.mem_map_of_mem member) (List.mem_map_of_mem other_in) ?_
  have strict {one two : BatchedMeasurement} (one_in : one ∈ measurements)
      (two_in : two ∈ measurements) (later : one.located.location < two.located.location) :=
    ordered.relative_lt at_head at_tail apart 0 (List.mem_map_of_mem one_in)
      (List.mem_map_of_mem two_in) (sub_lt_sub_right later head.located.location)
  rcases lt_trichotomy measurement.located.location other.located.location with
    before | level | after
  · exact absurd same (strict member other_in before).ne
  · exact level
  · exact absurd same (strict other_in member after).ne'

/-- A rounded distance changes the pattern: a steep line under it and its negative have no pattern
in common. -/
theorem terminating_of_same (same : ∀ slope intercept others,
    DifferByLine slope intercept measurements others → pattern others = pattern measurements) :
    Terminating measurements := by
  rw [terminating_iff at_head at_tail apart]
  by_contra rounded
  obtain ⟨lost, lost_in, left_over⟩ : ∃ measurement ∈ measurements,
      residue head.located tail.located measurement.located ≠ 0 := by
    simpa using rounded
  have grounded := ordered.grounded at_head at_tail apart
  obtain ⟨bottom, top, bounds⟩ := grounded.exists_peaks
  have around := grounded.peaks_around bounds
  have within {measurement : BatchedMeasurement} (member : measurement ∈ measurements) :=
    bounds.within _ (List.mem_map_of_mem (f := fun measurement : BatchedMeasurement =>
      levelled head.located tail.located measurement.located) member)
  -- The line is so steep that what it leaves exceeds every level there is without it.
  set slope := (3 * (top - bottom) + 1) / residue head.located tail.located lost.located
    with is_slope
  have steep : slope * residue head.located tail.located lost.located =
      3 * (top - bottom) + 1 := div_mul_cancel₀ _ left_over
  have raised (slope : ℚ) : DifferByLine slope 0 measurements
      (measurements.map (raise slope)) := by
    rw [DifferByLine, List.map_map]
    rfl
  obtain ⟨low, high, peaks, high_around, up⟩ :=
    pattern_raised ordered at_head at_tail apart slope (raised slope)
  obtain ⟨low', high', -, around', down⟩ :=
    pattern_raised ordered at_head at_tail apart (-slope) (raised (-slope))
  obtain ⟨vector, vector_in, is_high⟩ := peaks.highest
  have above : bottom + 3 * (top - bottom) + 1 ≤ high := by
    have peak := (peaks.within _ (List.mem_map_of_mem lost_in)).2
    have level := (within lost_in).1
    simp only [raisedLevel, steep] at peak
    linarith
  have height : 0 < high - low := by linarith
  obtain ⟨peak, peak_in, rfl⟩ := List.mem_map.mp
    ((turns_sublist vectorHeading _).subset vector_in)
  rw [same _ _ _ (raised slope), if_neg height.ne'] at up
  rw [same _ _ _ (raised (-slope)), up] at down
  split_ifs at down with flat
  have height' : 0 < high' - low' := (by linarith : 0 ≤ high' - low').lt_of_ne' flat
  -- The highest vector over the one line is found over the other one, below zero.
  have shared := List.mem_map_of_mem (f := relativeTo
    (tail.located.location - head.located.location) (high - low)) vector_in
  rw [Except.ok.inj down] at shared
  obtain ⟨vector', vector_in', alike⟩ := List.mem_map.mp shared
  obtain ⟨other, other_in, rfl⟩ := List.mem_map.mp
    ((turns_sublist vectorHeading _).subset vector_in')
  have one := located_eq ordered at_head at_tail apart other_in peak_in (-slope) slope
    (congrArg MeasurementVector.location alike)
  have signs := congrArg (fun vector => SignType.sign vector.amplitude) alike
  simp only [relativeTo, sign_divide height, sign_divide height', raisedLevel, one] at signs
  have level := (within peak_in).2
  simp only [raisedLevel] at is_high
  have positive : 0 < (levelled head.located tail.located peak.located).amplitude +
      slope * residue head.located tail.located peak.located := by
    linarith
  rw [sign_pos positive, sign_eq_one_iff] at signs
  linarith

end Lines

/-- A pattern which comes to be starts and ends at amplitude zero and stays within one, and
**straight lines vanish** from a batch exactly where the share of each location is a decimal of a
hundred digits. -/
theorem lines_vanish_iff {measurements : List BatchedMeasurement}
    (ordered : Ordered measurements) :
    (∀ relatives, pattern measurements = .ok relatives → WithinUnit relatives) ∧
      (LinesVanish measurements ↔ Terminating measurements) := by
  obtain ⟨head, tail, at_head, at_tail, apart⟩ := ordered.exists_ends
  refine ⟨fun relatives => withinUnit_pattern ordered, fun vanish => ?_, fun terminating => ?_⟩
  · exact terminating_of_same ordered at_head at_tail apart vanish.same
  · exact ⟨pattern_fails_of_terminating ordered at_head at_tail apart terminating,
      fun _ _ _ => pattern_same_of_terminating ordered at_head at_tail apart terminating⟩

/-- A batch of three measured values. -/
def threePoints (middle last : ℤ) (value value' : ℚ) : List BatchedMeasurement :=
  [⟨⟨0, 0⟩, none, none, none⟩, ⟨⟨middle * 1000000000, value⟩, none, none, none⟩,
    ⟨⟨last * 1000000000, value'⟩, none, none, none⟩]

theorem located_of_seconds (seconds : ℤ) (value : ℚ) :
    BatchedMeasurement.located ⟨⟨seconds * 1000000000, value⟩, none, none, none⟩ =
      ⟨seconds, value⟩ := by
  have whole : seconds * 1000000000 / Reduce.nanosPerSecond = seconds :=
    Int.mul_ediv_cancel seconds (by decide)
  simp [BatchedMeasurement.located, whole]

theorem located_origin : BatchedMeasurement.located ⟨⟨0, 0⟩, none, none, none⟩ = ⟨0, 0⟩ := by
  simp [BatchedMeasurement.located]

theorem ordered_threePoints {middle last : ℤ} (value value' : ℚ) (one : 0 < middle)
    (two : middle < last) (bound : last ≤ Word64.greatest) :
    Ordered (threePoints middle last value value') where
  several := Nat.le_succ 2
  whole := by
    have fits : ∀ seconds : ℤ, 0 ≤ seconds → seconds ≤ last → Word64.Fits seconds := by
      unfold Word64.Fits Word64.least
      omega
    simp only [threePoints, List.forall_mem_cons, located_of_seconds]
    exact ⟨⟨0, fits 0 le_rfl (by omega), by simp [BatchedMeasurement.located]⟩,
      ⟨middle, fits middle (by omega) (by omega), rfl⟩, ⟨last, fits last (by omega) le_rfl, rfl⟩,
      by simp⟩
  rising := by
    have positive : (0 : ℚ) < middle := by exact_mod_cast one
    have later : (middle : ℚ) < last := by exact_mod_cast two
    simp only [threePoints, List.pairwise_cons, List.forall_mem_cons, located_of_seconds,
      located_origin]
    exact ⟨⟨positive, positive.trans later, by simp⟩, ⟨later, by simp⟩, by simp⟩

theorem getLast?_threePoints (middle last : ℤ) (value value' : ℚ) :
    (threePoints middle last value value').getLast? =
      some ⟨⟨last * 1000000000, value'⟩, none, none, none⟩ := rfl

theorem lines_vanish_iff_of_halves : LinesVanish (threePoints 1 2 1 0) := by
  have ordered := ordered_threePoints 1 0 (show (0 : ℤ) < 1 by decide) (show (1 : ℤ) < 2 by decide)
    (by decide)
  refine (lines_vanish_iff ordered).2.mpr ?_
  intro head at_head tail at_tail
  obtain rfl := Option.some.inj at_head
  rw [getLast?_threePoints] at at_tail
  obtain rfl := Option.some.inj at_tail
  simp only [threePoints, List.forall_mem_cons, located_of_seconds, located_origin]
  exact ⟨⟨0, 0, by norm_num, by norm_num⟩, ⟨5, -1, by norm_num, by norm_num⟩,
    ⟨1, 0, by norm_num, by norm_num⟩, by simp⟩

theorem not_hasDigits_third (digits : ℕ) : ¬SignificantDigits.HasDigits digits (1 / 3) := by
  rintro ⟨mantissa, exponent, -, third⟩
  rcases Int.eq_nat_or_neg exponent with ⟨places, rfl | rfl⟩
  · have whole : 3 * (mantissa * 10 ^ places) = 1 := by
      have scaled : (3 : ℚ) * (mantissa * 10 ^ places) = 1 := by
        rw [zpow_natCast] at third
        linarith
      exact_mod_cast scaled
    omega
  · have whole : 3 * mantissa = 10 ^ places := by
      have scaled : (3 : ℚ) * mantissa = 10 ^ places := by
        rw [zpow_neg, zpow_natCast] at third
        field_simp at third
        linarith
      exact_mod_cast scaled
    have last_digit : (10 : ℤ) ^ places ≡ 1 ^ places [ZMOD 3] := Int.ModEq.pow places (by decide)
    rw [one_pow, ← whole] at last_digit
    unfold Int.ModEq at last_digit
    omega

/-- The line through zero, one and three at these seconds becomes a pattern. -/
theorem line_over_thirds_has_pattern :
    OnOneLine (threePoints 1 3 1 3) ∧
      ∃ relatives, pattern (threePoints 1 3 1 3) = .ok relatives := by
  have ordered := ordered_threePoints 1 3 (show (0 : ℤ) < 1 by decide) (show (1 : ℤ) < 3 by decide)
    (by decide)
  have at_tail := getLast?_threePoints 1 3 1 3
  have apart : (BatchedMeasurement.located ⟨⟨0, 0⟩, none, none, none⟩).location <
      (BatchedMeasurement.located ⟨⟨3 * 1000000000, 3⟩, none, none, none⟩).location := by
    rw [located_of_seconds, located_origin]
    norm_num
  have line : OnOneLine (threePoints 1 3 1 3) := by
    refine ⟨1, 0, ?_⟩
    simp only [threePoints, List.forall_mem_cons, located_of_seconds, located_origin]
    norm_num
  have rounded : ¬∀ measurement ∈ threePoints 1 3 1 3,
      (levelled ⟨0, 0⟩ ⟨3, 3⟩ measurement.located).amplitude = 0 := by
    intro level
    have middle := level ⟨⟨1 * 1000000000, 1⟩, none, none, none⟩ (by simp [threePoints])
    refine not_hasDigits_third 100 ((SignificantDigits.roundTo_eq_self_iff (by decide)).mp ?_)
    rw [located_of_seconds] at middle
    simp only [levelled, portion, divide] at middle
    norm_num at middle ⊢
    linarith
  refine ⟨line, ?_⟩
  obtain ⟨low, high, peaks⟩ := (ordered.grounded rfl at_tail apart).exists_peaks
  have fails := ordered.pattern_fails_iff rfl at_tail apart
  rw [ordered.pattern_eq rfl at_tail apart peaks] at fails ⊢
  rw [located_origin, located_of_seconds] at fails
  split_ifs with flat
  · rw [if_pos flat] at fails
    exact absurd (fails.mp rfl) (mod_cast rounded)
  · exact ⟨_, rfl⟩

end WeftDb.Shape
