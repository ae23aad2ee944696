import WeftDb.Batching.AffectedWindows
import WeftDb.Foundation.Extrema
import WeftDb.Shape.Batch

/-!
# Simplification by slope changes

The points between two slopes of one sign are dropped, from a list of measured points and from a
batch.  A slope between measured points is over whole milliseconds: below one it is zero.
-/

namespace WeftDb.Shape

open Turns

/-- The slope between two points. -/
def calculateSlope (before after : Point) : ℚ :=
  let dt := (after.timestamp - before.timestamp).tdiv nanosPerMilli
  if dt = 0 then 0 else divide (after.value - before.value) dt

/-- Drop the points between two slopes of one sign. -/
def simplifyBySlopeChange (points : List Point) : List Point :=
  if points.length ≤ 2 then points
  else withEnds points ((neighbours points).filterMap fun (before, point, after) =>
    if slopeSign (calculateSlope before point) ≠ slopeSign (calculateSlope point after) then
      some point else none)

theorem slopeSign_eq (slope : ℚ) : slopeSign slope = SignType.sign slope := by
  unfold slopeSign
  rcases lt_trichotomy slope 0 with negative | rfl | positive
  · rw [compare_lt_iff_lt.mpr negative, sign_neg negative]
  · rw [compare_eq_iff_eq.mpr rfl, sign_zero]
  · rw [compare_gt_iff_gt.mpr positive, sign_pos positive]

theorem sign_divide {dividend divisor : ℚ} (positive : 0 < divisor) :
    SignType.sign (divide dividend divisor) = SignType.sign dividend := by
  rw [divide, SignificantDigits.sign_roundTo (by decide), div_eq_mul_inv, sign_mul,
    sign_pos (inv_pos.mpr positive), mul_one]

section

variable {α Direction : Type} [DecidableEq Direction] (direction : α → α → Direction)

/-- A middle point between two directions. -/
def turning (steps : α × α × α) : Option α :=
  if direction steps.1 steps.2.1 ≠ direction steps.2.1 steps.2.2 then some steps.2.1 else none

theorem turnsFrom_eq (before point : α) (points : List α) :
    turnsFrom direction before point points =
      (neighbours (before :: point :: points)).filterMap (turning direction) ++
        (point :: points).getLast?.toList := by
  induction points generalizing before point with
  | nil => rfl
  | cons next points ih =>
      rw [turnsFrom, neighbours, List.filterMap_cons, List.getLast?_cons_cons, turning]
      split
      · next same => simpa [same] using ih point next
      · next turned => simpa [turned] using ih point next

theorem withEnds_eq_turns {points : List α} (many : ¬points.length ≤ 2) :
    withEnds points ((neighbours points).filterMap (turning direction)) =
      turns direction points := by
  match points with
  | [] | [_] | [_, _] => exact absurd (by simp) many
  | first :: second :: third :: points =>
      rw [turns, turnsFrom_eq, withEnds, List.getLast?_cons_cons]
      rfl

theorem turns_of_few {points : List α} (few : points.length ≤ 2) :
    turns direction points = points := by
  refine turns_eq_self_iff.mpr fun _ _ _ steps => ?_
  have three := steps.length_le
  simp only [List.length_cons, List.length_nil] at three
  omega

end

theorem simplifyBySlopeChange_eq (points : List Point) :
    simplifyBySlopeChange points =
      turns (fun before after => slopeSign (calculateSlope before after)) points := by
  unfold simplifyBySlopeChange
  split
  · next few => exact (turns_of_few _ few).symm
  · next many =>
      exact withEnds_eq_turns (fun before after => slopeSign (calculateSlope before after)) many

/-- A step of a millisecond or more. -/
def Wide (before after : Point) : Prop := nanosPerMilli ≤ after.timestamp - before.timestamp

instance : DecidableRel Wide := fun before after =>
  inferInstanceAs (Decidable (nanosPerMilli ≤ after.timestamp - before.timestamp))

theorem slopeSign_calculateSlope {before after : Point}
    (later : before.timestamp < after.timestamp) :
    slopeSign (calculateSlope before after) = coarseRise Wide Point.value before after := by
  have positive : 0 < nanosPerMilli := by decide
  have extent : 0 ≤ after.timestamp - before.timestamp := by omega
  have whole := TruncatedDiv.ediv_eq_zero_iff positive extent
  rw [slopeSign_eq, calculateSlope, coarseRise, Int.tdiv_eq_ediv_of_nonneg extent]
  by_cases wide : Wide before after
  · have some_millis : (after.timestamp - before.timestamp) / nanosPerMilli ≠ 0 :=
      fun none => (whole.mp none).not_ge wide
    have counted := Int.ediv_nonneg extent positive.le
    rw [if_pos wide, if_neg some_millis, sign_divide (by exact_mod_cast (by omega)), rise]
  · rw [if_neg wide, if_pos (whole.mpr (not_le.mp wide)), sign_zero]

variable {points : List Point} {batch : List BatchedMeasurement}

theorem turns_slopes (sorted : points.Pairwise fun p q => p.timestamp < q.timestamp) :
    simplifyBySlopeChange points = turns (coarseRise Wide Point.value) points := by
  rw [simplifyBySlopeChange_eq]
  exact turns_congr (sorted.isChain.imp fun _ _ => slopeSign_calculateSlope)

theorem mem_neighbours {α : Type} {points : List α} {before point after : α}
    (member : (before, point, after) ∈ neighbours points) :
    before ∈ points ∧ point ∈ points ∧ after ∈ points := by
  match points with
  | [] | [_] | [_, _] => cases member
  | first :: second :: third :: points =>
      rcases List.mem_cons.mp member with same | later
      · cases same
        simp
      · obtain ⟨one, two, three⟩ := mem_neighbours later
        exact ⟨.tail _ one, .tail _ two, .tail _ three⟩

/-- The vector of a measurement which has one. -/
def vectorOf (measurement : BatchedMeasurement) : MeasurementVector :=
  measurement.vector.getD ⟨0, 0⟩

/-- The direction from one measurement to the next. -/
def heading (before after : BatchedMeasurement) : SignType :=
  SignType.sign (slope (vectorOf before) (vectorOf after))

theorem simplifyTransformation_eq (vectors : ∀ measurement ∈ batch, measurement.vector.isSome)
    (some_measurements : batch ≠ []) :
    simplifyTransformation batch = .ok (turns heading batch) := by
  rw [simplifyTransformation, if_neg some_measurements]
  split
  · next few => rw [turns_of_few _ few]
  · next many =>
      rw [← withEnds_eq_turns heading many]
      simp only [bind_eq_ok, pure_eq_ok]
      refine ⟨(neighbours batch).map (turning heading), mapM_eq_ok.mpr ?_,
        congrArg (withEnds batch) List.filterMap_map⟩
      rw [List.forall₂_map_right_iff, List.forall₂_same]
      rintro ⟨before, measurement, after⟩ member
      obtain ⟨one, two, three⟩ := mem_neighbours member
      obtain ⟨previous, has_previous⟩ := Option.isSome_iff_exists.mp (vectors before one)
      obtain ⟨current, has_current⟩ := Option.isSome_iff_exists.mp (vectors measurement two)
      obtain ⟨next, has_next⟩ := Option.isSome_iff_exists.mp (vectors after three)
      simp only [has_previous, has_current, has_next, expect, turning, heading, vectorOf,
        Option.getD_some]
      rfl

theorem heading_eq {before after : BatchedMeasurement}
    (later : (vectorOf before).location < (vectorOf after).location) :
    heading before after =
      coarseRise (fun p q => (vectorOf p).location < (vectorOf q).location)
        (fun measurement => (vectorOf measurement).amplitude) before after := by
  rw [heading, slope, if_neg later.ne', sign_divide (sub_pos.mpr later), coarseRise,
    if_pos later, rise]

/-- What the simplification of a list of points keeps. -/
def PointsKeepTurns (points : List Point) : Prop :=
  Turns.KeepsTurns Point.timestamp Point.value points (simplifyBySlopeChange points)
    (simplifyBySlopeChange (simplifyBySlopeChange points))

/-- What the simplification of a batch keeps. -/
def BatchKeepsTurns (batch : List BatchedMeasurement) : Prop :=
  ∃ kept again, simplifyTransformation batch = .ok kept ∧ simplifyTransformation kept = .ok again ∧
    Turns.KeepsTurns (fun measurement => (vectorOf measurement).location)
      (fun measurement => (vectorOf measurement).amplitude) batch kept again

theorem pointsKeepTurns_iff (sorted : points.Pairwise fun p q => p.timestamp < q.timestamp) :
    PointsKeepTurns points ↔
      Turns.SeenAlike Wide Point.value points ∧ Turns.SeenApart Wide Point.value points := by
  have kept_sorted := sorted.sublist
    (turns_sublist (coarseRise Wide Point.value) points)
  rw [PointsKeepTurns, turns_slopes sorted, turns_slopes kept_sorted]
  refine keepsTurns_iff (fun p p' q q' earlier later wide => ?_) sorted
  unfold Wide at wide ⊢
  omega

theorem batchKeepsTurns_iff (vectors : ∀ measurement ∈ batch, measurement.vector.isSome)
    (sorted : batch.Pairwise fun p q => (vectorOf p).location < (vectorOf q).location) :
    BatchKeepsTurns batch ↔ batch ≠ [] := by
  constructor
  · rintro ⟨_, _, done, -⟩ rfl
    cases done
  · intro some_measurements
    have kept_of := turns_sublist heading batch
    have cut := cut_turns heading some_measurements
    have kept_some : turns heading batch ≠ [] := by
      intro none
      have first := cut.head?
      rw [none, eq_comm, List.head?_nil, List.head?_eq_none_iff] at first
      exact some_measurements first
    refine ⟨_, _, simplifyTransformation_eq vectors some_measurements,
      simplifyTransformation_eq (fun measurement member => vectors _ (kept_of.subset member))
        kept_some, ?_⟩
    have agree {path : List BatchedMeasurement}
        (order : path.Pairwise fun p q => (vectorOf p).location < (vectorOf q).location) :=
      turns_congr (order.isChain.imp fun _ _ => heading_eq)
    rw [agree (sorted.sublist kept_of), agree sorted]
    refine (keepsTurns_iff (fun p p' q q' earlier later wide => ?_) sorted).mpr
      (seen_of_wide sorted)
    exact (earlier.trans_lt wide).trans_le later

/-- Milliseconds on which the values rise to a peak and fall from it. -/
def peak : List Point := [⟨0, 0⟩, ⟨5000000, 2⟩, ⟨9000000, 1⟩, ⟨12000000, -1⟩]

def measuredPeak : List BatchedMeasurement :=
  [⟨⟨0, 0⟩, none, some ⟨0, 0⟩, none⟩, ⟨⟨5000000, 2⟩, none, some ⟨1, 2⟩, none⟩,
    ⟨⟨9000000, 1⟩, none, some ⟨2, 1⟩, none⟩, ⟨⟨12000000, -1⟩, none, some ⟨3, -1⟩, none⟩]

end WeftDb.Shape
