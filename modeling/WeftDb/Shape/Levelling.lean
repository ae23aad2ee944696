import WeftDb.Shape.SlopeChange

/-!
# The levelled path of a batch

The pattern of a batch depends on its measurements only by the path of its levelled vectors, whose
ends lie at amplitude zero.
-/

namespace WeftDb.Shape

section Passes

variable (first last : MeasurementVector)

/-- How far a vector lies from the first one to the last one. -/
def portion (vector : MeasurementVector) : ℚ :=
  divide (vector.location - first.location) (last.location - first.location)

/-- A vector from the origin and with the ends levelled. -/
def levelled (vector : MeasurementVector) : MeasurementVector where
  location := vector.location - first.location
  amplitude := vector.amplitude - first.amplitude * (1 - portion first last vector) -
    last.amplitude * portion first last vector

/-- A measurement of a batch, with a vector and its distance. -/
def placed (vector : MeasurementVector → MeasurementVector) (measurement : BatchedMeasurement) :
    BatchedMeasurement where
  point := measurement.point
  distance := some ⟨portion first last measurement.located,
    1 - portion first last measurement.located⟩
  vector := some (vector measurement.located)
  relative := measurement.relative

variable {first last} {measurements : List BatchedMeasurement} {head tail : BatchedMeasurement}

theorem moveAmplitude_placed {movement : ℚ} {share : BatchDistance → ℚ}
    {vector moved : MeasurementVector → MeasurementVector} {measurement : BatchedMeasurement}
    (location : (moved measurement.located).location = (vector measurement.located).location)
    (amplitude : (moved measurement.located).amplitude = (vector measurement.located).amplitude +
      movement * share ⟨portion first last measurement.located,
        1 - portion first last measurement.located⟩) :
    moveAmplitude movement share (placed first last vector measurement) =
      .ok (placed first last moved measurement) := by
  have same := congrArg₂ MeasurementVector.mk location.symm amplitude.symm
  exact congrArg (fun own => Except.ok { placed first last moved measurement with
    vector := some own }) same

theorem mapM_placed {step : BatchedMeasurement → Except BatchError BatchedMeasurement}
    (vector moved : MeasurementVector → MeasurementVector)
    (each : ∀ measurement, step (placed first last vector measurement) =
      .ok (placed first last moved measurement)) :
    (measurements.map (placed first last vector)).mapM step =
      .ok (measurements.map (placed first last moved)) := by
  rw [mapM_eq_ok, List.forall₂_map_left_iff, List.forall₂_map_right_iff, List.forall₂_same]
  exact fun measurement _ => each measurement

theorem portion_first : portion first last first = 0 := by
  rw [portion, divide, sub_self, zero_div, SignificantDigits.roundTo_zero]

theorem portion_last (apart : first.location ≠ last.location) : portion first last last = 1 := by
  rw [portion, divide, div_self (sub_ne_zero.mpr apart.symm),
    SignificantDigits.roundTo_one (by decide)]

theorem levelled_first : levelled first last first = ⟨0, 0⟩ := by
  simp [levelled, portion_first]

theorem levelled_last (apart : first.location ≠ last.location) :
    levelled first last last = ⟨last.location - first.location, 0⟩ := by
  simp [levelled, portion_last apart]

variable (at_head : measurements.head? = some head) (at_tail : measurements.getLast? = some tail)

include at_head at_tail

omit at_tail in
theorem ne_nil_of_head : measurements ≠ [] := by
  rintro rfl
  cases at_head

theorem newBatch_eq (apart : head.located.location ≠ tail.located.location) :
    newBatch measurements = .ok (measurements.map (placed head.located tail.located id)) := by
  have filled := ne_nil_of_head at_head
  refine bind_eq_ok.mpr ⟨_, if_neg filled, ?_⟩
  rw [initializeDistances, if_neg (mt List.map_eq_nil_iff.mp filled), List.head?_map,
    List.getLast?_map, at_head, at_tail]
  show (if tail.located.location - head.located.location = 0 then _ else _) = _
  rw [if_neg (sub_ne_zero.mpr apart.symm), mapM_eq_ok, List.forall₂_map_left_iff,
    List.forall₂_map_right_iff, List.forall₂_same]
  exact fun measurement _ => rfl

theorem levelTransform_placed (apart : head.located.location ≠ tail.located.location) :
    levelTransform (measurements.map (placed head.located tail.located id)) =
      .ok (measurements.map (placed head.located tail.located fun own =>
        ⟨own.location, (levelled head.located tail.located own).amplitude⟩)) := by
  have filled := ne_nil_of_head at_head
  rw [levelTransform, if_neg (mt List.map_eq_nil_iff.mp filled)]
  have positive : positiveLevelTransform (measurements.map (placed head.located tail.located id)) =
      .ok (measurements.map (placed head.located tail.located fun own =>
        ⟨own.location, own.amplitude - head.located.amplitude *
          (1 - portion head.located tail.located own)⟩)) := by
    rw [positiveLevelTransform, List.head?_map, at_head]
    refine mapM_placed _ _ fun measurement => moveAmplitude_placed rfl ?_
    show _ = measurement.located.amplitude + (0 - head.located.amplitude) * _
    ring
  refine bind_eq_ok.mpr ⟨_, positive, ?_⟩
  rw [negativeLevelTransform, List.getLast?_map, at_tail]
  refine mapM_placed _ _ fun measurement => moveAmplitude_placed rfl ?_
  show _ = measurement.located.amplitude - _ + (0 - (tail.located.amplitude - _)) * _
  rw [portion_last apart, levelled]
  ring

omit at_tail in
theorem transposeOrigin_placed :
    transposeOrigin (measurements.map (placed head.located tail.located fun own =>
        ⟨own.location, (levelled head.located tail.located own).amplitude⟩)) =
      .ok (measurements.map (placed head.located tail.located
        (levelled head.located tail.located))) := by
  rw [transposeOrigin, List.head?_map, at_head]
  refine mapM_placed _ _ fun measurement => ?_
  have movement : measurement.located.location + (0 - head.located.location) =
      (levelled head.located tail.located measurement.located).location := by
    rw [levelled]
    ring
  have same := congrArg (MeasurementVector.mk ·
    (levelled head.located tail.located measurement.located).amplitude) movement
  exact congrArg (fun own => Except.ok { placed head.located tail.located
    (levelled head.located tail.located) measurement with vector := some own }) same

end Passes

/-- The direction from one vector to the next. -/
def vectorHeading (before after : MeasurementVector) : SignType :=
  SignType.sign (slope before after)

/-- A vector relative to an extent. -/
def relativeTo (maxX maxY : ℚ) (vector : MeasurementVector) : MeasurementVector where
  location := divide vector.location maxX
  amplitude := divide vector.amplitude maxY

/-- The levelled path of some measurements. -/
def levelledPath (first last : MeasurementVector) (measurements : List BatchedMeasurement) :
    List MeasurementVector :=
  measurements.map fun measurement => levelled first last measurement.located

section

variable {first last : MeasurementVector} {measurements : List BatchedMeasurement}

theorem simplifyTransformation_placed (filled : measurements ≠ []) :
    simplifyTransformation (measurements.map (placed first last (levelled first last))) =
      .ok ((Turns.turns (fun p q => vectorHeading (levelled first last p.located)
        (levelled first last q.located)) measurements).map
          (placed first last (levelled first last))) := by
  have vectors : ∀ measurement ∈ measurements.map (placed first last (levelled first last)),
      measurement.vector.isSome :=
    List.forall_mem_map.mpr fun _ _ => rfl
  rw [simplifyTransformation_eq vectors (mt List.map_eq_nil_iff.mp filled), Turns.turns_map]
  rfl

theorem relativeAnalysis_placed {maxX maxY : ℚ} (filled : measurements ≠ [])
    (wide : extent ((levelledPath first last measurements).map MeasurementVector.location) =
      some maxX)
    (high : extent ((levelledPath first last measurements).map MeasurementVector.amplitude) =
      some maxY) :
    relativeAnalysis (measurements.map (placed first last (levelled first last))) =
      if maxX = 0 ∨ maxY = 0 then .error .zeroExtent
      else .ok (measurements.map fun measurement =>
        { placed first last (levelled first last) measurement with
          relative := some
            ⟨relativeTo maxX maxY (levelled first last measurement.located), maxX, maxY⟩ }) := by
  have vectors : (measurements.map (placed first last (levelled first last))).filterMap
      BatchedMeasurement.vector = levelledPath first last measurements := by
    rw [List.filterMap_map]
    exact congrFun List.filterMap_eq_map measurements
  rw [relativeAnalysis, if_neg (mt List.map_eq_nil_iff.mp filled)]
  dsimp only
  rw [vectors, wide, high]
  refine if_congr Iff.rfl rfl ?_
  rw [mapM_eq_ok, List.forall₂_map_left_iff, List.forall₂_map_right_iff, List.forall₂_same]
  exact fun measurement _ => rfl

theorem pattern_eq {head tail : BatchedMeasurement} {maxX maxY : ℚ}
    (at_head : measurements.head? = some head) (at_tail : measurements.getLast? = some tail)
    (apart : head.located.location ≠ tail.located.location)
    (wide : extent ((Turns.turns vectorHeading (levelledPath head.located tail.located measurements)).map
      MeasurementVector.location) = some maxX)
    (high : extent ((Turns.turns vectorHeading (levelledPath head.located tail.located measurements)).map
      MeasurementVector.amplitude) = some maxY) :
    pattern measurements =
      if maxX = 0 ∨ maxY = 0 then .error .zeroExtent
      else .ok ((Turns.turns vectorHeading
        (levelledPath head.located tail.located measurements)).map (relativeTo maxX maxY)) := by
  have filled := ne_nil_of_head at_head
  rw [levelledPath, Turns.turns_map] at wide high ⊢
  set kept := Turns.turns (fun p q => vectorHeading (levelled head.located tail.located p.located)
    (levelled head.located tail.located q.located)) measurements with is_kept
  have processed : process (measurements.map (placed head.located tail.located id)) =
      relativeAnalysis (kept.map (placed head.located tail.located
        (levelled head.located tail.located))) := by
    rw [process, levelTransform_placed at_head at_tail apart]
    show (do
      let batch ← transposeOrigin _
      let batch ← simplifyTransformation batch
      relativeAnalysis batch) = _
    rw [transposeOrigin_placed at_head]
    show (do
      let batch ← simplifyTransformation _
      relativeAnalysis batch) = _
    rw [simplifyTransformation_placed filled]
    rfl
  have kept_some : kept ≠ [] := by
    intro none
    rw [none] at wide
    cases wide
  rw [pattern, newBatch_eq at_head at_tail apart]
  show (do
    let processed ← process _
    return processed.filterMap fun measurement : BatchedMeasurement =>
      measurement.relative.map Relative.vector) = _
  rw [processed, relativeAnalysis_placed kept_some wide high]
  split_ifs
  · rfl
  · rw [List.map_map]
    show Except.ok _ = _
    rw [List.filterMap_map]
    exact congrArg Except.ok (congrFun List.filterMap_eq_map kept)

end

end WeftDb.Shape
