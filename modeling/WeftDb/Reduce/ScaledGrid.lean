import Mathlib.Tactic.Ring
import WeftDb.Reduce.Scaled

/-!
# The grid and the series of the integer path

The range of nanoseconds of a bucket holds only nanoseconds of that bucket.  A series which is
lifted keeps its points in their order, all at one scale, so that integers compare as the decimals
do.
-/

namespace WeftDb.Reduce

open Option

theorem checked_eq_some {value result : Int} :
    checked value = some result ↔ Word64.Fits value ∧ value = result := by
  unfold checked
  split <;> simp_all

variable {nanos step base seconds : Int} {item : Point × Nat} {common : Nat}
  {lifted : List LiftedPoint}

theorem timestampNanosOpt_eq_some {timestamp : Instant}
    (counted : timestampNanosOpt timestamp = some nanos) :
    nanos = timestamp.timestampNanos ∧ Word64.Fits nanos := by
  simp only [timestampNanosOpt, bind_eq_bind, bind_eq_some_iff, checked_eq_some]
    at counted
  obtain ⟨product, ⟨_, rfl⟩, fits, rfl⟩ := counted
  refine ⟨?_, fits⟩
  simp only [Instant.timestampNanos, nanosPerSecond]
  split <;> ring

theorem tdiv_eq_of_pos (step_pos : 0 < step) (base_pos : 0 < base) (low : base * step ≤ seconds)
    (high : seconds ≤ base * step + (step - 1)) : seconds.tdiv step = base := by
  have seconds_nonneg : 0 ≤ seconds := (mul_pos base_pos step_pos).le.trans low
  rw [Int.tdiv_eq_ediv_of_nonneg seconds_nonneg]
  exact Int.ediv_eq_iff_of_pos step_pos |>.mpr ⟨by linarith, by linarith⟩

theorem tdiv_eq_zero (low : -(step - 1) ≤ seconds) (high : seconds ≤ step - 1) :
    seconds.tdiv step = 0 := by
  rcases le_total 0 seconds with nonneg | nonpos
  · exact Int.tdiv_eq_zero_of_lt nonneg (by omega)
  · have negated : (-seconds).tdiv step = 0 := Int.tdiv_eq_zero_of_lt (by omega) (by omega)
    rw [Int.neg_tdiv] at negated
    omega

theorem tdiv_eq_of_neg (step_pos : 0 < step) (base_neg : base < 0)
    (low : base * step - (step - 1) ≤ seconds) (high : seconds ≤ base * step) :
    seconds.tdiv step = base := by
  have negated : (-seconds).tdiv step = -base :=
    tdiv_eq_of_pos step_pos (by omega) (by linarith) (by linarith)
  rw [Int.neg_tdiv] at negated
  omega

theorem seconds_within {low high : Int} (first : low * nanosPerSecond ≤ nanos)
    (last : nanos ≤ high * nanosPerSecond + (nanosPerSecond - 1)) :
    low ≤ nanos / nanosPerSecond ∧ nanos / nanosPerSecond ≤ high := by
  simp only [nanosPerSecond] at *
  omega

theorem baseOf_of_covers {resolution : Resolution}
    (covered : Covers (baseRange resolution base) nanos) : baseOf resolution nanos = base := by
  obtain ⟨⟨first, last⟩, range, first_le, le_last⟩ := covered
  unfold baseOf
  unfold baseRange at range
  cases whole : resolution.stepSecs with
  | none =>
      simp only [whole, mem_def, bind_eq_bind, bind_eq_some_iff,
        checked_eq_some, pure_def, some.injEq, Prod.mk.injEq] at range
      obtain ⟨low, ⟨_, rfl⟩, high, ⟨_, rfl⟩, rfl, rfl⟩ := range
      exact Int.ediv_eq_iff_of_pos resolution.stepNanos_pos |>.mpr ⟨by linarith, by linarith⟩
  | some step =>
      have step_pos := Resolution.stepSecs_pos whole
      simp only [whole, mem_def, bind_eq_bind, bind_eq_some_iff,
        checked_eq_some, pure_def, some.injEq, Prod.mk.injEq] at range
      obtain ⟨anchor, ⟨_, rfl⟩, ⟨low, high⟩, ends, product, ⟨_, rfl⟩, top, ⟨_, rfl⟩, final,
        ⟨_, rfl⟩, rfl, rfl⟩ := range
      obtain ⟨low_le, le_high⟩ := seconds_within first_le le_last
      unfold secondRange at ends
      split at ends
      · rename_i positive
        simp only [map_eq_some_iff, checked_eq_some, Prod.mk.injEq] at ends
        obtain ⟨_, ⟨_, rfl⟩, rfl, rfl⟩ := ends
        exact tdiv_eq_of_pos step_pos positive low_le le_high
      split at ends
      · rename_i zero
        cases ends
        exact zero ▸ tdiv_eq_zero low_le le_high
      · rename_i not_positive not_zero
        simp only [map_eq_some_iff, checked_eq_some, Prod.mk.injEq] at ends
        obtain ⟨_, ⟨_, rfl⟩, rfl, rfl⟩ := ends
        exact tdiv_eq_of_neg step_pos (by omega) low_le le_high

/-- The mantissa of a value at the common scale. -/
def mantissaAt (common : Nat) (value : BigDecimal) : Int :=
  value.mantissa * 10 ^ (common - value.scale.toNat)

/-- A point of the series, with its position, as integers at the common scale. -/
def liftOf (common : Nat) (item : Point × Nat) : LiftedPoint where
  nanos := item.1.timestamp.timestampNanos
  mantissa := mantissaAt common item.1.value
  scale := item.1.value.scale.toNat
  position := item.2

/-- What holds of a point which was lifted. -/
structure Liftable (common : Nat) (point : Point) : Prop where
  nanos : Word64.Fits point.timestamp.timestampNanos
  scale_nonneg : 0 ≤ point.value.scale
  scale_le : point.value.scale.toNat ≤ common

theorem mapM_eq_map {Item Image : Type} {step : Item → Option Image} {image : Item → Image}
    {good : Item → Prop}
    (determined : ∀ item result, step item = some result → good item ∧ result = image item)
    {items : List Item} {results : List Image} (done : items.mapM step = some results) :
    results = items.map image ∧ ∀ item ∈ items, good item := by
  induction items generalizing results with
  | nil =>
      rw [List.mapM_nil] at done
      cases done
      exact ⟨rfl, fun _ member => absurd member List.not_mem_nil⟩
  | cons item items ih =>
      simp only [List.mapM_cons, bind_eq_bind, bind_eq_some_iff, pure_def,
        some.injEq] at done
      obtain ⟨first, found, later, rest, rfl⟩ := done
      obtain ⟨item_good, rfl⟩ := determined item first found
      obtain ⟨rfl, items_good⟩ := ih rest
      exact ⟨rfl, List.forall_mem_cons.mpr ⟨item_good, items_good⟩⟩

/-- A point with its position, as integers at its own scale. -/
def rawLift (item : Point × Nat) : LiftedPoint where
  nanos := item.1.timestamp.timestampNanos
  mantissa := item.1.value.mantissa
  scale := item.1.value.scale.toNat
  position := item.2

theorem liftPoint_eq_some {lifted : LiftedPoint} (done : liftPoint item.1 item.2 = some lifted) :
    (Word64.Fits item.1.timestamp.timestampNanos ∧ 0 ≤ item.1.value.scale) ∧
      lifted = rawLift item := by
  simp only [liftPoint, bind_eq_bind, bind_eq_some_iff, checked_eq_some] at done
  obtain ⟨nanos, counted, mantissa, ⟨_, rfl⟩, done⟩ := done
  obtain ⟨rfl, fits⟩ := timestampNanosOpt_eq_some counted
  split at done
  · rename_i unsigned
    cases done
    exact ⟨⟨fits, unsigned.1⟩, rfl⟩
  · cases done

theorem rescale_rawLift {lifted : LiftedPoint}
    (done : (rawLift item).rescale common = some lifted) : lifted = liftOf common item := by
  simp only [LiftedPoint.rescale, bind_eq_bind, bind_eq_some_iff, checked_eq_some,
    pure_def, some.injEq] at done
  obtain ⟨mantissa, ⟨_, rfl⟩, rfl⟩ := done
  rfl

theorem rescaleSeries_eq_some {items : List (Point × Nat)}
    (below : ∀ item ∈ items, item.1.value.scale.toNat ≤ common)
    (done : rescaleSeries common (items.map rawLift) = some lifted) :
    lifted = items.map (liftOf common) := by
  unfold rescaleSeries at done
  split at done
  · rw [List.mapM_map] at done
    exact (mapM_eq_map (fun item result found => ⟨trivial, rescale_rawLift found⟩) done).1
  · rename_i level
    cases done
    refine List.map_congr_left fun item member => ?_
    have scale : item.1.value.scale.toNat = common := by
      refine le_antisymm (below item member) (not_lt.mp fun lower => level ?_)
      exact List.any_eq_true.mpr ⟨_, List.mem_map_of_mem member, decide_eq_true lower⟩
    rw [liftOf, mantissaAt, scale, Nat.sub_self, pow_zero, mul_one, rawLift, scale]

theorem liftSeries_eq_some {points : List Point}
    (done : liftSeries points = some (lifted, common)) :
    lifted = points.zipIdx.map (liftOf common) ∧ ∀ point ∈ points, Liftable common point := by
  simp only [liftSeries, bind_eq_bind, bind_eq_some_iff] at done
  obtain ⟨raw, raised, done⟩ := done
  obtain ⟨raw_eq, good⟩ := mapM_eq_map (fun item result found => liftPoint_eq_some found) raised
  split at done
  · cases done
  · simp only [bind_eq_some_iff, pure_def, some.injEq, Prod.mk.injEq] at done
    obtain ⟨rescaled, done, rfl, rfl⟩ := done
    have below : ∀ item ∈ points.zipIdx, item.1.value.scale.toNat ≤ commonScale raw := by
      intro item member
      refine (Hull.le_foldl_max id _ 0).2 _ ?_
      rw [raw_eq, List.map_map]
      exact List.mem_map.mpr ⟨item, member, rfl⟩
    refine ⟨rescaleSeries_eq_some below (raw_eq ▸ done), fun point member => ?_⟩
    obtain ⟨position, bound, rfl⟩ := List.getElem_of_mem member
    have item_mem : (points[position], position) ∈ points.zipIdx :=
      List.mem_zipIdx_iff_getElem?.mpr (List.getElem?_eq_getElem bound)
    exact
      { nanos := (good _ item_mem).1
        scale_nonneg := (good _ item_mem).2
        scale_le := below _ item_mem }

end WeftDb.Reduce
