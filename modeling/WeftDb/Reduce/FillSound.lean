import WeftDb.Reduce.Fill
import WeftDb.Reduce.PathAgreement

/-!
# What a fill gives

At every step of the grid stands the bucket which was measured there, or one whose values are those
which the method defines from the nearest buckets on either side, within the bounds or not.
-/

namespace WeftDb.Reduce

open DenseWalk Option

/-- Whether a bucket has a reduction at all. -/
def Carries (buckets : List Bucket) (key : String) : Prop :=
  ∃ bucket ∈ buckets, ∃ value, valueOf key bucket = some value

variable {Value Failure : Type} {bound : Option Instant} {outermost step : Option Int}
  {splines : Splines} {filled : List Bucket} {reducer : Reducer}
  {compute : String → Except Failure Value}

theorem find?_extend_values (map : SortedMap String Value) (bucket : Bucket) (change : Rat → Value)
    (key : String) :
    (map.extend (bucket.values.entries.map fun entry => (entry.1, change entry.2))).find? key =
      ((valueOf key bucket).map change).or (map.find? key) := by
  rw [SortedMap.find?_extend, SortedMap.lookup_map]
  · rfl
  · exact List.pairwise_map.mpr bucket.values.sorted

theorem find?_foldl_noteLatest (entries : List (Int × Bucket)) (latest : LatestValues)
    (key : String) : (entries.foldl noteLatest latest).find? key =
      entries.foldl (noteLast (valueOf key)) (latest.find? key) := by
  induction entries generalizing latest with
  | nil => rfl
  | cons entry entries ih =>
      rw [List.foldl_cons, List.foldl_cons, ih, noteLatest, find?_extend_values]
      rfl

theorem find?_carriedKeys (buckets : List Bucket) (key : String) :
    (carriedKeys buckets).find? key = some () ↔ Carries buckets key := by
  have from_start (keys : SortedMap String Unit) :
      (buckets.foldl (fun keys bucket =>
        keys.extend (bucket.values.entries.map fun entry => (entry.1, ()))) keys).find? key =
          some () ↔ Carries buckets key ∨ keys.find? key = some () := by
    induction buckets generalizing keys with
    | nil => simp [Carries]
    | cons bucket buckets ih =>
        rw [List.foldl_cons, ih, find?_extend_values keys bucket fun _ => (), Carries, Carries,
          List.exists_mem_cons_iff]
        cases valueOf key bucket with
        | none => simp
        | some value => simp
  rw [carriedKeys, from_start, SortedMap.find?_empty]
  simp

theorem getElem?_stepBy {Element : Type} {per : Nat} (positive : 0 < per) (skip : Nat)
    (elements : List Element) (index : Nat) :
    (stepBy per skip elements)[index]? = elements[skip + index * per]? := by
  induction elements generalizing skip index with
  | nil => simp [stepBy]
  | cons element elements ih =>
      cases skip with
      | zero =>
          rw [stepBy]
          cases index with
          | zero => simp
          | succ index =>
              rw [List.getElem?_cons_succ, ih, show 0 + (index + 1) * per =
                per - 1 + index * per + 1 by rw [Nat.add_mul]; omega, List.getElem?_cons_succ]
      | succ skip =>
          rw [stepBy, ih, show skip + 1 + index * per = skip + index * per + 1 by omega,
            List.getElem?_cons_succ]

theorem getElem?_stepsFrom (step : Int) {count index : Nat} (within : index < count) :
    (stepsFrom step count)[index]? = some (step + index) := by
  induction count generalizing step index with
  | zero => exact absurd within (Nat.not_lt_zero index)
  | succ count ih =>
      cases index with
      | zero => simp [stepsFrom]
      | succ index =>
          rw [stepsFrom, List.getElem?_cons_succ, ih _ (Nat.lt_of_succ_lt_succ within)]
          push_cast
          congr 1
          omega

theorem ascending_zip_stepsFrom {Other : Type} (step : Int) (count : Nat) (others : List Other) :
    ((stepsFrom step count).zip others).Pairwise (·.1 < ·.1) := by
  induction count generalizing step others with
  | zero => exact .nil
  | succ count ih =>
      cases others with
      | nil => exact .nil
      | cons other others =>
          refine .cons (fun pair member => ?_) (ih (step + 1) others)
          exact (mem_stepsFrom.mp (List.of_mem_zip member).1).1

theorem find?_splineSteps {first step : Int} {per grid : Nat} (positive : 0 < per)
    (series : List (Bool × Rat)) (above : first ≤ step) (below : step < first + grid)
    (value : Rat) :
    (splineSteps first per grid series).find? step = some value ↔
      series[(step - first).toNat * per]? = some (true, value) := by
  have ascending := ascending_zip_stepsFrom first grid (stepBy per 0 series)
  have sorted : ((((stepsFrom first grid).zip (stepBy per 0 series)).filter
      fun point => point.2.1).map fun point => (point.1, point.2.2)).Pairwise
        fun left right => left.1 < right.1 :=
    List.pairwise_map.mpr (ascending.filter _)
  have place : (stepsFrom first grid)[(step - first).toNat]? = some step := by
    rw [getElem?_stepsFrom first (by omega)]
    congr 1
    omega
  rw [splineSteps, SortedMap.find?_extend _ sorted, SortedMap.find?_empty, or_none,
    SortedMap.lookup_eq_some sorted, List.mem_map]
  have point_at : (step, true, value) ∈ (stepsFrom first grid).zip (stepBy per 0 series) ↔
      series[(step - first).toNat * per]? = some (true, value) := by
    rw [List.mem_iff_getElem?]
    simp only [List.getElem?_zip_eq_some, getElem?_stepBy positive, Nat.zero_add]
    constructor
    · rintro ⟨index, here, found⟩
      have within : index < grid := by
        have inside := (List.getElem?_eq_some_iff.mp here).1
        rwa [length_stepsFrom] at inside
      rw [getElem?_stepsFrom first within, some.injEq] at here
      rw [show (step - first).toNat = index by omega]
      exact found
    · exact fun found => ⟨_, place, found⟩
  rw [← point_at]
  constructor
  · rintro ⟨point, member, same⟩
    obtain ⟨inside, interpolated⟩ := List.mem_filter.mp member
    obtain ⟨rfl, rfl⟩ := Prod.mk.inj same
    rw [← show point.2.1 = true from interpolated]
    exact inside
  · exact fun member => ⟨_, List.mem_filter.mpr ⟨member, rfl⟩, rfl⟩

theorem foldlM_insert_eq_ok {keys : List String} {start values : SortedMap String Value}
    (done : keys.foldlM (fun values key => do return values.insert key (← compute key)) start =
      .ok values) (key : String) :
    (key ∈ keys → ∃ value, compute key = .ok value ∧ values.find? key = some value) ∧
      (key ∉ keys → values.find? key = start.find? key) := by
  induction keys generalizing start with
  | nil =>
      rw [List.foldlM_nil, pure_eq_ok] at done
      rw [done]
      exact ⟨fun member => absurd member List.not_mem_nil, fun _ => rfl⟩
  | cons first keys ih =>
      simp only [List.foldlM_cons, bind_eq_ok, pure_eq_ok] at done
      obtain ⟨_, ⟨value, computed, rfl⟩, onward⟩ := done
      obtain ⟨inside, outside⟩ := ih onward
      rw [SortedMap.find?_insert] at outside
      refine ⟨fun member => ?_, fun absent => ?_⟩
      · by_cases later : key ∈ keys
        · exact inside later
        · have same : key = first := (List.mem_cons.mp member).resolve_right later
          rw [outside later, if_pos same.symm, same]
          exact ⟨value, computed, rfl⟩
      · obtain ⟨differs, later⟩ := not_or.mp (List.mem_cons.not.mp absent)
        rw [outside later, if_neg (Ne.symm differs)]

theorem exists_foldlM_insert {keys : List String} (start : SortedMap String Value)
    (each : ∀ key ∈ keys, ∃ value, compute key = .ok value) :
    ∃ values, keys.foldlM (fun values key => do return values.insert key (← compute key)) start =
      .ok values := by
  induction keys generalizing start with
  | nil => exact ⟨start, rfl⟩
  | cons first keys ih =>
      obtain ⟨⟨value, computed⟩, later⟩ := List.forall_mem_cons.mp each
      obtain ⟨values, done⟩ := ih (start.insert first value) later
      refine ⟨values, ?_⟩
      rw [List.foldlM_cons, computed]
      exact done

/-- The buckets which there are, each at its step, and the grid which is to be filled. -/
structure GapFilling (splines : Splines) where
  width : BucketWidth
  measured : List (Int × Bucket)
  ascending : measured.Pairwise (·.1 < ·.1)
  method : Fill splines.Spline
  first : Int
  last : Int

namespace GapFilling

variable {splines : Splines} (reducer : Reducer) (filling : GapFilling splines)
variable {spline : splines.Spline} {key : String} {start finish : Instant}
  {values : SortedMap String (SortedMap Int Rat)}

def buckets : List Bucket := filling.measured.map Prod.snd

/-- How many steps the grid has. -/
def grid : Nat := (filling.last - filling.first + 1).toNat

/-- The points of the spline through the buckets which have a reduction. -/
def Series (spline : splines.Spline) (key : String) (series : List (Bool × Rat)) : Prop :=
  ∃ start finish, filling.width.start reducer filling.first = some start ∧
    filling.width.start reducer filling.last = some finish ∧
    splines.interpolate (knots filling.buckets key) start finish filling.width.unit spline =
      .ok series

variable {reducer filling} in
theorem Series.unique {series other : List (Bool × Rat)}
    (drawn : filling.Series reducer spline key series)
    (also : filling.Series reducer spline key other) : series = other := by
  obtain ⟨start, finish, begins, ends, points⟩ := drawn
  obtain ⟨_, _, other_begins, other_ends, other_points⟩ := also
  cases begins.symm.trans other_begins
  cases ends.symm.trans other_ends
  exact Except.ok.inj (points.symm.trans other_points)

/-- The value which a method defines for a reduction at a step without samples. -/
def Gives (step : Int) (key : String) (value : Rat) : Prop :=
  match filling.method with
  | .null => False
  | .value constant => Carries filling.buckets key ∧ value = constant
  | .previous => ∃ place, NearestBefore (valueOf key) filling.measured step place value
  | .linear => ∃ place before other behind,
      NearestBefore (valueOf key) filling.measured step place before ∧
      NearestBehind (valueOf key) filling.measured step other behind ∧
      value = linearValue reducer step (place, before) (other, behind)
  | .spline spline => Carries filling.buckets key ∧ ∃ series,
      filling.Series reducer spline key series ∧
      series[(step - filling.first).toNat * filling.width.count]? = some (true, value)

/-- The bucket which stands at a step. -/
def Holds (step : Int) (bucket : Bucket) : Prop :=
  (step, bucket) ∈ filling.measured ∨
    (∀ entry ∈ filling.measured, entry.1 ≠ step) ∧ bucket.count = 0 ∧
      filling.width.start reducer step = some bucket.timestamp ∧
      ∀ key value, bucket.values.find? key = some value ↔ filling.Gives reducer step key value

/-- Whether the splines of the method can be drawn. -/
def Draws : Prop :=
  ∀ spline, filling.method = .spline spline →
    (∃ start, filling.width.start reducer filling.first = some start) ∧
    (∃ finish, filling.width.start reducer filling.last = some finish) ∧
    ∀ key, Carries filling.buckets key → ∃ series, filling.Series reducer spline key series

/-- What a fill gives: nothing between bounds which are the wrong way round, and otherwise a bucket
for each step, if there are no more of them than are allowed. -/
def Fills (maxBuckets : Nat) (filled : List Bucket) : Prop :=
  filling.last < filling.first ∧ filled = [] ∨
    filling.first ≤ filling.last ∧ filling.grid ≤ maxBuckets ∧ filling.Draws reducer ∧
      List.Forall₂ (filling.Holds reducer) (stepsFrom filling.first filling.grid) filled

variable {reducer filling}

/-- The splines which the method needs. -/
def splined (reducer : Reducer) (filling : GapFilling splines) :
    Except FillError (SortedMap String (SortedMap Int Rat)) :=
  methodSplines reducer splines filling.buckets filling.width filling.first filling.last
    filling.method

theorem mem_keys_carriedKeys {buckets : List Bucket} :
    key ∈ (carriedKeys buckets).keys ↔ Carries buckets key := by
  rw [← find?_carriedKeys, SortedMap.find?_eq_some, SortedMap.keys, List.mem_map]
  constructor
  · rintro ⟨⟨key, _⟩, member, rfl⟩
    exact member
  · exact fun member => ⟨_, member, rfl⟩

theorem splineByStep_eq_ok {buckets : List Bucket} {width : BucketWidth} {first last : Int}
    {byStep : SortedMap Int Rat} :
    splineByStep splines buckets width first last spline start finish key = .ok byStep ↔
      ∃ series, splines.interpolate (knots buckets key) start finish width.unit spline =
        .ok series ∧ splineSteps first width.count (last - first + 1).toNat series = byStep := by
  rw [splineByStep, bind_eq_ok]
  simp only [mapError_eq_ok, pure_eq_ok]

theorem splineValues_eq_ok
    (done : splineValues reducer splines filling.buckets filling.width filling.first filling.last
      spline = .ok values) (key : String) :
    (Carries filling.buckets key → ∃ series, filling.Series reducer spline key series ∧
      values.find? key =
        some (splineSteps filling.first filling.width.count filling.grid series)) ∧
    (¬Carries filling.buckets key → values.find? key = none) := by
  rw [splineValues] at done
  split at done
  · rename_i start finish begins ends
    obtain ⟨inside, outside⟩ := foldlM_insert_eq_ok done key
    rw [mem_keys_carriedKeys] at inside outside
    refine ⟨fun carried => ?_, outside⟩
    obtain ⟨byStep, computed, found⟩ := inside carried
    obtain ⟨series, drawn, rfl⟩ := splineByStep_eq_ok.mp computed
    exact ⟨series, ⟨start, finish, begins, ends, drawn⟩, found⟩
  · cases done

theorem exists_splineValues (begins : filling.width.start reducer filling.first = some start)
    (ends : filling.width.start reducer filling.last = some finish)
    (draws : ∀ key, Carries filling.buckets key →
      ∃ series, filling.Series reducer spline key series) :
    ∃ values, splineValues reducer splines filling.buckets filling.width filling.first
      filling.last spline = .ok values := by
  rw [splineValues, begins, ends]
  refine exists_foldlM_insert _ fun key member => ?_
  obtain ⟨series, _, _, first_start, last_start, drawn⟩ :=
    draws key (mem_keys_carriedKeys.mp member)
  rw [begins] at first_start
  rw [ends] at last_start
  cases first_start
  cases last_start
  exact ⟨_, splineByStep_eq_ok.mpr ⟨series, drawn, rfl⟩⟩

theorem exists_splined_iff :
    (∃ values, filling.splined reducer = .ok values) ↔ filling.Draws reducer := by
  rw [splined, Draws, methodSplines.eq_def]
  cases filling.method with
  | spline spline =>
      simp only [Fill.spline.injEq, forall_eq']
      constructor
      · rintro ⟨values, done⟩
        have drawn (key : String) (carried : Carries filling.buckets key) :=
          ((splineValues_eq_ok done key).1 carried).imp fun _ found => found.1
        rw [splineValues] at done
        split at done
        · rename_i start finish begins ends
          exact ⟨⟨start, begins⟩, ⟨finish, ends⟩, drawn⟩
        · cases done
      · rintro ⟨⟨start, begins⟩, ⟨finish, ends⟩, draws⟩
        exact exists_splineValues begins ends draws
  | null | previous | linear | value constant =>
      refine ⟨fun _ _ other => ?_, fun _ => ⟨_, rfl⟩⟩
      cases other

/-- The reductions to which a constant is given. -/
def keys (filling : GapFilling splines) : SortedMap String Unit :=
  constantKeys splines filling.buckets filling.method

/-- The values of a gap are those which the method defines. -/
theorem gapValues_iff (done : filling.splined reducer = .ok values) {step : Int}
    (above : filling.first ≤ step) (below : step < filling.first + filling.grid) (key : String)
    (value : Rat) :
    (gapValues reducer splines filling.method filling.keys values step
      ((filling.measured.filter (·.1 < step)).foldl noteLatest .empty)
      (filling.measured.filter (step < ·.1))).find? key = some value ↔
        filling.Gives reducer step key value := by
  have latest := find?_foldl_noteLatest (filling.measured.filter (·.1 < step)) .empty key
  rw [SortedMap.find?_empty] at latest
  have before {place : Int} {value : Rat} :=
    @nearestBefore_iff _ _ (valueOf key) _ step place value filling.ascending
  have behind {place : Int} {value : Rat} :=
    @nearestBehind_iff _ _ (valueOf key) _ step place value filling.ascending
  rw [Gives, keys]
  rw [splined] at done
  cases method : filling.method with
  | null =>
      rw [gapValues, SortedMap.find?_empty]
      exact ⟨fun found => (some_ne_none value found.symm).elim, False.elim⟩
  | value constant =>
      rw [gapValues, SortedMap.find?_filterMap, constantKeys, ← find?_carriedKeys]
      dsimp only
      cases (carriedKeys filling.buckets).find? key with
      | none => simp
      | some carried => simp [eq_comm]
  | previous =>
      rw [gapValues, SortedMap.find?_filterMap, latest]
      dsimp only
      simp only [← before]
      cases List.foldl (noteLast (valueOf key)) none (filling.measured.filter (·.1 < step)) with
      | none => simp
      | some found => simp [Prod.ext_iff]
  | linear =>
      rw [gapValues, linearValues, SortedMap.find?_filterMap, latest]
      dsimp only
      simp only [← before, ← behind]
      cases List.foldl (noteLast (valueOf key)) none (filling.measured.filter (·.1 < step)) with
      | none => simp
      | some before =>
          cases findFirst (valueOf key) (filling.measured.filter (step < ·.1)) with
          | none => simp
          | some behind =>
              rw [bind_some, map_some]
              constructor
              · intro given
                exact ⟨before.1, before.2, behind.1, behind.2, rfl, rfl,
                  (some.inj given).symm⟩
              · rintro ⟨_, _, _, _, ⟨⟩, ⟨⟩, rfl⟩
                rfl
  | spline spline =>
      rw [method] at done
      obtain ⟨carried, absent⟩ := splineValues_eq_ok done key
      rw [gapValues, SortedMap.find?_filterMap]
      dsimp only
      by_cases carries : Carries filling.buckets key
      · obtain ⟨series, drawn, found⟩ := carried carries
        rw [found, bind_some, find?_splineSteps filling.width.count_pos series above below]
        constructor
        · exact fun point => ⟨carries, series, drawn, point⟩
        · rintro ⟨-, other, also, point⟩
          rw [drawn.unique also]
          exact point
      · rw [absent carries, bind_none]
        exact ⟨fun found => (some_ne_none value found.symm).elim,
          fun given => absurd given.1 carries⟩

theorem gapBucket_eq_ok {step : Int} {latest : LatestValues} {later : List (Int × Bucket)}
    {bucket : Bucket} :
    gapBucket reducer splines filling.width filling.method filling.keys values step latest later =
        .ok bucket ↔
      bucket.count = 0 ∧ filling.width.start reducer step = some bucket.timestamp ∧
        bucket.values =
          gapValues reducer splines filling.method filling.keys values step latest later := by
  rw [gapBucket]
  cases filling.width.start reducer step with
  | none => simp
  | some timestamp =>
      simp only [Except.ok.injEq, some.injEq, Bucket.ext_iff]
      constructor
      · rintro ⟨time, none_counted, made_up⟩
        exact ⟨none_counted.symm, time, made_up.symm⟩
      · rintro ⟨none_counted, time, made_up⟩
        exact ⟨time, none_counted.symm, made_up.symm⟩

theorem stands_iff_holds (done : filling.splined reducer = .ok values) {step : Int}
    (above : filling.first ≤ step) (below : step < filling.first + filling.grid) (bucket : Bucket) :
    Stands noteLatest (gapBucket reducer splines filling.width filling.method filling.keys values)
        id .empty filling.measured step bucket ↔ filling.Holds reducer step bucket := by
  rw [Stands, Holds, gapBucket_eq_ok]
  have given := gapValues_iff done above below
  refine or_congr ⟨?_, fun member => ⟨bucket, member, rfl⟩⟩
    (and_congr_right' (and_congr_right' (and_congr_right' ?_)))
  · rintro ⟨item, member, rfl⟩
    exact member
  · constructor
    · intro made_up key value
      rw [made_up]
      exact given key value
    · intro defined
      refine SortedMap.ext_find? fun key => Option.ext fun value => ?_
      exact (defined key value).trans (given key value).symm

theorem partitionPoint_steps (filling : GapFilling splines) :
    let next := partitionPoint (fun step => step < filling.first) (filling.measured.map Prod.fst)
    (∀ entry ∈ filling.measured.take next, entry.1 < filling.first) ∧
      ∀ entry ∈ filling.measured.drop next, filling.first ≤ entry.1 := by
  have ascending := filling.ascending.imp (fun below : _ < _ => Int.le_of_lt below)
  have cut := CutBy.of_sorted ascending filling.first
  have step_cut : CutBy (fun step => decide (step < filling.first))
      (filling.measured.map Prod.fst) :=
    List.pairwise_map.mpr cut
  have same : partitionPoint (fun step => decide (step < filling.first))
      (filling.measured.map Prod.fst) =
        partitionPoint (fun entry => decide (entry.1 < filling.first)) filling.measured := by
    rw [partitionPoint_eq step_cut, partitionPoint_eq cut, List.takeWhile_map, List.length_map]
    rfl
  rw [same]
  dsimp only
  rw [take_partitionPoint cut, drop_partitionPoint cut]
  constructor
  · intro entry member
    exact of_decide_eq_true (List.mem_filter.mp member).2
  · intro entry member
    have kept := (List.mem_filter.mp member).2
    simpa using kept

theorem walk_eq_ok (done : filling.splined reducer = .ok values) (filled : List Bucket) :
    let next := partitionPoint (fun step => step < filling.first) (filling.measured.map Prod.fst)
    walk noteLatest (gapBucket reducer splines filling.width filling.method filling.keys values) id
        filling.grid filling.first ((filling.measured.take next).foldl noteLatest .empty)
        (filling.measured.drop next) = .ok filled ↔
      List.Forall₂ (filling.Holds reducer) (stepsFrom filling.first filling.grid) filled := by
  obtain ⟨before, behind⟩ := partitionPoint_steps filling
  dsimp only
  generalize partitionPoint (fun step => decide (step < filling.first))
    (filling.measured.map Prod.fst) = next at before behind ⊢
  have whole := List.take_append_drop next filling.measured
  rw [walk_eq_ok_iff (whole.symm ▸ filling.ascending) before behind, whole]
  refine forall₂_congr_of_mem fun step member => ?_
  obtain ⟨above, below⟩ := mem_stepsFrom.mp member
  exact stands_iff_holds done above below

theorem fillGrid_eq_ok {maxBuckets : Nat} {filled : List Bucket} :
    fillGrid reducer splines filling.buckets (filling.measured.map Prod.fst) filling.width
        filling.first filling.last filling.method maxBuckets = .ok filled ↔
      filling.Fills reducer maxBuckets filled := by
  have entries : (filling.measured.map Prod.fst).zip filling.buckets = filling.measured :=
    (List.zip_of_prod rfl rfl).symm
  rw [fillGrid, Fills]
  by_cases backwards : filling.last < filling.first
  · rw [if_pos backwards]
    constructor
    · exact fun none_filled => .inl ⟨backwards, (Except.ok.inj none_filled).symm⟩
    · rintro (⟨-, rfl⟩ | ⟨forwards, -⟩)
      · rfl
      · exact absurd backwards forwards.not_gt
  · have forwards := not_lt.mp backwards
    rw [if_neg backwards]
    dsimp only
    rw [entries, ← grid]
    by_cases many : maxBuckets < filling.grid
    · rw [if_pos many]
      constructor
      · intro absurdity
        cases absurdity
      · rintro (⟨wrong, -⟩ | ⟨-, few, -⟩)
        · exact absurd wrong backwards
        · exact absurd many few.not_gt
    · rw [if_neg many, ← exists_splined_iff, bind_eq_ok]
      constructor
      · rintro ⟨values, done, walked⟩
        exact .inr ⟨forwards, not_lt.mp many, ⟨values, done⟩, (walk_eq_ok done filled).mp walked⟩
      · rintro (⟨wrong, -⟩ | ⟨-, -, ⟨values, done⟩, each⟩)
        · exact absurd wrong backwards
        · exact ⟨values, done, (walk_eq_ok done filled).mpr each⟩

end GapFilling

/-- Buckets in the order of their steps. -/
structure Measures (width : BucketWidth) (buckets : List Bucket) (measured : List (Int × Bucket)) :
    Prop where
  buckets : measured.map Prod.snd = buckets
  index : ∀ entry ∈ measured, width.index entry.2.timestamp = .ok entry.1
  ascending : measured.Pairwise (·.1 < ·.1)

/-- Where a grid ends: at the step of the bound, or without one at the outermost bucket. -/
def EndsAt (width : BucketWidth) (bound : Option Instant) (outermost step : Option Int) : Prop :=
  bound = none ∧ step = outermost ∨
    ∃ timestamp index, bound = some timestamp ∧ width.index timestamp = .ok index ∧
      step = some index

variable {width : BucketWidth} {buckets : List Bucket} {measured : List (Int × Bucket)}

theorem fillIndex_eq_ok {timestamp : Instant} {index : Int} :
    fillIndex width timestamp = .ok index ↔ width.index timestamp = .ok index :=
  mapError_eq_ok

theorem mapM_fillIndex_eq_ok :
    (∃ found, bound.mapM (fillIndex width) = .ok found ∧ found.or outermost = step) ↔
      EndsAt width bound outermost step := by
  cases bound with
  | none =>
      constructor
      · rintro ⟨found, done, rfl⟩
        cases pure_eq_ok.mp done
        exact .inl ⟨rfl, rfl⟩
      · rintro (⟨-, rfl⟩ | ⟨_, _, absurdity, -⟩)
        · exact ⟨none, rfl, rfl⟩
        · cases absurdity
  | some timestamp =>
      rw [mapM_some, fillIndex]
      cases indexed : width.index timestamp with
      | error failure =>
          constructor
          · rintro ⟨_, absurdity, -⟩
            cases absurdity
          · rintro (⟨absurdity, -⟩ | ⟨_, _, same, ok, -⟩)
            · cases absurdity
            · cases same
              rw [indexed] at ok
              cases ok
      | ok index =>
          constructor
          · rintro ⟨found, done, rfl⟩
            cases done
            exact .inr ⟨timestamp, index, rfl, indexed, rfl⟩
          · rintro (⟨absurdity, -⟩ | ⟨_, _, same, ok, rfl⟩)
            · cases absurdity
            · cases same
              rw [indexed] at ok
              cases ok
              exact ⟨some index, rfl, rfl⟩

theorem Measures.mapM_fillIndex (measures : Measures width buckets measured) :
    (buckets.mapM fun bucket => fillIndex width bucket.timestamp) =
      .ok (measured.map Prod.fst) := by
  rw [mapM_eq_ok, ← measures.buckets, List.forall₂_map_left_iff, List.forall₂_map_right_iff,
    List.forall₂_same]
  exact fun entry member => fillIndex_eq_ok.mpr (measures.index entry member)

theorem ascending_zip_tail {steps : List Int} (ascending : steps.Pairwise (· < ·)) :
    ((steps.zip steps.tail).any fun pair => pair.2 ≤ pair.1) = false := by
  rw [List.any_eq_false]
  induction steps with
  | nil => simp
  | cons step steps ih =>
      obtain ⟨below, later⟩ := List.pairwise_cons.mp ascending
      cases steps with
      | nil => simp
      | cons next steps =>
          rw [List.tail_cons, List.zip_cons_cons, List.forall_mem_cons]
          refine ⟨?_, ih later⟩
          have onward := below next List.mem_cons_self
          simpa using onward

/-- The filling of measured buckets between two steps. -/
def Measures.filling (measures : Measures width buckets measured) (method : Fill splines.Spline)
    (first last : Int) : GapFilling splines where
  width := width
  measured := measured
  ascending := measures.ascending
  method := method
  first := first
  last := last

/-- What a fill between two ends gives: nothing where there is no end, as there are no buckets. -/
def Measures.Fills (measures : Measures width buckets measured) (reducer : Reducer)
    (method : Fill splines.Spline) (maxBuckets : Nat) (first last : Option Int)
    (filled : List Bucket) : Prop :=
  (first = none ∨ last = none) ∧ filled = [] ∨
    ∃ low high, first = some low ∧ last = some high ∧
      (measures.filling method low high).Fills reducer maxBuckets filled

theorem fillBetween_eq_ok (measures : Measures width buckets measured) (reducer : Reducer)
    (method : Fill splines.Spline) (maxBuckets : Nat) (first last : Option Int)
    (filled : List Bucket) :
    fillBetween reducer splines buckets (measured.map Prod.fst) width method maxBuckets first last =
        .ok filled ↔ measures.Fills reducer method maxBuckets first last filled := by
  cases first with
  | none => simp [fillBetween, Measures.Fills]
  | some low =>
      cases last with
      | none => simp [fillBetween, Measures.Fills]
      | some high =>
          have grid := @GapFilling.fillGrid_eq_ok _ reducer (measures.filling method low high)
            maxBuckets filled
          rw [GapFilling.buckets] at grid
          simp only [Measures.filling, measures.buckets] at grid
          simp [fillBetween, Measures.Fills, grid, Measures.filling]

theorem fillWidth_eq_ok (measures : Measures width buckets measured) (reducer : Reducer)
    (start finish : Option Instant) (method : Fill splines.Spline) (maxBuckets : Nat)
    (filled : List Bucket) :
    fillWidth reducer splines buckets width start finish method maxBuckets = .ok filled ↔
      ∃ first last, EndsAt width start (measured.map Prod.fst).head? first ∧
        EndsAt width finish (measured.map Prod.fst).getLast? last ∧
        measures.Fills reducer method maxBuckets first last filled := by
  have ascending : (measured.map Prod.fst).Pairwise (· < ·) :=
    List.pairwise_map.mpr measures.ascending
  rw [fillWidth, measures.mapM_fillIndex]
  simp only [bind_eq_ok, require_eq_ok, Except.ok.injEq, exists_eq_left',
    ascending_zip_tail ascending, ← mapM_fillIndex_eq_ok]
  have between := fillBetween_eq_ok measures reducer method maxBuckets
  constructor
  · rintro ⟨-, -, first, low, last, high, done⟩
    exact ⟨_, _, ⟨first, low, rfl⟩, ⟨last, high, rfl⟩, (between _ _ filled).mp done⟩
  · rintro ⟨_, _, ⟨first, low, rfl⟩, ⟨last, high, rfl⟩, fills⟩
    exact ⟨(), Bool.false_ne_true, first, low, last, high, (between _ _ filled).mpr fills⟩

/-- Whether a bucket was measured. -/
def counted (bucket : Bucket) : Bool := bucket.count != 0

theorem GapFilling.filter_counted {filling : GapFilling splines} {step : Int} {count : Nat}
    (holds : List.Forall₂ (filling.Holds reducer) (stepsFrom step count) filled) :
    filled.filter counted =
      ((window filling.measured step count).map Prod.snd).filter counted := by
  induction count generalizing step filled with
  | zero =>
      rw [stepsFrom, List.forall₂_nil_left_iff] at holds
      have outside : window filling.measured step 0 = [] :=
        List.filter_eq_nil_iff.mpr fun entry _ => by
          simp only [decide_eq_true_eq]
          omega
      rw [holds, outside]
      rfl
  | succ count ih =>
      rw [stepsFrom, List.forall₂_cons_left_iff] at holds
      obtain ⟨bucket, rest, here, later, rfl⟩ := holds
      rw [window_succ filling.ascending, List.map_append, List.filter_append, ← ih later]
      rcases here with member | ⟨elsewhere, none_counted, -⟩
      · rw [filter_step_of_mem filling.ascending member, ← List.filter_append]
        rfl
      · have gap : filling.measured.filter (·.1 = step) = [] :=
          List.filter_eq_nil_iff.mpr fun entry member => by simpa using elsewhere entry member
        rw [gap, List.filter_cons_of_neg (by simp [counted, none_counted])]
        rfl

/-- The buckets which were measured between the ends of a grid. -/
def between (measured : List (Int × Bucket)) (first last : Option Int) : List Bucket :=
  (measured.filter fun entry =>
    (∀ low ∈ first, low ≤ entry.1) ∧ ∀ high ∈ last, entry.1 ≤ high).map Prod.snd

theorem EndsAt.unique {other : Option Int} (ends : EndsAt width bound outermost step)
    (also : EndsAt width bound outermost other) : step = other := by
  rcases ends with ⟨rfl, rfl⟩ | ⟨timestamp, index, rfl, indexed, rfl⟩
  · rcases also with ⟨-, rfl⟩ | ⟨_, _, absurdity, -⟩
    · rfl
    · cases absurdity
  · rcases also with ⟨absurdity, -⟩ | ⟨_, _, same, also, rfl⟩
    · cases absurdity
    · cases same
      rw [indexed] at also
      cases also
      rfl

theorem EndsAt.eq_none (ends : EndsAt width bound outermost none) : outermost = none := by
  rcases ends with ⟨-, same⟩ | ⟨_, _, _, _, absurdity⟩
  · exact same.symm
  · cases absurdity

theorem Measures.Fills.filter_counted {measures : Measures width buckets measured}
    {method : Fill splines.Spline} {maxBuckets : Nat} {start finish : Option Instant}
    {first last : Option Int} (fills : measures.Fills reducer method maxBuckets first last filled)
    (begins : EndsAt width start (measured.map Prod.fst).head? first)
    (ends : EndsAt width finish (measured.map Prod.fst).getLast? last) :
    filled.filter counted = (between measured first last).filter counted := by
  rcases fills with ⟨open_ended, rfl⟩ | ⟨low, high, rfl, rfl, fills⟩
  · have nothing : measured = [] := by
      rcases open_ended with rfl | rfl
      · exact List.map_eq_nil_iff.mp (List.head?_eq_none_iff.mp begins.eq_none)
      · exact List.map_eq_nil_iff.mp (List.getLast?_eq_none_iff.mp ends.eq_none)
    rw [nothing]
    rfl
  · have inside : between measured (some low) (some high) =
        (window measured low (measures.filling method low high).grid).map Prod.snd := by
      refine congrArg (List.map Prod.snd) (List.filter_congr fun entry _ => ?_)
      refine decide_eq_decide.mpr ?_
      simp only [mem_some_iff, forall_eq', GapFilling.grid, Measures.filling]
      omega
    rw [inside]
    rcases fills with ⟨backwards, rfl⟩ | ⟨-, -, -, holds⟩
    · have none_inside : (measures.filling method low high).grid = 0 := by
        rw [GapFilling.grid]
        omega
      have outside : window measured low 0 = [] :=
        List.filter_eq_nil_iff.mpr fun entry _ => by
          simp only [decide_eq_true_eq]
          omega
      rw [none_inside, outside]
      rfl
    · exact GapFilling.filter_counted holds

/-- A fill of buckets in the order of their steps succeeds with a bucket for every step between the
ends of its grid, and of these the same are counted as of those which were measured there. -/
theorem fillWidth_is_dense {splines : Splines} (measures : Measures width buckets measured)
    (reducer : Reducer) (start finish : Option Instant) (method : Fill splines.Spline)
    (maxBuckets : Nat) (filled : List Bucket) :
    (fillWidth reducer splines buckets width start finish method maxBuckets = .ok filled ↔
      ∃ first last, EndsAt width start (measured.map Prod.fst).head? first ∧
        EndsAt width finish (measured.map Prod.fst).getLast? last ∧
        measures.Fills reducer method maxBuckets first last filled) ∧
    ∀ first last, EndsAt width start (measured.map Prod.fst).head? first →
      EndsAt width finish (measured.map Prod.fst).getLast? last →
      fillWidth reducer splines buckets width start finish method maxBuckets = .ok filled →
        filled.filter counted = (between measured first last).filter counted := by
  have succeeds := fillWidth_eq_ok measures reducer start finish method maxBuckets filled
  refine ⟨succeeds, fun first last begins ends done => ?_⟩
  obtain ⟨low, high, low_ends, high_ends, fills⟩ := succeeds.mp done
  cases begins.unique low_ends
  cases ends.unique high_ends
  exact fills.filter_counted begins ends

/-- A crate which draws no splines. -/
def noSplines : Splines where
  Spline := Empty
  interpolate _ _ _ _ spline := spline.elim

/-- A bucket of a minute, with an average. -/
def minuteBucket (minute : Int) (count : Nat) (average : Rat) : Bucket where
  timestamp := .ofSeconds (60 * minute)
  count := count
  values := SortedMap.insert .empty Aggregation.avg.asStr average

/-- Minutes 0, 1 and 4. -/
def gappy : List (Int × Bucket) :=
  [(0, minuteBucket 0 2 10), (1, minuteBucket 1 1 20), (4, minuteBucket 4 1 50)]

theorem gappy_measures : Measures (.ofUnit .minutes) (gappy.map Prod.snd) gappy where
  buckets := rfl
  index := by decide
  ascending := by decide

def fillGappy (start finish : Option Instant) (maxBuckets : Nat) :
    Except FillError (List Bucket) :=
  fillWidth exactReducer noSplines (gappy.map Prod.snd) (.ofUnit .minutes) start finish .linear
    maxBuckets

theorem ok_getD {Result : Type} {first : Except Failure Result} (other : Result)
    (succeeds : first.toOption.isSome = true) : first = .ok (first.toOption.getD other) := by
  cases first with
  | error failure => cases succeeds
  | ok result => rfl

theorem gappy_is_dense :
    ((fillGappy none none 5).toOption.getD []).filter counted =
      (between gappy (some 0) (some 4)).filter counted :=
  (fillWidth_is_dense gappy_measures exactReducer none none .linear 5
      ((fillGappy none none 5).toOption.getD [])).2 (some 0) (some 4) (.inl ⟨rfl, rfl⟩)
    (.inl ⟨rfl, rfl⟩) (ok_getD [] (by decide +kernel))

/-- With too low a limit the grid is refused, with wider bounds it goes on past the buckets, and a
bucket of the input which counts nothing is taken for a gap. -/
theorem gappy_refused_and_extended :
    (fillGappy none none 4).map (·.length) = .error (.tooManyBuckets 5 4) ∧
    (fillGappy (some (.ofSeconds (-120))) (some (.ofSeconds 410)) 100).map
        (fun filled => filled.map fun bucket => (bucket.timestamp.timestamp, bucket.count)) =
      .ok [(-120, 0), (-60, 0), (0, 2), (60, 1), (120, 0), (180, 0), (240, 1), (300, 0),
        (360, 0)] ∧
    (fillWidth exactReducer noSplines [minuteBucket 0 0 10] (.ofUnit .minutes) none none .linear
        1).map (fun filled => (filled.length, (filled.filter counted).length)) = .ok (1, 0) := by
  decide +kernel

end WeftDb.Reduce
