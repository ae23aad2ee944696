import WeftDb.Foundation.Regrouping
import WeftDb.Reduce.ChunkOrder

/-!
# Coarser buckets from finer ones

A partial reduction can be brought to a coarser resolution without its points: every bucket is
merged into the one in which it starts.  Of grids in whole seconds one nests in the other exactly
when its step divides the other's, and then the buckets are those of a reduction at the coarser
resolution.  Grids below a second are never nested, not even in themselves.
-/

namespace WeftDb.Reduce

open KeyedRuns StableOrder Preference

/-- Whether both grids are in whole seconds and the step of the one divides that of the other. -/
def gridsNest (finer coarser : Resolution) : Bool :=
  match finer.stepSecs, coarser.stepSecs with
  | some step, some wider => wider % step == 0
  | _, _ => false

/-- Merge a bucket into the coarser one in which it starts. -/
def rekey (reducer : Reducer) (finer coarser : Resolution) (buckets : PartialReduction)
    (entry : Int × BucketAcc) : Except ReduceError PartialReduction :=
  match bucketStart reducer finer entry.1 with
  | none => .error .bucketStartOverflow
  | some start => do
      let base ← bucketIndex coarser start
      pure (buckets.insert base (match buckets.find? base with
        | some mine => mine.merge entry.2
        | none => entry.2))

/-- Bring a partial reduction to a coarser resolution, or nothing if the grids do not nest. -/
def PartialReduction.rebucket (reducer : Reducer) (finer coarser : Resolution)
    (reduction : PartialReduction) : Except ReduceError (Option PartialReduction) :=
  if gridsNest finer coarser then do
    let buckets ← reduction.entries.foldlM (rekey reducer finer coarser) .empty
    pure (some buckets)
  else .ok none

/-- Every bucket of the finer grid lies in one bucket of the coarser one. -/
def Resolution.NestsIn (finer coarser : Resolution) : Prop :=
  ∀ base, ∃ other, ∀ timestamp, bucketIndex finer timestamp = .ok base →
    bucketIndex coarser timestamp = .ok other

/-! Rounding is towards the epoch, and so the same on either side of it. -/

variable {ratio : Int} {reduction : PartialReduction} {reducer : Reducer}
  {tally : List Point → BucketAcc} {follows : Point → Point → Prop} {fine : Point → Int}
  {finer coarser : Resolution}

theorem tdiv_tdiv {step : Int} (seconds : Int) (step_pos : 0 < step) :
    (seconds.tdiv step).tdiv ratio = seconds.tdiv (step * ratio) := by
  have upward {seconds : Int} (nonneg : 0 ≤ seconds) :
      (seconds.tdiv step).tdiv ratio = seconds.tdiv (step * ratio) := by
    rw [Int.tdiv_eq_ediv_of_nonneg nonneg, Int.tdiv_eq_ediv_of_nonneg nonneg,
      Int.tdiv_eq_ediv_of_nonneg (Int.ediv_nonneg nonneg step_pos.le),
      Int.ediv_ediv_of_nonneg step_pos.le]
  rcases le_total 0 seconds with nonneg | nonpos
  · exact upward nonneg
  · have negated := upward (Int.neg_nonneg_of_nonpos nonpos)
    rwa [Int.neg_tdiv, Int.neg_tdiv, Int.neg_tdiv, neg_inj] at negated

theorem start_between {step low high : Int} (seconds : Int) (step_pos : 0 < step)
    (low_nonpos : low ≤ 0) (high_nonneg : 0 ≤ high) (above : low ≤ seconds)
    (below : seconds ≤ high) :
    low ≤ seconds.tdiv step * step ∧ seconds.tdiv step * step ≤ high := by
  have upward {seconds : Int} (nonneg : 0 ≤ seconds) :
      0 ≤ seconds.tdiv step * step ∧ seconds.tdiv step * step ≤ seconds := by
    rw [Int.tdiv_eq_ediv_of_nonneg nonneg]
    exact ⟨mul_nonneg (Int.ediv_nonneg nonneg step_pos.le) step_pos.le,
      Int.ediv_mul_le _ step_pos.ne'⟩
  rcases le_total 0 seconds with nonneg | nonpos
  · obtain ⟨start_nonneg, start_le⟩ := upward nonneg
    exact ⟨low_nonpos.trans start_nonneg, start_le.trans below⟩
  · obtain ⟨start_nonpos, le_start⟩ := upward (Int.neg_nonneg_of_nonpos nonpos)
    rw [Int.neg_tdiv, Int.neg_mul] at start_nonpos le_start
    constructor <;> omega

section Grids

variable {finer coarser : Resolution} {step wider : Int}
variable {resolution : Resolution}

theorem stepNanos_of_stepSecs (whole : resolution.stepSecs = some step) :
    resolution.stepNanos = step * nanosPerSecond := by
  unfold Resolution.stepSecs at whole
  split at whole
  · rename_i second
    cases whole
    exact (Int.ediv_mul_cancel (Int.dvd_of_emod_eq_zero second.2)).symm
  · cases whole

theorem bucketIndex_of_stepSecs (whole : resolution.stepSecs = some step) (timestamp : Instant) :
    bucketIndex resolution timestamp = .ok (timestamp.timestamp.tdiv step) := by
  simp only [bucketIndex, whole]

theorem gridsNest_of_stepSecs (finer_step : finer.stepSecs = some step)
    (coarser_step : coarser.stepSecs = some wider) :
    gridsNest finer coarser = true ↔ step ∣ wider := by
  simp only [gridsNest, finer_step, coarser_step, beq_iff_eq]
  exact (Int.dvd_iff_emod_eq_zero).symm

theorem exists_of_gridsNest (nest : gridsNest finer coarser = true) :
    ∃ step ratio, finer.stepSecs = some step ∧ coarser.stepSecs = some (step * ratio) ∧
      0 < step ∧ 0 < ratio := by
  cases finer_step : finer.stepSecs with
  | none => simp [gridsNest, finer_step] at nest
  | some step =>
      cases coarser_step : coarser.stepSecs with
      | none => simp [gridsNest, coarser_step] at nest
      | some wider =>
          obtain ⟨ratio, rfl⟩ := (gridsNest_of_stepSecs finer_step coarser_step).mp nest
          have step_pos := Resolution.stepSecs_pos finer_step
          have wider_pos := Resolution.stepSecs_pos coarser_step
          exact ⟨step, ratio, rfl, rfl, step_pos, pos_of_mul_pos_right wider_pos step_pos.le⟩

variable (finer_step : finer.stepSecs = some step)

include finer_step

theorem nestsIn_iff (coarser_step : coarser.stepSecs = some wider) :
    finer.NestsIn coarser ↔ step ∣ wider := by
  have step_pos := Resolution.stepSecs_pos finer_step
  have wider_pos := Resolution.stepSecs_pos coarser_step
  simp only [Resolution.NestsIn, bucketIndex_of_stepSecs finer_step,
    bucketIndex_of_stepSecs coarser_step, Except.ok.injEq]
  constructor
  · intro nests
    by_contra left_over
    obtain ⟨other, within⟩ := nests (wider / step)
    have remainder_pos : 0 < wider % step :=
      (Int.emod_nonneg _ step_pos.ne').lt_of_ne' (mt Int.dvd_of_emod_eq_zero left_over)
    have split := Int.mul_ediv_add_emod wider step
    have cut_nonneg : 0 ≤ wider / step * step :=
      mul_nonneg (Int.ediv_nonneg wider_pos.le step_pos.le) step_pos.le
    have before := within (.ofSeconds (wider / step * step))
      (Int.mul_tdiv_cancel _ step_pos.ne')
    have after := within (.ofSeconds wider) (Int.tdiv_eq_ediv_of_nonneg wider_pos.le)
    simp only [Instant.ofSeconds] at before after
    rw [Int.tdiv_self wider_pos.ne'] at after
    rw [Int.tdiv_eq_zero_of_lt cut_nonneg (by linarith [mul_comm (wider / step) step])] at before
    exact absurd (before.trans after.symm) (by decide)
  · rintro ⟨ratio, rfl⟩ base
    refine ⟨base.tdiv ratio, ?_⟩
    rintro timestamp rfl
    exact (tdiv_tdiv _ step_pos).symm

theorem rekey_eq (coarser_step : coarser.stepSecs = some (step * ratio))
    (buckets : PartialReduction) {entry : Int × BucketAcc}
    (represented : reducer.firstSecond ≤ entry.1 * step ∧ entry.1 * step ≤ reducer.lastSecond) :
    rekey reducer finer coarser buckets entry =
      .ok (SortedMap.mergeWith BucketAcc.merge buckets [(entry.1.tdiv ratio, entry.2)]) := by
  have step_pos := Resolution.stepSecs_pos finer_step
  have second : (Instant.ofNanos (entry.1 * finer.stepNanos)).timestamp = entry.1 * step := by
    rw [stepNanos_of_stepSecs finer_step, ← mul_assoc]
    exact Int.mul_ediv_cancel _ (by decide)
  have start : bucketStart reducer finer entry.1 =
      some (.ofNanos (entry.1 * finer.stepNanos)) := by
    rw [← second] at represented
    exact if_pos represented
  have index : bucketIndex coarser (.ofNanos (entry.1 * finer.stepNanos)) =
      .ok (entry.1.tdiv ratio) := by
    rw [bucketIndex_of_stepSecs coarser_step, second, ← tdiv_tdiv _ step_pos,
      Int.mul_tdiv_cancel _ step_pos.ne']
  rw [rekey, start, SortedMap.mergeWith, SortedMap.mergeWith]
  refine bind_eq_ok.mpr ⟨_, index, congrArg Except.ok ?_⟩
  cases buckets.find? (entry.1.tdiv ratio) <;> rfl

theorem rebucket_eq (coarser_step : coarser.stepSecs = some (step * ratio))
    (represented : ∀ entry ∈ reduction.entries, reducer.firstSecond ≤ entry.1 * step ∧
      entry.1 * step ≤ reducer.lastSecond) :
    reduction.rebucket reducer finer coarser =
      .ok (some (SortedMap.mergeWith BucketAcc.merge .empty
        (reduction.entries.map fun entry => (entry.1.tdiv ratio, entry.2)))) := by
  have nest : gridsNest finer coarser = true :=
    (gridsNest_of_stepSecs finer_step coarser_step).mpr (Int.dvd_mul_right _ _)
  have folded (buckets : PartialReduction) {entries : List (Int × BucketAcc)}
      (represented : ∀ entry ∈ entries, reducer.firstSecond ≤ entry.1 * step ∧
        entry.1 * step ≤ reducer.lastSecond) :
      entries.foldlM (rekey reducer finer coarser) buckets =
        .ok (SortedMap.mergeWith BucketAcc.merge buckets
          (entries.map fun entry => (entry.1.tdiv ratio, entry.2))) := by
    induction entries generalizing buckets with
    | nil => rfl
    | cons entry entries ih =>
        obtain ⟨first, later⟩ := List.forall_mem_cons.mp represented
        rw [List.foldlM_cons, rekey_eq finer_step coarser_step buckets first]
        exact ih _ later
  rw [PartialReduction.rebucket, if_pos nest, folded .empty represented]
  rfl

end Grids

/-- A reduction with the tally of the points under every base. -/
def PartialReduction.Tallies (tally : List Point → BucketAcc) (key : Point → Int)
    (points : List Point) (reduction : PartialReduction) : Prop :=
  ∀ base, Represents (fun acc run => acc = tally run) (reduction.find? base)
    (under key points base)

theorem represents_iff {found : Option BucketAcc} {run : List Point} :
    Represents (fun acc run => acc = tally run) found run ↔
      found = if run = [] then none else some (tally run) := by
  cases found with
  | none =>
      by_cases empty : run = []
      · rw [if_pos empty]
        exact iff_of_true empty rfl
      · rw [if_neg empty]
        exact iff_of_false empty (by simp)
  | some acc =>
      by_cases empty : run = []
      · rw [if_pos empty]
        exact iff_of_false (fun held => held.1 empty) (by simp)
      · rw [if_neg empty, Option.some.injEq]
        exact and_iff_right empty

section Tallies

variable {reducer : Reducer} {finer coarser : Resolution} {step ratio : Int}
  {tally : List Point → BucketAcc} {second : Point → Int} {points : List Point}
  {reduction : PartialReduction}

theorem finish_tallies {request : Request} {mine theirs : PartialReduction}
    {left right : List Point} {key : Point → Int} (mine_holds : mine.Tallies tally key left)
    (their_holds : theirs.Tallies tally key right) (same : SameUnder fine left right)
    (alike : ∀ {left right}, SameUnder fine left right →
      BucketAcc.Alike reducer request (tally left) (tally right)) :
    mine.finish reducer request = theirs.finish reducer request := by
  have related : List.Forall₂
      (fun entry other => entry.1 = other.1 ∧ BucketAcc.Alike reducer request entry.2 other.2)
      mine.entries theirs.entries := by
    refine SortedMap.forall₂_of_lookup mine.sorted theirs.sorted fun base => ?_
    have mine_base : SortedMap.lookup base mine.entries = _ :=
      represents_iff.mp (mine_holds base)
    have their_base : SortedMap.lookup base theirs.entries = _ :=
      represents_iff.mp (their_holds base)
    have inner : SameUnder fine (under key left base) (under key right base) :=
      same.filter fun point => decide (key point = base)
    rw [mine_base, their_base]
    by_cases none : under key left base = []
    · rw [if_pos none, if_pos (none ▸ inner.perm).nil_eq.symm]
      exact .none
    · rw [if_neg none, if_neg fun empty => none (empty ▸ inner.perm).eq_nil]
      exact .some (alike inner)
  exact finish_alike related

end Tallies

/-- What is relied on of the clock's crate: every instant which is counted in nanoseconds can be
represented. -/
structure Reducer.KeepsTime (reducer : Reducer) : Prop where
  first : reducer.firstSecond ≤ Word64.least / nanosPerSecond
  last : Word64.greatest / nanosPerSecond ≤ reducer.lastSecond

/-- Whether an instant can be represented. -/
def Reducer.Represents (reducer : Reducer) (timestamp : Instant) : Prop :=
  reducer.firstSecond ≤ timestamp.timestamp ∧ timestamp.timestamp ≤ reducer.lastSecond

instance (reducer : Reducer) (timestamp : Instant) : Decidable (reducer.Represents timestamp) :=
  inferInstanceAs (Decidable (_ ∧ _))

/-- The request at another resolution. -/
def Request.coarsened (request : Request) (resolution : Resolution) : Request :=
  { request with resolution := resolution }

/-- A reduction can be brought to a coarser resolution, where it is finished as the direct one. -/
def BringsTo (reducer : Reducer) (request : Request) (coarser : Resolution)
    (reduction direct : PartialReduction) : Prop :=
  ∃ rebucketed, reduction.rebucket reducer request.resolution coarser = .ok (some rebucketed) ∧
    rebucketed.finish reducer (request.coarsened coarser) =
      direct.finish reducer (request.coarsened coarser)

/-- Whether a way to reduce some points fails at both resolutions or at none, and rebucketing what
the finer one gives brings it to what the coarser one gives. -/
def Coarsens (reducer : Reducer) (request : Request) (coarser : Resolution)
    (reduce : Request → Except ReduceError PartialReduction) : Prop :=
  ((∃ reduction, reduce request = .ok reduction) ↔
    ∃ direct, reduce (request.coarsened coarser) = .ok direct) ∧
  ∀ reduction direct, reduce request = .ok reduction →
    reduce (request.coarsened coarser) = .ok direct →
      BringsTo reducer request coarser reduction direct

section Paths

variable {reducer : Reducer} {request : Request} {coarser : Resolution} {step ratio : Int}
  {points left right : List Point} {reduction direct : PartialReduction} {low high : Option Int}
variable {aggregation : Aggregation}

theorem Reducer.KeepsTime.epoch (clock : reducer.KeepsTime) :
    reducer.firstSecond ≤ 0 ∧ 0 ≤ reducer.lastSecond :=
  ⟨clock.first.trans (by decide), le_trans (by decide) clock.last⟩

theorem sameSamples_of_sameEnds (same : SameEnds Point.timestamp left right) :
    SameSamples left right := by
  refine (sameSamples_iff same.perm).mpr fun timestamp => ?_
  simp only [valuesAt, List.head?_map, List.getLast?_map, same.first, same.last, and_self]

/-- The points within the bounds. -/
def Request.insidePoints (request : Request) (points : List Point) : List Point :=
  points.filter fun point => decide (request.Inside point.timestamp)

theorem of_iff_tallies (whole : request.resolution.stepSecs = some step) :
    reduction.Of reducer request points ↔
      reduction.Tallies (accOf reducer request)
        (fun point => point.timestamp.timestamp.tdiv step) (request.insidePoints points) := by
  have lists (base : Int) : members request points base =
      under (fun point => point.timestamp.timestamp.tdiv step) (request.insidePoints points)
        base := by
    rw [members, under, Request.insidePoints, List.filter_filter]
    refine List.filter_congr fun point _ => ?_
    rw [← Bool.decide_and, decide_eq_decide, Request.InBucket, bucketIndex_of_stepSecs whole,
      Except.ok.injEq, and_comm]
  refine forall_congr' fun base => ?_
  rw [represents_iff, bucketOf, lists]

/-- The points within the bounds by their nanoseconds. -/
def insideByNanos (low high : Option Int) (points : List Point) : List Point :=
  points.filter fun point => decide (InsideNanos low high point.nanos)

theorem scaled_iff_tallies (whole : request.resolution.stepSecs = some step) :
    (∀ base, reduction.find? base = scaledBucketOf reducer request low high points base) ↔
      reduction.Tallies (scaledAccOf reducer request)
        (fun point => (point.nanos / nanosPerSecond).tdiv step)
        (insideByNanos low high points) := by
  have lists (base : Int) : scaledMembers request low high points base =
      under (fun point => (point.nanos / nanosPerSecond).tdiv step)
        (insideByNanos low high points) base := by
    rw [scaledMembers, under, insideByNanos, List.filter_filter]
    refine List.filter_congr fun point _ => ?_
    rw [← Bool.decide_and, decide_eq_decide, Request.InBucketNanos, and_comm]
    simp only [baseOf, whole]
  refine forall_congr' fun base => ?_
  rw [represents_iff, scaledBucketOf, lists]

/-- Points which are apart by instants and by nanoseconds. -/
def Point.Precedes (earlier later : Point) : Prop :=
  earlier.timestamp < later.timestamp ∧ earlier.nanos < later.nanos

theorem precedes_of_seconds {earlier later : Point}
    (before : earlier.nanos / nanosPerSecond < later.nanos / nanosPerSecond) :
    earlier.Precedes later := by
  have earlier_bounded := earlier.timestamp.bounded
  have later_bounded := later.timestamp.bounded
  simp only [Point.Precedes, Instant.lt_iff, Point.nanos, Instant.timestampNanos,
    nanosPerSecond] at *
  omega

theorem merge_scaledAccOf
    (separate : ∀ earlier ∈ left, ∀ later ∈ right, Point.Precedes earlier later) :
    (scaledAccOf reducer request left).merge (scaledAccOf reducer request right) =
      scaledAccOf reducer request (left ++ right) := by
  have merged := @merge_accOf reducer request left right
  have firsts : firstSample.combine (((least Point.nanos).best left).map Point.sample)
      (((least Point.nanos).best right).map Point.sample) =
        ((least Point.nanos).best (left ++ right)).map Point.sample := by
    rw [best_append]
    refine combine_map fun earlier mine later theirs => ?_
    obtain ⟨instants, nanos⟩ := separate earlier (mem_of_best mine) later
      (mem_of_best theirs)
    exact iff_of_false (not_lt.mpr instants.le) (not_lt.mpr nanos.le)
  have lasts : lastSample.combine (((latest Point.nanos).best left).map Point.sample)
      (((latest Point.nanos).best right).map Point.sample) =
        ((latest Point.nanos).best (left ++ right)).map Point.sample := by
    rw [best_append]
    refine combine_map fun earlier mine later theirs => ?_
    obtain ⟨instants, nanos⟩ := separate earlier (mem_of_best mine) later
      (mem_of_best theirs)
    exact iff_of_true instants.le nanos.le
  simp only [BucketAcc.ext_iff] at merged ⊢
  exact ⟨merged.1, merged.2.1, merged.2.2.1, merged.2.2.2.1, firsts, lasts,
    merged.2.2.2.2.2.2⟩

variable {lifted : List LiftedPoint} {common : Nat}

theorem exists_reducePartial (series : liftSeries points = some (lifted, common))
    (start : boundNanos request.start = some low)
    (finish : boundNanos request.finish = some high) :
    (∃ reduction, reducePartial reducer request points = .ok reduction) ↔
      ∀ point ∈ points, InsideNanos low high point.nanos → Binned reducer request point := by
  constructor
  · rintro ⟨reduction, done⟩
    exact ((reducePartial_eq_ok series start finish).mp done).1
  · intro binned
    obtain ⟨reduction, done⟩ := (reducePartialPoints_spec series start finish).2 binned
    exact ⟨reduction, bind_eq_ok.mpr ⟨_, done, rfl⟩⟩

theorem aggregate_scaledAccOf (instants : SameEnds Point.timestamp left right)
    (nanos : SameEnds Point.nanos left right) (resolution : Resolution) (base : Int)
    (unweighed : aggregation.weighing = false) :
    (scaledAccOf reducer request left).aggregate reducer resolution base aggregation =
      (scaledAccOf reducer request right).aggregate reducer resolution base aggregation := by
  have others := @aggregate_eq_of_unweighed reducer request left right
    (sameSamples_of_sameEnds instants) resolution base aggregation unweighed
  cases aggregation with
  | first => simp only [BucketAcc.aggregate, scaledAccOf, nanos.best_least_eq]
  | last => simp only [BucketAcc.aggregate, scaledAccOf, nanos.best_latest_eq]
  | min | max | avg | sum | p50 | p90 | p95 | p99 | twa | twaLinear | twaBucketEnd | sketchP50
  | sketchP90 | sketchP95 | sketchP99 => exact others

section

variable (unweighed : request.weighing = false)

include unweighed

theorem weighing_of_mem (asked : aggregation ∈ request.requested) : aggregation.weighing = false :=
  Bool.eq_false_of_not_eq_true (List.any_eq_false.mp unweighed aggregation asked)

theorem alike_accOf
    (tells : ∀ point other : Point, point.timestamp = other.timestamp → fine point = fine other)
    (same : SameUnder fine left right) :
    BucketAcc.Alike reducer (request.coarsened coarser) (accOf reducer request left)
      (accOf reducer request right) := by
  have samples := sameSamples_of_sameEnds (same.sameEnds tells)
  exact fun base => finish_congr (accOf_count samples) fun aggregation asked =>
    aggregate_eq_of_unweighed samples coarser base (weighing_of_mem unweighed asked)

theorem alike_scaledAccOf
    (tells : ∀ point other : Point, point.nanos = other.nanos → fine point = fine other)
    (same : SameUnder fine left right) :
    BucketAcc.Alike reducer (request.coarsened coarser) (scaledAccOf reducer request left)
      (scaledAccOf reducer request right) := by
  have nanos := same.sameEnds tells
  have instants : SameEnds Point.timestamp left right := same.sameEnds fun point other tied =>
    tells point other (congrArg Instant.timestampNanos tied)
  have count : (scaledAccOf reducer request left).count =
      (scaledAccOf reducer request right).count := nanos.perm.length_eq
  exact fun base => finish_congr count fun aggregation asked =>
    aggregate_scaledAccOf instants nanos coarser base (weighing_of_mem unweighed asked)

end

section Rebucketed

variable {second : Point → Int} (finer_step : request.resolution.stepSecs = some step)
  (coarser_step : coarser.stepSecs = some (step * ratio))
  (merges : ∀ {mine theirs : List Point},
    (∀ earlier ∈ mine, ∀ later ∈ theirs, follows earlier later) →
      (tally mine).merge (tally theirs) = tally (mine ++ theirs))
  (apart : ∀ earlier later, second earlier < second later → follows earlier later)
  (clock : reducer.KeepsTime)
  (represented : ∀ point ∈ points,
    reducer.firstSecond ≤ second point ∧ second point ≤ reducer.lastSecond)
  (holds : reduction.Tallies tally (fun point => (second point).tdiv step) points)

include finer_step coarser_step merges apart clock represented holds

theorem rebucket_tallies :
    ∃ rebucketed, reduction.rebucket reducer request.resolution coarser = .ok (some rebucketed) ∧
      rebucketed.Tallies tally (fun point => (second point).tdiv (step * ratio))
        (regrouped (fun point => (second point).tdiv step) points reduction.keys) := by

  have step_pos := Resolution.stepSecs_pos finer_step
  have starts : ∀ entry ∈ reduction.entries, reducer.firstSecond ≤ entry.1 * step ∧
      entry.1 * step ≤ reducer.lastSecond := by
    intro entry member
    have held := holds entry.1
    rw [SortedMap.find?_eq_some.mpr member] at held
    obtain ⟨point, found⟩ := List.exists_mem_of_ne_nil _ held.1
    obtain ⟨listed, same⟩ := List.mem_filter.mp found
    rw [← of_decide_eq_true same]
    exact start_between _ step_pos clock.epoch.1 clock.epoch.2 (represented point listed).1
      (represented point listed).2
  refine ⟨_, rebucket_eq finer_step coarser_step starts, fun base => ?_⟩
  have coarse (point : Point) : (second point).tdiv (step * ratio) =
      ((second point).tdiv step).tdiv ratio := (tdiv_tdiv _ step_pos).symm
  simp only [coarse]
  have joined {left right : BucketAcc} {mine theirs : List Point}
      (separate : ∀ earlier ∈ mine, ∀ later ∈ theirs, follows earlier later)
      (left_tally : left = tally mine) (right_tally : right = tally theirs) :
      left.merge right = tally (mine ++ theirs) := by
    rw [left_tally, right_tally, merges separate]
  have ordered : ∀ earlier ∈ points, ∀ later ∈ points,
      (second earlier).tdiv step < (second later).tdiv step → follows earlier later := by
    intro earlier _ later _ below
    refine apart earlier later (lt_of_not_ge fun above => ?_)
    exact absurd below (not_lt.mpr (Int.tdiv_le_tdiv step_pos above))
  exact represents_rekeyed (fun fine => fine.tdiv ratio) joined ordered holds base

theorem rebucket_finish
    (alike : ∀ {left right}, SameUnder (fun point => (second point).tdiv step) left right →
      BucketAcc.Alike reducer (request.coarsened coarser) (tally left) (tally right))
    (direct_holds :
      direct.Tallies tally (fun point => (second point).tdiv (step * ratio)) points) :
    BringsTo reducer request coarser reduction direct := by
  obtain ⟨rebucketed, done, tallied⟩ :=
    rebucket_tallies finer_step coarser_step merges apart clock represented holds
  refine ⟨rebucketed, done, ?_⟩
  exact finish_tallies tallied direct_holds (sameUnder_regrouped holds) alike

end Rebucketed

theorem reducible_of_stepSecs (whole : request.resolution.stepSecs = some step) {point : Point} :
    Reducible reducer request point ↔
      (request.Inside point.timestamp → Binned reducer request point) := by
  simp only [Reducible, bucketIndex_of_stepSecs whole, Except.ok.injEq, exists_eq', true_and]

variable (clock : reducer.KeepsTime) (unweighed : request.weighing = false)
  (finer_step : request.resolution.stepSecs = some step)
  (coarser_step : coarser.stepSecs = some (step * ratio))

include clock unweighed finer_step coarser_step

theorem rebucket_decimal 
    (calendar : ∀ point ∈ points, reducer.Represents point.timestamp) :
    Coarsens reducer request coarser fun asked => reducePartialDecimal reducer asked points := by
  have coarse : (request.coarsened coarser).resolution.stepSecs = some (step * ratio) :=
    coarser_step
  have reducible (point : Point) : Reducible reducer request point ↔
      Reducible reducer (request.coarsened coarser) point := by
    rw [reducible_of_stepSecs finer_step, reducible_of_stepSecs coarse]
    rfl
  constructor
  · constructor
    · rintro ⟨reduction, done⟩
      exact (reducePartialDecimal_spec points).2 fun point member =>
        (reducible point).mp ((reducePartialDecimal_eq_ok.mp done).1 point member)
    · rintro ⟨direct, done⟩
      exact (reducePartialDecimal_spec points).2 fun point member =>
        (reducible point).mpr ((reducePartialDecimal_eq_ok.mp done).1 point member)
  · intro reduction direct done direct_done
    have holds := (of_iff_tallies finer_step).mp (reducePartialDecimal_eq_ok.mp done).2
    have direct_holds := (of_iff_tallies coarse).mp (reducePartialDecimal_eq_ok.mp direct_done).2
    refine rebucket_finish finer_step coarser_step (fun _ => merge_accOf _ _)
      (fun _ _ _ => trivial) clock
      (fun point member => calendar point (List.mem_filter.mp member).1) holds
      (alike_accOf unweighed fun point other tied => ?_) direct_holds
    simp only [tied]

theorem rebucket_scaled (takes : request.Takes points) :
    Coarsens reducer request coarser fun asked => reducePartial reducer asked points := by
  obtain ⟨series, start, finish⟩ := takes
  obtain ⟨⟨lifted, common⟩, series⟩ := Option.isSome_iff_exists.mp series
  obtain ⟨low, start⟩ := Option.isSome_iff_exists.mp start
  obtain ⟨high, finish⟩ := Option.isSome_iff_exists.mp finish
  have coarse : (request.coarsened coarser).resolution.stepSecs = some (step * ratio) :=
    coarser_step
  have coarse_start : boundNanos (request.coarsened coarser).start = some low := start
  have coarse_finish : boundNanos (request.coarsened coarser).finish = some high := finish
  constructor
  · rw [exists_reducePartial series start finish,
      exists_reducePartial series coarse_start coarse_finish]
    rfl
  · intro reduction direct done direct_done
    have holds := (scaled_iff_tallies finer_step).mp
      ((reducePartial_eq_ok series start finish).mp done).2
    have direct_holds := (scaled_iff_tallies coarse).mp
      ((reducePartial_eq_ok series coarse_start coarse_finish).mp direct_done).2
    obtain ⟨_, liftable⟩ := liftSeries_eq_some series
    refine rebucket_finish finer_step coarser_step merge_scaledAccOf
      (fun _ _ => precedes_of_seconds) clock (fun point member => ?_) holds
      (alike_scaledAccOf unweighed fun point other tied => ?_) direct_holds
    · have fits := (liftable point (List.mem_filter.mp member).1).nanos
      exact ⟨clock.first.trans (Int.ediv_le_ediv (by decide) fits.1),
        (Int.ediv_le_ediv (by decide) fits.2).trans clock.last⟩
    · simp only [tied]

theorem rebucket_reducePartial 
    (calendar : ∀ point ∈ points, reducer.Represents point.timestamp) :
    Coarsens reducer request coarser fun asked => reducePartial reducer asked points := by
  by_cases takes : request.Takes points
  · exact rebucket_scaled clock unweighed finer_step coarser_step takes
  · have declined : ¬(request.coarsened coarser).Takes points := takes
    rw [Coarsens, reducePartial_of_not_takes takes, reducePartial_of_not_takes declined]
    exact rebucket_decimal clock unweighed finer_step coarser_step calendar

end Paths

/-- Whether the steps of a grid are whole seconds. -/
def Resolution.InSeconds (resolution : Resolution) : Prop :=
  resolution.stepSecs.isSome

instance (resolution : Resolution) : Decidable resolution.InSeconds :=
  inferInstanceAs (Decidable (_ = true))

theorem gridsNest_iff :
    gridsNest finer coarser = true ↔
      finer.InSeconds ∧ coarser.InSeconds ∧ finer.NestsIn coarser := by
  constructor
  · intro nest
    obtain ⟨step, ratio, finer_step, coarser_step, _, _⟩ := exists_of_gridsNest nest
    refine ⟨by rw [Resolution.InSeconds, finer_step]; rfl,
      by rw [Resolution.InSeconds, coarser_step]; rfl, ?_⟩
    exact (nestsIn_iff finer_step coarser_step).mpr (Int.dvd_mul_right _ _)
  · rintro ⟨finer_seconds, coarser_seconds, nests⟩
    obtain ⟨step, finer_step⟩ := Option.isSome_iff_exists.mp finer_seconds
    obtain ⟨wider, coarser_step⟩ := Option.isSome_iff_exists.mp coarser_seconds
    exact (gridsNest_of_stepSecs finer_step coarser_step).mpr
      ((nestsIn_iff finer_step coarser_step).mp nests)

theorem rebucket_eq_none :
    reduction.rebucket reducer finer coarser = .ok none ↔ ¬gridsNest finer coarser = true := by
  unfold PartialReduction.rebucket
  split
  · rename_i nest
    refine iff_of_false (fun done => ?_) (not_not_intro nest)
    obtain ⟨_, _, wrapped⟩ := bind_eq_ok.mp done
    cases pure_eq_ok.mp wrapped
  · rename_i apart
    exact iff_of_true rfl apart

/-- Nothing is rebucketed exactly when the grids do not nest or one of them is not in whole
seconds.  Otherwise rebucketing gives what reducing at the coarser resolution gives, unless values
are weighed by time. -/
theorem rebucket_is_direct (reducer : Reducer) (clock : reducer.KeepsTime) (request : Request)
    (coarser : Resolution) (points : List Point)
    (calendar : ∀ point ∈ points, reducer.Represents point.timestamp) :
    (∀ reduction : PartialReduction,
      reduction.rebucket reducer request.resolution coarser = .ok none ↔
        ¬(request.resolution.InSeconds ∧ coarser.InSeconds ∧
          request.resolution.NestsIn coarser)) ∧
    (request.weighing = false → request.resolution.InSeconds → coarser.InSeconds →
      request.resolution.NestsIn coarser →
      ((∃ reduction, reducePartial reducer request points = .ok reduction) ↔
        ∃ direct, reducePartial reducer (request.coarsened coarser) points = .ok direct) ∧
      ∀ reduction direct, reducePartial reducer request points = .ok reduction →
        reducePartial reducer (request.coarsened coarser) points = .ok direct →
          BringsTo reducer request coarser reduction direct) := by
  constructor
  · intro reduction
    rw [rebucket_eq_none, gridsNest_iff]
  · intro unweighed finer_seconds coarser_seconds nests
    obtain ⟨step, ratio, finer_step, coarser_step, _, _⟩ :=
      exists_of_gridsNest (gridsNest_iff.mpr ⟨finer_seconds, coarser_seconds, nests⟩)
    exact rebucket_reducePartial clock unweighed finer_step coarser_step calendar

theorem exactReducer_keepsTime : exactReducer.KeepsTime where
  first := by decide
  last := by decide

/-- The sum of every second. -/
def sumRequest : Request where
  resolution := .seconds
  start := none
  finish := none
  aggregations := [.sum]

/-- Two measurements on either side of the epoch, in a bucket of seconds each, are brought to those
of minutes. -/
theorem rebucket_around_epoch :
    ∃ reduction direct,
      reducePartial exactReducer sumRequest [secondPoint (-59) 5, secondPoint 59 7] =
          .ok reduction ∧
        reducePartial exactReducer (sumRequest.coarsened .minutes)
            [secondPoint (-59) 5, secondPoint 59 7] = .ok direct ∧
          BringsTo exactReducer sumRequest .minutes reduction direct := by
  have whole : sumRequest.resolution.stepSecs = some 1 := by decide
  have minutes : Resolution.minutes.stepSecs = some 60 := by decide
  obtain ⟨alike, brings⟩ := (rebucket_is_direct exactReducer exactReducer_keepsTime sumRequest
    .minutes [secondPoint (-59) 5, secondPoint 59 7] (by decide)).2 rfl (by decide) (by decide)
      ((nestsIn_iff whole minutes).mpr (one_dvd _))
  have reduced : ∃ reduction, reducePartial exactReducer sumRequest
      [secondPoint (-59) 5, secondPoint 59 7] = .ok reduction := ⟨_, rfl⟩
  obtain ⟨direct, direct_done⟩ := alike.mp reduced
  obtain ⟨reduction, done⟩ := reduced
  exact ⟨reduction, direct, done, direct_done, brings reduction direct done direct_done⟩

theorem microseconds_nestsIn_milliseconds :
    Resolution.microseconds.NestsIn .milliseconds := by
  intro base
  refine ⟨base / 1000, fun timestamp index => ?_⟩
  have micros : bucketIndex .microseconds timestamp =
      if Word64.Fits (timestamp.timestampNanos / 1000) then
        .ok (timestamp.timestampNanos / 1000) else .error .timestampRange := rfl
  have millis : bucketIndex .milliseconds timestamp =
      if Word64.Fits (timestamp.timestampNanos / 1000000) then
        .ok (timestamp.timestampNanos / 1000000) else .error .timestampRange := rfl
  rw [micros] at index
  split at index
  · rename_i fits
    cases index
    have coarser_fits : Word64.Fits (timestamp.timestampNanos / 1000000) := by
      simp only [Word64.Fits, Word64.least, Word64.greatest] at fits ⊢
      omega
    rw [millis, if_pos coarser_fits]
    exact congrArg Except.ok (by omega)
  · cases index

/-- Nested grids below a second are not rebucketed. -/
theorem subsecond_declined :
    ¬∀ (finer coarser : Resolution) (reduction : PartialReduction),
      reduction.rebucket exactReducer finer coarser = .ok none ↔ ¬finer.NestsIn coarser := by
  intro exact_test
  have declined : PartialReduction.rebucket exactReducer .microseconds .milliseconds .empty =
      .ok none := rfl
  exact (exact_test _ _ _).mp declined microseconds_nestsIn_milliseconds

end WeftDb.Reduce
