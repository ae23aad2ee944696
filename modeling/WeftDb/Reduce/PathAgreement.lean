import WeftDb.Reduce.ScaledFill

/-!
# The integer path against the decimal one

On a series which the integer path takes, it gives what the decimal one gives exactly when both
count every point to the same bucket and single out the same first and last point of each bucket.
Outside leap seconds they do.
-/

namespace WeftDb.Reduce

open Preference

variable {reducer : Reducer} {request : Request} {points : List Point}
variable {reduction : PartialReduction}

/-- The request for other reductions. -/
def Request.asking (request : Request) (aggregations : List Aggregation) : Request :=
  { request with aggregations := aggregations }

/-- Whether the integer path takes a series: its instants and the bounds can be counted in
nanoseconds, and its values fit words at one scale. -/
def Request.Takes (request : Request) (points : List Point) : Prop :=
  (liftSeries points).isSome ∧ (boundNanos request.start).isSome ∧
    (boundNanos request.finish).isSome

/-- Nanoseconds and instants agree on what the reductions of a series compare. -/
structure Agrees (request : Request) (points : List Point) : Prop where
  /-- Every point is on the same side of the bounds. -/
  inside : ∀ point ∈ points, request.Inside point.timestamp ↔ request.InsideByNanos point
  /-- Every point within the bounds is in the same bucket. -/
  bucket : ∀ point ∈ points, request.Inside point.timestamp →
    bucketIndex request.resolution point.timestamp = .ok (baseOf request.resolution point.nanos)
  /-- The first point of every bucket by instants is the first one by nanoseconds. -/
  first : ∀ base, (Preference.least Point.timestamp).best (members request points base) =
    (Preference.least Point.nanos).best (members request points base)
  /-- The last point of every bucket by instants is the last one by nanoseconds. -/
  last : ∀ base, (Preference.latest Point.timestamp).best (members request points base) =
    (Preference.latest Point.nanos).best (members request points base)

theorem sample_injective : Function.Injective Point.sample := by
  rintro ⟨timestamp, value⟩ ⟨other, another⟩ same
  cases same
  rfl

theorem accOf_first (points : List Point) :
    (accOf reducer request points).first =
      ((least Point.timestamp).best points).map Point.sample :=
  best_map Point.sample points

theorem accOf_last (points : List Point) :
    (accOf reducer request points).last =
      ((latest Point.timestamp).best points).map Point.sample :=
  best_map Point.sample points

theorem exists_bucketIndex {resolution : Resolution} {timestamp : Instant}
    (fits : Word64.Fits timestamp.timestampNanos) :
    ∃ base, bucketIndex resolution timestamp = .ok base := by
  unfold bucketIndex
  cases resolution.stepSecs with
  | some step => exact ⟨_, rfl⟩
  | none =>
      have step_pos := resolution.stepNanos_pos
      have index_fits : Word64.Fits (timestamp.timestampNanos / resolution.stepNanos) := by
        obtain ⟨low, high⟩ := fits
        constructor
        · refine (Int.le_ediv_iff_mul_le step_pos).mpr (le_trans ?_ low)
          have negative : Word64.least < 0 := by decide
          nlinarith
        · refine Int.ediv_le_of_le_mul step_pos (high.trans ?_)
          have positive : 0 < Word64.greatest := by decide
          nlinarith
      exact ⟨_, if_pos index_fits⟩

variable {low high : Option Int} {lifted : List LiftedPoint} {common : Nat}

theorem Agrees.bucketOf_eq (agrees : Agrees request points)
    (start : boundNanos request.start = some low)
    (finish : boundNanos request.finish = some high) (base : Int) :
    bucketOf reducer request points base =
      scaledBucketOf reducer request low high points base := by
  have same : scaledMembers request low high points base = members request points base := by
    refine List.filter_congr fun point member => decide_eq_decide.mpr ?_
    rw [Request.InBucketNanos, Request.InBucket, insideNanos_iff start finish,
      ← agrees.inside point member]
    refine and_congr_right fun inside => ?_
    rw [agrees.bucket point member inside, Except.ok.injEq]
  have accs : accOf reducer request (members request points base) =
      scaledAccOf reducer request (members request points base) := by
    rw [scaledAccOf, ← agrees.first, ← agrees.last, ← @accOf_first reducer request,
      ← @accOf_last reducer request]
  rw [bucketOf, scaledBucketOf, same, accs]

/-- Where all samples are kept, paths with the same accumulators agree. -/
theorem agrees_of_bucketOf_eq (keeps : request.collecting = true)
    (liftable : ∀ point ∈ points, Liftable common point)
    (start : boundNanos request.start = some low)
    (finish : boundNanos request.finish = some high)
    (same : ∀ base, bucketOf reducer request points base =
      scaledBucketOf reducer request low high points base) : Agrees request points := by
  have lists (base : Int) :
      members request points base = scaledMembers request low high points base := by
    have both := same base
    unfold bucketOf scaledBucketOf at both
    split at both
    · split at both
      · rw [‹members request points base = []›, ‹scaledMembers request low high points base = []›]
      · cases both
    · split at both
      · cases both
      · have samples := congrArg BucketAcc.samples (Option.some.inj both)
        simp only [scaledAccOf, accOf, keeps, if_true] at samples
        exact sample_injective.list_map samples
  have ends (base : Int) :
      (accOf reducer request (members request points base)).first =
          (scaledAccOf reducer request (members request points base)).first ∧
        (accOf reducer request (members request points base)).last =
          (scaledAccOf reducer request (members request points base)).last := by
    have both := same base
    unfold bucketOf scaledBucketOf at both
    rw [← lists] at both
    split at both
    · rename_i empty
      rw [empty]
      exact ⟨rfl, rfl⟩
    · have accs := Option.some.inj both
      exact ⟨congrArg BucketAcc.first accs, congrArg BucketAcc.last accs⟩
  have by_instant {point : Point} (member : point ∈ points)
      (inside : request.Inside point.timestamp) :
      InsideNanos low high point.nanos ∧ bucketIndex request.resolution point.timestamp =
        .ok (baseOf request.resolution point.nanos) := by
    obtain ⟨base, index⟩ :=
      @exists_bucketIndex request.resolution _ (liftable point member).nanos
    have listed : point ∈ members request points base :=
      List.mem_filter.mpr ⟨member, decide_eq_true ⟨inside, index⟩⟩
    rw [lists] at listed
    obtain ⟨_, inside_nanos, rfl⟩ := mem_scaledMembers.mp listed
    exact ⟨inside_nanos, index⟩
  refine ⟨fun point member => ?_, fun point member inside => (by_instant member inside).2,
    fun base => ?_, fun base => ?_⟩
  · rw [← insideNanos_iff start finish]
    constructor
    · exact fun inside => (by_instant member inside).1
    · intro inside
      have listed : point ∈ scaledMembers request low high points
          (baseOf request.resolution point.nanos) := mem_scaledMembers.mpr ⟨member, inside, rfl⟩
      rw [← lists] at listed
      exact (of_decide_eq_true (List.mem_filter.mp listed).2).1
  · refine Option.map_injective sample_injective ?_
    rw [← @accOf_first reducer request]
    exact (ends base).1
  · refine Option.map_injective sample_injective ?_
    rw [← @accOf_last reducer request]
    exact (ends base).2

theorem reducePartial_of_not_takes (declined : ¬request.Takes points) :
    reducePartial reducer request points = reducePartialDecimal reducer request points := by
  have none : reducePartialPoints reducer request points = .ok none := by
    unfold reducePartialPoints
    split
    · rename_i series start finish
      exact absurd ⟨by rw [series]; rfl, by rw [start]; rfl, by rw [finish]; rfl⟩ declined
    · rfl
  rw [reducePartial, none]
  rfl

section

variable (series : liftSeries points = some (lifted, common))
  (start : boundNanos request.start = some low) (finish : boundNanos request.finish = some high)

include series start finish

theorem reducePartialPoints_ne_none : reducePartialPoints reducer request points ≠ .ok none := by
  unfold reducePartialPoints
  simp only [series, start, finish]
  intro declined
  split at declined
  · obtain ⟨_, _, done⟩ := bind_eq_ok.mp declined
    cases pure_eq_ok.mp done
  · cases pure_eq_ok.mp declined

theorem reducePartial_eq_ok :
    reducePartial reducer request points = .ok reduction ↔
      (∀ point ∈ points, InsideNanos low high point.nanos → Binned reducer request point) ∧
        ∀ base, reduction.find? base = scaledBucketOf reducer request low high points base := by
  rw [← reducePartialPoints_eq_ok series start finish, reducePartial, bind_eq_ok]
  constructor
  · rintro ⟨found, done, chosen⟩
    cases found with
    | some other =>
        cases pure_eq_ok.mp chosen
        exact done
    | none => exact absurd done (reducePartialPoints_ne_none series start finish)
  · exact fun done => ⟨_, done, rfl⟩

end

theorem reducePartial_eq_ok_of_agrees (agrees : request.Takes points → Agrees request points) :
    reducePartial reducer request points = .ok reduction ↔
      reducePartialDecimal reducer request points = .ok reduction := by
  by_cases takes : request.Takes points
  · have asked := agrees takes
    obtain ⟨series, start, finish⟩ := takes
    obtain ⟨⟨lifted, common⟩, series⟩ := Option.isSome_iff_exists.mp series
    obtain ⟨low, start⟩ := Option.isSome_iff_exists.mp start
    obtain ⟨high, finish⟩ := Option.isSome_iff_exists.mp finish
    rw [reducePartial_eq_ok series start finish, reducePartialDecimal_eq_ok]
    refine and_congr (forall₂_congr fun point member => ?_) (forall_congr' fun base => ?_)
    · rw [insideNanos_iff start finish, Reducible, ← asked.inside point member]
      exact forall_congr' fun inside => (and_iff_right ⟨_, asked.bucket point member inside⟩).symm
    · rw [asked.bucketOf_eq start finish]
  · rw [reducePartial_of_not_takes takes]

/-- The integer path gives what the decimal one gives, whatever is asked for, exactly when the
instants and the nanoseconds agree on every series which it takes. -/
theorem reducePartial_is_decimal (reducer : Reducer) (request : Request) (points : List Point) :
    (∀ aggregations reduction,
      reducePartial reducer (request.asking aggregations) points = .ok reduction ↔
        reducePartialDecimal reducer (request.asking aggregations) points = .ok reduction) ↔
      (request.Takes points → Agrees request points) := by
  constructor
  · rintro same ⟨series, start, finish⟩
    obtain ⟨⟨lifted, common⟩, series⟩ := Option.isSome_iff_exists.mp series
    obtain ⟨low, start⟩ := Option.isSome_iff_exists.mp start
    obtain ⟨high, finish⟩ := Option.isSome_iff_exists.mp finish
    obtain ⟨_, liftable⟩ := liftSeries_eq_some series
    -- A percentile keeps all samples and needs no sketch.
    have reducible : ∀ point ∈ points, Reducible reducer (request.asking [.p50]) point :=
      fun point member _ => ⟨exists_bucketIndex (liftable point member).nanos,
        fun needed => by cases needed⟩
    obtain ⟨reduction, decimal⟩ := (reducePartialDecimal_spec points).2 reducible
    have start_asked : boundNanos (request.asking [.p50]).start = some low := start
    have scaled := (reducePartial_eq_ok series start_asked finish).mp
      ((same [.p50] reduction).mpr decimal)
    have agrees : Agrees (request.asking [.p50]) points :=
      agrees_of_bucketOf_eq rfl liftable start finish fun base => by
        rw [← (reducePartialDecimal_eq_ok.mp decimal).2 base, scaled.2 base]
    exact ⟨agrees.inside, agrees.bucket, agrees.first, agrees.last⟩
  · intro agrees aggregations reduction
    refine reducePartial_eq_ok_of_agrees fun takes => ?_
    obtain ⟨inside, bucket, first, last⟩ := agrees takes
    exact ⟨inside, bucket, first, last⟩

theorem nanos_seconds {timestamp : Instant} (plain : ¬timestamp.IsLeap) :
    timestamp.timestampNanos / nanosPerSecond = timestamp.timestamp := by
  simp only [Instant.IsLeap, Instant.timestampNanos, nanosPerSecond] at *
  omega

theorem agrees_of_plain (takes : request.Takes points)
    (plain : ∀ point ∈ points, ¬point.timestamp.IsLeap)
    (start_plain : ∀ bound ∈ request.start, ¬bound.IsLeap)
    (finish_plain : ∀ bound ∈ request.finish, ¬bound.IsLeap) : Agrees request points := by
  obtain ⟨⟨lifted, common⟩, series⟩ := Option.isSome_iff_exists.mp takes.1
  obtain ⟨_, liftable⟩ := liftSeries_eq_some series
  have ordered {base : Int} : ∀ new ∈ members request points base,
      ∀ old ∈ members request points base,
        old.timestamp ≤ new.timestamp ↔ old.nanos ≤ new.nanos := by
    intro new new_mem old old_mem
    exact (Instant.timestampNanos_le_iff (plain old (List.mem_filter.mp old_mem).1)
      (plain new (List.mem_filter.mp new_mem).1)).symm
  refine ⟨fun point member => ?_, fun point member _ => ?_, fun base => ?_, fun base => ?_⟩
  · refine and_congr (forall₂_congr fun bound found => ?_) (forall₂_congr fun bound found => ?_)
    · exact (Instant.timestampNanos_le_iff (start_plain bound found) (plain point member)).symm
    · exact (Instant.timestampNanos_le_iff (plain point member) (finish_plain bound found)).symm
  · obtain ⟨base, index⟩ := @exists_bucketIndex request.resolution _ (liftable point member).nanos
    rw [index, Except.ok.injEq]
    unfold bucketIndex at index
    unfold baseOf
    cases whole : request.resolution.stepSecs with
    | some step =>
        simp only [whole, Except.ok.injEq] at index
        exact (congrArg (·.tdiv step) (nanos_seconds (plain point member))).trans index |>.symm
    | none =>
        simp only [whole] at index
        split at index
        · exact (Except.ok.inj index).symm
        · cases index
  · refine best_congr fun new new_mem old old_mem => ?_
    exact lt_iff_lt_of_le_iff_le (ordered new new_mem old old_mem)
  · exact best_congr ordered

/-- A reducer which divides exactly, over the years of the calendar. -/
def exactReducer : Reducer where
  divide total count := total / count
  bin _ := some .zero
  quantile _ _ := none
  milliseconds start finish := (finish.timestampNanos - start.timestampNanos) / 1000000
  firstSecond := -8334601228800
  lastSecond := 8210266876799

/-- Half a second into the leap second at the end of a minute. -/
def leapPoint : Point where
  timestamp := ⟨59, 1500000000, by decide⟩
  value := ⟨1, 0⟩

/-- The first sample of every minute. -/
def minuteRequest : Request where
  resolution := .minutes
  start := none
  finish := none
  aggregations := [.first]

/-- By nanoseconds a leap second is part of the next minute. -/
theorem leap_second_moves :
    ¬∀ aggregations reduction,
      reducePartial exactReducer (minuteRequest.asking aggregations) [leapPoint] = .ok reduction ↔
        reducePartialDecimal exactReducer (minuteRequest.asking aggregations) [leapPoint] =
          .ok reduction := by
  intro same
  have moved : (reducePartial exactReducer (minuteRequest.asking [.first]) [leapPoint]).toOption.map
      SortedMap.keys = some [1] := by decide
  have stays : (reducePartialDecimal exactReducer (minuteRequest.asking [.first])
      [leapPoint]).toOption.map SortedMap.keys = some [0] := by decide
  cases done : reducePartialDecimal exactReducer (minuteRequest.asking [.first]) [leapPoint] with
  | error failure =>
      rw [done] at stays
      cases stays
  | ok reduction =>
      rw [done] at stays
      rw [(same [.first] reduction).mpr done] at moved
      exact absurd (stays.symm.trans moved) (by decide)

end WeftDb.Reduce
