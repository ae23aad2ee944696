import Mathlib.Algebra.BigOperators.Ring.Finset
import Mathlib.Algebra.BigOperators.Ring.List
import WeftDb.Reduce.ScaledRuns

/-!
# What the integer path gives

The integer path and the decimal one accumulate the same, each over the points which it counts to
a bucket.  They differ in how they compare instants: one by nanoseconds since the epoch, the other
by seconds and the nanoseconds into them.  These orders are not the same in a leap second.  A second
pass fills the samples and the sketches in.  The integer path then has the accumulator of
the points of each bucket, where nanoseconds decide the bucket of a point.
-/

namespace WeftDb.Reduce

open KeyedRuns Preference Option

variable {points : List Point} {point : Point} {base : Int} {filling : Filling}

section Exact

variable {reducer : Reducer} {request : Request} {common : Nat}

/-- The nanoseconds of a point. -/
def Point.nanos (point : Point) : Int :=
  point.timestamp.timestampNanos

/-- The accumulator of the points of a bucket, its first and last one taken by nanoseconds. -/
def scaledAccOf (reducer : Reducer) (request : Request) (points : List Point) : BucketAcc :=
  { accOf reducer request points with
    first := ((Preference.least Point.nanos).best points).map Point.sample
    last := ((Preference.latest Point.nanos).best points).map Point.sample }

theorem mantissaAt_toRat {value : BigDecimal} (nonneg : 0 ≤ value.scale)
    (below : value.scale.toNat ≤ common) :
    (mantissaAt common value : Rat) = value.toRat * (10 : Rat) ^ common := by
  obtain ⟨scale, scale_eq⟩ := Int.eq_ofNat_of_zero_le nonneg
  rw [scale_eq, Int.toNat_natCast] at below
  have ten : (10 : Rat) ^ scale ≠ 0 := pow_ne_zero _ (by norm_num)
  have split : (10 : Rat) ^ common = 10 ^ scale * 10 ^ (common - scale) := by
    rw [← pow_add, Nat.add_sub_cancel' below]
  rw [mantissaAt, BigDecimal.toRat, scale_eq, Int.toNat_natCast, zpow_neg, zpow_natCast, split,
    mul_assoc, inv_mul_cancel_left₀ ten]
  norm_num

theorem mantissaAt_lt_iff {left right : BigDecimal} (left_nonneg : 0 ≤ left.scale)
    (left_below : left.scale.toNat ≤ common) (right_nonneg : 0 ≤ right.scale)
    (right_below : right.scale.toNat ≤ common) :
    mantissaAt common left < mantissaAt common right ↔ left.toRat < right.toRat := by
  have positive : (0 : Rat) < 10 ^ common := by positivity
  rw [← Int.cast_lt (R := Rat), mantissaAt_toRat left_nonneg left_below,
    mantissaAt_toRat right_nonneg right_below]
  exact mul_lt_mul_iff_left₀ positive

/-- A point of the series, where it is found, which the integer path can hold. -/
structure Listed (points : List Point) (common : Nat) (item : Item) : Prop where
  member : item ∈ points.zipIdx
  liftable : Liftable common item.1

theorem Listed.found {item : Item} (listed : Listed points common item) :
    points[item.2]? = some item.1 :=
  List.mem_zipIdx_iff_getElem?.mp listed.member

theorem found_best {items : List Item} (listed : ∀ item ∈ items, Listed points common item)
    {preference : Preference (Int × Nat)} {image : Item → Int} {held : Int × Nat}
    (best : some held = preference.best (items.map fun item => (image item, item.2))) :
    points[held.2]? =
      ((preference.comap fun item => (image item, item.2)).best items).map Prod.fst := by
  rw [best_map] at best
  cases chosen : (preference.comap fun item => (image item, item.2)).best items with
  | none =>
      rw [chosen] at best
      cases best
  | some item =>
      rw [chosen] at best
      cases best
      exact (listed item (mem_of_best chosen)).found

variable {points : List Point} {items : List Item} {acc : PointAcc}

section

variable (holds : acc.Holds common items)

include holds

variable (listed : ∀ item ∈ items, Listed points common item)

include listed

theorem PointAcc.Holds.sum_toRat :
    BigDecimal.toRat
        { mantissa := acc.sum.tdiv (10 ^ (common - acc.maxScale)), scale := acc.maxScale } =
      (items.map fun item => item.1.value.toRat).sum := by
  have scale_le := holds.scale_le fun item member => (listed item member).liftable.scale_le
  have divides : (10 : Int) ^ (common - acc.maxScale) ∣ acc.sum := by
    rw [holds.sum]
    refine List.dvd_sum fun mantissa member => ?_
    obtain ⟨item, item_mem, rfl⟩ := List.mem_map.mp member
    exact (pow_dvd_pow _ (Nat.sub_le_sub_left (holds.scale item item_mem) _)).mul_left _
  obtain ⟨quotient, exactly⟩ := divides
  have total : (acc.sum : Rat) = (items.map fun item => item.1.value.toRat).sum * 10 ^ common := by
    rw [holds.sum, ← List.sum_map_mul_right, Int.cast_list_sum, List.map_map]
    refine congrArg List.sum (List.map_congr_left fun item member => ?_)
    exact mantissaAt_toRat (listed item member).liftable.scale_nonneg
      (listed item member).liftable.scale_le
  have power_pos : (0 : Int) < 10 ^ (common - acc.maxScale) := by positivity
  have ten : (10 : Rat) ^ acc.maxScale ≠ 0 := pow_ne_zero _ (by norm_num)
  have more : (10 : Rat) ^ (common - acc.maxScale) ≠ 0 := pow_ne_zero _ (by norm_num)
  have split : (10 : Rat) ^ common = 10 ^ (common - acc.maxScale) * 10 ^ acc.maxScale := by
    rw [← pow_add, Nat.sub_add_cancel scale_le]
  rw [exactly, split, Int.cast_mul, Int.cast_pow, Int.cast_ofNat] at total
  have quotient_eq : (quotient : Rat) =
      (items.map fun item => item.1.value.toRat).sum * 10 ^ acc.maxScale := by
    refine mul_left_cancel₀ more (total.trans ?_)
    ring
  rw [BigDecimal.toRat, exactly, Int.mul_tdiv_cancel_left _ power_pos.ne', zpow_neg, zpow_natCast,
    quotient_eq, mul_assoc, mul_inv_cancel₀ ten, mul_one]

theorem PointAcc.Holds.min_eq :
    points[acc.min.2]?.map Point.value =
      leastValue.best ((items.map Prod.fst).map Point.value) := by
  rw [found_best listed holds.min, List.map_map, best_map, map_map]
  refine congrArg _ (best_congr fun new new_mem old old_mem => ?_)
  have new_liftable := (listed new new_mem).liftable
  have old_liftable := (listed old old_mem).liftable
  exact mantissaAt_lt_iff new_liftable.scale_nonneg new_liftable.scale_le
    old_liftable.scale_nonneg old_liftable.scale_le

theorem PointAcc.Holds.max_eq :
    points[acc.max.2]?.map Point.value =
      greatestValue.best ((items.map Prod.fst).map Point.value) := by
  rw [found_best listed holds.max, List.map_map, best_map, map_map]
  refine congrArg _ (best_congr fun new new_mem old old_mem => ?_)
  have new_liftable := (listed new new_mem).liftable
  have old_liftable := (listed old old_mem).liftable
  exact mantissaAt_lt_iff old_liftable.scale_nonneg old_liftable.scale_le
    new_liftable.scale_nonneg new_liftable.scale_le

end

/-- The accumulator of a bucket before its samples are filled in. -/
def unfilledAccOf (reducer : Reducer) (request : Request) (points : List Point) : BucketAcc :=
  { scaledAccOf reducer request points with
    samples := []
    sketch := if request.sketching then some .withDefaultAccuracy else none }

theorem PointAcc.Holds.convert_eq (holds : acc.Holds common items)
    (listed : ∀ item ∈ items, Listed points common item) :
    acc.convert request points common =
      unfilledAccOf reducer request (items.map Prod.fst) := by
  simp only [PointAcc.convert, unfilledAccOf, scaledAccOf, accOf, BucketAcc.mk.injEq]
  refine ⟨?_, ?_, holds.min_eq listed, holds.max_eq listed, ?_, ?_, trivial, trivial, trivial⟩
  · rw [holds.count, List.length_map]
  · rw [holds.sum_toRat listed, List.map_map]
    rfl
  · rw [found_best listed holds.first, best_map, map_map, map_map]
    rfl
  · rw [found_best listed holds.last, best_map, map_map, map_map]
    rfl

end Exact

variable {reducer : Reducer} {request : Request} {low high : Option Int}

/-- Whether a point falls in a bucket by its nanoseconds. -/
def Request.InBucketNanos (request : Request) (low high : Option Int) (base : Int)
    (point : Point) : Prop :=
  InsideNanos low high point.nanos ∧ baseOf request.resolution point.nanos = base

instance (request : Request) (low high : Option Int) (base : Int) (point : Point) :
    Decidable (request.InBucketNanos low high base point) :=
  inferInstanceAs (Decidable (_ ∧ _))

/-- The points of a bucket by their nanoseconds, in their order. -/
def scaledMembers (request : Request) (low high : Option Int) (points : List Point)
    (base : Int) : List Point :=
  points.filter fun point => decide (request.InBucketNanos low high base point)

/-- The accumulator of a bucket by nanoseconds, unless it is empty. -/
def scaledBucketOf (reducer : Reducer) (request : Request) (low high : Option Int)
    (points : List Point) (base : Int) : Option BucketAcc :=
  if scaledMembers request low high points base = [] then none
  else some (scaledAccOf reducer request (scaledMembers request low high points base))

theorem mem_scaledMembers :
    point ∈ scaledMembers request low high points base ↔
      point ∈ points ∧ request.InBucketNanos low high base point := by
  rw [scaledMembers, List.mem_filter, decide_eq_true_eq]

theorem scaledMembers_append (left right : List Point) (base : Int) :
    scaledMembers request low high (left ++ right) base =
      scaledMembers request low high left base ++ scaledMembers request low high right base :=
  List.filter_append _ _

theorem scaledMembers_singleton (falls : request.InBucketNanos low high base point) :
    scaledMembers request low high [point] base = [point] := by
  simp [scaledMembers, falls]

theorem scaledMembers_singleton_of_not (misses : ¬request.InBucketNanos low high base point) :
    scaledMembers request low high [point] base = [] := by
  simp [scaledMembers, misses]

/-- The points within the bounds, with their positions. -/
def insideItems (low high : Option Int) (points : List Point) : List Item :=
  points.zipIdx.filter fun item => decide (InsideNanos low high item.1.nanos)

theorem under_insideItems (points : List Point) (base : Int) :
    (under request.baseOfItem (insideItems low high points) base).map Prod.fst =
      scaledMembers request low high points base := by
  have whole : points.zipIdx.map Prod.fst = points := List.zipIdx_map_fst 0 points
  rw [under, insideItems, List.filter_filter]
  conv_rhs => rw [← whole, scaledMembers, List.filter_map]
  refine congrArg (List.map Prod.fst) (List.filter_congr fun item _ => ?_)
  exact (Bool.and_comm _ _).trans (Bool.decide_and _ _).symm

variable {points : List Point} {common : Nat} {lifted : List LiftedPoint}

theorem mem_insideItems {item : Item} (liftable : ∀ point ∈ points, Liftable common point)
    (member : item ∈ insideItems low high points) : Listed points common item := by
  have item_mem := (List.mem_filter.mp member).1
  have point_mem : item.1 ∈ points := by
    rw [← List.zipIdx_map_fst 0 points]
    exact List.mem_map_of_mem item_mem
  exact ⟨item_mem, liftable item.1 point_mem⟩

theorem of_ofSeries (points : List Point) :
    (Runs.ofSeries request.resolution low high (points.zipIdx.map (liftOf common))).Of request
        common (insideItems low high points) ∧
      (Runs.ofSeries request.resolution low high
        (points.zipIdx.map (liftOf common))).current = none := by
  have inside : (points.zipIdx.map (liftOf common)).filter
      (fun point => decide (InsideNanos low high point.nanos)) =
        (insideItems low high points).map (liftOf common) := List.filter_map
  rw [Runs.ofSeries, inside]
  exact (Runs.of_foldl _).close

theorem find?_convert_runs {runs : Runs}
    (sorted : runs.inKeyOrder.Pairwise fun left right => left.1 < right.1) (base : Int) :
    (runs.convert request points common).find? base =
      (SortedMap.lookup base runs.inKeyOrder).map (·.convert request points common) := by
  have converted_sorted : (runs.inKeyOrder.map fun entry =>
      (entry.1, entry.2.convert request points common)).Pairwise
        fun left right => left.1 < right.1 := List.pairwise_map.mpr sorted
  rw [Runs.convert, mergeWith_sorted _ converted_sorted, SortedMap.find?, lookup_map]

theorem find?_convert (series : liftSeries points = some (lifted, common)) (base : Int) :
    ((Runs.ofSeries request.resolution low high lifted).convert request points common).find? base =
      if scaledMembers request low high points base = [] then none
      else some (unfilledAccOf reducer request (scaledMembers request low high points base)) := by
  obtain ⟨rfl, liftable⟩ := liftSeries_eq_some series
  have runs := @of_ofSeries request low high common points
  obtain ⟨sorted, held⟩ := runs.1.inKeyOrder runs.2
  have represented := held base
  rw [find?_convert_runs sorted, ← under_insideItems]
  cases found : SortedMap.lookup base (Runs.ofSeries request.resolution low high
    (points.zipIdx.map (liftOf common))).inKeyOrder with
  | none =>
      rw [found, Represents] at represented
      rw [represented]
      rfl
  | some acc =>
      rw [found] at represented
      obtain ⟨nonempty, holds⟩ := represented
      rw [if_neg (mt List.map_eq_nil_iff.mp nonempty)]
      exact congrArg some (holds.convert_eq fun item member =>
        mem_insideItems liftable (List.mem_filter.mp member).1)

/-- The accumulator of a bucket with the samples which were filled in so far. -/
def filledAccOf (reducer : Reducer) (request : Request) (points seen : List Point) : BucketAcc :=
  { scaledAccOf reducer request points with
    samples := (accOf reducer request seen).samples
    sketch := (accOf reducer request seen).sketch }

theorem filledAccOf_nil (points : List Point) :
    filledAccOf reducer request points [] = unfilledAccOf reducer request points := by
  rw [filledAccOf, accOf_nil]
  rfl

theorem samples_append_singleton (points : List Point) (point : Point) :
    (accOf reducer request (points ++ [point])).samples =
      if request.collecting then (accOf reducer request points).samples ++ [point.sample]
      else (accOf reducer request points).samples := by
  simp only [accOf, List.map_append, List.map_singleton]
  split <;> rfl

/-- The buckets of the series, filled with the samples of a part of it. -/
structure Filling.Of (reducer : Reducer) (request : Request) (low high : Option Int)
    (points seen : List Point) (filling : Filling) : Prop where
  buckets : ∀ base, filling.buckets.find? base =
    if scaledMembers request low high points base = [] then none
    else some (filledAccOf reducer request (scaledMembers request low high points base)
      (scaledMembers request low high seen base))
  current : ∀ bucket ∈ filling.current, bucket.2 = baseRange request.resolution bucket.1

variable {seen : List Point}

section

variable (holds : filling.Of reducer request low high points seen)

include holds

theorem Filling.Of.base_eq (nanos : Int) :
    ((filling.current.filter fun bucket => decide (Covers bucket.2 nanos)).map Prod.fst).getD
      (baseOf request.resolution nanos) = baseOf request.resolution nanos := by
  cases known : filling.current.filter fun bucket => decide (Covers bucket.2 nanos) with
  | none => rfl
  | some bucket =>
      obtain ⟨member, covered⟩ := filter_eq_some_iff.mp known
      rw [holds.current bucket member] at covered
      exact (baseOf_of_covers (of_decide_eq_true covered)).symm

theorem Filling.Of.outside (outside : ¬InsideNanos low high point.nanos) :
    filling.Of reducer request low high points (seen ++ [point]) where
  buckets base := by
    have misses : ¬request.InBucketNanos low high base point := fun falls => outside falls.1
    rw [holds.buckets, scaledMembers_append, scaledMembers_singleton_of_not misses,
      List.append_nil]
  current := holds.current

theorem fillPoint_spec {item : LiftedPoint} (nanos : item.nanos = point.nanos)
    (member : point ∈ points) :
    (∀ {after}, fillPoint reducer request low high filling (point, item) = .ok after →
      (InsideNanos low high point.nanos → Binned reducer request point) ∧
        after.Of reducer request low high points (seen ++ [point])) ∧
    ((InsideNanos low high point.nanos → Binned reducer request point) →
      ∃ after, fillPoint reducer request low high filling (point, item) = .ok after) := by
  unfold fillPoint
  simp only [nanos, holds.base_eq]
  by_cases inside : InsideNanos low high point.nanos
  · have falls : request.InBucketNanos low high (baseOf request.resolution point.nanos) point :=
      ⟨inside, rfl⟩
    have some_member : scaledMembers request low high points
        (baseOf request.resolution point.nanos) ≠ [] :=
      List.ne_nil_of_mem (mem_scaledMembers.mpr ⟨member, falls⟩)
    rw [if_pos inside, holds.buckets, if_neg some_member]
    simp only [filledAccOf, bind_eq_ok, pure_eq_ok, foldSketch_eq_ok]
    constructor
    · rintro after ⟨sketch, ⟨binned, rfl⟩, rfl⟩
      refine ⟨fun _ => binned, fun base => ?_, ?_⟩
      · rw [SortedMap.find?_insert, scaledMembers_append]
        by_cases same : baseOf request.resolution point.nanos = base
        · subst same
          rw [if_pos rfl, if_neg some_member, scaledMembers_singleton falls, filledAccOf,
            samples_append_singleton]
          rfl
        · have misses : ¬request.InBucketNanos low high base point := fun other => same other.2
          rw [if_neg same, scaledMembers_singleton_of_not misses, List.append_nil, holds.buckets]
      · intro bucket chosen
        cases chosen
        cases known : filling.current.filter fun bucket =>
            decide (Covers bucket.2 point.nanos) with
        | none => rfl
        | some bucket => exact holds.current bucket (filter_eq_some_iff.mp known).1
    · intro binned
      exact ⟨_, _, ⟨binned inside, rfl⟩, rfl⟩
  · rw [if_neg inside]
    constructor
    · intro after done
      cases done
      exact ⟨fun within => absurd within inside, holds.outside inside⟩
    · exact fun _ => ⟨filling, rfl⟩

end

theorem fillPoints_spec {start : Filling}
    (holds : start.Of reducer request low high points [])
    {pairs : List (Point × LiftedPoint)}
    (listed : ∀ pair ∈ pairs, pair.2.nanos = pair.1.nanos ∧ pair.1 ∈ points) :
    (∀ {after}, pairs.foldlM (fillPoint reducer request low high) start = .ok after →
      (∀ pair ∈ pairs, InsideNanos low high pair.1.nanos → Binned reducer request pair.1) ∧
        after.Of reducer request low high points (pairs.map Prod.fst)) ∧
    ((∀ pair ∈ pairs, InsideNanos low high pair.1.nanos → Binned reducer request pair.1) →
      ∃ after, pairs.foldlM (fillPoint reducer request low high) start = .ok after) := by
  induction pairs using List.reverseRecOn with
  | nil =>
      constructor
      · intro after done
        cases done
        exact ⟨fun _ member => absurd member List.not_mem_nil, holds⟩
      · exact fun _ => ⟨start, rfl⟩
  | append_singleton pairs last ih =>
      obtain ⟨earlier_listed, last_listed⟩ := List.forall_mem_append.mp listed
      obtain ⟨nanos, member⟩ := last_listed last (List.mem_singleton_self _)
      have earlier := ih earlier_listed
      simp only [List.foldlM_append, List.foldlM_cons, List.foldlM_nil, bind_pure, bind_eq_ok,
        List.map_append, List.map_singleton]
      constructor
      · rintro after ⟨middle, first, second⟩
        obtain ⟨binned, middle_holds⟩ := earlier.1 first
        obtain ⟨last_binned, after_holds⟩ := (fillPoint_spec middle_holds nanos member).1 second
        refine ⟨List.forall_mem_append.mpr ⟨binned, fun pair same => ?_⟩, after_holds⟩
        exact List.mem_singleton.mp same ▸ last_binned
      · intro binned
        obtain ⟨earlier_binned, last_binned⟩ := List.forall_mem_append.mp binned
        obtain ⟨middle, first⟩ := earlier.2 earlier_binned
        obtain ⟨after, second⟩ := (fillPoint_spec (earlier.1 first).2 nanos member).2
          (last_binned last (List.mem_singleton_self _))
        exact ⟨after, middle, first, second⟩

/-- Whether a point lies within the bounds by its nanoseconds. -/
def Request.InsideByNanos (request : Request) (point : Point) : Prop :=
  (∀ bound ∈ request.start, bound.timestampNanos ≤ point.nanos) ∧
    ∀ bound ∈ request.finish, point.nanos ≤ bound.timestampNanos

theorem mem_boundNanos {bound : Option Instant} {result : Option Int}
    (counted : boundNanos bound = some result) : result = bound.map Instant.timestampNanos := by
  cases bound with
  | none =>
      cases counted
      rfl
  | some bound =>
      obtain ⟨nanos, found, rfl⟩ := map_eq_some_iff.mp counted
      rw [(timestampNanosOpt_eq_some found).1]
      rfl

theorem insideNanos_iff (start : boundNanos request.start = some low)
    (finish : boundNanos request.finish = some high) :
    InsideNanos low high point.nanos ↔ request.InsideByNanos point := by
  rw [mem_boundNanos start, mem_boundNanos finish]
  simp [InsideNanos, Request.InsideByNanos]

theorem mem_zip_lifted {pair : Point × LiftedPoint}
    (member : pair ∈ points.zip (points.zipIdx.map (liftOf common))) :
    pair.2.nanos = pair.1.nanos ∧ pair.1 ∈ points := by
  obtain ⟨position, bound, rfl⟩ := List.getElem_of_mem member
  rw [List.length_zip] at bound
  simp only [List.getElem_zip, List.getElem_map, List.getElem_zipIdx]
  exact ⟨rfl, List.getElem_mem _⟩

theorem unfilledAccOf_eq (bare : ¬(request.sketching = true ∨ request.collecting = true))
    (points : List Point) :
    unfilledAccOf reducer request points = scaledAccOf reducer request points := by
  obtain ⟨no_sketch, no_samples⟩ := not_or.mp bare
  simp only [unfilledAccOf, scaledAccOf, accOf, if_neg no_sketch, if_neg no_samples]

variable (series : liftSeries points = some (lifted, common))
  (start : boundNanos request.start = some low) (finish : boundNanos request.finish = some high)

include series start finish

theorem reducePartialPoints_spec :
    (∀ {reduction}, reducePartialPoints reducer request points = .ok (some reduction) →
      (∀ point ∈ points, InsideNanos low high point.nanos → Binned reducer request point) ∧
        ∀ base, reduction.find? base = scaledBucketOf reducer request low high points base) ∧
    ((∀ point ∈ points, InsideNanos low high point.nanos → Binned reducer request point) →
      ∃ reduction, reducePartialPoints reducer request points = .ok (some reduction)) := by
  have converted := @find?_convert reducer request low high points common lifted series
  unfold reducePartialPoints
  simp only [series, start, finish]
  split
  · obtain ⟨rfl, liftable⟩ := liftSeries_eq_some series
    have initial : Filling.Of reducer request low high points []
        { buckets := (Runs.ofSeries request.resolution low high
            (points.zipIdx.map (liftOf common))).convert request points common
          current := none } :=
      ⟨fun base => (converted base).trans (by rw [← filledAccOf_nil]; rfl),
        fun _ member => by cases member⟩
    have same_length : points.length ≤ (points.zipIdx.map (liftOf common)).length := by simp
    have firsts := List.map_fst_zip same_length
    have filled := @fillPoints_spec reducer request low high points _ initial
      (points.zip (points.zipIdx.map (liftOf common))) fun pair member => mem_zip_lifted member
    rw [firsts] at filled
    have every : (∀ pair ∈ points.zip (points.zipIdx.map (liftOf common)),
        InsideNanos low high pair.1.nanos → Binned reducer request pair.1) ↔
          ∀ point ∈ points, InsideNanos low high point.nanos → Binned reducer request point := by
      conv_rhs => rw [← firsts, List.forall_mem_map]
    rw [every] at filled
    simp only [bind_eq_ok, pure_eq_ok, some.injEq]
    constructor
    · rintro reduction ⟨after, done, rfl⟩
      obtain ⟨binned, holds⟩ := filled.1 done
      exact ⟨binned, holds.buckets⟩
    · intro binned
      obtain ⟨after, done⟩ := filled.2 binned
      exact ⟨_, after, done, rfl⟩
  · rename_i bare
    have unsketched : ¬request.sketching = true := (not_or.mp bare).1
    simp only [pure_eq_ok, some.injEq]
    simp only [unfilledAccOf_eq bare] at converted
    constructor
    · rintro _ rfl
      exact ⟨fun point _ _ needed => absurd needed unsketched, converted⟩
    · exact fun _ => ⟨_, rfl⟩

theorem reducePartialPoints_eq_ok {reduction : PartialReduction} :
    reducePartialPoints reducer request points = .ok (some reduction) ↔
      (∀ point ∈ points, InsideNanos low high point.nanos → Binned reducer request point) ∧
        ∀ base, reduction.find? base = scaledBucketOf reducer request low high points base := by
  have spec := @reducePartialPoints_spec reducer request low high points common lifted series start
    finish
  constructor
  · exact spec.1
  · rintro ⟨binned, holds⟩
    obtain ⟨other, done⟩ := spec.2 binned
    have same : other = reduction := SortedMap.ext_find? fun base => by
      rw [(spec.1 done).2 base, holds base]
    exact same ▸ done

end WeftDb.Reduce
