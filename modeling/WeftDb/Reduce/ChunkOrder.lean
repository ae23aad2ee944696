import WeftDb.Reduce.Finish
import WeftDb.Reduce.TimeAgreement

/-!
# The order of chunks

Merging partial reductions in another order permutes the points of every bucket.  What a bucket is
finished into depends on their order only where points share an instant, and there only on the
first and the last value.
-/

namespace WeftDb.Reduce

open StableOrder BucketAcc Preference Option

variable {reducer : Reducer} {request : Request}
variable {base : Int} {timestamp : Instant} {reduction : PartialReduction}
  {points left right : List Point} {tree : MergeTree}

/-- A point with the number of its value. -/
def Point.measured (point : Point) : Instant × Rat :=
  (point.timestamp, point.value.toRat)

section Averages

variable {left right : List (Instant × Rat)}

theorem spanWeights_eq (instantaneous : ∀ timestamp, reducer.milliseconds timestamp timestamp = 0)
    (method : TwaMethod) (same : SameEnds Prod.fst left right)
    (left_sorted : left.Pairwise fun first second => first.1 ≤ second.1)
    (right_sorted : right.Pairwise fun first second => first.1 ≤ second.1) :
    spanWeights reducer method left = spanWeights reducer method right := by
  have suffixes (rest : List (Instant × Rat)) : ∀ earlier earlier' rest', left = earlier ++ rest →
      right = earlier' ++ rest' → rest.map Prod.fst = rest'.map Prod.fst →
        spanWeights reducer method rest = spanWeights reducer method rest' := by
    induction rest with
    | nil =>
        intro _ _ rest' _ _ keys
        rw [List.map_eq_nil_iff.mp keys.symm]
    | cons first rest ih =>
        intro earlier earlier' rest' left_eq right_eq keys
        obtain ⟨first', rest', rfl, first_key, keys⟩ := List.map_eq_cons_iff.mp keys.symm
        cases rest with
        | nil =>
            rw [List.map_eq_nil_iff.mp keys]
            rfl
        | cons second rest =>
            obtain ⟨second', later', rfl, second_key, later_keys⟩ := List.map_eq_cons_iff.mp keys
            have later := ih (earlier ++ [first]) (earlier' ++ [first']) (second' :: later')
              (by rw [List.append_assoc]; exact left_eq) (by rw [List.append_assoc]; exact right_eq)
              keys.symm
            rw [spanWeights_cons_cons, spanWeights_cons_cons, later, first_key, second_key]
            by_cases tied : first.1 = second.1
            · simp only [tied, instantaneous, max_self, lt_irrefl, if_false]
            · subst left_eq right_eq
              have mine := ends_of_sorted left_sorted tied
              have theirs := ends_of_sorted right_sorted (first_key ▸ second_key ▸ tied)
              rw [same.last, same.first] at mine
              rw [first_key, second_key] at theirs
              rw [some.inj (mine.1.symm.trans theirs.1),
                some.inj (mine.2.symm.trans theirs.2)]
  exact suffixes left [] [] right rfl rfl (map_eq_of_sorted same.perm left_sorted right_sorted)

theorem getLast?_eq (same : SameEnds Prod.fst left right)
    (left_sorted : left.Pairwise fun first second => first.1 ≤ second.1)
    (right_sorted : right.Pairwise fun first second => first.1 ≤ second.1) :
    left.getLast? = right.getLast? := by
  have keys := map_eq_of_sorted same.perm left_sorted right_sorted
  cases left using List.reverseRecOn with
  | nil => rw [same.perm.nil_eq]
  | append_singleton left last =>
      cases right using List.reverseRecOn with
      | nil => exact absurd same.perm.eq_nil (List.concat_ne_nil _ _)
      | append_singleton right other =>
          have last_key : last.1 = other.1 := by
            rw [List.map_append, List.map_append] at keys
            exact (List.cons.inj (List.append_inj_right' keys rfl)).1
          have mine : (within Prod.fst (left ++ [last]) last.1).getLast? = some last :=
            getLast?_within_self left last
          rw [same.last, last_key, getLast?_within_self] at mine
          rw [List.getLast?_concat, List.getLast?_concat, mine]

theorem twaDecimal_eq (instantaneous : ∀ timestamp, reducer.milliseconds timestamp timestamp = 0)
    (method : TwaMethod) (bucketEnd : Option Instant) (same : SameEnds Prod.fst left right) :
    twaDecimal reducer left method bucketEnd = twaDecimal reducer right method bucketEnd := by
  have left_sorted := sorted_sortBy Prod.fst left
  have right_sorted := sorted_sortBy Prod.fst right
  unfold twaDecimal
  simp only [spanWeights_eq instantaneous method same.sortBy left_sorted right_sorted,
    getLast?_eq same.sortBy left_sorted right_sorted, (same.perm.map Prod.snd).sum_eq,
    same.perm.length_eq]

theorem percentile_eq {values others : List Rat} (perm : values.Perm others) (rank : Nat) :
    percentile values rank = percentile others rank := by
  have sorted : sortBy id values = sortBy id others := by
    have both := map_eq_of_sorted
      ((sortBy_perm id values).trans (perm.trans (sortBy_perm id others).symm))
      (sorted_sortBy id values) (sorted_sortBy id others)
    rwa [List.map_id, List.map_id] at both
  rw [percentile, percentile, sorted, perm.length_eq]

end Averages

/-- What is relied on of the clock and of the division: no time passes within an instant, and
outside leap seconds nanoseconds are counted. -/
structure Reducer.Weighs (reducer : Reducer) : Prop where
  instantaneous : ∀ timestamp, reducer.milliseconds timestamp timestamp = 0
  divides : reducer.Divides
  counts : reducer.CountsPlain

section Weighted

variable {left right : List (Instant × BigDecimal)} {bucketEnd : Option Instant}

variable (weighs : reducer.Weighs) (plain : ∀ sample ∈ left, ¬sample.1.IsLeap) (method : TwaMethod)
  (end_plain : ∀ finish ∈ bucketEnd, ¬finish.IsLeap)

include weighs plain method end_plain

theorem scaledOrDecimal_of_plain :
    scaledOrDecimal reducer left method bucketEnd =
      twaDecimal reducer (left.map measuredSample) method bucketEnd := by
  have named : methodOf (method = .linear) = method := by cases method <;> rfl
  unfold scaledOrDecimal
  split
  · rename_i average done
    have stamps_plain : ∀ timestamp ∈ left.map Prod.fst, ¬timestamp.IsLeap :=
      List.forall_mem_map.mpr plain
    rw [(sameShares_of_plain weighs.counts _ stamps_plain end_plain).eq weighs.divides done, named]
  · rfl

theorem timeWeightedAverage_eq
    (same : SameEnds Prod.fst (left.map measuredSample) (right.map measuredSample)) :
    timeWeightedAverage reducer left method bucketEnd =
      timeWeightedAverage reducer right method bucketEnd := by
  have stamps : (left.map Prod.fst).Perm (right.map Prod.fst) := by
    have both := same.perm.map Prod.fst
    rwa [List.map_map, List.map_map] at both
  have stamps_plain : ∀ timestamp ∈ left.map Prod.fst, ¬timestamp.IsLeap :=
    List.forall_mem_map.mpr plain
  have right_plain : ∀ sample ∈ right, ¬sample.1.IsLeap := fun sample member =>
    stamps_plain _ (stamps.mem_iff.mpr (List.mem_map_of_mem member))
  have average : scaledOrDecimal reducer left method bucketEnd =
      scaledOrDecimal reducer right method bucketEnd := by
    rw [scaledOrDecimal_of_plain weighs plain method end_plain,
      scaledOrDecimal_of_plain weighs right_plain method end_plain,
      twaDecimal_eq weighs.instantaneous method bucketEnd same]
  have length := stamps.length_eq
  rw [List.length_map, List.length_map] at length
  match left, right with
  | [], [] => rfl
  | [_], [_] =>
      have value := congrArg Prod.snd (List.singleton_perm_singleton.mp same.perm)
      simp only [measuredSample] at value
      simp only [timeWeightedAverage, average, value]
  | _ :: _ :: _, _ :: _ :: _ => exact congrArg some average
  | [], _ :: _ | [_], [] | [_], _ :: _ :: _ | _ :: _ :: _, [] | _ :: _ :: _, [_] =>
      simp at length

end Weighted

/-- Whether a reduction weighs values by time. -/
def Aggregation.weighing : Aggregation → Bool
  | twa | twaLinear | twaBucketEnd => true
  | _ => false

/-- Points with the same values, which begin and end with the same value at every instant. -/
def SameSamples (left right : List Point) : Prop :=
  SameEnds Prod.fst (left.map Point.measured) (right.map Point.measured)

section Buckets

variable {left right : List Point}
variable {resolution : Resolution}

theorem SameSamples.values (same : SameSamples left right) :
    (left.map fun point => point.value.toRat).Perm (right.map fun point => point.value.toRat) := by
  have both := same.perm.map Prod.snd
  rwa [List.map_map, List.map_map] at both

theorem accOf_min (points : List Point) :
    (accOf reducer request points).min.map BigDecimal.toRat =
      (least id).best (points.map fun point => point.value.toRat) := by
  have numbers : points.map (fun point => point.value.toRat) =
      (points.map Point.value).map BigDecimal.toRat := by rw [List.map_map]; rfl
  rw [numbers, best_map]
  rfl

theorem accOf_max (points : List Point) :
    (accOf reducer request points).max.map BigDecimal.toRat =
      (greatest id).best (points.map fun point => point.value.toRat) := by
  have numbers : points.map (fun point => point.value.toRat) =
      (points.map Point.value).map BigDecimal.toRat := by rw [List.map_map]; rfl
  rw [numbers, best_map]
  rfl

theorem accOf_first_value (points : List Point) :
    (accOf reducer request points).first.map (·.2.toRat) =
      ((least Prod.fst).best (points.map Point.measured)).map Prod.snd := by
  rw [accOf_first, best_map, map_map, map_map]
  rfl

theorem accOf_last_value (points : List Point) :
    (accOf reducer request points).last.map (·.2.toRat) =
      ((latest Prod.fst).best (points.map Point.measured)).map Prod.snd := by
  rw [accOf_last, best_map, map_map, map_map]
  rfl

theorem accOf_sketch (same : SameSamples left right) :
    (accOf reducer request left).sketch = (accOf reducer request right).sketch := by
  have bins (points : List Point) : points.filterMap (fun point => reducer.bin point.value.toRat) =
      (points.map Point.measured).filterMap fun sample => reducer.bin sample.2 := by
    rw [List.filterMap_map]
    rfl
  simp only [accOf, bins, DdSketch.ofBins_perm _ (same.perm.filterMap _)]

theorem accOf_samples (points : List Point) :
    (accOf reducer request points).samples =
      if request.collecting then points.map Point.sample else [] :=
  rfl

theorem samples_sameEnds (same : SameSamples left right) :
    SameEnds Prod.fst ((accOf reducer request left).samples.map measuredSample)
      ((accOf reducer request right).samples.map measuredSample) := by
  rw [accOf_samples, accOf_samples]
  split
  · rw [List.map_map, List.map_map]
    exact same
  · exact ⟨.refl _, fun _ => rfl, fun _ => rfl⟩

theorem accOf_samples_plain (plain : ∀ point ∈ left, ¬point.timestamp.IsLeap) :
    ∀ sample ∈ (accOf reducer request left).samples, ¬sample.1.IsLeap := by
  rw [accOf_samples]
  split
  · exact List.forall_mem_map.mpr plain
  · exact fun _ member => absurd member List.not_mem_nil

theorem accOf_count (same : SameSamples left right) :
    (accOf reducer request left).count = (accOf reducer request right).count := by
  have lengths := same.perm.length_eq
  rwa [List.length_map, List.length_map] at lengths

/-- Reductions which weigh no time are those of the same samples. -/
theorem aggregate_eq_of_unweighed (same : SameSamples left right) (resolution : Resolution)
    (base : Int) {aggregation : Aggregation} (unweighed : aggregation.weighing = false) :
    (accOf reducer request left).aggregate reducer resolution base aggregation =
      (accOf reducer request right).aggregate reducer resolution base aggregation := by
  have kept := (@samples_sameEnds reducer request left right same).perm.map Prod.snd
  rw [List.map_map, List.map_map] at kept
  have ranked := percentile_eq kept
  have sum : (accOf reducer request left).sum = (accOf reducer request right).sum :=
    same.values.sum_eq
  cases aggregation with
  | min => simp only [aggregate, accOf_min, best_least_perm same.values]
  | max => simp only [aggregate, accOf_max, best_greatest_perm same.values]
  | avg => simp only [aggregate, accOf_count same, sum]
  | sum => simp only [aggregate, sum]
  | first => simp only [aggregate, accOf_first_value, same.best_least_eq]
  | last => simp only [aggregate, accOf_last_value, same.best_latest_eq]
  | p50 | p90 | p95 | p99 => exact ranked _
  | twa | twaLinear | twaBucketEnd => cases unweighed
  | sketchP50 | sketchP90 | sketchP95 | sketchP99 =>
      simp only [aggregate, accOf_sketch same]

theorem bucketStart_plain {start : Instant}
    (found : bucketStart reducer resolution base = some start) : ¬start.IsLeap := by
  simp only [bucketStart, ite_none_right_eq_some, some.injEq] at found
  obtain ⟨_, rfl⟩ := found
  simp only [Instant.IsLeap, Instant.ofNanos]
  omega

theorem aggregate_eq (weighs : reducer.Weighs) (same : SameSamples left right)
    (resolution : Resolution) (base : Int) (aggregation : Aggregation)
    (plain : aggregation.weighing = true → ∀ point ∈ left, ¬point.timestamp.IsLeap) :
    (accOf reducer request left).aggregate reducer resolution base aggregation =
      (accOf reducer request right).aggregate reducer resolution base aggregation := by
  have kept := @samples_sameEnds reducer request left right same
  have averaged (weighing : aggregation.weighing = true) (method : TwaMethod)
      {bucketEnd : Option Instant} (end_plain : ∀ finish ∈ bucketEnd, ¬finish.IsLeap) :=
    timeWeightedAverage_eq weighs (accOf_samples_plain (plain weighing)) method end_plain kept
  have no_end : ∀ finish ∈ (none : Option Instant), ¬finish.IsLeap := fun _ found => by cases found
  cases aggregation with
  | twa => exact averaged rfl .locf no_end
  | twaLinear => exact averaged rfl .linear no_end
  | twaBucketEnd =>
      simp only [aggregate]
      cases found : bucketStart reducer resolution (nextBase base) with
      | none => rfl
      | some finish =>
          exact averaged rfl .locf fun _ same => some.inj same ▸ bucketStart_plain found
  | min | max | avg | sum | first | last | p50 | p90 | p95 | p99 | sketchP50 | sketchP90
  | sketchP95 | sketchP99 => exact aggregate_eq_of_unweighed same resolution base rfl

/-- Accumulators of which every reduction which is asked for is the same are finished alike. -/
theorem finish_congr {acc other : BucketAcc} {aggregations : List Aggregation}
    (count : acc.count = other.count)
    (alike : ∀ aggregation ∈ aggregations, acc.aggregate reducer resolution base aggregation =
      other.aggregate reducer resolution base aggregation) :
    acc.finish reducer resolution base aggregations =
      other.finish reducer resolution base aggregations := by
  have values : aggregations.foldl (fun values aggregation => note values aggregation
        (acc.aggregate reducer resolution base aggregation)) SortedMap.empty =
      aggregations.foldl (fun values aggregation => note values aggregation
        (other.aggregate reducer resolution base aggregation)) SortedMap.empty :=
    List.foldl_ext _ _ _ fun values aggregation member => by rw [alike aggregation member]
  simp only [finish, values, count]

end Buckets

section Finished

variable {left right : List Point}
variable {mine theirs : PartialReduction}

theorem SameSamples.members (same : SameSamples left right) (base : Int) :
    SameSamples (members request left base) (members request right base) := by
  have filtered (points : List Point) : (Reduce.members request points base).map Point.measured =
      (points.map Point.measured).filter fun sample =>
        decide (request.InBucket base sample.1) := by
    rw [List.filter_map]
    rfl
  rw [SameSamples, filtered, filtered]
  exact same.filter fun timestamp => decide (request.InBucket base timestamp)

theorem mapM_congr {Item Other Result : Type} {relation : Item → Other → Prop}
    {step : Item → Except ReduceError Result} {other_step : Other → Except ReduceError Result}
    (alike : ∀ item other, relation item other → step item = other_step other)
    {items : List Item} {others : List Other} (related : List.Forall₂ relation items others) :
    items.mapM step = others.mapM other_step := by
  induction related with
  | nil => rfl
  | cons first _ ih => rw [List.mapM_cons, List.mapM_cons, alike _ _ first, ih]

/-- Whether an average over time is asked for. -/
def Request.weighing (request : Request) : Bool :=
  request.requested.any (·.weighing)

/-- Whether no leap second is weighed. -/
def Request.WeighsPlain (request : Request) (points : List Point) : Prop :=
  request.weighing = true → ∀ point ∈ points, request.Inside point.timestamp →
    ¬point.timestamp.IsLeap

/-- Accumulators which are finished into the same bucket. -/
def BucketAcc.Alike (reducer : Reducer) (request : Request) (acc other : BucketAcc) : Prop :=
  ∀ base, acc.finish reducer request.resolution base request.requested =
    other.finish reducer request.resolution base request.requested

theorem finish_alike
    (related : List.Forall₂
      (fun entry other => entry.1 = other.1 ∧ BucketAcc.Alike reducer request entry.2 other.2)
      mine.entries theirs.entries) :
    mine.finish reducer request = theirs.finish reducer request := by
  refine mapM_congr ?_ related
  rintro ⟨base, _⟩ ⟨_, _⟩ ⟨rfl, same_finish⟩
  exact same_finish base

theorem alike_of_sameSamples (weighs : reducer.Weighs) (same : SameSamples left right)
    (plain : request.weighing = true → ∀ point ∈ left, ¬point.timestamp.IsLeap) :
    BucketAcc.Alike reducer request (accOf reducer request left) (accOf reducer request right) :=
  fun base => finish_congr (accOf_count same) fun aggregation asked =>
    aggregate_eq weighs same request.resolution base aggregation fun weighing =>
      plain (List.any_eq_true.mpr ⟨aggregation, asked, weighing⟩)

theorem finish_reduction_eq (weighs : reducer.Weighs) (plain : request.WeighsPlain left)
    (mine_holds : mine.Of reducer request left) (their_holds : theirs.Of reducer request right)
    (same : SameSamples left right) :
    mine.finish reducer request = theirs.finish reducer request := by
  have related : List.Forall₂
      (fun entry other => entry.1 = other.1 ∧ BucketAcc.Alike reducer request entry.2 other.2)
      mine.entries theirs.entries := by
    refine SortedMap.forall₂_of_lookup mine.sorted theirs.sorted fun base => ?_
    have mine_base : SortedMap.lookup base mine.entries = bucketOf reducer request left base :=
      mine_holds base
    have their_base : SortedMap.lookup base theirs.entries = bucketOf reducer request right base :=
      their_holds base
    have members_same := @SameSamples.members request left right same base
    have empty : Reduce.members request left base = [] ↔
        Reduce.members request right base = [] := by
      rw [← List.length_eq_zero_iff, ← List.length_eq_zero_iff]
      have lengths := members_same.perm.length_eq
      rw [List.length_map, List.length_map] at lengths
      rw [lengths]
    rw [mine_base, their_base, bucketOf, bucketOf]
    by_cases none : Reduce.members request left base = []
    · rw [if_pos none, if_pos (empty.mp none)]
      exact .none
    · rw [if_neg none, if_neg (mt empty.mpr none)]
      refine .some (alike_of_sameSamples weighs members_same fun weighing point member => ?_)
      obtain ⟨listed, falls⟩ := List.mem_filter.mp member
      exact plain weighing point listed (of_decide_eq_true falls).1
  exact finish_alike related

/-- The numbers of the values at an instant, in their order. -/
def valuesAt (points : List Point) (timestamp : Instant) : List Rat :=
  (within Point.timestamp points timestamp).map fun point => point.value.toRat

/-- Whether the values at every instant begin and end the same. -/
def SameTies (left right : List Point) : Prop :=
  ∀ timestamp, (valuesAt left timestamp).head? = (valuesAt right timestamp).head? ∧
    (valuesAt left timestamp).getLast? = (valuesAt right timestamp).getLast?

theorem within_measured (points : List Point) (timestamp : Instant) :
    within Prod.fst (points.map Point.measured) timestamp =
      (valuesAt points timestamp).map fun value => (timestamp, value) := by
  have pairs : ∀ point ∈ within Point.timestamp points timestamp,
      point.measured = (timestamp, point.value.toRat) :=
    fun point member => Prod.ext (mem_within.mp member).2 rfl
  have filtered : within Prod.fst (points.map Point.measured) timestamp =
      (within Point.timestamp points timestamp).map Point.measured := List.filter_map
  rw [filtered, valuesAt, List.map_map]
  exact List.map_congr_left pairs

theorem sameSamples_iff (perm : left.Perm right) :
    SameSamples left right ↔ SameTies left right := by
  have paired (timestamp : Instant) : Function.Injective fun value : Rat => (timestamp, value) :=
    fun _ _ same => congrArg Prod.snd same
  have ends (timestamp : Instant) :
      ((within Prod.fst (left.map Point.measured) timestamp).head? =
          (within Prod.fst (right.map Point.measured) timestamp).head? ↔
        (valuesAt left timestamp).head? = (valuesAt right timestamp).head?) ∧
      ((within Prod.fst (left.map Point.measured) timestamp).getLast? =
          (within Prod.fst (right.map Point.measured) timestamp).getLast? ↔
        (valuesAt left timestamp).getLast? = (valuesAt right timestamp).getLast?) := by
    rw [within_measured, within_measured, List.head?_map, List.head?_map, List.getLast?_map,
      List.getLast?_map]
    exact ⟨(map_injective (paired timestamp)).eq_iff,
      (map_injective (paired timestamp)).eq_iff⟩
  constructor
  · exact fun same timestamp => ⟨(ends timestamp).1.mp (same.first timestamp),
      (ends timestamp).2.mp (same.last timestamp)⟩
  · exact fun ties => ⟨perm.map _, fun timestamp => (ends timestamp).1.mpr (ties timestamp).1,
      fun timestamp => (ends timestamp).2.mpr (ties timestamp).2⟩

end Finished

/-- Ask for the first and the last value at one instant. -/
def instantRequest (timestamp : Instant) : Request where
  resolution := .seconds
  start := some timestamp
  finish := some timestamp
  aggregations := [.first, .last]

theorem inBucket_instant {other : Instant} :
    (instantRequest timestamp).InBucket base other ↔
      other = timestamp ∧ base = timestamp.timestamp := by
  have inside : (instantRequest timestamp).Inside other ↔ other = timestamp := by
    simp only [Request.Inside, instantRequest, mem_def, some.injEq, forall_eq']
    exact ⟨fun both => le_antisymm both.2 both.1, fun same => same ▸ ⟨le_rfl, le_rfl⟩⟩
  have index : bucketIndex (instantRequest timestamp).resolution other =
      .ok (other.timestamp.tdiv 1) := rfl
  rw [Request.InBucket, inside, index, Int.tdiv_one, Except.ok.injEq]
  exact and_congr_right fun same => same ▸ eq_comm

theorem members_instant (points : List Point) (timestamp : Instant) (base : Int) :
    members (instantRequest timestamp) points base =
      if base = timestamp.timestamp then within Point.timestamp points timestamp else [] := by
  split
  · rename_i same
    refine List.filter_congr fun point _ => decide_eq_decide.mpr ?_
    exact inBucket_instant.trans (and_iff_left same)
  · rename_i other
    refine List.filter_eq_nil_iff.mpr fun point _ falls => other ?_
    exact (inBucket_instant.mp (of_decide_eq_true falls)).2

theorem reduction_instant (holds : reduction.Of reducer (instantRequest timestamp) points)
    (some_point : within Point.timestamp points timestamp ≠ []) :
    reduction.entries = [(timestamp.timestamp,
      accOf reducer (instantRequest timestamp) (within Point.timestamp points timestamp))] := by
  have same : reduction = SortedMap.empty.insert timestamp.timestamp
      (accOf reducer (instantRequest timestamp) (within Point.timestamp points timestamp)) := by
    refine SortedMap.ext_find? fun base => ?_
    rw [holds, bucketOf, members_instant, SortedMap.find?_insert]
    by_cases here : base = timestamp.timestamp
    · rw [if_pos here, if_pos here.symm, if_neg some_point]
    · rw [if_neg here, if_neg (Ne.symm here), if_pos rfl]
      rfl
  rw [same]
  rfl

theorem first_within (points : List Point) (timestamp : Instant) :
    (accOf reducer request (within Point.timestamp points timestamp)).first.map (·.2.toRat) =
      (valuesAt points timestamp).head? := by
  rw [accOf_first, best_least_within, valuesAt, List.head?_map, map_map]
  rfl

theorem last_within (points : List Point) (timestamp : Instant) :
    (accOf reducer request (within Point.timestamp points timestamp)).last.map (·.2.toRat) =
      (valuesAt points timestamp).getLast? := by
  rw [accOf_last, best_latest_within, valuesAt, List.getLast?_map, map_map]
  rfl

/-- The buckets of the first and the last value of one instant. -/
def instantBucket (points : List Point) (timestamp : Instant) : Bucket where
  timestamp := .ofNanos (timestamp.timestamp * nanosPerSecond)
  count := (within Point.timestamp points timestamp).length
  values := BucketAcc.note
    (BucketAcc.note .empty .first (valuesAt points timestamp).head?) .last
      (valuesAt points timestamp).getLast?

theorem finish_instant (holds : reduction.Of reducer (instantRequest timestamp) points)
    (some_point : within Point.timestamp points timestamp ≠ [])
    (calendar : reducer.firstSecond ≤ timestamp.timestamp ∧
      timestamp.timestamp ≤ reducer.lastSecond) :
    reduction.finish reducer (instantRequest timestamp) = .ok [instantBucket points timestamp] := by
  have second : (Instant.ofNanos (timestamp.timestamp * nanosPerSecond)).timestamp =
      timestamp.timestamp := Int.mul_ediv_cancel _ (by decide)
  have start : bucketStart reducer .seconds timestamp.timestamp =
      some (.ofNanos (timestamp.timestamp * nanosPerSecond)) := by
    refine if_pos ?_
    rw [← second] at calendar
    exact calendar
  have finished : (accOf reducer (instantRequest timestamp)
      (within Point.timestamp points timestamp)).finish reducer .seconds timestamp.timestamp
        [.first, .last] = .ok (instantBucket points timestamp) := by
    simp only [finish, start, List.foldl_cons, List.foldl_nil, aggregate,
      first_within, last_within, instantBucket, Except.ok.injEq, Bucket.mk.injEq, and_true,
      true_and]
    rfl
  rw [PartialReduction.finish, reduction_instant holds some_point, List.mapM_cons, List.mapM_nil]
  have requested : (instantRequest timestamp).requested = [.first, .last] := rfl
  rw [requested]
  exact bind_eq_ok.mpr ⟨_, finished, rfl⟩

theorem note_find? (first last : Option Rat) :
    (note (note .empty .first first) .last last).find? "first" = first ∧
      (note (note .empty .first first) .last last).find? "last" = last := by
  cases first with
  | none => cases last <;> exact ⟨rfl, rfl⟩
  | some first => cases last <;> exact ⟨rfl, rfl⟩

/-- Bounds outside leap seconds. -/
def Request.Plain (request : Request) : Prop :=
  (∀ bound ∈ request.start, ¬bound.IsLeap) ∧ ∀ bound ∈ request.finish, ¬bound.IsLeap

/-- Finish a reduction, if there is one. -/
def finished (reducer : Reducer) (request : Request)
    (reduction : Except ReduceError PartialReduction) : Except ReduceError (List Bucket) := do
  let reduction ← reduction
  reduction.finish reducer request

theorem MergeTree.eval_congr {reduce other : List Point → Except ReduceError PartialReduction}
    (alike : ∀ chunk ∈ tree.chunks, ∀ reduction,
      reduce chunk = .ok reduction ↔ other chunk = .ok reduction) :
    tree.eval reduce = .ok reduction ↔ tree.eval other = .ok reduction := by
  induction tree generalizing reduction with
  | chunk points => exact alike points (List.mem_singleton_self _) reduction
  | merge left right left_ih right_ih =>
      obtain ⟨left_alike, right_alike⟩ := List.forall_mem_append.mp alike
      simp only [eval, bind_eq_ok, left_ih left_alike, right_ih right_alike]

/-- Whether points are left to decimal arithmetic or reduced to the same on integers. -/
def Request.Steady (request : Request) (points : List Point) : Prop :=
  request.Takes points → Agrees request points

theorem steady_of_plain (bounds : request.Plain)
    (plain : ∀ point ∈ points, ¬point.timestamp.IsLeap) : request.Steady points :=
  fun takes => agrees_of_plain takes plain bounds.1 bounds.2

theorem MergeTree.eval_eq_ok_of_steady (steady : ∀ chunk ∈ tree.chunks, request.Steady chunk) :
    tree.eval (reducePartial reducer request) = .ok reduction ↔
      reducePartialDecimal reducer request tree.chunks.flatten = .ok reduction := by
  rw [← MergeTree.eval_eq_ok]
  exact MergeTree.eval_congr fun chunk member _ =>
    reducePartial_eq_ok_of_agrees (steady chunk member)

theorem finished_of_sameSamples (weighs : reducer.Weighs) (perm : left.Perm right)
    (plain : request.WeighsPlain left) (same : SameSamples left right) {buckets : List Bucket}
    (done : finished reducer request (reducePartialDecimal reducer request left) = .ok buckets) :
    finished reducer request (reducePartialDecimal reducer request right) = .ok buckets := by
  obtain ⟨mine, reduced, done⟩ := bind_eq_ok.mp done
  obtain ⟨reducible, mine_holds⟩ := reducePartialDecimal_eq_ok.mp reduced
  obtain ⟨theirs, other_reduced⟩ := (reducePartialDecimal_spec right).2
    fun point member => reducible point (perm.mem_iff.mpr member)
  have their_holds := (reducePartialDecimal_eq_ok.mp other_reduced).2
  refine bind_eq_ok.mpr ⟨theirs, other_reduced, ?_⟩
  rw [← finish_reduction_eq weighs plain mine_holds their_holds same, done]

theorem finished_instant (some_point : within Point.timestamp points timestamp ≠ [])
    (calendar : reducer.firstSecond ≤ timestamp.timestamp ∧
      timestamp.timestamp ≤ reducer.lastSecond) :
    finished reducer (instantRequest timestamp)
      (reducePartialDecimal reducer (instantRequest timestamp) points) =
        .ok [instantBucket points timestamp] := by
  obtain ⟨reduction, reduced⟩ := (reducePartialDecimal_spec points).2
    (fun point _ _ => ⟨⟨_, rfl⟩, fun needed => by cases needed⟩ :
      ∀ point ∈ points, Reducible reducer (instantRequest timestamp) point)
  have holds := (reducePartialDecimal_eq_ok.mp reduced).2
  exact bind_eq_ok.mpr ⟨reduction, reduced, finish_instant holds some_point calendar⟩

theorem ends_of_finished (left_some : within Point.timestamp left timestamp ≠ [])
    (right_some : within Point.timestamp right timestamp ≠ [])
    (calendar : reducer.firstSecond ≤ timestamp.timestamp ∧
      timestamp.timestamp ≤ reducer.lastSecond)
    (same : ∀ buckets,
      finished reducer (instantRequest timestamp)
          (reducePartialDecimal reducer (instantRequest timestamp) left) = .ok buckets ↔
        finished reducer (instantRequest timestamp)
          (reducePartialDecimal reducer (instantRequest timestamp) right) = .ok buckets) :
    (valuesAt left timestamp).head? = (valuesAt right timestamp).head? ∧
      (valuesAt left timestamp).getLast? = (valuesAt right timestamp).getLast? := by
  have both := (same _).mpr (finished_instant right_some calendar)
  rw [finished_instant left_some calendar] at both
  have values := congrArg Bucket.values (List.cons.inj (Except.ok.inj both)).1
  simp only [instantBucket] at values
  have mine := note_find? (valuesAt left timestamp).head? (valuesAt left timestamp).getLast?
  have theirs := note_find? (valuesAt right timestamp).head? (valuesAt right timestamp).getLast?
  rw [values] at mine
  exact ⟨mine.1.symm.trans theirs.1, mine.2.symm.trans theirs.2⟩

theorem instantRequest_plain (plain : ¬timestamp.IsLeap) : (instantRequest timestamp).Plain :=
  ⟨fun _ found => some.inj found ▸ plain, fun _ found => some.inj found ▸ plain⟩

theorem finished_iff_of_steady (tree_steady : ∀ chunk ∈ tree.chunks, request.Steady chunk)
    (steady : request.Steady points) (buckets : List Bucket) :
    (finished reducer request (tree.eval (reducePartial reducer request)) = .ok buckets ↔
        finished reducer request (reducePartial reducer request points) = .ok buckets) ↔
      (finished reducer request (reducePartialDecimal reducer request tree.chunks.flatten) =
          .ok buckets ↔
        finished reducer request (reducePartialDecimal reducer request points) =
          .ok buckets) := by
  simp only [finished, bind_eq_ok, MergeTree.eval_eq_ok_of_steady tree_steady,
    reducePartial_eq_ok_of_agrees steady]

/-- Whether the merged reduction of chunks is finished as that of all points. -/
def MergesTo (reducer : Reducer) (request : Request) (tree : MergeTree) (points : List Point) :
    Prop :=
  ∀ buckets, finished reducer request (tree.eval (reducePartial reducer request)) = .ok buckets ↔
    finished reducer request (reducePartial reducer request points) = .ok buckets

theorem mergesTo_of_sameTies (weighs : reducer.Weighs) {tree : MergeTree} {points : List Point}
    (perm : tree.chunks.flatten.Perm points)
    (tree_steady : ∀ chunk ∈ tree.chunks, request.Steady chunk) (steady : request.Steady points)
    (plain : request.WeighsPlain points) (ties : SameTies tree.chunks.flatten points) :
    MergesTo reducer request tree points := by
  have same := (sameSamples_iff perm).mpr ties
  have tree_plain : request.WeighsPlain tree.chunks.flatten :=
    fun weighing point member => plain weighing point (perm.mem_iff.mp member)
  intro buckets
  rw [finished_iff_of_steady tree_steady steady]
  exact ⟨finished_of_sameSamples weighs perm tree_plain same,
    finished_of_sameSamples weighs perm.symm plain same.symm⟩

theorem sameTies_of_mergesTo {tree : MergeTree} {points : List Point}
    (perm : tree.chunks.flatten.Perm points)
    (plain : ∀ point ∈ points, ¬point.timestamp.IsLeap)
    (calendar : ∀ point ∈ points, reducer.firstSecond ≤ point.timestamp.timestamp ∧
      point.timestamp.timestamp ≤ reducer.lastSecond)
    (merges : ∀ request : Request, request.Plain → MergesTo reducer request tree points) :
    SameTies tree.chunks.flatten points := by
  intro timestamp
  have tied : (within Point.timestamp tree.chunks.flatten timestamp).Perm
      (within Point.timestamp points timestamp) := perm.filter _
  by_cases none : within Point.timestamp points timestamp = []
  · rw [none] at tied
    rw [valuesAt, valuesAt, none, tied.eq_nil]
    exact ⟨rfl, rfl⟩
  · have tree_some : within Point.timestamp tree.chunks.flatten timestamp ≠ [] := by
      intro tree_none
      rw [tree_none] at tied
      exact none tied.nil_eq.symm
    obtain ⟨point, member⟩ := List.exists_mem_of_ne_nil _ none
    obtain ⟨point_mem, rfl⟩ := mem_within.mp member
    have bounds := instantRequest_plain (plain point point_mem)
    have tree_steady : ∀ chunk ∈ tree.chunks,
        (instantRequest point.timestamp).Steady chunk := fun chunk chunk_mem =>
      steady_of_plain bounds fun other other_mem => plain other
        (perm.mem_iff.mp (List.mem_flatten.mpr ⟨chunk, chunk_mem, other_mem⟩))
    exact ends_of_finished tree_some none (calendar point point_mem) fun buckets =>
      (finished_iff_of_steady tree_steady (steady_of_plain bounds plain) buckets).mp
        (merges _ bounds buckets)

/-- Chunks may be merged in another order where neither a chunk nor all points together are reduced
to something else on integers, no leap second is weighed and the points of every instant still begin
and end with the same value.  Outside leap seconds the last condition alone is exact. -/
theorem merge_order (reducer : Reducer) (weighs : reducer.Weighs) (tree : MergeTree)
    (chunks : List (List Point)) (order : tree.chunks.Perm chunks) :
    (∀ request : Request, (∀ chunk ∈ chunks, request.Steady chunk) →
      request.Steady chunks.flatten → request.WeighsPlain chunks.flatten →
        SameTies tree.chunks.flatten chunks.flatten →
          MergesTo reducer request tree chunks.flatten) ∧
    ((∀ point ∈ chunks.flatten, ¬point.timestamp.IsLeap) →
      (∀ point ∈ chunks.flatten, reducer.firstSecond ≤ point.timestamp.timestamp ∧
        point.timestamp.timestamp ≤ reducer.lastSecond) →
      ((∀ request : Request, request.Plain → MergesTo reducer request tree chunks.flatten) ↔
        SameTies tree.chunks.flatten chunks.flatten)) := by
  have perm : tree.chunks.flatten.Perm chunks.flatten := order.flatten
  have merged (request : Request) (steady : ∀ chunk ∈ chunks, request.Steady chunk) :=
    @mergesTo_of_sameTies reducer request weighs tree chunks.flatten perm
      fun chunk member => steady chunk (order.mem_iff.mp member)
  refine ⟨merged, fun plain calendar => ⟨sameTies_of_mergesTo perm plain calendar, ?_⟩⟩
  intro ties request bounds
  refine merged request (fun chunk member => ?_) (steady_of_plain bounds plain)
    (fun _ point member _ => plain point member) ties
  exact steady_of_plain bounds fun point inside =>
    plain point (List.mem_flatten.mpr ⟨chunk, member, inside⟩)

/-- A measurement on a whole second. -/
def secondPoint (second value : Int) : Point where
  timestamp := .ofSeconds second
  value := ⟨value, 0⟩

theorem leapReducer_weighs : leapReducer.Weighs where
  instantaneous := by
    intro timestamp
    have clock : leapReducer.milliseconds timestamp timestamp = leapMillis timestamp timestamp :=
      rfl
    rw [clock, leapMillis, if_neg fun leap => lt_irrefl _ leap.1,
      if_neg fun leap => lt_irrefl _ leap.1]
    simp
  divides := leapReducer_divides
  counts := leapReducer_countsPlain

/-- Two chunks, the earlier one merged into the later one. -/
def reversed (earlier later : Point) : MergeTree :=
  .merge (.chunk [later]) (.chunk [earlier])

/-- Chunks of different instants may be merged in either order. -/
theorem merge_order_apart :
    SameTies [secondPoint 1 7, secondPoint 0 5] [secondPoint 0 5, secondPoint 1 7] ∧
      ∀ request : Request, request.Plain →
        MergesTo leapReducer request (reversed (secondPoint 0 5) (secondPoint 1 7))
          [secondPoint 0 5, secondPoint 1 7] := by
  have apart : (secondPoint 0 5).timestamp ≠ (secondPoint 1 7).timestamp := by decide
  have ties : SameTies [secondPoint 1 7, secondPoint 0 5] [secondPoint 0 5, secondPoint 1 7] := by
    intro timestamp
    have same : valuesAt [secondPoint 1 7, secondPoint 0 5] timestamp =
        valuesAt [secondPoint 0 5, secondPoint 1 7] timestamp := by
      by_cases first : (secondPoint 0 5).timestamp = timestamp
      · subst first
        simp [valuesAt, within, apart.symm]
      · simp [valuesAt, within, first, List.filter_cons]
    exact ⟨congrArg List.head? same, congrArg List.getLast? same⟩
  exact ⟨ties, ((merge_order leapReducer leapReducer_weighs
    (reversed (secondPoint 0 5) (secondPoint 1 7)) [[secondPoint 0 5], [secondPoint 1 7]]
    (.swap _ _ _)).2 (by decide) (by decide)).mpr ties⟩

/-- Of two chunks of one instant, the one which is merged first has the first value. -/
theorem merge_order_tied :
    ¬∀ request : Request, request.Plain →
      MergesTo leapReducer request (reversed (secondPoint 0 1) (secondPoint 0 2))
        [secondPoint 0 1, secondPoint 0 2] := by
  intro merges
  have ties := @sameTies_of_mergesTo leapReducer
    (reversed (secondPoint 0 1) (secondPoint 0 2)) [secondPoint 0 1, secondPoint 0 2]
    (.swap _ _ _) (by decide) (by decide) merges
  have heads : some (secondPoint 0 2).value.toRat = some (secondPoint 0 1).value.toRat :=
    (ties (.ofSeconds 0)).1
  norm_num [secondPoint, BigDecimal.toRat] at heads

end WeftDb.Reduce
