import WeftDb.Reduce.Partial

/-!
# What a partial reduction holds

The accumulator of a bucket is a function of the points which fall in it, in their order, and of
nothing else.  Merging the accumulators of two parts gives that of their concatenation, so a tree
of merges gives what one pass over its chunks, from left to right, would give.
-/

namespace WeftDb.Reduce

open BucketAcc

variable {reducer : Reducer} {request : Request}
variable {points : List Point} {point : Point} {reduction : PartialReduction}

def Point.sample (point : Point) : Instant × BigDecimal :=
  (point.timestamp, point.value)

/-- The accumulator of the points of one bucket. -/
def accOf (reducer : Reducer) (request : Request) (points : List Point) :
    BucketAcc where
  count := points.length
  sum := (points.map fun point => point.value.toRat).sum
  min := leastValue.best (points.map Point.value)
  max := greatestValue.best (points.map Point.value)
  first := firstSample.best (points.map Point.sample)
  last := lastSample.best (points.map Point.sample)
  samples := if request.collecting then points.map Point.sample else []
  collect := request.collecting
  sketch :=
    if request.sketching then
      some (DdSketch.ofBins (.atMost sketchMaxBins sketchMaxBins_pos)
        (points.filterMap fun point => reducer.bin point.value.toRat))
    else none

theorem accOf_nil : accOf reducer request [] = request.newAcc := by
  have bare : DdSketch.ofBins (.atMost sketchMaxBins sketchMaxBins_pos) [] =
      DdSketch.withDefaultAccuracy := rfl
  simp only [accOf, Request.newAcc, new, mk.injEq, List.map_nil,
    List.filterMap_nil, bare]
  refine ⟨rfl, rfl, rfl, rfl, rfl, rfl, ?_, trivial, trivial⟩
  split <;> rfl

/-- Whether a value has a sketch bucket, if one is needed. -/
def Binned (reducer : Reducer) (request : Request) (point : Point) : Prop :=
  request.sketching = true → (reducer.bin point.value.toRat).isSome

theorem foldSketch_eq_ok {sketch : Option DdSketch} :
    foldSketch reducer point.value (accOf reducer request points).sketch =
        .ok sketch ↔
      Binned reducer request point ∧
        sketch = (accOf reducer request (points ++ [point])).sketch := by
  unfold Binned
  by_cases needed : request.sketching = true
  · simp only [accOf, needed, if_true, foldSketch, List.filterMap_append]
    cases binned : reducer.bin point.value.toRat with
    | none => simp
    | some bin =>
        simp only [List.filterMap_cons, binned, List.filterMap_nil,
          DdSketch.ofBins_append_singleton, Except.ok.injEq, Option.isSome_some, forall_const,
          true_and]
        exact eq_comm
  · have bare (points : List Point) : (accOf reducer request points).sketch = none :=
      if_neg needed
    rw [bare, bare, foldSketch, Except.ok.injEq]
    exact ⟨fun same => ⟨fun needs => absurd needs needed, same.symm⟩, fun same => same.2.symm⟩

theorem push_accOf_eq_ok {acc : BucketAcc} :
    (accOf reducer request points).push reducer point.timestamp point.value = .ok acc ↔
      Binned reducer request point ∧
        acc = accOf reducer request (points ++ [point]) := by
  have fields : accOf reducer request (points ++ [point]) =
      { count := points.length + 1
        sum := (points.map fun point => point.value.toRat).sum + point.value.toRat
        min := leastValue.pick (leastValue.best (points.map Point.value)) point.value
        max := greatestValue.pick (greatestValue.best (points.map Point.value)) point.value
        first := firstSample.pick (firstSample.best (points.map Point.sample)) point.sample
        last := lastSample.pick (lastSample.best (points.map Point.sample)) point.sample
        samples :=
          if request.collecting then
            (accOf reducer request points).samples ++ [point.sample]
          else (accOf reducer request points).samples
        collect := request.collecting
        sketch := (accOf reducer request (points ++ [point])).sketch } := by
    simp only [accOf, List.map_append, List.map_singleton, Preference.best_append_singleton,
      List.length_append, List.length_singleton, List.sum_append, List.sum_singleton,
      mk.injEq]
    refine ⟨trivial, trivial, trivial, trivial, trivial, trivial, ?_, trivial, trivial⟩
    split <;> rfl
  rw [push, bind_eq_ok]
  constructor
  · rintro ⟨sketch, folded, done⟩
    obtain ⟨binned, rfl⟩ := foldSketch_eq_ok.mp folded
    exact ⟨binned, (pure_eq_ok.mp done).symm.trans fields.symm⟩
  · rintro ⟨binned, rfl⟩
    exact ⟨_, foldSketch_eq_ok.mpr ⟨binned, rfl⟩, pure_eq_ok.mpr fields.symm⟩

theorem merge_accOf (left right : List Point) :
    (accOf reducer request left).merge (accOf reducer request right) =
      accOf reducer request (left ++ right) := by
  simp only [accOf, merge, List.map_append, List.filterMap_append,
    Preference.best_append, List.length_append, List.sum_append, mk.injEq]
  refine ⟨trivial, trivial, trivial, trivial, trivial, trivial, ?_, trivial, ?_⟩
  · split <;> rfl
  · cases request.sketching with
    | true => exact congrArg some (DdSketch.merge_ofBins _ _ _)
    | false => rfl

/-- Whether an instant falls in a bucket. -/
def Request.InBucket (request : Request) (base : Int) (timestamp : Instant) : Prop :=
  request.Inside timestamp ∧ bucketIndex request.resolution timestamp = .ok base

instance decidableBucketIndex (resolution : Resolution) (timestamp : Instant) (base : Int) :
    Decidable (bucketIndex resolution timestamp = .ok base) :=
  match bucketIndex resolution timestamp with
  | .ok other => decidable_of_iff (other = base) (by rw [Except.ok.injEq])
  | .error _ => .isFalse fun same => by cases same

instance (request : Request) (base : Int) (timestamp : Instant) :
    Decidable (request.InBucket base timestamp) :=
  inferInstanceAs (Decidable (_ ∧ _))

/-- The points of a bucket, in their order. -/
def members (request : Request) (points : List Point) (base : Int) : List Point :=
  points.filter fun point => decide (request.InBucket base point.timestamp)

/-- The accumulator of a bucket, unless it is empty. -/
def bucketOf (reducer : Reducer) (request : Request) (points : List Point) (base : Int) :
    Option BucketAcc :=
  if members request points base = [] then none
  else some (accOf reducer request (members request points base))

/-- A point which can be reduced: within the bounds it has a bucket, and a sketch bucket if that is
needed. -/
def Reducible (reducer : Reducer) (request : Request) (point : Point) : Prop :=
  request.Inside point.timestamp →
    (∃ base, bucketIndex request.resolution point.timestamp = .ok base) ∧
      Binned reducer request point

theorem bucketOf_getD (points : List Point) (base : Int) :
    (bucketOf reducer request points base).getD request.newAcc =
      accOf reducer request (members request points base) := by
  unfold bucketOf
  split
  · rename_i none
    rw [none]
    exact accOf_nil.symm
  · rfl

theorem members_append (left right : List Point) (base : Int) :
    members request (left ++ right) base =
      members request left base ++ members request right base :=
  List.filter_append _ _

theorem members_singleton {base : Int} (falls : request.InBucket base point.timestamp) :
    members request [point] base = [point] := by
  simp [members, falls]

theorem members_singleton_of_not {base : Int} (misses : ¬request.InBucket base point.timestamp) :
    members request [point] base = [] := by
  simp [members, misses]

/-- A reduction which has the accumulators of the buckets of these points. -/
def PartialReduction.Of (reducer : Reducer) (request : Request) (points : List Point)
    (reduction : PartialReduction) : Prop :=
  ∀ base, reduction.find? base = bucketOf reducer request points base

theorem foldPoint_eq_ok {before : PartialReduction} (holds : before.Of reducer request points) :
    (∀ {after}, foldPoint reducer request before point = .ok after →
      Reducible reducer request point ∧ after.Of reducer request (points ++ [point])) ∧
    (Reducible reducer request point →
      ∃ after, foldPoint reducer request before point = .ok after) := by
  unfold foldPoint
  by_cases inside : request.Inside point.timestamp
  · rw [if_pos inside]
    simp only [bind_eq_ok, pure_eq_ok]
    constructor
    · rintro after ⟨base, index, acc, pushed, rfl⟩
      rw [holds base, bucketOf_getD, push_accOf_eq_ok] at pushed
      obtain ⟨binned, rfl⟩ := pushed
      refine ⟨fun _ => ⟨⟨base, index⟩, binned⟩, fun other => ?_⟩
      rw [SortedMap.find?_insert]
      by_cases same : base = other
      · subst same
        rw [if_pos rfl, bucketOf, members_append, members_singleton ⟨inside, index⟩,
          if_neg (List.append_ne_nil_of_right_ne_nil _ (List.cons_ne_nil _ _))]
      · have misses : ¬request.InBucket other point.timestamp := by
          rintro ⟨_, falls⟩
          rw [index] at falls
          exact same (Except.ok.inj falls)
        rw [if_neg same, holds, bucketOf, bucketOf, members_append,
          members_singleton_of_not misses, List.append_nil]
    · intro reducible
      obtain ⟨⟨base, index⟩, binned⟩ := reducible inside
      have pushed : ((before.find? base).getD request.newAcc).push reducer point.timestamp
          point.value = .ok (accOf reducer request (members request points base ++ [point])) := by
        rw [holds base, bucketOf_getD]
        exact push_accOf_eq_ok.mpr ⟨binned, rfl⟩
      exact ⟨_, base, index, _, pushed, rfl⟩
  · rw [if_neg inside]
    constructor
    · intro after done
      cases pure_eq_ok.mp done
      refine ⟨fun within => absurd within inside, fun base => ?_⟩
      have misses : ¬request.InBucket base point.timestamp := fun falls => inside falls.1
      rw [holds, bucketOf, bucketOf, members_append, members_singleton_of_not misses,
        List.append_nil]
    · exact fun _ => ⟨before, rfl⟩

theorem reducePartialDecimal_spec (points : List Point) :
    (∀ {reduction}, reducePartialDecimal reducer request points = .ok reduction →
      (∀ point ∈ points, Reducible reducer request point) ∧
        reduction.Of reducer request points) ∧
    ((∀ point ∈ points, Reducible reducer request point) →
      ∃ reduction, reducePartialDecimal reducer request points = .ok reduction) := by
  induction points using List.reverseRecOn with
  | nil =>
      constructor
      · intro reduction done
        cases done
        exact ⟨fun _ member => absurd member List.not_mem_nil, fun _ => rfl⟩
      · exact fun _ => ⟨_, rfl⟩
  | append_singleton points last ih =>
      unfold reducePartialDecimal at ih ⊢
      simp only [List.foldlM_append, List.foldlM_cons, List.foldlM_nil, bind_pure, bind_eq_ok]
      constructor
      · rintro reduction ⟨before, earlier, folded⟩
        obtain ⟨reducible, holds⟩ := ih.1 earlier
        obtain ⟨last_reducible, after⟩ := (foldPoint_eq_ok holds).1 folded
        refine ⟨fun point member => ?_, after⟩
        rcases List.mem_append.mp member with member | member
        · exact reducible point member
        · exact List.mem_singleton.mp member ▸ last_reducible
      · intro reducible
        obtain ⟨before, earlier⟩ :=
          ih.2 fun point member => reducible point (List.mem_append_left _ member)
        obtain ⟨after, folded⟩ := (foldPoint_eq_ok (ih.1 earlier).2).2
          (reducible last (List.mem_append_right _ (List.mem_singleton_self _)))
        exact ⟨after, before, earlier, folded⟩

theorem reducePartialDecimal_eq_ok :
    reducePartialDecimal reducer request points = .ok reduction ↔
      (∀ point ∈ points, Reducible reducer request point) ∧
        reduction.Of reducer request points := by
  have spec := @reducePartialDecimal_spec reducer request points
  constructor
  · exact spec.1
  · rintro ⟨reducible, holds⟩
    obtain ⟨other, done⟩ := spec.2 reducible
    have same : other = reduction := SortedMap.ext_find? fun base => by
      rw [(spec.1 done).2 base, holds base]
    exact same ▸ done

theorem PartialReduction.Of.merge {left right : List Point} {mine theirs : PartialReduction}
    (holds : mine.Of reducer request left) (other_holds : theirs.Of reducer request right) :
    (mine.merge theirs).Of reducer request (left ++ right) := by
  intro base
  have theirs_base : SortedMap.lookup base theirs.entries = bucketOf reducer request right base :=
    other_holds base
  rw [PartialReduction.merge, SortedMap.find?_mergeWith _ _ theirs.sorted, holds base, theirs_base]
  unfold bucketOf
  rw [members_append]
  by_cases none_left : members request left base = []
  · rw [if_pos none_left, none_left, List.nil_append]
    rfl
  · rw [if_neg none_left, if_neg (List.append_ne_nil_of_left_ne_nil none_left _)]
    by_cases none_right : members request right base = []
    · rw [if_pos none_right, none_right, List.append_nil]
      rfl
    · rw [if_neg none_right]
      exact congrArg some (merge_accOf _ _)

/-- The order in which the partial reductions of chunks are merged. -/
inductive MergeTree
  | chunk (points : List Point)
  | merge (left right : MergeTree)

namespace MergeTree

/-- The chunks, in the order of their merges. -/
def chunks : MergeTree → List (List Point)
  | chunk points => [points]
  | merge left right => left.chunks ++ right.chunks

/-- Reduce every chunk and merge. -/
def eval (reduce : List Point → Except ReduceError PartialReduction) :
    MergeTree → Except ReduceError PartialReduction
  | chunk points => reduce points
  | merge left right => do
      let mine ← left.eval reduce
      let theirs ← right.eval reduce
      pure (mine.merge theirs)

theorem eval_eq_ok {tree : MergeTree} :
    tree.eval (reducePartialDecimal reducer request) = .ok reduction ↔
      reducePartialDecimal reducer request tree.chunks.flatten = .ok reduction := by
  induction tree generalizing reduction with
  | chunk points => simp [eval, chunks]
  | merge left right left_ih right_ih =>
      simp only [eval, chunks, bind_eq_ok, pure_eq_ok, List.flatten_append, left_ih, right_ih]
      rw [reducePartialDecimal_eq_ok]
      simp only [List.forall_mem_append]
      constructor
      · rintro ⟨mine, left_done, theirs, right_done, rfl⟩
        obtain ⟨left_reducible, left_holds⟩ := reducePartialDecimal_eq_ok.mp left_done
        obtain ⟨right_reducible, right_holds⟩ := reducePartialDecimal_eq_ok.mp right_done
        exact ⟨⟨left_reducible, right_reducible⟩, left_holds.merge right_holds⟩
      · rintro ⟨⟨left_reducible, right_reducible⟩, holds⟩
        obtain ⟨mine, left_done⟩ := (reducePartialDecimal_spec _).2 left_reducible
        obtain ⟨theirs, right_done⟩ := (reducePartialDecimal_spec _).2 right_reducible
        have merged := (reducePartialDecimal_eq_ok.mp left_done).2.merge
          (reducePartialDecimal_eq_ok.mp right_done).2
        exact ⟨mine, left_done, theirs, right_done, SortedMap.ext_find? fun base => by
          rw [merged base, holds base]⟩

end MergeTree

end WeftDb.Reduce
