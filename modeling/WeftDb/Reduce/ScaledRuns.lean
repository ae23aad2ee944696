import WeftDb.Foundation.KeyedRuns
import WeftDb.Reduce.Exact
import WeftDb.Reduce.ScaledGrid

/-!
# The runs of the integer path

Each run holds the integers of its samples and the positions of the ones it singles out, and each
bucket the runs of its key.  Brought back to decimals this is the accumulator of the samples of the
bucket, with the first and the last one taken by their nanoseconds.
-/

namespace WeftDb.Reduce

open KeyedRuns

variable {reducer : Reducer} {request : Request} {common : Nat}

/-- A point with its position in the series. -/
abbrev Item := Point × Nat

/-- The samples with the mantissas which are compared, by their positions. -/
def byMantissa (common : Nat) (items : List Item) : List (Int × Nat) :=
  items.map fun item => (mantissaAt common item.1.value, item.2)

/-- The samples with the nanoseconds which are compared, by their positions. -/
def byNanos (items : List Item) : List (Int × Nat) :=
  items.map fun item => (item.1.timestamp.timestampNanos, item.2)

variable {items : List Item}

namespace PointAcc

/-- The state of the samples of a run. -/
structure Holds (common : Nat) (acc : PointAcc) (items : List Item) : Prop where
  count : acc.count = items.length
  sum : acc.sum = (items.map fun item => mantissaAt common item.1.value).sum
  scale : ∀ item ∈ items, item.1.value.scale.toNat ≤ acc.maxScale
  scale_le : (∀ item ∈ items, item.1.value.scale.toNat ≤ common) → acc.maxScale ≤ common
  min : some acc.min = (Preference.least Prod.fst).best (byMantissa common items)
  max : some acc.max = (Preference.greatest Prod.fst).best (byMantissa common items)
  first : some acc.first = (Preference.least Prod.fst).best (byNanos items)
  last : some acc.last = (Preference.latest Prod.fst).best (byNanos items)

theorem new_holds (item : Item) : (new (liftOf common item)).Holds common [item] where
  count := rfl
  sum := (List.sum_singleton).symm
  scale := fun other member => by rw [List.mem_singleton.mp member]; exact le_rfl
  scale_le := fun below => below item List.mem_cons_self
  min := rfl
  max := rfl
  first := rfl
  last := rfl

variable {acc : PointAcc}

theorem Holds.merge {other : PointAcc} {left right : List Item} (mine : acc.Holds common left)
    (theirs : other.Holds common right) : (acc.merge other).Holds common (left ++ right) := by
  have greater : (acc.merge other).maxScale = Max.max acc.maxScale other.maxScale := by
    simp only [PointAcc.merge]
    split
    · exact (max_eq_right_of_lt ‹_›).symm
    · exact (max_eq_left (not_lt.mp ‹_›)).symm
  refine ⟨?_, ?_, ?_, ?_, ?_, ?_, ?_, ?_⟩
  · rw [PointAcc.merge, mine.count, theirs.count, List.length_append]
  · rw [PointAcc.merge, mine.sum, theirs.sum, List.map_append, List.sum_append]
  · rw [greater]
    intro item member
    rcases List.mem_append.mp member with member | member
    · exact (mine.scale item member).trans (le_max_left _ _)
    · exact (theirs.scale item member).trans (le_max_right _ _)
  · rw [greater]
    intro below
    obtain ⟨left_below, right_below⟩ := List.forall_mem_append.mp below
    exact max_le (mine.scale_le left_below) (theirs.scale_le right_below)
  · rw [byMantissa, List.map_append, Preference.best_append, ← byMantissa, ← byMantissa,
      ← mine.min, ← theirs.min]
    exact apply_ite some _ _ _
  · rw [byMantissa, List.map_append, Preference.best_append, ← byMantissa, ← byMantissa,
      ← mine.max, ← theirs.max]
    exact apply_ite some _ _ _
  · rw [byNanos, List.map_append, Preference.best_append, ← byNanos, ← byNanos,
      ← mine.first, ← theirs.first]
    exact apply_ite some _ _ _
  · rw [byNanos, List.map_append, Preference.best_append, ← byNanos, ← byNanos,
      ← mine.last, ← theirs.last]
    exact apply_ite some _ _ _

theorem Holds.push (held : acc.Holds common items) (item : Item) :
    (acc.push (liftOf common item)).Holds common (items ++ [item]) :=
  held.merge (new_holds item)

end PointAcc

/-- The bucket of a sample by its nanoseconds. -/
def Request.baseOfItem (request : Request) (item : Item) : Int :=
  baseOf request.resolution item.1.timestamp.timestampNanos

namespace Runs

/-- The closed runs and the open bucket hold the samples, in their order. -/
structure Of (request : Request) (common : Nat) (runs : Runs) (items : List Item) : Prop where
  cut : ∃ (done : List (List Item)) (pending : List Item), items = done.flatten ++ pending ∧
    List.Forall₂ (RunOf (PointAcc.Holds common) request.baseOfItem) runs.closed done ∧
    match runs.current with
    | none => pending = []
    | some bucket =>
        RunOf (PointAcc.Holds common) request.baseOfItem (bucket.key, bucket.acc) pending ∧
          bucket.span = baseRange request.resolution bucket.key
  sorted : runs.ordered = true → runs.closed.Pairwise fun left right => left.1 < right.1

theorem of_empty : Of request common .empty [] where
  cut := ⟨[], [], rfl, .nil, rfl⟩
  sorted _ := .nil

theorem sorted_append_singleton {closed : List (Int × PointAcc)} {entry : Int × PointAcc}
    (sorted : closed.Pairwise fun left right => left.1 < right.1)
    (above : closed.getLast?.all (fun last => last.1 < entry.1) = true) :
    (closed ++ [entry]).Pairwise fun left right => left.1 < right.1 := by
  refine List.pairwise_append.mpr ⟨sorted, List.pairwise_singleton _ _, fun left left_mem right
    right_mem => ?_⟩
  rw [List.mem_singleton.mp right_mem]
  cases closed using List.reverseRecOn with
  | nil => exact absurd left_mem List.not_mem_nil
  | append_singleton closed last =>
      rw [List.getLast?_append, List.getLast?_singleton] at above
      have last_below : last.1 < entry.1 := of_decide_eq_true above
      rcases List.mem_append.mp left_mem with earlier | same
      · exact ((List.pairwise_append.mp sorted).2.2 left earlier last
          (List.mem_singleton_self _)).trans last_below
      · exact List.mem_singleton.mp same ▸ last_below

variable {runs : Runs}

section

variable (holds : runs.Of request common items)

include holds

theorem Of.close : runs.close.Of request common items ∧ runs.close.current = none := by
  obtain ⟨done, pending, whole, accumulated, rest⟩ := holds.cut
  unfold Runs.close
  cases open_bucket : runs.current with
  | none => exact ⟨holds, open_bucket⟩
  | some bucket =>
      rw [open_bucket] at rest
      refine ⟨⟨⟨done ++ [pending], [], ?_, ?_, rfl⟩, fun ordered => ?_⟩, rfl⟩
      · rw [whole, List.flatten_append, List.flatten_singleton, List.append_nil]
      · exact List.rel_append accumulated (.cons rest.1 .nil)
      · obtain ⟨earlier, above⟩ := Bool.and_eq_true_iff.mp ordered
        exact sorted_append_singleton (holds.sorted earlier) above

theorem Of.opened (closed : runs.current = none) (item : Item) :
    (runs.opened request.resolution (liftOf common item)).Of request common (items ++ [item]) := by
  obtain ⟨done, pending, whole, accumulated, rest⟩ := holds.cut
  rw [closed] at rest
  subst rest
  refine ⟨⟨done, [item], ?_, accumulated, ⟨?_, rfl⟩⟩, holds.sorted⟩
  · rw [whole, List.append_nil]
  · exact
      { nonempty := List.cons_ne_nil _ _
        held := PointAcc.new_holds item
        keyed := fun other member => by rw [List.mem_singleton.mp member]; rfl }

theorem Of.pushed {bucket : OpenBucket} (open_bucket : runs.current = some bucket) {item : Item}
    (falls : request.baseOfItem item = bucket.key) :
    Of request common
      { runs with current := some { bucket with acc := bucket.acc.push (liftOf common item) } }
      (items ++ [item]) := by
  obtain ⟨done, pending, whole, accumulated, rest⟩ := holds.cut
  rw [open_bucket] at rest
  refine ⟨⟨done, pending ++ [item], ?_, accumulated, ⟨?_, rest.2⟩⟩, holds.sorted⟩
  · rw [whole, List.append_assoc]
  · exact
      { nonempty := List.append_ne_nil_of_right_ne_nil _ (List.cons_ne_nil _ _)
        held := rest.1.held.push item
        keyed := List.forall_mem_append.mpr
          ⟨rest.1.keyed, fun other member => List.mem_singleton.mp member ▸ falls⟩ }

theorem Of.add (item : Item) :
    (runs.add request.resolution (liftOf common item)).Of request common (items ++ [item]) := by
  unfold Runs.add
  cases open_bucket : runs.current with
  | none => exact holds.opened open_bucket item
  | some bucket =>
      have span : bucket.span = baseRange request.resolution bucket.key := by
        obtain ⟨_, _, _, _, rest⟩ := holds.cut
        rw [open_bucket] at rest
        exact rest.2
      by_cases covered : Covers bucket.span (liftOf common item).nanos
      · simp only [covered, if_true]
        exact holds.pushed open_bucket (baseOf_of_covers (span ▸ covered))
      · simp only [covered, if_false]
        split
        · rename_i same
          exact holds.pushed open_bucket same.symm
        · exact holds.close.1.opened holds.close.2 item

end

theorem of_foldl (items : List Item) :
    ((items.map (liftOf common)).foldl (Runs.add request.resolution) .empty).Of request common
      items := by
  induction items using List.reverseRecOn with
  | nil => exact of_empty
  | append_singleton items item ih =>
      rw [List.map_append, List.map_singleton, List.foldl_append]
      exact ih.add item

theorem Of.inKeyOrder (holds : runs.Of request common items) (closed : runs.current = none) :
    runs.inKeyOrder.Pairwise (fun left right => left.1 < right.1) ∧
      ∀ base, Represents (PointAcc.Holds common) (SortedMap.lookup base runs.inKeyOrder)
        (under request.baseOfItem items base) := by
  obtain ⟨done, pending, whole, accumulated, rest⟩ := holds.cut
  rw [closed] at rest
  subst rest
  have same : runs.inKeyOrder =
      (SortedMap.mergeWith PointAcc.merge .empty runs.closed).entries := by
    unfold Runs.inKeyOrder
    split
    · rename_i ordered
      rw [mergeWith_sorted _ (holds.sorted ordered)]
    · rfl
  rw [same]
  refine ⟨SortedMap.sorted _, fun base => ?_⟩
  have merges {left right : PointAcc} {mine theirs : List Item}
      (_ : ∀ earlier ∈ mine, ∀ later ∈ theirs, True)
      (left_holds : left.Holds common mine) (right_holds : right.Holds common theirs) :
      (left.merge right).Holds common (mine ++ theirs) := left_holds.merge right_holds
  have apart : ([] :: done).Pairwise fun mine theirs : List Item =>
      ∀ earlier ∈ mine, ∀ later ∈ theirs, True :=
    List.pairwise_of_forall fun _ _ _ _ _ _ => trivial
  have start (target : Int) : Represents (PointAcc.Holds common)
      ((.empty : SortedMap Int PointAcc).find? target) (under request.baseOfItem [] target) := rfl
  rw [whole, List.append_nil, ← List.nil_append done.flatten]
  exact represents_mergeWith merges accumulated apart start base

end Runs

end WeftDb.Reduce
