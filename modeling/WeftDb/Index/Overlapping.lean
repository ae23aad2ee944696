import Mathlib.Data.List.Perm.Subperm
import Mathlib.Data.Prod.Lex
import WeftDb.Foundation.KeyedRuns
import WeftDb.Foundation.SpanSweep
import WeftDb.Foundation.StableOrder
import WeftDb.Index.IndexDb

/-!
# Overlap components

The rows of each series of an aspect are swept into components.  Two rows of a series are in one
component exactly when a chain of overlapping rows joins them, and the count of overlapping
segments, which is taken elsewhere by another sweep, is positive exactly when a component has two
rows.
-/

namespace WeftDb

open StableOrder SpanSweep Option

/-- The start of a time range. -/
def SegmentDescriptor.low (descriptor : SegmentDescriptor) : Int :=
  (descriptor.timeRange.map Prod.fst).getD 0

/-- The end of a time range. -/
def SegmentDescriptor.high (descriptor : SegmentDescriptor) : Int :=
  (descriptor.timeRange.map Prod.snd).getD 0

namespace SegmentIndex

/-- The segments which overlap another one in time, in the order of the index. -/
def overlappingSegments (index : SegmentIndex) : List SegmentDescriptor :=
  let spans := index.descriptors.zipIdx.filter fun item => item.1.timeRange.isSome
  if spans.length < 2 then []
  else
    let spans := StableOrder.sortBy (fun item => toLex (item.1.low, item.1.high)) spans
    let flagged := (SpanSweep.predecessorFlags (·.1.low) (·.1.high) spans).zipWith (· || ·)
      (SpanSweep.successorFlags (·.1.low) (·.1.high) spans)
    let positions := ((spans.zip flagged).filter Prod.snd).map Prod.fst
    (StableOrder.sortBy Prod.snd positions).map Prod.fst

def overlappingCount (index : SegmentIndex) : Nat :=
  index.overlappingSegments.length

end SegmentIndex

/-- The rows of each series, in the order of the series. -/
def bySeries (rows : List IndexRow) : List (List IndexRow) :=
  (SortedMap.grouped IndexRow.seriesId id rows).entries.map Prod.snd

/-- The overlapping segments of each series, added up. -/
def seriesOverlappingCount (rows : List IndexRow) : Nat :=
  ((SortedMap.grouped IndexRow.seriesId IndexRow.desc rows).entries.map fun entry =>
    SegmentIndex.overlappingCount ⟨entry.2⟩).sum

/-- The rows with a time range, by its ends. -/
def spannedRows (rows : List IndexRow) : List IndexRow :=
  StableOrder.sortBy (fun row => toLex (row.desc.low, row.desc.high))
    (rows.filter fun row => row.desc.timeRange.isSome)

/-- The overlap components of the rows of one series. -/
def seriesOverlapComponents (rows : List IndexRow) : List (List IndexRow) :=
  SpanSweep.sweep (·.desc.low) (·.desc.high) (spannedRows rows)

/-- The overlap components of each series. -/
def overlapComponents (rows : List IndexRow) : List (List IndexRow) :=
  (bySeries rows).flatMap seriesOverlapComponents

namespace SegmentDescriptor

/-- Whether the ends of a span, if there is one, are in order. -/
def Ranged (descriptor : SegmentDescriptor) : Prop :=
  ∀ range ∈ descriptor.timeRange, range.1 ≤ range.2

/-- Whether a segment may hold an instant of a range. -/
def Overlaps (descriptor : SegmentDescriptor) (start stop : Int) : Prop :=
  ∃ range ∈ descriptor.timeRange, range.1 ≤ stop ∧ start ≤ range.2

/-- Whether the spans of two segments share an instant. -/
def Intersects (left right : SegmentDescriptor) : Prop :=
  ∃ range ∈ left.timeRange, right.Overlaps range.1 range.2

end SegmentDescriptor

/-- Whether two rows of one series overlap. -/
def Overlapping (left right : IndexRow) : Prop :=
  left.seriesId = right.seriesId ∧ left.desc.Intersects right.desc

/-- Whether a chain of rows, each overlapping the next, joins two rows. -/
def Chained (rows : List IndexRow) : IndexRow → IndexRow → Prop :=
  Relation.ReflTransGen fun left right => left ∈ rows ∧ right ∈ rows ∧ Overlapping left right

theorem range_eq {descriptor : SegmentDescriptor} (spanned : descriptor.timeRange.isSome = true) :
    descriptor.timeRange = some (descriptor.low, descriptor.high) := by
  obtain ⟨range, found⟩ := isSome_iff_exists.mp spanned
  rw [SegmentDescriptor.low, SegmentDescriptor.high, found]
  rfl

theorem SegmentDescriptor.intersects_iff {left right : SegmentDescriptor} :
    left.Intersects right ↔ left.timeRange.isSome = true ∧ right.timeRange.isSome = true ∧
      SpanSweep.Meets low high left right := by
  constructor
  · rintro ⟨range, found, other, found', meets⟩
    have spanned := isSome_of_mem found
    have spanned' := isSome_of_mem found'
    rw [range_eq spanned, mem_some_iff] at found
    rw [range_eq spanned', mem_some_iff] at found'
    subst found
    subst found'
    exact ⟨spanned, spanned', meets.2, meets.1⟩
  · rintro ⟨spanned, spanned', below, above⟩
    exact ⟨_, range_eq spanned, _, range_eq spanned', above, below⟩

instance : DecidableRel SegmentDescriptor.Intersects :=
  fun _ _ => decidable_of_iff _ SegmentDescriptor.intersects_iff.symm

variable {left right row : IndexRow} {component rows : List IndexRow} {span : Int × Int}

theorem overlapping_iff (spanned_left : left.desc.timeRange.isSome = true)
    (spanned_right : right.desc.timeRange.isSome = true) :
    Overlapping left right ↔ left.seriesId = right.seriesId ∧
      SpanSweep.Meets (·.desc.low) (·.desc.high) left right := by
  rw [Overlapping, SegmentDescriptor.intersects_iff, and_iff_right spanned_left,
    and_iff_right spanned_right]
  rfl

theorem Overlapping.spanned (overlapping : Overlapping left right) :
    left.desc.timeRange.isSome = true ∧ right.desc.timeRange.isSome = true := by
  obtain ⟨spanned_left, spanned_right, -⟩ := SegmentDescriptor.intersects_iff.mp overlapping.2
  exact ⟨spanned_left, spanned_right⟩

/-- The span of a component. -/
def componentSpan (component : List IndexRow) : Option (Int × Int) :=
  (component.map (·.desc.low)).min?.bind fun low =>
    (component.map (·.desc.high)).max?.map fun high => (low, high)

theorem componentSpan_eq (spanned : componentSpan component = some span) :
    ∃ first ∈ component, ∃ last ∈ component, span = (first.desc.low, last.desc.high) := by
  obtain ⟨low, least, rest⟩ := bind_eq_some_iff.mp spanned
  obtain ⟨high, greatest, rfl⟩ := map_eq_some_iff.mp rest
  obtain ⟨first, first_mem, rfl⟩ := List.mem_map.mp (List.min?_mem least)
  obtain ⟨last, last_mem, rfl⟩ := List.mem_map.mp (List.max?_mem greatest)
  exact ⟨first, first_mem, last, last_mem, rfl⟩

theorem mem_spannedRows :
    row ∈ spannedRows rows ↔ row ∈ rows ∧ row.desc.timeRange.isSome = true := by
  rw [spannedRows, (sortBy_perm _ _).mem_iff, List.mem_filter]

theorem sorted_spannedRows (rows : List IndexRow) :
    (spannedRows rows).Pairwise fun left right => left.desc.low ≤ right.desc.low :=
  (sorted_sortBy _ _).imp fun below => by
    rcases Prod.Lex.toLex_le_toLex.mp below with before | ⟨same, -⟩
    · exact before.le
    · exact same.le

theorem ordered_spannedRows (ranged : ∀ row ∈ rows, row.desc.Ranged) :
    ∀ row ∈ spannedRows rows, row.desc.low ≤ row.desc.high := by
  intro row member
  obtain ⟨held, spanned⟩ := mem_spannedRows.mp member
  exact ranged row held _ (range_eq spanned)

theorem mem_bySeries {run : List IndexRow} :
    run ∈ bySeries rows ↔ ∃ series, run = KeyedRuns.under IndexRow.seriesId rows series ∧
      run ≠ [] := by
  rw [bySeries, List.mem_map]
  constructor
  · rintro ⟨entry, member, rfl⟩
    obtain ⟨filled, same⟩ := SortedMap.mem_grouped.mp member
    rw [List.map_id] at same
    exact ⟨entry.1, same, same ▸ filled⟩
  · rintro ⟨series, rfl, filled⟩
    exact ⟨(series, _), SortedMap.mem_grouped.mpr ⟨filled, (List.map_id _).symm⟩, rfl⟩

theorem mem_under {series : Nat} :
    row ∈ KeyedRuns.under IndexRow.seriesId rows series ↔ row ∈ rows ∧ row.seriesId = series := by
  rw [KeyedRuns.under, List.mem_filter, decide_eq_true_eq]

theorem mem_overlapComponents :
    component ∈ overlapComponents rows ↔ ∃ series,
      component ∈ seriesOverlapComponents (KeyedRuns.under IndexRow.seriesId rows series) := by
  rw [overlapComponents, List.mem_flatMap]
  constructor
  · rintro ⟨run, member, held⟩
    obtain ⟨series, rfl, -⟩ := mem_bySeries.mp member
    exact ⟨series, held⟩
  · rintro ⟨series, held⟩
    refine ⟨_, mem_bySeries.mpr ⟨series, rfl, fun empty => ?_⟩, held⟩
    rw [empty, seriesOverlapComponents, spannedRows, List.filter_nil, sortBy,
      List.mergeSort_nil] at held
    cases held

theorem mem_of_mem_component (member : component ∈ seriesOverlapComponents rows)
    (held : row ∈ component) : row ∈ spannedRows rows := by
  rw [← flatten_sweep (fun row : IndexRow => row.desc.low) (fun row => row.desc.high)
    (spannedRows rows)]
  exact List.mem_flatten_of_mem member held

theorem flatten_overlapComponents (rows : List IndexRow) :
    (overlapComponents rows).flatten.Perm
      (rows.filter fun row => row.desc.timeRange.isSome) := by
  have runs := SortedMap.flatten_grouped IndexRow.seriesId id rows
  rw [List.map_id] at runs
  refine List.Perm.trans ?_ (runs.filter fun row => row.desc.timeRange.isSome)
  rw [overlapComponents, bySeries]
  induction (SortedMap.grouped IndexRow.seriesId id rows).entries.map Prod.snd with
  | nil => exact .refl _
  | cons run runs ih =>
      rw [List.flatMap_cons, List.flatten_append, List.flatten_cons, List.filter_append]
      refine List.Perm.append ?_ ih
      rw [seriesOverlapComponents, flatten_sweep]
      exact sortBy_perm _ _

theorem joined_iff_chained :
    SpanSweep.Joined (·.desc.low) (·.desc.high)
        (spannedRows (KeyedRuns.under IndexRow.seriesId rows left.seriesId)) left right ↔
      Chained rows left right := by
  constructor
  · intro joined
    induction joined with
    | refl => exact .refl
    | tail _ step ih =>
        obtain ⟨first, second, meets⟩ := step
        obtain ⟨first_held, first_spanned⟩ := mem_spannedRows.mp first
        obtain ⟨second_held, second_spanned⟩ := mem_spannedRows.mp second
        obtain ⟨first_mem, first_series⟩ := mem_under.mp first_held
        obtain ⟨second_mem, second_series⟩ := mem_under.mp second_held
        exact ih.tail ⟨first_mem, second_mem, (overlapping_iff first_spanned second_spanned).mpr
          ⟨first_series.trans second_series.symm, meets⟩⟩
  · intro chained
    -- Each row of the chain is one of the series of the first.
    suffices both : right.seriesId = left.seriesId ∧ SpanSweep.Joined (·.desc.low) (·.desc.high)
        (spannedRows (KeyedRuns.under IndexRow.seriesId rows left.seriesId)) left right from
      both.2
    induction chained with
    | refl => exact ⟨rfl, .refl⟩
    | tail _ step ih =>
        obtain ⟨first, second, overlapping⟩ := step
        obtain ⟨first_spanned, second_spanned⟩ := overlapping.spanned
        obtain ⟨same, meets⟩ := (overlapping_iff first_spanned second_spanned).mp overlapping
        have series := same.symm.trans ih.1
        exact ⟨series, ih.2.tail
          ⟨mem_spannedRows.mpr ⟨mem_under.mpr ⟨first, ih.1⟩, first_spanned⟩,
            mem_spannedRows.mpr ⟨mem_under.mpr ⟨second, series⟩, second_spanned⟩, meets⟩⟩

theorem mem_component_iff (held : row ∈ component) :
    component ∈ overlapComponents rows ↔
      component ∈ seriesOverlapComponents
        (KeyedRuns.under IndexRow.seriesId rows row.seriesId) := by
  constructor
  · intro member
    obtain ⟨series, inside⟩ := mem_overlapComponents.mp member
    obtain ⟨-, same⟩ := mem_under.mp (mem_spannedRows.mp (mem_of_mem_component inside held)).1
    exact same ▸ inside
  · exact fun inside => mem_overlapComponents.mpr ⟨_, inside⟩

theorem series_of_component (member : component ∈ overlapComponents rows)
    (left_mem : left ∈ component) (right_mem : right ∈ component) :
    left.seriesId = right.seriesId := by
  have inside := (mem_component_iff left_mem).mp member
  exact (mem_under.mp (mem_spannedRows.mp (mem_of_mem_component inside right_mem)).1).2.symm

section Rows

variable {rows : List IndexRow} (ranged : ∀ row ∈ rows, row.desc.Ranged)

include ranged

theorem ranged_under (series : Nat) :
    ∀ row ∈ KeyedRuns.under IndexRow.seriesId rows series, row.desc.Ranged :=
  fun row member => ranged row (mem_under.mp member).1

theorem exists_component_iff (left_mem : left ∈ rows)
    (spanned : left.desc.timeRange.isSome = true) :
    (∃ component ∈ overlapComponents rows, left ∈ component ∧ right ∈ component) ↔
      Chained rows left right := by
  have own : left ∈ spannedRows (KeyedRuns.under IndexRow.seriesId rows left.seriesId) :=
    mem_spannedRows.mpr ⟨mem_under.mpr ⟨left_mem, rfl⟩, spanned⟩
  rw [← joined_iff_chained, ← exists_group_iff
    (ordered_spannedRows (ranged_under ranged left.seriesId)) (sorted_spannedRows _) own]
  constructor
  · rintro ⟨component, member, left_held, right_held⟩
    exact ⟨component, (mem_component_iff left_held).mp member, left_held, right_held⟩
  · rintro ⟨component, member, left_held, right_held⟩
    exact ⟨component, (mem_component_iff left_held).mpr member, left_held, right_held⟩

theorem components_apart {other : List IndexRow}
    (component_mem : component ∈ overlapComponents rows)
    (other_mem : other ∈ overlapComponents rows) (apart : component ≠ other)
    (left_mem : left ∈ component) (right_mem : right ∈ other)
    (series : left.seriesId = right.seriesId) :
    SpanSweep.Before (·.desc.low) (·.desc.high) component other ∨
      SpanSweep.Before (·.desc.low) (·.desc.high) other component := by
  have first := (mem_component_iff left_mem).mp component_mem
  have second := (mem_component_iff right_mem).mp other_mem
  rw [← series] at second
  exact before_or_after (ordered_spannedRows (ranged_under ranged left.seriesId))
    (sorted_spannedRows _) first second apart

theorem ne_nil_of_mem_overlapComponents (member : component ∈ overlapComponents rows) :
    component ≠ [] := by
  obtain ⟨series, inside⟩ := mem_overlapComponents.mp member
  obtain ⟨reach, grouped⟩ := (sweep_spec
    (ordered_spannedRows (ranged_under ranged series)) (sorted_spannedRows _)).1 component inside
  exact grouped.ne_nil

theorem not_overlaps_component (member : component ∈ overlapComponents rows)
    (spanned : componentSpan component = some span) {held : IndexRow} (row_mem : row ∈ rows)
    (held_mem : held ∈ component) (series : held.seriesId = row.seriesId)
    (outside : row ∉ component) : ¬row.desc.Overlaps span.1 span.2 := by
  obtain ⟨first, first_mem, last, last_mem, rfl⟩ := componentSpan_eq spanned
  rintro ⟨range, found, below, above⟩
  have row_spanned := isSome_of_mem found
  rw [range_eq row_spanned, mem_some_iff] at found
  subst found
  have own : row ∈ spannedRows (KeyedRuns.under IndexRow.seriesId rows row.seriesId) :=
    mem_spannedRows.mpr ⟨mem_under.mpr ⟨row_mem, rfl⟩, row_spanned⟩
  obtain ⟨other, swept, inside⟩ := exists_mem_sweep
    (fun row : IndexRow => row.desc.low) (fun row => row.desc.high) own
  have apart : component ≠ other := by
    rintro rfl
    exact outside inside
  rcases components_apart ranged member ((mem_component_iff inside).mpr swept) apart held_mem inside
    series with before | after
  · exact absurd (before last last_mem row inside) (not_lt.mpr below)
  · exact absurd (after row inside first first_mem) (not_lt.mpr above)

end Rows

theorem spans_eq (rows : List IndexRow) :
    (((rows.map IndexRow.desc).zipIdx.filter fun item => item.1.timeRange.isSome).map
      fun item => toLex (item.1.low, item.1.high)) =
      (rows.filter fun row => row.desc.timeRange.isSome).map fun row =>
        toLex (row.desc.low, row.desc.high) := by
  generalize 0 = position
  induction rows generalizing position with
  | nil => rfl
  | cons row rows ih =>
      rw [List.map_cons, List.zipIdx_cons, List.filter_cons, List.filter_cons]
      simp only
      split
      · rw [List.map_cons, List.map_cons, ih]
      · exact ih (position + 1)

theorem overlappingCount_pos_iff (rows : List IndexRow) :
    0 < SegmentIndex.overlappingCount ⟨rows.map IndexRow.desc⟩ ↔
      true ∈ predecessorFlags (·.desc.low) (·.desc.high) (spannedRows rows) := by
  have keys := spans_eq rows
  rw [SegmentIndex.overlappingCount, SegmentIndex.overlappingSegments]
  simp only
  generalize (rows.map IndexRow.desc).zipIdx.filter _ = spans at keys ⊢
  have heights : (spannedRows rows).length = spans.length := by
    rw [spannedRows, (sortBy_perm _ _).length_eq]
    simpa using (congrArg List.length keys).symm
  split
  · rename_i few
    constructor
    · exact fun positive => absurd positive (lt_irrefl 0)
    · intro flagged
      have several := two_le_length_of_flagged flagged
      omega
  · -- Both sort the same ends.
    have sorted : (sortBy (fun item => toLex (item.1.low, item.1.high)) spans).map
        (fun item => toLex (item.1.low, item.1.high)) =
        (spannedRows rows).map fun row => toLex (row.desc.low, row.desc.high) := by
      refine List.Perm.eq_of_pairwise (fun _ _ _ _ => le_antisymm)
        (List.pairwise_map.mpr (sorted_sortBy _ _))
        (List.pairwise_map.mpr (sorted_sortBy _ _)) ?_
      refine ((sortBy_perm _ _).map _).trans ?_
      rw [keys]
      exact ((sortBy_perm _ _).map _).symm
    have same := congrArg (List.map ofLex) sorted
    rw [List.map_map, List.map_map] at same
    rw [← predecessorFlags_map same, ← flagged_iff]
    generalize sortBy (fun item => toLex (item.1.low, item.1.high)) spans = sorted
    have flags_length := length_zipWith_flags
      (fun item : SegmentDescriptor × Nat => item.1.low) (fun item => item.1.high) sorted
    generalize List.zipWith (· || ·) (predecessorFlags
      (fun item : SegmentDescriptor × Nat => item.1.low) (fun item => item.1.high) sorted)
      (successorFlags (fun item => item.1.low) (fun item => item.1.high) sorted) =
        flags at flags_length ⊢
    have flags_eq : (sorted.zip flags).map Prod.snd = flags :=
      List.map_snd_zip flags_length.le
    rw [List.length_map, sortBy, List.length_mergeSort, List.length_map,
      List.length_pos_iff, ← flags_eq, List.mem_map]
    simp only [ne_eq, List.filter_eq_nil_iff, not_forall, not_not, exists_prop]
    rw [flags_eq]

theorem overlappingCount_iff (ranged : ∀ row ∈ rows, row.desc.Ranged) :
    (∃ component ∈ overlapComponents rows, 2 ≤ component.length) ↔
      0 < seriesOverlappingCount rows := by
  have each (series : Nat) :
      (∃ component ∈ seriesOverlapComponents (KeyedRuns.under IndexRow.seriesId rows series),
          2 ≤ component.length) ↔
        0 < SegmentIndex.overlappingCount
          ⟨(KeyedRuns.under IndexRow.seriesId rows series).map IndexRow.desc⟩ := by
    rw [overlappingCount_pos_iff, seriesOverlapComponents]
    exact two_le_length_sweep (ordered_spannedRows (ranged_under ranged series))
  rw [seriesOverlappingCount, List.sum_pos_iff_exists_pos_nat]
  simp only [mem_overlapComponents, List.mem_map, exists_exists_and_eq_and]
  constructor
  · rintro ⟨component, ⟨series, member⟩, filled⟩
    have positive := (each series).mp ⟨component, member, filled⟩
    refine ⟨(series, _), SortedMap.mem_grouped.mpr ⟨fun empty => ?_, rfl⟩, positive⟩
    rw [empty] at positive
    exact absurd positive (by decide)
  · rintro ⟨⟨series, run⟩, member, positive⟩
    obtain ⟨-, same⟩ := SortedMap.mem_grouped.mp member
    simp only at same positive
    rw [same] at positive
    obtain ⟨component, inside, filled⟩ := (each series).mpr positive
    exact ⟨component, ⟨series, inside⟩, filled⟩

/-!
## Overlapping segments

The segments which the sweep of an index flags are those whose span meets that of another segment
of the index.
-/

namespace SegmentIndex

/-- The segments of an index with a span, each with its place. -/
def spans (index : SegmentIndex) : List (SegmentDescriptor × Nat) :=
  index.descriptors.zipIdx.filter fun item => item.1.timeRange.isSome

theorem overlappingSegments_eq_flagged (index : SegmentIndex) :
    index.overlappingSegments =
      if index.spans.length < 2 then []
      else (sortBy Prod.snd (flagged (·.1.low) (·.1.high)
        (sortBy (fun item => toLex (item.1.low, item.1.high)) index.spans))).map
          Prod.fst :=
  rfl

variable {Item : Type*}

theorem nodup_zipIdx (items : List Item) : items.zipIdx.Nodup :=
  List.Nodup.of_map Prod.snd (by
    rw [List.zipIdx_map_snd]
    exact List.nodup_range')

theorem sortBy_snd_eq {items sorted : List (Item × Nat)} (perm : items.Perm sorted)
    (in_order : sorted.Pairwise fun left right => left.2 < right.2) :
    sortBy Prod.snd items = sorted := by
  have same := (sortBy_perm Prod.snd items).trans perm
  refine same.eq_of_pairwise ?_ (sorted_sortBy Prod.snd items)
    (in_order.imp le_of_lt)
  intro left right left_mem right_mem below above
  have apart : sorted.Pairwise fun left right => left.2 ≠ right.2 :=
    in_order.imp fun below => below.ne
  have : Std.Symm fun left right : Item × Nat => left.2 ≠ right.2 := ⟨fun _ _ => Ne.symm⟩
  by_contra different
  exact apart.forall (same.subset left_mem) right_mem different (le_antisymm below above)

theorem pairwise_zipIdx (items : List Item) :
    items.zipIdx.Pairwise fun left right => left.2 < right.2 := by
  have places : (items.zipIdx.map Prod.snd).Pairwise (· < ·) := by
    rw [List.zipIdx_map_snd]
    exact List.pairwise_lt_range'
  exact List.pairwise_map.mp places

theorem ne_iff_place_ne {items : List Item} {left right : Item × Nat}
    (left_mem : left ∈ items.zipIdx) (right_mem : right ∈ items.zipIdx) :
    left ≠ right ↔ left.2 ≠ right.2 := by
  refine not_congr ⟨fun same => same ▸ rfl, fun same => Prod.ext ?_ same⟩
  have first := List.mem_zipIdx_iff_getElem?.mp left_mem
  have second := List.mem_zipIdx_iff_getElem?.mp right_mem
  rw [← same, first] at second
  exact some.inj second

theorem filter_spans (index : SegmentIndex) :
    (index.spans.filter fun item => ∃ other ∈ index.spans, other ≠ item ∧
        SpanSweep.Meets (·.1.low) (·.1.high) item other) =
      index.descriptors.zipIdx.filter fun item => ∃ other ∈ index.descriptors.zipIdx,
        other.2 ≠ item.2 ∧ item.1.Intersects other.1 := by
  rw [spans, List.filter_filter]
  refine List.filter_congr fun item member => ?_
  rw [Bool.eq_iff_iff, Bool.and_eq_true, decide_eq_true_iff, decide_eq_true_iff]
  constructor
  · rintro ⟨⟨other, held, different, meets⟩, spanned⟩
    obtain ⟨listed, spanned'⟩ := List.mem_filter.mp held
    exact ⟨other, listed, (ne_iff_place_ne listed member).mp different,
      SegmentDescriptor.intersects_iff.mpr ⟨spanned, spanned', meets⟩⟩
  · rintro ⟨other, listed, different, intersects⟩
    obtain ⟨spanned, spanned', meets⟩ := SegmentDescriptor.intersects_iff.mp intersects
    exact ⟨⟨other, List.mem_filter.mpr ⟨listed, spanned'⟩,
      (ne_iff_place_ne listed member).mpr different, meets⟩, spanned⟩

/-- The sweep reports, in index order and each once, the segments which intersect another one. -/
theorem overlappingSegments_eq (index : SegmentIndex)
    (ranged : ∀ descriptor ∈ index.descriptors, descriptor.Ranged) :
    index.overlappingSegments =
      (index.descriptors.zipIdx.filter fun item => ∃ other ∈ index.descriptors.zipIdx,
        other.2 ≠ item.2 ∧ item.1.Intersects other.1).map Prod.fst := by
  rw [overlappingSegments_eq_flagged, ← filter_spans]
  have distinct : index.spans.Nodup := (nodup_zipIdx index.descriptors).sublist List.filter_sublist
  by_cases few : index.spans.length < 2
  · rw [if_pos few, eq_comm, List.map_eq_nil_iff, List.filter_eq_nil_iff]
    intro item member meeting
    obtain ⟨other, held, different, -⟩ := of_decide_eq_true meeting
    have pair : [other, item].Nodup := by simp [different]
    have both := (List.subperm_of_subset pair (List.cons_subset.mpr ⟨held, List.cons_subset.mpr ⟨member,
      List.nil_subset _⟩⟩)).length_le
    exact absurd both (not_le.mpr few)
  · rw [if_neg few]
    let ordered := StableOrder.sortBy
      (fun item : SegmentDescriptor × Nat => toLex (item.1.low, item.1.high)) index.spans
    have perm : ordered.Perm index.spans := StableOrder.sortBy_perm _ _
    have sorted : ordered.Pairwise fun left right => left.1.low ≤ right.1.low :=
      (StableOrder.sorted_sortBy _ _).imp fun below => by
        rcases Prod.Lex.toLex_le_toLex.mp below with before | ⟨same, -⟩
        · exact before.le
        · exact same.le
    have in_range : ∀ item ∈ ordered, item.1.low ≤ item.1.high := by
      intro item member
      obtain ⟨listed, spanned⟩ := List.mem_filter.mp (perm.subset member)
      have held : item.1 ∈ index.descriptors := List.mem_of_getElem?
        (List.mem_zipIdx_iff_getElem?.mp listed)
      exact ranged item.1 held _ (range_eq spanned)
    have swept := SpanSweep.flagged_eq in_range sorted (perm.nodup_iff.mpr distinct)
    have kept : (SpanSweep.flagged (·.1.low) (·.1.high) ordered).Perm
        (index.spans.filter fun item => ∃ other ∈ index.spans, other ≠ item ∧
          SpanSweep.Meets (·.1.low) (·.1.high) item other) := by
      rw [swept]
      simp only [perm.mem_iff]
      exact perm.filter _
    have in_order := (pairwise_zipIdx index.descriptors).sublist
      (List.filter_sublist (p := fun item => item.1.timeRange.isSome))
    exact congrArg (List.map Prod.fst)
      (sortBy_snd_eq kept (in_order.sublist List.filter_sublist))

/-- A segment of one row at each end of a span. -/
def spanned (low high : Int) : SegmentDescriptor where
  id := 0
  path := .elsewhere ""
  formatVersion := 1
  physicalType := none
  timeUnit := none
  rowCount := 2
  nullCount := 0
  timeSorted := true
  minTs := some low
  maxTs := some high
  minValue := none
  maxValue := none
  byteLen := 0

/-- A long segment, one which shares its end and one apart. -/
theorem overlappingSegments_eq_shared_end :
    overlappingSegments ⟨[spanned 20 30, spanned 40 50, spanned 0 20]⟩ =
      [spanned 20 30, spanned 0 20] := by
  have ranged : ∀ descriptor ∈ [spanned 20 30, spanned 40 50, spanned 0 20],
      descriptor.Ranged := by
    simp [SegmentDescriptor.Ranged, SegmentDescriptor.timeRange, spanned]
  exact (overlappingSegments_eq ⟨_⟩ ranged).trans (by decide)

end SegmentIndex

end WeftDb
