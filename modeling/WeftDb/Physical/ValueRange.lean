import Mathlib.Data.List.Flatten
import WeftDb.Physical.FrameReads
import WeftDb.Physical.SealFamily

/-!
# Reads of a value range

A read of a value range opens the segments of a series whose recorded values meet the range, and
keeps the decoded rows which lie in it.  What a segment records are the ends of the values it was
given, not of those it stores, so a read finds every row exactly when no value is stored beyond the
ends of its own batch.
-/

namespace WeftDb.Physical

variable {decimals : Decimals}

/-- Rows as they are given to a seal. -/
structure Batch where
  schema : AspectSchema
  timestamps : List Int
  values : List (Option BigDecimal)

/-- Whether a frame is a batch, sealed whole or in pages. -/
inductive Seals (batch : Batch) : Frame decimals → Prop
  | whole {values segment} (dense : batch.values = values.map some)
      (done : sealDeclared batch.schema batch.timestamps values = .ok segment) :
      Seals batch (.singleBlock segment)
  | nullable {segment}
      (done : batch.schema.sealNullable batch.timestamps batch.values = .ok segment) :
      Seals batch (.singleBlock segment)
  | paged {values rowsPerPage segment} (dense : batch.values = values.map some)
      (done : batch.schema.sealPaged batch.timestamps values rowsPerPage = .ok segment) :
      Seals batch (.paged segment)
  | pagedNullable {rowsPerPage segment}
      (done : batch.schema.sealPagedNullable batch.timestamps batch.values rowsPerPage =
        .ok segment) :
      Seals batch (.paged segment)

/-- All rows of a frame. -/
def Frame.decodeNullable : Frame decimals → List Int × List (Option BigDecimal)
  | .singleBlock segment => segment.decodeNullable
  | .paged segment => segment.decodeNullable

variable (decimals) in
/-- A segment of a series, as it was sealed. -/
structure SealedSegment where
  seriesId : Nat
  batch : Batch
  frame : Frame decimals
  seals : Seals batch frame
  fits : ∀ timestamp ∈ batch.timestamps, Word64.Fits timestamp

namespace SealedSegment

variable (segment : SealedSegment decimals)

/-- The ends of the values which the index keeps of the segment. -/
def valueRange : Option (BigDecimal × BigDecimal) :=
  match segment.frame.stats.minValue, segment.frame.stats.maxValue with
  | some least, some greatest => some (least, greatest)
  | _, _ => none

/-- Whether the segment may hold a value of a closed range. -/
def mayContainValue (low high : BigDecimal) : Bool :=
  segment.valueRange.any fun range =>
    range.1.toRat ≤ high.toRat && low.toRat ≤ range.2.toRat

/-- The decoded rows whose value lies in a closed range. -/
def rowsWithin (low high : BigDecimal) : List (Int × BigDecimal) :=
  (segment.frame.decodeNullable.1.zip segment.frame.decodeNullable.2).filterMap fun row =>
    row.2.bind fun value =>
      if low.toRat ≤ value.toRat ∧ value.toRat ≤ high.toRat then some (row.1, value) else none

end SealedSegment

/-- The segments of a series, by id. -/
def seriesIndex (segments : List (SealedSegment decimals)) (series : Nat) :
    List (SealedSegment decimals) :=
  segments.filter (·.seriesId = series)

/-- Read the rows of a value range, from the segments which may hold one. -/
def readValueRangeOf (segments : List (SealedSegment decimals)) (series : Nat)
    (low high : BigDecimal) : List (Int × BigDecimal) :=
  ((seriesIndex segments series).filter (·.mayContainValue low high)).flatMap
    (·.rowsWithin low high)

variable (decimals) in
/-- Whether every value of a batch is stored between two values of the batch. -/
def Batch.Enclosed (batch : Batch) : Prop :=
  ∀ value ∈ presentValues batch.values, ∃ low ∈ presentValues batch.values,
    ∃ high ∈ presentValues batch.values,
      low.toRat ≤ (batch.schema.value.stored decimals value).toRat ∧
        (batch.schema.value.stored decimals value).toRat ≤ high.toRat

section Seals

variable {batch : Batch} {frame : Frame decimals}

variable (seals : Seals batch frame)

include seals

theorem Seals.cases :
    (∃ segment, frame = .singleBlock segment ∧
        batch.schema.sealNullable batch.timestamps batch.values = .ok segment) ∨
      ∃ height segment, 0 < height ∧ frame = .paged segment ∧
        batch.schema.sealPagedNullable batch.timestamps batch.values height = .ok segment := by
  have tall {height : Nat} {segment : PagedSegment decimals}
      (done : batch.schema.sealPagedNullable batch.timestamps batch.values height =
        .ok segment) : 0 < height := by
    rw [AspectSchema.sealPagedNullable] at done
    split at done
    · cases done
    · split at done
      · cases done
      · rename_i high
        exact Nat.pos_of_ne_zero high
  cases seals with
  | whole dense done =>
      rw [sealDeclared_eq, ← dense] at done
      exact .inl ⟨_, rfl, done⟩
  | nullable done => exact .inl ⟨_, rfl, done⟩
  | paged dense done =>
      rw [sealPaged_eq, ← dense] at done
      exact .inr ⟨_, _, tall done, rfl, done⟩
  | pagedNullable done => exact .inr ⟨_, _, tall done, rfl, done⟩

theorem Seals.decodeNullable (fits : ∀ timestamp ∈ batch.timestamps, Word64.Fits timestamp) :
    frame.decodeNullable = (batch.timestamps,
      batch.values.map (Option.map (batch.schema.value.stored decimals))) := by
  rcases seals.cases with ⟨segment, rfl, done⟩ | ⟨height, segment, tall, rfl, done⟩
  · exact decode_sealNullable fits done
  · exact decode_sealPagedNullable tall fits done

theorem Seals.heights : batch.timestamps.length = batch.values.length := by
  rcases seals.cases with ⟨segment, -, done⟩ | ⟨height, segment, tall, -, done⟩
  · exact (sealNullable_eq_ok.mp done).1
  · exact ((sealPagedNullable_eq_ok tall).mp done).1

theorem Seals.stats :
    frame.stats.minValue = (presentValues batch.values).argmin BigDecimal.toRat ∧
      frame.stats.maxValue = (presentValues batch.values).reverse.argmax BigDecimal.toRat := by
  rcases seals.cases with ⟨segment, rfl, done⟩ | ⟨height, segment, tall, rfl, done⟩
  · obtain ⟨-, column, -, -, rfl⟩ := sealNullable_eq_ok.mp done
    exact ⟨rfl, rfl⟩
  · obtain ⟨-, pages, -, rfl⟩ := (sealPagedNullable_eq_ok tall).mp done
    exact ⟨rfl, rfl⟩

end Seals

namespace SealedSegment

variable {segment : SealedSegment decimals} {low high : BigDecimal}

theorem mayContainValue_iff :
    segment.mayContainValue low high = true ↔
      (∃ value ∈ presentValues segment.batch.values, value.toRat ≤ high.toRat) ∧
        ∃ value ∈ presentValues segment.batch.values, low.toRat ≤ value.toRat := by
  obtain ⟨least, greatest⟩ := segment.seals.stats
  rw [mayContainValue, valueRange, least, greatest]
  cases first : (presentValues segment.batch.values).argmin BigDecimal.toRat with
  | none => simp [List.argmin_eq_none.mp first]
  | some bottom =>
      cases last : (presentValues segment.batch.values).reverse.argmax BigDecimal.toRat with
      | none =>
          rw [List.argmax_eq_none, List.reverse_eq_nil_iff] at last
          simp [last]
      | some top =>
          have bottom_mem := List.argmin_mem first
          have top_mem := List.mem_reverse.mp (List.argmax_mem last)
          simp only [Option.any_some, Bool.and_eq_true, decide_eq_true_eq]
          constructor
          · rintro ⟨below, above⟩
            exact ⟨⟨bottom, bottom_mem, below⟩, top, top_mem, above⟩
          · rintro ⟨⟨value, member, below⟩, other, other_mem, above⟩
            exact ⟨(List.le_of_mem_argmin member first).trans below,
              above.trans (List.le_of_mem_argmax (List.mem_reverse.mpr other_mem) last)⟩

theorem rowsWithin_eq_nil_iff :
    segment.rowsWithin low high = [] ↔ ∀ value ∈ presentValues segment.batch.values,
      ¬(low.toRat ≤ (segment.batch.schema.value.stored decimals value).toRat ∧
        (segment.batch.schema.value.stored decimals value).toRat ≤ high.toRat) := by
  have heights : segment.batch.timestamps.length = (segment.batch.values.map
      (Option.map (segment.batch.schema.value.stored decimals))).length := by
    rw [List.length_map, segment.seals.heights]
  rw [rowsWithin, segment.seals.decodeNullable segment.fits, List.filterMap_eq_nil_iff]
  constructor
  · intro none value member inside
    have stored : some (segment.batch.schema.value.stored decimals value) ∈
        ((segment.batch.timestamps.zip (segment.batch.values.map
          (Option.map (segment.batch.schema.value.stored decimals)))).map Prod.snd) := by
      rw [List.map_snd_zip heights.ge]
      exact List.mem_map.mpr ⟨some value, mem_presentValues.mp member, rfl⟩
    obtain ⟨row, row_mem, same⟩ := List.mem_map.mp stored
    have kept := none row row_mem
    rw [same, Option.bind_some, if_pos inside] at kept
    cases kept
  · intro outside row member
    obtain ⟨given, given_mem, same⟩ := List.mem_map.mp (List.of_mem_zip member).2
    cases given with
    | none =>
        rw [← same]
        rfl
    | some value =>
        rw [← same, Option.map_some, Option.bind_some,
          if_neg (outside value (mem_presentValues.mpr given_mem))]

end SealedSegment

theorem flatMap_filter_eq_iff {Item Image : Type*} {keep : Item → Bool}
    {image : Item → List Image} {items : List Item} :
    (items.filter keep).flatMap image = items.flatMap image ↔
      ∀ item ∈ items, keep item = false → image item = [] := by
  induction items with
  | nil => simp
  | cons item items ih =>
      rw [List.forall_mem_cons, List.filter_cons, List.flatMap_cons]
      cases kept : keep item with
      | true =>
          rw [if_pos rfl, List.flatMap_cons, List.append_cancel_left_eq, ih]
          simp
      | false =>
          rw [if_neg Bool.false_ne_true, ← ih]
          constructor
          · intro same
            -- What is kept of the rest is no longer than the rest.
            have shorter := ((List.filter_sublist (p := keep) (l := items)).flatMap image).length_le
            have lengths := congrArg List.length same
            rw [List.length_append] at lengths
            have nothing : image item = [] := List.length_eq_zero_iff.mp (by omega)
            rw [nothing, List.nil_append] at same
            exact ⟨fun _ => nothing, same⟩
          · rintro ⟨nothing, same⟩
            rw [nothing rfl, List.nil_append, same]

/-- Whether reads of value ranges are exact: a read gives all decoded rows in its range, and no
segment which holds one is left out. -/
def ValueRangeExact (segments : List (SealedSegment decimals)) (series : Nat) : Prop :=
  ∀ low high : BigDecimal, low.toRat ≤ high.toRat →
    readValueRangeOf segments series low high =
        (seriesIndex segments series).flatMap (·.rowsWithin low high) ∧
      ∀ segment ∈ seriesIndex segments series, segment.rowsWithin low high ≠ [] →
        segment.mayContainValue low high = true

/-- Reads of value ranges are exact exactly when every value of the series is stored between two
values of its batch. -/
theorem valueRange_exact_iff (segments : List (SealedSegment decimals)) (series : Nat) :
    ValueRangeExact segments series ↔
      ∀ segment ∈ seriesIndex segments series, segment.batch.Enclosed decimals := by
  constructor
  · intro exact segment member value value_mem
    let stored := segment.batch.schema.value.stored decimals value
    have holds : segment.rowsWithin stored stored ≠ [] := fun nothing =>
      SealedSegment.rowsWithin_eq_nil_iff.mp nothing value value_mem ⟨le_rfl, le_rfl⟩
    obtain ⟨⟨low, low_mem, below⟩, high, high_mem, above⟩ :=
      SealedSegment.mayContainValue_iff.mp ((exact stored stored le_rfl).2 segment member holds)
    exact ⟨low, low_mem, high, high_mem, below, above⟩
  · intro enclosed low high _
    have opened : ∀ segment ∈ seriesIndex segments series, segment.rowsWithin low high ≠ [] →
        segment.mayContainValue low high = true := by
      intro segment member holds
      rw [ne_eq, SealedSegment.rowsWithin_eq_nil_iff, not_forall] at holds
      obtain ⟨value, holds⟩ := holds
      rw [Classical.not_imp, not_not] at holds
      obtain ⟨value_mem, from_low, to_high⟩ := holds
      obtain ⟨least, least_mem, greatest, greatest_mem, below, above⟩ :=
        enclosed segment member value value_mem
      exact SealedSegment.mayContainValue_iff.mpr
        ⟨⟨least, least_mem, below.trans to_high⟩, greatest, greatest_mem, from_low.trans above⟩
    refine ⟨flatMap_filter_eq_iff.mpr fun segment member pruned => ?_, opened⟩
    by_contra holds
    rw [opened segment member holds] at pruned
    cases pruned

/-- A batch of the least whole number which a float of four bytes rounds. -/
def roundedBatch : Batch := ⟨⟨.f32, ⟨1, 0⟩⟩, [0], [some ⟨16777217, 0⟩]⟩

theorem exists_roundedSegment :
    ∃ segment : SealedSegment wholeNumbers, segment.seriesId = 0 ∧ segment.batch = roundedBatch := by
  have done : ∃ sealed : Segment wholeNumbers,
      roundedBatch.schema.sealNullable roundedBatch.timestamps roundedBatch.values = .ok sealed := by
    refine exists_sealNullable.mpr ⟨rfl, by norm_num [roundedBatch, BigDecimal.toRat], ?_⟩
    intro value member
    obtain rfl := List.mem_singleton.mp member
    have loss : measure ⟨16777217, 0⟩ ⟨16777216, 0⟩ = .lossy 1 := by decide +kernel
    refine ⟨⟨.f32 (16777216 : Nat), .lossy 1⟩, ?_, ?_⟩
    · rw [← loss]
      with_unfolding_all rfl
    · intro absError lossy
      obtain rfl := Exactness.lossy.inj lossy
      norm_num [roundedBatch, BigDecimal.toRat]
  obtain ⟨sealed, done⟩ := done
  exact ⟨⟨0, roundedBatch, .singleBlock sealed, .nullable done, by decide⟩, rfl, rfl⟩

/-- A row stored as the number below its value is not found by a read of that number. -/
theorem rounded_row_is_missed :
    ∃ segment : SealedSegment wholeNumbers, segment.batch = roundedBatch ∧
      segment.rowsWithin ⟨16777216, 0⟩ ⟨16777216, 0⟩ = [(0, ⟨16777216, 0⟩)] ∧
      readValueRangeOf [segment] 0 ⟨16777216, 0⟩ ⟨16777216, 0⟩ = [] ∧
      ¬ValueRangeExact [segment] 0 := by
  obtain ⟨segment, series, same⟩ := exists_roundedSegment
  have listed : seriesIndex [segment] 0 = [segment] := by
    rw [seriesIndex, List.filter_cons, if_pos (decide_eq_true series), List.filter_nil]
  have holds : segment.rowsWithin ⟨16777216, 0⟩ ⟨16777216, 0⟩ = [(0, ⟨16777216, 0⟩)] := by
    rw [SealedSegment.rowsWithin, segment.seals.decodeNullable segment.fits, same]
    decide +kernel
  have pruned : segment.mayContainValue ⟨16777216, 0⟩ ⟨16777216, 0⟩ = false := by
    rw [Bool.eq_false_iff, ne_eq, SealedSegment.mayContainValue_iff, same]
    rintro ⟨⟨value, member, below⟩, -⟩
    obtain rfl := List.mem_singleton.mp member
    norm_num [BigDecimal.toRat] at below
  refine ⟨segment, same, holds, ?_, fun exact => ?_⟩
  · rw [readValueRangeOf, listed, List.filter_cons, pruned]
    rfl
  · have opened := (exact ⟨16777216, 0⟩ ⟨16777216, 0⟩ le_rfl).2 segment
      (by rw [listed]; exact List.mem_singleton_self segment)
      (by rw [holds]; exact List.cons_ne_nil _ _)
    rw [pruned] at opened
    cases opened

end WeftDb.Physical
