import WeftDb.Foundation.ClosedChunks
import WeftDb.Legacy.SurveySound
import WeftDb.Physical.PointPlaces
import WeftDb.Store.PointReads

/-!
# What an import seals

The rows of a series are cut into chunks which do not part an instant, and each chunk is sealed under
the type of the survey, so that every value is kept exactly.
-/

namespace WeftDb.Physical.Legacy

open ClosedChunks

variable {decimals : Decimals} {table : List LegacyRow} {series : List (Int × BigDecimal)}

/-- The chunks of some rows. -/
def chunksOf (limit : Nat) (rows : List (Int × BigDecimal)) : List (List (Int × BigDecimal)) :=
  cut (SealingChunk.startsNext limit) rows []

/-- Whether chunks part some rows: none is empty, each but the last has the rows of a segment, and
no instant is in two of them. -/
structure Parts (limit : Nat) (rows : List (Int × BigDecimal))
    (chunks : List (List (Int × BigDecimal))) : Prop where
  filled : ∀ chunk ∈ chunks, chunk ≠ []
  whole : chunks.flatten = rows
  long : ∀ chunk ∈ chunks.dropLast, limit ≤ chunk.length
  apart : chunks.Pairwise (Below Prod.fst)

theorem parts_chunksOf (limit : Nat) {rows : List (Int × BigDecimal)}
    (sorted : rows.Pairwise fun first second => first.1 ≤ second.1) :
    Parts limit rows (chunksOf limit rows) where
  filled := ne_nil_of_mem_cut (fun row => by simp [SealingChunk.startsNext]) rows []
  whole := flatten_cut rows []
  long := forall_dropLast_cut (fun chunk row closes => by
    exact of_decide_eq_true (Bool.and_eq_true_iff.mp closes).1) rows []
  apart := by
    refine pairwise_cut (fun chunk row closes => ?_) sorted
    have different := (Bool.and_eq_true_iff.mp closes).2
    rcases found : chunk.getLast? with _ | last
    · rw [found] at different
      cases different
    · rw [found] at different
      obtain ⟨front, rfl⟩ := List.getLast?_eq_some_iff.mp found
      exact ⟨front, last, rfl, of_decide_eq_true different⟩

theorem sealRows_eq (schema : AspectSchema) (tabulates : Tabulates decimals table series)
    (position : Nat) (chunk : SealingChunk) (done : Imported decimals) :
    sealRows schema table position chunk done =
      (cut (SealingChunk.startsNext chunk.limit) series chunk.rows).foldlM (sealChunk schema)
        done := by
  induction tabulates generalizing position chunk done with
  | nil =>
      rw [sealRows, SealingChunk.finish, cut]
      split_ifs
      · rfl
      · rw [List.foldlM_cons]
        dsimp only
        cases sealChunk schema done chunk.rows <;> rfl
  | cons holds _ ih =>
      rw [sealRows, holds.parseRow, cut]
      dsimp only
      rw [SealingChunk.push]
      split_ifs
      · rw [List.foldlM_cons]
        dsimp only
        cases sealChunk schema done chunk.rows with
        | error error => rfl
        | ok done => exact ih ..
      · exact ih ..

variable {done imported : Imported decimals} {schema : AspectSchema}

theorem sealChunk_eq_ok {after : Imported decimals} {chunk : List (Int × BigDecimal)} :
    sealChunk schema done chunk = .ok after ↔
      ∃ segment, sealDeclared schema (chunk.map Prod.fst) (chunk.map Prod.snd) = .ok segment ∧
        ⟨done.segments ++ [segment], done.sealedRows + chunk.length, done.sealedSegments + 1⟩ =
          after := by
  rw [sealChunk]
  cases (sealDeclared schema (chunk.map Prod.fst) (chunk.map Prod.snd) :
    Except SealError (Segment decimals)) <;> simp

theorem foldlM_sealChunk (chunks : List (List (Int × BigDecimal))) :
    chunks.foldlM (sealChunk schema) done = .ok imported ↔
      ∃ segments, List.Forall₂ (fun chunk segment =>
          sealDeclared schema (chunk.map Prod.fst) (chunk.map Prod.snd) = .ok segment)
            chunks segments ∧
        imported =
          ⟨done.segments ++ segments, done.sealedRows + chunks.flatten.length,
            done.sealedSegments + chunks.length⟩ := by
  induction chunks generalizing done with
  | nil =>
      simp only [List.foldlM_nil, pure_eq_ok, List.forall₂_nil_left_iff]
      constructor
      · rintro rfl
        exact ⟨[], rfl, by simp⟩
      · rintro ⟨segments, rfl, rfl⟩
        simp
  | cons chunk chunks ih =>
      simp only [List.foldlM_cons, bind_eq_ok, sealChunk_eq_ok, ih]
      constructor
      · rintro ⟨-, ⟨segment, first, rfl⟩, segments, later, rfl⟩
        refine ⟨segment :: segments, .cons first later, ?_⟩
        simp only [Imported.mk.injEq, List.append_assoc, List.singleton_append, List.flatten_cons,
          List.length_append, List.length_cons, true_and]
        omega
      · rintro ⟨sealedSegments, related, rfl⟩
        obtain ⟨segment, segments, first, later, rfl⟩ := List.forall₂_cons_left_iff.mp related
        refine ⟨_, ⟨segment, first, rfl⟩, segments, later, ?_⟩
        simp only [Imported.mk.injEq, List.append_assoc, List.singleton_append, List.flatten_cons,
          List.length_append, List.length_cons, true_and]
        omega

theorem toRat_stored {physicalType : PhysicalType} {value : BigDecimal}
    (reads : value.plainDigitCount ≤ maxPlainDigits →
      (decimals.parse value.toPlainString).map BigDecimal.toRat = some value.toRat)
    (exactly : encodesExactly decimals physicalType value = true) :
    (physicalType.stored decimals value).toRat = value.toRat := by
  unfold encodesExactly at exactly
  unfold PhysicalType.stored
  rcases done : (physicalType.encode value : Except _ (Encoded decimals)) with error | encoded
  · simp [done] at exactly
  · simp only [done, decide_eq_true_eq] at exactly
    have error := absError_encode reads done
    rw [exactly, Exactness.absError, eq_comm, abs_eq_zero, sub_eq_zero] at error
    exact error.symm

theorem importSeries_eq_ok {limit : Nat} (tabulates : Tabulates decimals table series) :
    importSeries table limit = .ok imported ↔
      ∃ segments, List.Forall₂ (fun chunk segment =>
          sealDeclared (declaredSchema (narrowest decimals (series.map Prod.snd)))
            (chunk.map Prod.fst) (chunk.map Prod.snd) = .ok segment)
            (chunksOf limit (StableOrder.sortBy Prod.fst series)) segments ∧
        imported = ⟨segments, series.length, segments.length⟩ := by
  have ordered := tabulates_rowsSql tabulates
  have whole := (parts_chunksOf limit (StableOrder.sorted_sortBy Prod.fst series)).whole
  have rows : (StableOrder.sortBy Prod.fst series).length = series.length :=
    (StableOrder.sortBy_perm _ _).length_eq
  have chosen : narrowest decimals ((StableOrder.sortBy Prod.fst series).map Prod.snd) =
      narrowest decimals (series.map Prod.snd) :=
    narrowest_perm ((StableOrder.sortBy_perm _ _).map _)
  rw [importSeries, surveyEncoding_eq tabulates, chosen]
  dsimp only
  rw [sealStreaming, sealRows_eq _ ordered]
  show (chunksOf limit _).foldlM _ _ = _ ↔ _
  rw [foldlM_sealChunk, whole, rows]
  refine exists_congr fun segments => and_congr_right fun related => ?_
  rw [related.length_eq]
  simp

end WeftDb.Physical.Legacy

/-!
## What is read of an import

A completed import holds exactly the rows of its series, and a point read of it gives what the one
segment of all rows gives.  Both need the chunks to be ones which the store reads: of no more rows
than a frame may have, and of a span which is a word.  The import bounds neither.
-/

namespace WeftDb.Physical

variable {decimals : Decimals}

/-- The block which is written of a page. -/
def Page.written (page : Page decimals) : WeftDb.Page where
  values := page.values.decode
  timestamps := page.timestamps
  nulls := (List.range page.stats.rowCount).map page.nulls.isPresent
  stats := page.stats.toSegmentStats

/-- The body of a frame. -/
def Frame.body (frame : Frame decimals) : FrameBody :=
  match frame with
  | singleBlock segment => .single segment.written
  | paged segment =>
      .paged segment.rowsPerPage (segment.pages.map Page.written) segment.stats.toSegmentStats

/-- Read a frame, which is refused beyond the limits. -/
def Frame.readFrom (frame : Frame decimals) : Except WeftSegError (Frame decimals) := do
  DecodeLimits.standard.readBody frame.body
  return frame

/-- The newest present value of an instant, where each frame found is read from disk. -/
def readPointOfFrames (store : PointStore decimals) (aspect : AspectName) (series : Nat)
    (instant : Int) : Except WeftSegError (Option BigDecimal) :=
  (store.seriesPresentDescriptors aspect series instant instant).foldlM
    (fun found row => do
      let frame ← (store.frame row).readFrom
      return (frame.readPoint instant).or found)
    none

namespace Legacy

open ClosedChunks

/-- The rows of segments, one after the other, where each frame is read from disk. -/
def decodeAll (segments : List (Segment decimals)) :
    Except WeftSegError (List Int × List (Option BigDecimal)) := do
  let frames ← segments.mapM fun segment => do
    DecodeLimits.standard.readBody (Frame.body (.singleBlock segment))
    return segment.decodeNullable
  return ((frames.map Prod.fst).flatten, (frames.map Prod.snd).flatten)

/-- Whether an aspect of a store holds some segments, in order, and no row of its series is wider
than the bound under which rows are sought. -/
structure HoldsSegments (store : PointStore decimals) (aspect : AspectName)
    (segments : List (Segment decimals)) : Prop where
  frames : List.Forall₂
    (fun row segment => store.frame row = .singleBlock segment ∧ row.seriesId = 0 ∧
      row.desc.rowCount = segment.stats.rowCount ∧ row.desc.nullCount = segment.stats.nullCount)
    (store.handle.db.rows aspect) segments
  covered : ∀ row ∈ store.handle.db.rows aspect, ∀ first last, row.desc.minTs = some first →
    row.desc.maxTs = some last → Word64.saturatingSub last first ≤ store.widest aspect 0
  word : store.widest aspect 0 ≤ Word64.greatest

section Chunk

variable {physicalType : PhysicalType} {chunk : List (Int × BigDecimal)} {segment : Segment decimals}

/-- The rows of a chunk, none of which is a null. -/
def rowsOf (chunk : List (Int × BigDecimal)) : List (Int × Option BigDecimal) :=
  chunk.map fun item => (item.1, some item.2)

/-- The segment of a chunk. -/
def Sealed (decimals : Decimals) (physicalType : PhysicalType) (chunk : List (Int × BigDecimal))
    (segment : Segment decimals) : Prop :=
  sealDeclared (declaredSchema physicalType) (chunk.map Prod.fst) (chunk.map Prod.snd) =
    .ok segment

theorem zip_columns (chunk : List (Int × BigDecimal)) :
    (chunk.map Prod.fst).zip ((chunk.map Prod.snd).map some) = rowsOf chunk := by
  rw [List.map_map, List.zip_map']
  rfl

variable (sealedChunk : Sealed decimals physicalType chunk segment)

include sealedChunk

theorem Sealed.columns : ∃ column : ColumnEncoding decimals,
    encodeColumn physicalType (presentValues ((chunk.map Prod.snd).map some)) = .ok column ∧
      segment =
        ⟨columnsOf (chunk.map Prod.fst) ((chunk.map Prod.snd).map some) column,
          segmentFormatVersion⟩ := by
  obtain ⟨-, column, encoded, -, same⟩ := sealNullable_eq_ok.mp (sealDeclared_eq_ok.mp sealedChunk)
  exact ⟨column, encoded, same⟩

theorem Sealed.exactly : ∀ item ∈ chunk, encodesExactly decimals physicalType item.2 = true := by
  obtain ⟨-, -, admitted⟩ :=
    exists_sealNullable.mp ⟨segment, sealDeclared_eq_ok.mp sealedChunk⟩
  rw [presentValues_map_some] at admitted
  exact fun item member => admits_declaredSchema.mp (admitted _ (List.mem_map_of_mem member))

theorem Sealed.decodeNullable (fits : ∀ item ∈ chunk, Word64.Fits item.1) :
    segment.decodeNullable =
      (chunk.map Prod.fst, chunk.map fun item => some (physicalType.stored decimals item.2)) := by
  obtain ⟨column, encoded, rfl⟩ := sealedChunk.columns
  have rows := @decodeNullable_columnsOf decimals _ (declaredSchema physicalType) _ _ (by simp)
    (List.forall_mem_map.mpr fits) encoded
  rw [List.map_map, List.map_map] at rows
  rw [Segment.decodeNullable, List.map_map]
  exact rows

theorem Sealed.valueAt (fits : ∀ item ∈ chunk, Word64.Fits item.1) (instant : Int) :
    segment.valueAt instant =
      (firstPresentAt instant (rowsOf chunk)).map (physicalType.stored decimals) := by
  have found := valueAt_sealNullable (sealDeclared_eq_ok.mp sealedChunk)
    (List.forall_mem_map.mpr fits) instant
  rwa [zip_columns] at found

theorem Sealed.readBody_iff :
    DecodeLimits.standard.readBody (Frame.body (.singleBlock segment)) = .ok () ↔
      chunk.length ≤ maxFrameRows := by
  obtain ⟨column, encoded, rfl⟩ := sealedChunk.columns
  have decoded : column.decode = (chunk.map Prod.snd).map (physicalType.stored decimals) := by
    have stored := decode_encodeColumn encoded
    rwa [presentValues_map_some] at stored
  have holds : WeftDb.Page.Holds
      (Page.written (columnsOf (chunk.map Prod.fst) ((chunk.map Prod.snd).map some) column))
      (chunk.map Prod.fst)
      (((chunk.map Prod.snd).map (physicalType.stored decimals)).map some) := by
    rw [columnsOf_map_some]
    refine ⟨rfl, ?_, ?_, rfl⟩
    · refine (List.count_eq_zero.mpr fun member => ?_).symm
      simp at member
    · rw [presentValues_map_some]
      exact decoded
  have readable := holds.readBody_iff (by simp)
  rwa [List.length_map] at readable

theorem Sealed.readPoint (fits : ∀ item ∈ chunk, Word64.Fits item.1)
    (narrow : NarrowSpan (chunk.map Prod.fst)) (instant : Int) :
    (Frame.singleBlock segment).readPoint instant =
      (firstPresentAt instant (rowsOf chunk)).map (physicalType.stored decimals) := by
  obtain ⟨column, encoded, rfl⟩ := sealedChunk.columns
  have values : (columnsOf (chunk.map Prod.fst) ((chunk.map Prod.snd).map some)
      column).stats.isAllNull = false := by
    rw [columnsOf_map_some]
    refine decide_eq_false fun nulls => ?_
    exact nulls.1.ne nulls.2
  show Segment.readSegmentPoint _ instant = _
  rw [Segment.readSegmentPoint, values, if_neg (by decide), ← zip_columns]
  exact @Page.readPoint_columnsOf decimals _ _ (declaredSchema physicalType) _ (by simp)
    (List.forall_mem_map.mpr fits) narrow encoded instant

end Chunk

/-- Whether a row of the index is that of a chunk. -/
structure RowOf (store : PointStore decimals) (physicalType : PhysicalType) (row : IndexRow)
    (chunk : List (Int × BigDecimal)) : Prop where
  frame : ∃ segment, store.frame row = .singleBlock segment ∧
    Sealed decimals physicalType chunk segment
  series : row.seriesId = 0
  minTs : row.desc.minTs = (chunk.map Prod.fst).min?
  maxTs : row.desc.maxTs = (chunk.map Prod.fst).max?
  counts : row.desc.rowCount = chunk.length ∧ row.desc.nullCount = 0

section Rows

variable {store : PointStore decimals} {aspect : AspectName} {physicalType : PhysicalType}
  {chunks : List (List (Int × BigDecimal))} {segments : List (Segment decimals)}
variable {item : Int × BigDecimal} {left right : List (Int × BigDecimal)}

theorem rowOf_of_holds (holds : HoldsSegments store aspect segments)
    (related : List.Forall₂ (Sealed decimals physicalType) chunks segments) :
    List.Forall₂ (RowOf store physicalType) (store.handle.db.rows aspect) chunks := by
  have described := store.described aspect
  obtain ⟨frames, -, -⟩ := holds
  generalize store.handle.db.rows aspect = rows at frames described
  induction frames generalizing chunks with
  | nil =>
      cases related
      exact .nil
  | cons first _ ih =>
      obtain ⟨chunk, rest, sealedChunk, later, rfl⟩ := List.forall₂_cons_right_iff.mp related
      obtain ⟨own, others⟩ := List.forall_mem_cons.mp described
      refine .cons ?_ (ih later others)
      obtain ⟨frame, series, count, nulls⟩ := first
      obtain ⟨low, high, -⟩ := own
      rw [frame] at low high
      obtain ⟨column, -, same⟩ := sealedChunk.columns
      subst same
      rw [columnsOf_map_some] at low high count nulls
      refine ⟨⟨_, frame, sealedChunk⟩, series, low, high, ?_, nulls⟩
      rw [count]
      exact List.length_map _

variable {row : IndexRow} {chunk : List (Int × BigDecimal)} {instant : Int}

theorem exists_ends (filled : chunk ≠ []) :
    ∃ first ∈ chunk, ∃ last ∈ chunk, (chunk.map Prod.fst).min? = some first.1 ∧
      (chunk.map Prod.fst).max? = some last.1 ∧
      ∀ item ∈ chunk, first.1 ≤ item.1 ∧ item.1 ≤ last.1 := by
  have nonempty : chunk.map Prod.fst ≠ [] := by simpa using filled
  have low := List.min?_eq_some_min nonempty
  have high := List.max?_eq_some_max nonempty
  obtain ⟨low_mem, least⟩ := List.min?_eq_some_iff.mp low
  obtain ⟨high_mem, greatest⟩ := List.max?_eq_some_iff.mp high
  obtain ⟨first, first_mem, first_eq⟩ := List.mem_map.mp low_mem
  obtain ⟨last, last_mem, last_eq⟩ := List.mem_map.mp high_mem
  refine ⟨first, first_mem, last, last_mem, first_eq ▸ low, last_eq ▸ high, fun item member => ?_⟩
  rw [first_eq, last_eq]
  exact ⟨least _ (List.mem_map_of_mem member), greatest _ (List.mem_map_of_mem member)⟩

section

variable (rowOf : RowOf store physicalType row chunk)

include rowOf

theorem RowOf.present_of_apart (stored : row ∈ store.handle.db.rows aspect)
    (apart : (∀ item ∈ chunk, item.1 < instant) ∨ ∀ item ∈ chunk, instant < item.1) :
    store.present instant row = none := by
  refine PointStore.present_of_outside stored ?_
  unfold SegmentDescriptor.overlapsTime SegmentDescriptor.timeRange
  rw [rowOf.minTs, rowOf.maxTs]
  rcases eq_or_ne chunk [] with rfl | filled
  · rfl
  obtain ⟨first, first_mem, last, last_mem, low, high, -⟩ := exists_ends filled
  rw [low, high]
  refine decide_eq_false fun inside => ?_
  rcases apart with before | after
  · have := before last last_mem
    omega
  · have := after first first_mem
    omega

theorem RowOf.present_of_narrow (fits : ∀ item ∈ chunk, Word64.Fits item.1)
    (narrow : NarrowSpan (chunk.map Prod.fst)) :
    store.present instant row =
      (firstPresentAt instant (rowsOf chunk)).map (physicalType.stored decimals) := by
  obtain ⟨segment, frame, sealedChunk⟩ := rowOf.frame
  rw [PointStore.present, frame, sealedChunk.readPoint fits narrow]

theorem RowOf.reaches_of_narrow (holds : HoldsSegments store aspect segments)
    (stored : row ∈ store.handle.db.rows aspect) (fits : ∀ item ∈ chunk, Word64.Fits item.1)
    (narrow : NarrowSpan (chunk.map Prod.fst)) (member : item ∈ chunk) :
    store.reaches aspect 0 item.1 row = true := by
  obtain ⟨first, first_mem, last, last_mem, low, high, between⟩ :=
    exists_ends (List.ne_nil_of_mem member)
  have span := narrow _ (List.mem_map_of_mem first_mem) _ (List.mem_map_of_mem last_mem)
  have covered := holds.covered row stored first.1 last.1 (rowOf.minTs.trans low)
    (rowOf.maxTs.trans high)
  obtain ⟨above, below⟩ := between item member
  have word : Word64.Fits (last.1 - first.1) := by
    simp only [Word64.Fits, Word64.least] at span ⊢
    omega
  rw [Word64.saturatingSub, Word64.saturate_of_fits word] at covered
  unfold PointStore.reaches
  rw [rowOf.minTs, low, rowOf.counts.1, rowOf.counts.2]
  refine decide_eq_true ⟨Word64.saturatingSub_le (fits first first_mem) ?_, rowOf.series, ?_⟩
  · omega
  · exact List.length_pos_of_mem member

end

theorem exists_not_reaches_of_wide (holds : HoldsSegments store aspect segments)
    (fits : ∀ item ∈ chunk, Word64.Fits item.1) (wide : ¬NarrowSpan (chunk.map Prod.fst)) :
    ∃ item ∈ chunk, ∀ row ∈ store.handle.db.rows aspect, RowOf store physicalType row chunk →
      store.reaches aspect 0 item.1 row = false := by
  simp only [NarrowSpan, not_forall, not_le, exists_prop] at wide
  obtain ⟨_, low_mem, _, high_mem, beyond⟩ := wide
  obtain ⟨lowest, lowest_mem, rfl⟩ := List.mem_map.mp low_mem
  obtain ⟨highest, highest_mem, rfl⟩ := List.mem_map.mp high_mem
  obtain ⟨first, first_mem, last, last_mem, low, high, between⟩ :=
    exists_ends (List.ne_nil_of_mem lowest_mem)
  have above := (between lowest lowest_mem).1
  have below := (between highest highest_mem).2
  have word := holds.word
  obtain ⟨least, -⟩ := fits first first_mem
  obtain ⟨-, greatest⟩ := fits last last_mem
  refine ⟨last, last_mem, fun row stored rowOf => ?_⟩
  have covered := holds.covered row stored first.1 last.1 (rowOf.minTs.trans low)
    (rowOf.maxTs.trans high)
  unfold PointStore.reaches
  rw [rowOf.minTs, low]
  refine decide_eq_false fun reached => ?_
  have floor := reached.1
  simp only [Word64.saturatingSub, Word64.saturate, Word64.least, Word64.greatest] at covered floor
  simp only [Word64.least, Word64.greatest] at beyond word least greatest
  omega

theorem mem_rowsOf {timestamp : Int} {value : Option BigDecimal} :
    (timestamp, value) ∈ rowsOf chunk ↔ ∃ item ∈ chunk, item.1 = timestamp ∧ some item.2 = value := by
  simp [rowsOf]

theorem firstPresentAt_of_apart
    (apart : (∀ item ∈ chunk, item.1 < instant) ∨ ∀ item ∈ chunk, instant < item.1) :
    firstPresentAt instant (rowsOf chunk) = none := by
  refine firstPresentAt_eq_none fun row member same => ?_
  obtain ⟨item, inside, here, -⟩ := mem_rowsOf.mp member
  rcases apart with before | after
  · exact (before item inside).ne (here.trans same)
  · exact (after item inside).ne' (here.trans same)

theorem firstPresentAt_of_mem (member : item ∈ chunk) :
    firstPresentAt item.1 (rowsOf chunk) ≠ none := by
  intro missing
  have found := List.findSome?_eq_none_iff.mp missing (item.1, some item.2)
    (mem_rowsOf.mpr ⟨item, member, rfl, rfl⟩)
  rw [if_pos rfl] at found
  cases found

theorem firstPresentAt_flatten (instant : Int) (chunks : List (List (Int × BigDecimal))) :
    firstPresentAt instant (rowsOf chunks.flatten) =
      chunks.findSome? fun chunk => firstPresentAt instant (rowsOf chunk) := by
  induction chunks with
  | nil => rfl
  | cons chunk chunks ih =>
      rw [List.flatten_cons, rowsOf, List.map_append, firstPresentAt, List.findSome?_append,
        ← firstPresentAt, ← firstPresentAt, ← rowsOf, ← rowsOf, ih, List.findSome?_cons]
      cases firstPresentAt instant (rowsOf chunk) <;> rfl

theorem apart_of_mem (below : Below Prod.fst left right ∨ Below Prod.fst right left)
    (member : item ∈ left) :
    (∀ other ∈ right, other.1 < item.1) ∨ ∀ other ∈ right, item.1 < other.1 := by
  rcases below with before | after
  · exact .inr fun other inside => before item member other inside
  · exact .inl fun other inside => after other inside item member

theorem none_of_below (below : Below Prod.fst left right) (instant : Int) :
    firstPresentAt instant (rowsOf left) = none ∨ firstPresentAt instant (rowsOf right) = none := by
  by_cases held : ∃ item ∈ left, item.1 = instant
  · obtain ⟨item, member, rfl⟩ := held
    exact .inr (firstPresentAt_of_apart (apart_of_mem (.inl below) member))
  · refine .inl (firstPresentAt_eq_none fun row member same => held ?_)
    obtain ⟨item, inside, here, -⟩ := mem_rowsOf.mp member
    exact ⟨item, inside, here.trans same⟩

variable (holds : HoldsSegments store aspect segments)
  (related : List.Forall₂ (Sealed decimals physicalType) chunks segments)
  (apart : chunks.Pairwise (Below Prod.fst))
  (fits : ∀ chunk ∈ chunks, ∀ item ∈ chunk, Word64.Fits item.1)

include holds related apart fits

theorem readPointOf_of_narrow (narrow : ∀ chunk ∈ chunks, NarrowSpan (chunk.map Prod.fst))
    (instant : Int) :
    store.readPointOf aspect 0 instant =
      (firstPresentAt instant (rowsOf chunks.flatten)).map (physicalType.stored decimals) := by
  have rows := rowOf_of_holds holds related
  have chunkOf {row : IndexRow} (stored : row ∈ store.handle.db.rows aspect) :=
    exists_of_forall₂ rows stored
  -- A row which is not reached has no value of the instant.
  have reached : BatchLookup.lastAnswer (store.present instant) (store.reached aspect 0 instant) =
      BatchLookup.lastAnswer (store.present instant) (store.handle.db.rows aspect) := by
    refine BatchLookup.lastAnswer_filter fun row stored missed => ?_
    obtain ⟨chunk, member, rowOf⟩ := chunkOf stored
    rw [rowOf.present_of_narrow (fits chunk member) (narrow chunk member), Option.map_eq_none_iff]
    refine firstPresentAt_eq_none fun other inside same => ?_
    obtain ⟨item, held, here, -⟩ := mem_rowsOf.mp inside
    have found := rowOf.reaches_of_narrow holds stored (fits chunk member) (narrow chunk member) held
    rw [here, same, missed] at found
    cases found
  have each := (List.forall₂_and_left chunks _).mpr
    ⟨fun chunk member => And.intro (fits chunk member) (narrow chunk member), rows.flip⟩
  have answers : List.Forall₂ (fun row chunk => store.present instant row =
        (firstPresentAt instant (rowsOf chunk)).map (physicalType.stored decimals))
      (store.handle.db.rows aspect) chunks :=
    (each.imp fun chunk row rowOf => rowOf.2.present_of_narrow rowOf.1.1 rowOf.1.2).flip
  have alone : chunks.Pairwise fun left right =>
      (firstPresentAt instant (rowsOf left)).map (physicalType.stored decimals) = none ∨
        (firstPresentAt instant (rowsOf right)).map (physicalType.stored decimals) = none :=
    apart.imp fun below => (none_of_below below instant).imp (by simp [·]) (by simp [·])
  calc
    store.readPointOf aspect 0 instant =
        BatchLookup.lastAnswer (store.present instant) (store.handle.db.rows aspect) :=
      (PointStore.readPointOf_eq instant).trans reached
    _ = chunks.findSome? fun chunk =>
          (firstPresentAt instant (rowsOf chunk)).map (physicalType.stored decimals) :=
      (BatchLookup.lastAnswer_congr answers).trans (BatchLookup.lastAnswer_eq_findSome? alone)
    _ = (firstPresentAt instant (rowsOf chunks.flatten)).map (physicalType.stored decimals) := by
      rw [firstPresentAt_flatten, List.map_findSome?]
      rfl

theorem narrow_of_readPointOf (exactly : ∀ instant, store.readPointOf aspect 0 instant =
      (firstPresentAt instant (rowsOf chunks.flatten)).map (physicalType.stored decimals)) :
    ∀ chunk ∈ chunks, NarrowSpan (chunk.map Prod.fst) := by
  intro chunk member
  by_contra wide
  have rows := rowOf_of_holds holds related
  obtain ⟨item, held, missed⟩ :=
    @exists_not_reaches_of_wide _ _ _ physicalType _ _ holds (fits chunk member) wide
  -- No row which is reached from this instant has a value of it, and the chunk does.
  have nothing : store.readPointOf aspect 0 item.1 = none := by
    rw [PointStore.readPointOf_eq, BatchLookup.lastAnswer_eq_none_iff]
    intro row reached
    obtain ⟨stored, reaches⟩ := List.mem_filter.mp reached
    obtain ⟨other, other_mem, rowOf⟩ := exists_of_forall₂ rows stored
    rcases eq_or_ne other chunk with rfl | different
    · rw [missed row stored rowOf] at reaches
      cases reaches
    · have symmetric : Std.Symm fun left right : List (Int × BigDecimal) =>
          Below Prod.fst left right ∨ Below Prod.fst right left := ⟨fun _ _ => Or.symm⟩
      have either : chunks.Pairwise fun left right =>
          Below Prod.fst left right ∨ Below Prod.fst right left := apart.imp Or.inl
      have below := either.forall member other_mem different.symm
      exact rowOf.present_of_apart stored (apart_of_mem below held)
  have found : firstPresentAt item.1 (rowsOf chunks.flatten) ≠ none :=
    firstPresentAt_of_mem (List.mem_flatten_of_mem member held)
  rw [exactly, Option.map_eq_none_iff] at nothing
  exact found nothing

end Rows

theorem readFrom_eq_ok {frame read : Frame decimals} :
    frame.readFrom = .ok read ↔
      DecodeLimits.standard.readBody frame.body = .ok () ∧ frame = read := by
  rw [Frame.readFrom, check_eq_ok, pure_eq_ok]

theorem readPointOfFrames_eq_ok {store : PointStore decimals} {aspect : AspectName}
    {series : Nat} {instant : Int} {found : Option BigDecimal} :
    readPointOfFrames store aspect series instant = .ok found ↔
      (∀ row ∈ store.seriesPresentDescriptors aspect series instant instant,
        DecodeLimits.standard.readBody (store.frame row).body = .ok ()) ∧
        store.readPointOf aspect series instant = found := by
  unfold readPointOfFrames PointStore.readPointOf
  generalize store.seriesPresentDescriptors aspect series instant instant = rows
  generalize (none : Option BigDecimal) = start
  induction rows generalizing start with
  | nil => simp [pure_eq_ok]
  | cons row rows ih =>
      rw [List.foldlM_cons, bind_eq_ok, List.forall_mem_cons, List.foldl_cons]
      simp only [bind_eq_ok, readFrom_eq_ok, pure_eq_ok, ih]
      constructor
      · rintro ⟨-, ⟨-, ⟨readable, rfl⟩, rfl⟩, others, rfl⟩
        exact ⟨⟨readable, others⟩, rfl⟩
      · rintro ⟨⟨readable, others⟩, rfl⟩
        exact ⟨_, ⟨_, ⟨readable, rfl⟩, rfl⟩, others, rfl⟩

theorem decodeAll_eq_ok {segments : List (Segment decimals)}
    {rows : List Int × List (Option BigDecimal)} :
    decodeAll segments = .ok rows ↔
      (∀ segment ∈ segments,
        DecodeLimits.standard.readBody (Frame.body (.singleBlock segment)) = .ok ()) ∧
        ((segments.map fun segment => segment.decodeNullable.1).flatten,
          (segments.map fun segment => segment.decodeNullable.2).flatten) = rows := by
  rw [decodeAll, bind_eq_ok]
  simp only [mapM_check_eq_ok, pure_eq_ok]
  constructor
  · rintro ⟨-, ⟨readable, rfl⟩, rfl⟩
    exact ⟨readable, by rw [List.map_map, List.map_map]; rfl⟩
  · rintro ⟨readable, rfl⟩
    exact ⟨_, ⟨readable, rfl⟩, by rw [List.map_map, List.map_map]; rfl⟩

section Import

variable {physicalType : PhysicalType} {chunks : List (List (Int × BigDecimal))}
  {segments : List (Segment decimals)}

variable (related : List.Forall₂ (Sealed decimals physicalType) chunks segments)

include related

theorem holds_segments (fits : ∀ item ∈ chunks.flatten, Word64.Fits item.1)
    (reads : Reads decimals (chunks.flatten.map Prod.snd)) :
    Holds (chunks.flatten.map Prod.fst) ((chunks.flatten.map Prod.snd).map some) 0
      ((segments.map fun segment => segment.decodeNullable.1).flatten,
        (segments.map fun segment => segment.decodeNullable.2).flatten) := by
  induction related with
  | nil => exact ⟨rfl, .nil⟩
  | @cons chunk segment chunks segments sealedChunk _ ih =>
      rw [List.flatten_cons, List.forall_mem_append] at fits
      rw [List.flatten_cons, List.map_append] at reads
      have rest := ih fits.2 fun value member => reads value (List.mem_append_right _ member)
      simp only [List.flatten_cons, List.map_append, List.map_cons]
      rw [sealedChunk.decodeNullable fits.1]
      refine ⟨congrArg _ rest.timestamps, List.rel_append ?_ rest.values⟩
      rw [List.map_map, List.forall₂_map_left_iff, List.forall₂_map_right_iff, List.forall₂_same]
      intro item member
      have own := toRat_stored
        (reads item.2 (List.mem_append_left _ (List.mem_map_of_mem member)))
        (sealedChunk.exactly item member)
      refine .some ?_
      rw [Within, own, sub_self, abs_zero]

theorem exists_whole :
    ∃ whole : Segment decimals, Sealed decimals physicalType chunks.flatten whole := by
  have admitted : ∀ item ∈ chunks.flatten,
      encodesExactly decimals physicalType item.2 = true := by
    intro item member
    obtain ⟨chunk, chunk_mem, held⟩ := List.mem_flatten.mp member
    obtain ⟨segment, -, sealedChunk⟩ := exists_of_forall₂ related chunk_mem
    exact sealedChunk.exactly item held
  have sealedRows : ∃ whole : Segment decimals,
      (declaredSchema physicalType).sealNullable (chunks.flatten.map Prod.fst)
        ((chunks.flatten.map Prod.snd).map some) = .ok whole := by
    refine exists_sealNullable.mpr
      ⟨by rw [List.length_map, List.length_map, List.length_map], toRat_zero.ge, ?_⟩
    rw [presentValues_map_some]
    exact List.forall_mem_map.mpr fun item member => admits_declaredSchema.mpr (admitted item member)
  obtain ⟨whole, done⟩ := sealedRows
  exact ⟨whole, sealDeclared_eq_ok.mpr done⟩

theorem readable_iff :
    (∀ segment ∈ segments,
        DecodeLimits.standard.readBody (Frame.body (.singleBlock segment)) = .ok ()) ↔
      ∀ chunk ∈ chunks, chunk.length ≤ maxFrameRows := by
  induction related with
  | nil => simp
  | cons sealedChunk _ ih =>
      rw [List.forall_mem_cons, List.forall_mem_cons, ih, sealedChunk.readBody_iff]

end Import

/-- What is read of an import: its rows, and points of it as of the one segment. -/
structure ReadsExactly (store : PointStore decimals) (aspect : AspectName)
    (segments : List (Segment decimals)) (rows : List (Int × BigDecimal))
    (whole : Segment decimals) : Prop where
  decodes : ∃ decoded, decodeAll segments = .ok decoded ∧
    Holds (rows.map Prod.fst) ((rows.map Prod.snd).map some) 0 decoded
  points : ∀ instant, readPointOfFrames store aspect 0 instant = .ok (whole.valueAt instant)

/-- Chunks which the store reads: of no more rows than a frame may have, and of a span which is a
word. -/
def Readable (chunks : List (List (Int × BigDecimal))) : Prop :=
  ∀ chunk ∈ chunks, chunk.length ≤ maxFrameRows ∧ NarrowSpan (chunk.map Prod.fst)

/-- The survey of a series chooses what is recommended for all its values, and the chunks part the
rows ordered by time.  Of a completed import exactly the rows of the series are read, and points of
it as of the one segment of all rows, if and only if no chunk is too long or too wide. -/
theorem import_reads_exactly_iff (decimals : Decimals) (table : List LegacyRow)
    (series : List (Int × BigDecimal)) (limit : Nat) (tabulates : Tabulates decimals table series)
    (fits : ∀ item ∈ series, Word64.Fits item.1)
    (reads : Reads decimals (series.map Prod.snd)) :
    surveyEncoding decimals table =
        .ok (recommendEncoding decimals (series.map Prod.snd) BigDecimal.zero).physicalType ∧
      Parts limit (StableOrder.sortBy Prod.fst series)
        (chunksOf limit (StableOrder.sortBy Prod.fst series)) ∧
      ∀ imported : Imported decimals, importSeries table limit = .ok imported →
        ∃ whole : Segment decimals,
          sealDeclared
              (declaredSchema
                (recommendEncoding decimals (series.map Prod.snd) BigDecimal.zero).physicalType)
              ((StableOrder.sortBy Prod.fst series).map Prod.fst)
              ((StableOrder.sortBy Prod.fst series).map Prod.snd) = .ok whole ∧
            ∀ (store : PointStore decimals) (aspect : AspectName),
              HoldsSegments store aspect imported.segments →
                (ReadsExactly store aspect imported.segments (StableOrder.sortBy Prod.fst series)
                    whole ↔
                  Readable (chunksOf limit (StableOrder.sortBy Prod.fst series))) := by
  have parts := parts_chunksOf limit (StableOrder.sorted_sortBy Prod.fst series)
  have perm := StableOrder.sortBy_perm Prod.fst series
  refine ⟨surveyEncoding_eq_recommended tabulates, parts, fun imported done => ?_⟩
  obtain ⟨segments, sealedChunks, rfl⟩ := (importSeries_eq_ok tabulates).mp done
  rw [physicalType_recommendEncoding]
  generalize StableOrder.sortBy Prod.fst series = ordered at parts perm sealedChunks
  generalize narrowest decimals (series.map Prod.snd) = chosen at sealedChunks
  have related : List.Forall₂ (Sealed decimals chosen) (chunksOf limit ordered) segments :=
    sealedChunks
  have rows_fit : ∀ item ∈ (chunksOf limit ordered).flatten, Word64.Fits item.1 :=
    fun item member => fits item (perm.mem_iff.mp (parts.whole ▸ member))
  have rows_read : Reads decimals ((chunksOf limit ordered).flatten.map Prod.snd) := by
    rw [parts.whole]
    exact fun value member => reads value ((perm.map _).mem_iff.mp member)
  have chunks_fit : ∀ chunk ∈ chunksOf limit ordered, ∀ item ∈ chunk, Word64.Fits item.1 :=
    fun chunk member item held => rows_fit item (List.mem_flatten_of_mem member held)
  obtain ⟨whole, sealedWhole⟩ := exists_whole related
  have valueAt := sealedWhole.valueAt rows_fit
  have rows := holds_segments related rows_fit rows_read
  rw [parts.whole] at sealedWhole rows
  refine ⟨whole, sealedWhole, fun store aspect holds => ⟨fun exact_reads => ?_, fun readable => ?_⟩⟩
  · obtain ⟨⟨decoded, done, -⟩, points⟩ := exact_reads
    have few := (readable_iff related).mp (decodeAll_eq_ok.mp done).1
    have narrow := narrow_of_readPointOf holds related parts.apart chunks_fit fun instant =>
      (readPointOfFrames_eq_ok.mp (points instant)).2.trans (valueAt instant)
    exact fun chunk member => ⟨few chunk member, narrow chunk member⟩
  · have frames := (readable_iff related).mpr fun chunk member => (readable chunk member).1
    refine ⟨⟨_, decodeAll_eq_ok.mpr ⟨frames, rfl⟩, rows⟩, fun instant => ?_⟩
    refine readPointOfFrames_eq_ok.mpr ⟨fun row found => ?_, ?_⟩
    · obtain ⟨segment, member, same, -⟩ :=
        exists_of_forall₂ holds.frames (List.mem_of_mem_filter found)
      rw [same]
      exact frames segment member
    · rw [valueAt]
      exact readPointOf_of_narrow holds related parts.apart chunks_fit
        (fun chunk member => (readable chunk member).2) instant

/-- A table of two rows. -/
def twoRows (low high : Int) : List LegacyRow :=
  [⟨.integer low, .text ['1']⟩, ⟨.integer high, .text ['2']⟩]

theorem tabulates_twoRows (low high : Int) :
    Tabulates wholeNumbers (twoRows low high) [(low, ⟨1, 0⟩), (high, ⟨2, 0⟩)] :=
  .cons ⟨rfl, ['1'], rfl, rfl⟩ (.cons ⟨rfl, ['2'], rfl, rfl⟩ .nil)

/-- The segment of both rows. -/
def twoRowSegment (low high : Int) : Segment wholeNumbers :=
  ⟨.buildNullable [low, high] [some ⟨1, 0⟩, some ⟨2, 0⟩] ⟨0, 0⟩, segmentFormatVersion⟩

variable {low high : Int}

theorem sortBy_pair (ordered : low ≤ high) (first second : BigDecimal) :
    StableOrder.sortBy Prod.fst [(low, first), (high, second)] =
      [(low, first), (high, second)] :=
  List.mergeSort_of_pairwise (List.pairwise_pair.mpr (decide_eq_true ordered))

theorem reads_digits : Reads wholeNumbers [⟨1, 0⟩, ⟨2, 0⟩] := by
  intro value member _
  simp only [List.mem_cons, List.not_mem_nil, or_false] at member
  rcases member with rfl | rfl
  · rw [show wholeNumbers.parse (BigDecimal.toPlainString ⟨1, 0⟩) = some ⟨1, 0⟩ by decide,
      Option.map_some]
  · rw [show wholeNumbers.parse (BigDecimal.toPlainString ⟨2, 0⟩) = some ⟨2, 0⟩ by decide,
      Option.map_some]

theorem sealDeclared_twoRows (low high : Int) :
    sealDeclared (declaredSchema (narrowest wholeNumbers [⟨1, 0⟩, ⟨2, 0⟩])) [low, high]
      [⟨1, 0⟩, ⟨2, 0⟩] = .ok (twoRowSegment low high) := by
  have domain : InDomain [⟨1, 0⟩, ⟨2, 0⟩] := by unfold InDomain; decide
  have encoded := @encodeColumn_narrowest wholeNumbers _ domain
  have small := (@recommendEncoding_keeps wholeNumbers _ BigDecimal.zero reads_digits domain
    toRat_zero.ge).2
  exact sealDeclared_eq_ok.mpr (sealNullable_eq_ok.mpr ⟨rfl, _, encoded, small, rfl⟩)

theorem importSeries_twoRows (ordered : low ≤ high) :
    importSeries (twoRows low high) 2 = .ok ⟨[twoRowSegment low high], 2, 1⟩ := by
  refine (importSeries_eq_ok (tabulates_twoRows low high)).mpr ⟨_, ?_, rfl⟩
  rw [sortBy_pair ordered]
  exact .cons (sealDeclared_twoRows low high) .nil

theorem holdsSegments_twoValuesStore {bound : Int} (ordered : low ≤ high)
    (covered : Word64.saturatingSub high low ≤ bound) (word : bound ≤ Word64.greatest) :
    HoldsSegments (twoValuesStore low high bound ordered) "price" [twoRowSegment low high] where
  frames := .cons ⟨rfl, rfl, rfl, rfl⟩ .nil
  covered row stored first last minTs maxTs := by
    obtain ⟨-, rfl⟩ := Prod.mk.inj (List.mem_singleton.mp (IndexDb.mem_rows.mp stored))
    obtain rfl := Option.some.inj minTs
    obtain rfl := Option.some.inj maxTs
    exact covered
  word := word

/-- Rows of two instants, each of which is there twice. -/
def repeatedRows : List LegacyRow :=
  twoRows (-5) (-5) ++ twoRows 5 5

def repeatedSeries : List (Int × BigDecimal) :=
  [(-5, ⟨1, 0⟩), (-5, ⟨2, 0⟩), (5, ⟨1, 0⟩), (5, ⟨2, 0⟩)]

theorem tabulates_repeatedRows : Tabulates wholeNumbers repeatedRows repeatedSeries :=
  .cons ⟨rfl, ['1'], rfl, rfl⟩ (.cons ⟨rfl, ['2'], rfl, rfl⟩ (tabulates_twoRows 5 5))

theorem sortBy_repeatedSeries : StableOrder.sortBy Prod.fst repeatedSeries = repeatedSeries :=
  StableOrder.sortBy_of_sorted (by unfold repeatedSeries; decide)

theorem narrowest_repeatedSeries :
    narrowest wholeNumbers (repeatedSeries.map Prod.snd) =
      narrowest wholeNumbers [⟨1, 0⟩, ⟨2, 0⟩] := by
  have digits : maxFractionalDigits wholeNumbers (repeatedSeries.map Prod.snd) =
      maxFractionalDigits wholeNumbers [⟨1, 0⟩, ⟨2, 0⟩] := by decide
  have both (keeps : BigDecimal → Bool) : (repeatedSeries.map Prod.snd).all keeps =
      [⟨1, 0⟩, ⟨2, 0⟩].all keeps := by
    cases first : keeps ⟨1, 0⟩ <;> cases second : keeps ⟨2, 0⟩ <;>
      simp [repeatedSeries, first, second]
  simp only [narrowest, digits, both]

theorem importSeries_repeatedRows :
    importSeries repeatedRows 2 =
      .ok ⟨[twoRowSegment (-5) (-5), twoRowSegment 5 5], 4, 2⟩ := by
  refine (importSeries_eq_ok tabulates_repeatedRows).mpr ⟨_, ?_, rfl⟩
  rw [narrowest_repeatedSeries, sortBy_repeatedSeries]
  exact .cons (sealDeclared_twoRows (-5) (-5)) (.cons (sealDeclared_twoRows 5 5) .nil)

/-- An index with a row of either instant. -/
def repeatedStore : PointStore wholeNumbers where
  handle := .opened
    { IndexDb.fresh with
      segments := ⟨[("price", rowSpanning (-5) (-5)),
        ("price", { rowSpanning 5 5 with desc := { (rowSpanning 5 5).desc with id := 2 } })],
        by decide⟩ }
  frame row := if row.desc.id = 1 then twoValues (-5) (-5) else twoValues 5 5
  maxPointBatch := 2
  described aspect row stored := by
    have member := IndexDb.mem_rows.mp stored
    obtain named | named := List.mem_pair.mp member
    · obtain ⟨-, rfl⟩ := Prod.mk.inj named
      exact ⟨rfl, rfl, trivial⟩
    · obtain ⟨-, rfl⟩ := Prod.mk.inj named
      exact ⟨rfl, rfl, trivial⟩

theorem holdsSegments_repeatedStore :
    HoldsSegments repeatedStore "price" [twoRowSegment (-5) (-5), twoRowSegment 5 5] where
  frames := .cons ⟨rfl, rfl, rfl, rfl⟩ (.cons ⟨rfl, rfl, rfl, rfl⟩ .nil)
  covered row stored first last minTs maxTs := by
    obtain named | named := List.mem_pair.mp (IndexDb.mem_rows.mp stored)
    all_goals
      obtain ⟨-, rfl⟩ := Prod.mk.inj named
      obtain rfl := Option.some.inj minTs
      obtain rfl := Option.some.inj maxTs
      decide
  word := by decide

/-- Two instants, each of which is there twice, are imported as two segments. -/
theorem import_reads_exactly_pair :
    ∃ (imported : Imported wholeNumbers) (whole : Segment wholeNumbers),
      importSeries repeatedRows 2 = .ok imported ∧ imported.segments.length = 2 ∧
        ReadsExactly repeatedStore "price" imported.segments repeatedSeries whole := by
  have read : Reads wholeNumbers (repeatedSeries.map Prod.snd) := fun value member =>
    (List.mem_append.mp member).elim (reads_digits value) (reads_digits value)
  obtain ⟨-, -, each⟩ := import_reads_exactly_iff wholeNumbers repeatedRows repeatedSeries 2
    tabulates_repeatedRows (by decide) read
  obtain ⟨whole, -, reads⟩ := each _ importSeries_repeatedRows
  rw [sortBy_repeatedSeries] at reads
  refine ⟨_, whole, importSeries_repeatedRows, rfl,
    (reads _ "price" holdsSegments_repeatedStore).mpr fun chunk member => ?_⟩
  obtain rfl | rfl := List.mem_pair.mp member
  · exact ⟨by decide, by unfold NarrowSpan; decide⟩
  · exact ⟨by decide, by unfold NarrowSpan; decide⟩

/-- An import completes exactly when every value lies in the decimal domain. -/
theorem importSeries_completes_iff {table : List LegacyRow} {series : List (Int × BigDecimal)}
    (limit : Nat) (tabulates : Tabulates decimals table series)
    (reads : Reads decimals (series.map Prod.snd)) :
    (∃ imported : Imported decimals, importSeries table limit = .ok imported) ↔
      InDomain (series.map Prod.snd) := by
  have whole := (parts_chunksOf limit (StableOrder.sorted_sortBy Prod.fst series)).whole
  have perm := StableOrder.sortBy_perm Prod.fst series
  constructor
  · rintro ⟨imported, done⟩
    obtain ⟨segments, related, -⟩ := (importSeries_eq_ok tabulates).mp done
    refine List.forall_mem_map.mpr fun item member => ?_
    rw [← perm.mem_iff, ← whole] at member
    obtain ⟨chunk, chunk_mem, held⟩ := List.mem_flatten.mp member
    obtain ⟨segment, -, sealedChunk⟩ := exists_of_forall₂ related chunk_mem
    obtain ⟨encoded, done, -⟩ :=
      admits_declaredSchema.mpr (Sealed.exactly sealedChunk item held)
    exact inDomain_of_encode done
  · intro domain
    have small := (recommendEncoding_keeps reads domain toRat_zero.ge).2
    have sealedWhole : ∃ whole : Segment decimals,
        (declaredSchema (narrowest decimals (series.map Prod.snd))).sealNullable
          (series.map Prod.fst) ((series.map Prod.snd).map some) = .ok whole := by
      refine ⟨_, sealNullable_eq_ok.mpr ⟨by simp, _, ?_, small, rfl⟩⟩
      rw [presentValues_map_some]
      exact encodeColumn_narrowest domain
    obtain ⟨-, -, admitted⟩ := exists_sealNullable.mp sealedWhole
    rw [presentValues_map_some] at admitted
    have chunks_sealed : ∀ chunk ∈ chunksOf limit (StableOrder.sortBy Prod.fst series),
        ∃ segment, Sealed decimals (narrowest decimals (series.map Prod.snd)) chunk segment := by
      intro chunk chunk_mem
      have own : ∃ segment : Segment decimals,
          (declaredSchema (narrowest decimals (series.map Prod.snd))).sealNullable
            (chunk.map Prod.fst) ((chunk.map Prod.snd).map some) = .ok segment := by
        refine exists_sealNullable.mpr ⟨by simp, toRat_zero.ge, ?_⟩
        rw [presentValues_map_some]
        refine List.forall_mem_map.mpr fun item held => ?_
        have member := List.mem_flatten_of_mem chunk_mem held
        rw [whole, perm.mem_iff] at member
        exact admitted _ (List.mem_map_of_mem member)
      obtain ⟨segment, done⟩ := own
      exact ⟨segment, sealDeclared_eq_ok.mpr done⟩
    obtain ⟨segments, related⟩ := exists_forall₂_of_forall chunks_sealed
    exact ⟨_, (importSeries_eq_ok tabulates).mpr ⟨segments, related, rfl⟩⟩

theorem importSeries_completes_pair :
    ∃ imported : Imported wholeNumbers, importSeries (twoRows (-5) 5) 2 = .ok imported :=
  (importSeries_completes_iff 2 (tabulates_twoRows (-5) 5) reads_digits).mpr
    (by unfold InDomain; decide)

/-- The values at both ends of time are imported as one segment, and the later one is not found. -/
theorem import_of_wide_series_misreads :
    ∃ imported : Imported wholeNumbers,
      importSeries (twoRows Word64.least Word64.greatest) 2 = .ok imported ∧
        HoldsSegments endsOfTimeStore "price" imported.segments ∧
        readPointOfFrames endsOfTimeStore "price" 0 Word64.greatest = .ok none ∧
        sealDeclared (declaredSchema (narrowest wholeNumbers [⟨1, 0⟩, ⟨2, 0⟩]))
            [Word64.least, Word64.greatest] [⟨1, 0⟩, ⟨2, 0⟩] =
          .ok (twoRowSegment Word64.least Word64.greatest) ∧
        (twoRowSegment Word64.least Word64.greatest).valueAt Word64.greatest = some ⟨2, 0⟩ := by
  refine ⟨_, importSeries_twoRows (by decide), ?_, ?_, sealDeclared_twoRows _ _, ?_⟩
  · exact holdsSegments_twoValuesStore _ (by decide) (by decide)
  · decide +kernel
  · decide +kernel

end Legacy

end WeftDb.Physical
