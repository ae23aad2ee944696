import WeftDb.Segment.Writers

/-!
# Which written frames a reader accepts

A frame which a writer sealed declares the counts of its own rows, so the reader's checks of one
column against another pass, and what remains of its limits is a bound on the rows and on the
pages.  No writer checks either.
-/

namespace WeftDb

/-- Rows and pages are few enough for a reader. -/
def Fits (rows : Nat) (rowsPerPage : Option Nat) : Prop :=
  rows ≤ maxFrameRows ∧ ∀ height, rowsPerPage = some height → rows ≤ maxFramePages * height

theorem length_deltas (timestamps : List Int) :
    (deltas timestamps).length = timestamps.length - 1 := by
  fun_induction deltas timestamps with
  | case1 first second later ih => simp [ih]
  | case2 timestamps short =>
      cases timestamps with
      | nil => rfl
      | cons first later =>
          cases later with
          | nil => rfl
          | cons second later => exact absurd rfl (short first second later)

theorem impliedTimestampRows_encode (timestamps : List Int) :
    impliedTimestampRows (encodeDeltaOfDelta timestamps) =
      if timestamps.length ≤ 1 then none else some timestamps.length := by
  have once := length_deltas timestamps
  have twice := length_deltas (deltas timestamps)
  unfold impliedTimestampRows encodeDeltaOfDelta
  cases stepped : deltas timestamps with
  | nil =>
      have short : timestamps.length ≤ 1 := by
        rw [stepped, List.length_nil] at once
        omega
      simp [short, deltas]
  | cons delta later =>
      rw [stepped] at once twice
      simp only [List.length_cons] at once twice
      have long : ¬timestamps.length ≤ 1 := by omega
      simp only [List.head?_cons, twice, long, ↓reduceIte, Option.some.injEq]
      omega

theorem count_nulls_le (values : List (Option BigDecimal)) :
    (values.map Option.isSome).count false ≤ values.length :=
  calc
    (values.map Option.isSome).count false ≤ (values.map Option.isSome).length :=
      List.count_le_length
    _ = values.length := List.length_map _

theorem length_presentValues (values : List (Option BigDecimal)) :
    (presentValues values).length = values.length - (values.map Option.isSome).count false := by
  induction values with
  | nil => rfl
  | cons value values ih =>
      have bound := count_nulls_le values
      cases value with
      | none => simpa [presentValues] using ih
      | some value =>
          simp only [presentValues, List.filterMap_cons, id] at ih ⊢
          simp only [List.length_cons, List.map_cons, Option.isSome_some, ih]
          simp only [List.count_cons, beq_iff_eq, reduceCtorEq, ↓reduceIte]
          omega

/-- What a sealed page declares of its rows. -/
structure Page.Holds (page : Page) (timestamps : List Int) (values : List (Option BigDecimal)) :
    Prop where
  rowCount : page.stats.rowCount = timestamps.length
  nullCount : page.stats.nullCount = (values.map Option.isSome).count false
  values : page.values = presentValues values
  timestamps : page.timestamps = encodeDeltaOfDelta timestamps

variable {values : List (Option BigDecimal)} {timestamps : List Int} {height : Nat} {α : Type}
  {rowsPerPage : Option Nat} {key : String}

theorem AspectSchema.holds_of_sealPageNullable {schema : AspectSchema} {page : Page}
    (written : schema.sealPageNullable timestamps values = .ok page) :
    page.Holds timestamps values := by
  simp only [sealPageNullable, check_eq_ok, pure_eq_ok] at written
  obtain ⟨-, rfl⟩ := written
  exact ⟨rfl, rfl, rfl, rfl⟩

theorem checkDecodeLimit_eq_ok {limit : String} {found max : Nat} :
    checkDecodeLimit limit found max = .ok () ↔ found ≤ max :=
  require_eq_ok

section Page

variable {page : Page} {timestamps : List Int} {values : List (Option BigDecimal)}
  {limits : DecodeLimits}

variable (holds : page.Holds timestamps values)

include holds

variable (columns : timestamps.length = values.length)

include columns

theorem Page.Holds.checked : checkSegmentColumns page = .ok () := by
  rw [checkSegmentColumns, check_eq_ok, require_eq_ok]
  refine ⟨?_, ?_⟩
  · rw [holds.values, length_presentValues, holds.rowCount, holds.nullCount, columns]
  · rw [holds.timestamps, impliedTimestampRows_encode]
    by_cases short : timestamps.length ≤ 1
    all_goals simp only [short, ↓reduceIte, require_eq_ok, holds.rowCount]

theorem Page.Holds.readSegmentStats_iff :
    limits.readSegmentStats page.stats = .ok () ↔ timestamps.length ≤ limits.maxRows := by
  have nulls := count_nulls_le values
  rw [DecodeLimits.readSegmentStats, check_eq_ok, checkDecodeLimit_eq_ok, require_eq_ok,
    holds.rowCount, holds.nullCount, columns]
  exact and_iff_left nulls

theorem Page.Holds.readColumns (few : timestamps.length ≤ limits.maxRows) :
    limits.readColumns page = .ok () := by
  rw [DecodeLimits.readColumns, check_eq_ok, check_eq_ok, checkDecodeLimit_eq_ok,
    checkDecodeLimit_eq_ok]
  have present := length_presentValues values
  have once := length_deltas timestamps
  have twice := length_deltas (deltas timestamps)
  have dods : page.timestamps.dods = deltas (deltas timestamps) := by rw [holds.timestamps]; rfl
  refine ⟨?_, ?_, holds.checked columns⟩
  · rw [holds.values]
    omega
  · rw [dods]
    omega

end Page

theorem length_chunksFrom (tall : 0 < height) :
    ∀ (fuel : Nat) (rows : List α), rows.length ≤ fuel →
      (chunksFrom height fuel rows).length = (rows.length + height - 1) / height
  | 0, [], _ => by
      rw [chunksFrom, List.length_nil, Nat.div_eq_of_lt]
      simp only [List.length_nil]
      omega
  | fuel + 1, [], _ => by
      rw [chunksFrom, List.length_nil, Nat.div_eq_of_lt]
      simp only [List.length_nil]
      omega
  | fuel + 1, row :: rows, enough => by
      have shorter : ((row :: rows).drop height).length ≤ fuel := by
        simp only [List.length_drop, List.length_cons] at enough ⊢
        omega
      rw [chunksFrom, List.length_cons, length_chunksFrom tall fuel _ shorter, List.length_drop]
      by_cases long : height ≤ (row :: rows).length
      · have split : (row :: rows).length + height - 1 =
            ((row :: rows).length - height + height - 1) + height := by omega
        rw [split, Nat.add_div_right _ tall]
      · have last : (row :: rows).length - height + height - 1 < height := by omega
        have whole : (row :: rows).length + height - 1 =
            ((row :: rows).length - 1) + height := by simp only [List.length_cons]; omega
        rw [Nat.div_eq_of_lt last, whole, Nat.add_div_right _ tall, Nat.div_eq_of_lt (by omega)]

theorem chunksFrom_zip (tall : 0 < height) :
    ∀ (fuel : Nat) (timestamps : List Int) (values : List (Option BigDecimal)),
      timestamps.length = values.length → timestamps.length ≤ fuel →
        (∀ page ∈ (chunksFrom height fuel timestamps).zip (chunksFrom height fuel values),
          page.1.length = page.2.length ∧ page.1.length ≤ timestamps.length) ∧
        (((chunksFrom height fuel timestamps).zip (chunksFrom height fuel values)).map
          fun page => page.1.length).sum = timestamps.length ∧
        (((chunksFrom height fuel timestamps).zip (chunksFrom height fuel values)).map
          fun page => (page.2.map Option.isSome).count false).sum =
            (values.map Option.isSome).count false := by
  intro fuel
  induction fuel with
  | zero =>
      intro timestamps values columns enough
      obtain rfl := List.length_eq_zero_iff.mp (Nat.le_zero.mp enough)
      obtain rfl := List.length_eq_zero_iff.mp columns.symm
      simp [chunksFrom]
  | succ fuel ih =>
      intro timestamps values columns enough
      cases timestamps with
      | nil =>
          obtain rfl := List.length_eq_zero_iff.mp columns.symm
          simp [chunksFrom]
      | cons first timestamps =>
          cases values with
          | nil => simp at columns
          | cons value values =>
              have heights : ((first :: timestamps).drop height).length =
                  ((value :: values).drop height).length := by
                simp only [List.length_drop, columns]
              have shorter : ((first :: timestamps).drop height).length ≤ fuel := by
                simp only [List.length_drop, List.length_cons] at enough ⊢
                omega
              obtain ⟨each, rows, nulls⟩ := ih _ _ heights shorter
              simp only [chunksFrom, List.zip_cons_cons, List.map_cons, List.sum_cons,
                List.forall_mem_cons, rows, nulls]
              refine ⟨⟨⟨?_, ?_⟩, fun page member => ⟨(each page member).1, ?_⟩⟩, ?_, ?_⟩
              · simp only [List.length_take, columns]
              · exact (List.take_sublist _ _).length_le
              · refine (each page member).2.trans ?_
                simp only [List.length_drop]
                omega
              · rw [← List.length_append, List.take_append_drop]
              · rw [← List.count_append, ← List.map_append, List.take_append_drop, List.map_cons]

theorem length_chunks_le_iff {pages : Nat} (tall : 0 < height) (rows : List α) :
    (chunks height rows).length ≤ pages ↔ rows.length ≤ pages * height := by
  rw [chunks, length_chunksFrom tall _ _ le_rfl, ← Nat.lt_succ_iff, Nat.div_lt_iff_lt_mul tall,
    Nat.succ_mul]
  omega

section Body

variable {schema : AspectSchema} {timestamps : List Int} {values : List (Option BigDecimal)}
  {body : FrameBody}
variable {left : List α}

theorem Page.Holds.readBody_iff {page : Page} (holds : page.Holds timestamps values)
    (columns : timestamps.length = values.length) :
    DecodeLimits.standard.readBody (.single page) = .ok () ↔
      timestamps.length ≤ maxFrameRows := by
  rw [DecodeLimits.readBody, check_eq_ok, holds.readSegmentStats_iff columns]
  exact ⟨And.left, fun few => ⟨few, holds.readColumns columns few⟩⟩

theorem readBody_sealNullable_iff (written : schema.sealNullable timestamps values = .ok body) :
    DecodeLimits.standard.readBody body = .ok () ↔ Fits timestamps.length none := by
  rw [AspectSchema.sealNullable, check_eq_ok, require_eq_ok, bind_eq_ok] at written
  obtain ⟨columns, page, done, whole⟩ := written
  obtain rfl := pure_eq_ok.mp whole
  rw [(AspectSchema.holds_of_sealPageNullable done).readBody_iff columns]
  constructor
  · exact fun few => ⟨few, fun height paged => by cases paged⟩
  · exact And.left

theorem holds_of_sealPagedNullable
    (written : schema.sealPagedNullable timestamps values height = .ok body) :
    timestamps.length = values.length ∧ 0 < height ∧ ∃ pages,
      body = .paged height pages ⟨timestamps.length, (values.map Option.isSome).count false⟩ ∧
      List.Forall₂ (fun (rows : List Int × List (Option BigDecimal)) (page : Page) =>
        page.Holds rows.1 rows.2)
          ((chunks height timestamps).zip (chunks height values)) pages := by
  rw [AspectSchema.sealPagedNullable, check_eq_ok, require_eq_ok, check_eq_ok, require_eq_ok,
    bind_eq_ok] at written
  obtain ⟨columns, tall, pages, done, whole⟩ := written
  obtain rfl := pure_eq_ok.mp whole
  refine ⟨columns, Nat.pos_of_ne_zero tall, pages, rfl, ?_⟩
  exact (mapM_eq_ok.mp done).imp fun rows page => AspectSchema.holds_of_sealPageNullable

theorem forall_right_of_forall₂ {β : Type} {relation : α → β → Prop} {right : List β}
    (related : List.Forall₂ relation left right) {property : β → Prop}
    (each : ∀ item ∈ left, ∀ other, relation item other → property other) :
    ∀ other ∈ right, property other := by
  induction related with
  | nil => simp
  | cons first later ih =>
      rw [List.forall_mem_cons] at each ⊢
      exact ⟨each.1 _ first, ih each.2⟩

theorem sum_eq_of_forall₂ {β : Type} {relation : α → β → Prop} {right : List β}
    (related : List.Forall₂ relation left right) {weight : α → Nat} {count : β → Nat}
    (each : ∀ item other, relation item other → count other = weight item) :
    (right.map count).sum = (left.map weight).sum := by
  induction related with
  | nil => rfl
  | cons first later ih => simp only [List.map_cons, List.sum_cons, ih, each _ _ first]

theorem readBody_sealPagedNullable_iff
    (written : schema.sealPagedNullable timestamps values height = .ok body) :
    DecodeLimits.standard.readBody body = .ok () ↔ Fits timestamps.length (some height) := by
  obtain ⟨columns, tall, pages, rfl, sealedPages⟩ := holds_of_sealPagedNullable written
  obtain ⟨heights, rows, nulls⟩ :=
    chunksFrom_zip tall timestamps.length timestamps values columns le_rfl
  have count : pages.length = (chunks height timestamps).length := by
    rw [← sealedPages.length_eq, List.length_zip, chunks, chunks, length_chunksFrom tall _ _ le_rfl,
      length_chunksFrom tall _ _ le_rfl, columns, min_self]
  have rolledRows : (pages.map fun page => page.stats.rowCount).sum = timestamps.length := by
    rw [sum_eq_of_forall₂ sealedPages fun rows page holds => holds.rowCount, chunks, chunks,
      ← columns, rows]
  have rolledNulls : (pages.map fun page => page.stats.nullCount).sum =
      (values.map Option.isSome).count false := by
    rw [sum_eq_of_forall₂ sealedPages fun rows page holds => holds.nullCount, chunks, chunks,
      ← columns, nulls]
  have header : DecodeLimits.standard.readSegmentStats
      ⟨timestamps.length, (values.map Option.isSome).count false⟩ = .ok () ↔
        timestamps.length ≤ maxFrameRows := by
    rw [DecodeLimits.readSegmentStats, check_eq_ok, checkDecodeLimit_eq_ok, require_eq_ok, columns]
    exact and_iff_left (count_nulls_le values)
  have blocks (few : timestamps.length ≤ maxFrameRows) : ∀ page ∈ pages,
      DecodeLimits.standard.readSegmentStats page.stats = .ok () ∧
        DecodeLimits.standard.readColumns page = .ok () := by
    refine forall_right_of_forall₂ sealedPages fun item member page holds => ?_
    rw [chunks, chunks, ← columns] at member
    obtain ⟨equal, within⟩ := heights item member
    exact ⟨(holds.readSegmentStats_iff equal).mpr (within.trans few),
      holds.readColumns equal (within.trans few)⟩
  rw [DecodeLimits.readBody, check_eq_ok, header, check_eq_ok, checkDecodeLimit_eq_ok, count,
    length_chunks_le_iff tall, check_eq_ok, forM_eq_ok, check_eq_ok, forM_eq_ok]
  constructor
  · rintro ⟨few, fewPages, -⟩
    refine ⟨few, fun other paged => ?_⟩
    cases paged
    exact fewPages
  · rintro ⟨few, fewPages⟩
    refine ⟨few, fewPages height rfl, fun page member => (blocks few page member).1,
      fun page member => (blocks few page member).2, ?_⟩
    rw [check_eq_ok, require_eq_ok, require_eq_ok]
    exact ⟨rolledRows, rolledNulls⟩

theorem readBody_sealShaped_iff
    (written : schema.sealShaped timestamps values rowsPerPage = .ok body) :
    DecodeLimits.standard.readBody body = .ok () ↔ Fits timestamps.length rowsPerPage := by
  cases rowsPerPage with
  | none => exact readBody_sealNullable_iff written
  | some height => exact readBody_sealPagedNullable_iff written

theorem readFrame_tagFrame_iff :
    DecodeLimits.standard.readFrame (tagFrame body key) = .ok () ↔
      DecodeLimits.standard.readBody body = .ok () := by
  rw [DecodeLimits.readFrame, check_eq_ok, checkDecodeLimit_eq_ok]
  refine and_iff_right ?_
  unfold tagFrame
  split <;> simp [DecodeLimits.standard, maxFrameExtensions]

end Body

namespace FrameWriter

variable {writer : FrameWriter} {frames : List Frame}

theorem readFrame_sealRows_iff {rows : List Row} {frame : Frame}
    (written : (do return tagFrame (← writer.sealRows rows rowsPerPage) key) = Except.ok frame) :
    DecodeLimits.standard.readFrame frame = .ok () ↔ Fits rows.length rowsPerPage := by
  rw [bind_eq_ok] at written
  obtain ⟨body, done, whole⟩ := written
  obtain rfl := pure_eq_ok.mp whole
  rw [readFrame_tagFrame_iff, readBody_sealShaped_iff (mapError_eq_ok.mp done), List.length_map]

theorem readFrames_iff {stretches : List (List Row)}
    (written : (stretches.mapM fun rows => do
      return tagFrame (← writer.sealRows rows rowsPerPage) key) = Except.ok frames) :
    (∀ frame ∈ frames, DecodeLimits.standard.readFrame frame = .ok ()) ↔
      ∀ rows ∈ stretches, Fits rows.length rowsPerPage :=
  forall_mapM_iff written fun _ _ _ sealedRows => readFrame_sealRows_iff sealedRows

theorem ingestFrames_iff {batch : IngestBatch} (written : writer.ingestFrames batch = .ok frames) :
    (∀ frame ∈ frames, DecodeLimits.standard.readFrame frame = .ok ()) ↔
      ∀ whole,
        writer.schema.sealShaped batch.timestamps batch.values batch.rowsPerPage = .ok whole →
        if writer.encodedBytes whole ≤ ingestFrameTarget batch.groups then
          Fits (batch.timestamps.zip batch.values).length batch.rowsPerPage
        else
          ∀ chunk ∈ chunkIngestRows (batch.timestamps.zip batch.values)
              (ingestFrameTarget batch.groups), Fits chunk.length batch.rowsPerPage := by
  rw [ingestFrames, bind_eq_ok] at written
  obtain ⟨whole, encoded, written⟩ := written
  obtain ⟨chunks, cut, written⟩ := bind_eq_ok.mp written
  have encoded := mapError_eq_ok.mp encoded
  rw [readFrames_iff written, encoded]
  simp only [Except.ok.injEq, forall_eq']
  rw [ingestChunks] at cut
  split at cut
  · next fits =>
      obtain rfl := pure_eq_ok.mp cut
      simp [fits]
  · next past =>
      obtain ⟨-, cut⟩ := check_eq_ok.mp cut
      obtain rfl := pure_eq_ok.mp cut
      simp [past]

theorem fits_mergeRowsPerPage_iff {rows merged : Nat} :
    Fits rows (mergeRowsPerPage merged) ↔ rows ≤ maxFrameRows := by
  refine and_iff_left_of_imp fun few height paged => ?_
  unfold mergeRowsPerPage at paged
  split at paged
  · cases paged
    refine few.trans ?_
    decide
  · cases paged

end FrameWriter

/-- The rows of every frame of a call are few enough for its reader. -/
def FrameWrite.InsideLimits (writer : FrameWriter) : FrameWrite → Prop
  | .direct timestamps _ rowsPerPage => Fits timestamps.length rowsPerPage
  | .ingest batch =>
      ∀ whole,
        writer.schema.sealShaped batch.timestamps batch.values batch.rowsPerPage = .ok whole →
        if writer.encodedBytes whole ≤ ingestFrameTarget batch.groups then
          Fits (batch.timestamps.zip batch.values).length batch.rowsPerPage
        else
          ∀ chunk ∈ chunkIngestRows (batch.timestamps.zip batch.values)
              (ingestFrameTarget batch.groups), Fits chunk.length batch.rowsPerPage
  | .merge members cuts _ =>
      ∀ stretch ∈ cutRows (foldNewestWins members) cuts, stretch.length ≤ maxFrameRows

/-- A writer whose schema represents every value. -/
def plainWriter : FrameWriter where
  schema := ⟨fun _ => .ok ()⟩
  encodedBytes := fun _ => 0

/-- Two frames which share an instant. -/
def sharedInstant : List DecodedFrame :=
  [⟨none, [5, 6], [none, none]⟩, ⟨none, [6, 7], [none, none]⟩]

theorem foldNewestWins_sharedInstant :
    foldNewestWins sharedInstant = [(5, none), (6, none), (7, none)] := by
  have first : (⟨none, [5, 6], [none, none]⟩ : DecodedFrame).sortedRows =
      [(5, none), (6, none)] := List.mergeSort_of_pairwise (by decide)
  have second : (⟨none, [6, 7], [none, none]⟩ : DecodedFrame).sortedRows =
      [(6, none), (7, none)] := List.mergeSort_of_pairwise (by decide)
  rw [foldNewestWins, sharedInstant, List.foldl_cons, List.foldl_cons, List.foldl_nil, first,
    second]
  simp [mergeNewerWins]

theorem cutRows_sharedInstant : cutRows (foldNewestWins sharedInstant) [6] =
    [[(5, none)], [(6, none), (7, none)]] := by
  rw [foldNewestWins_sharedInstant, cutRows, List.mergeSort_singleton]
  rfl

theorem exists_sealPagedNullable (columns : timestamps.length = values.length) (tall : height ≠ 0) :
    ∃ body, plainWriter.schema.sealPagedNullable timestamps values height = .ok body := by
  obtain ⟨pages, done⟩ :
      ∃ pages, ((chunks height timestamps).zip (chunks height values)).mapM
        (fun rows => plainWriter.schema.sealPageNullable rows.1 rows.2) = .ok pages :=
    exists_mapM_eq_ok (fun rows => ⟨_, rfl⟩) _
  refine ⟨.paged height pages
    (fromColumnsNullable timestamps ((values.map Option.isSome).count false)), ?_⟩
  rw [AspectSchema.sealPagedNullable, check_eq_ok, require_eq_ok, check_eq_ok, require_eq_ok,
    bind_eq_ok]
  exact ⟨columns, tall, pages, done, rfl⟩

end WeftDb
