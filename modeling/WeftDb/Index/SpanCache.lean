import WeftDb.Index.HandleRuns
import WeftDb.Index.Isolation

/-!
# Pruning through the span bounds

A prune seeks rows from a floor below its window on.  It misses none of them if the bound it
seeks under covers the span of every committed row: the bound is widened before a row can be
committed, measured in the index only after the row is, and checked again after the query.
Differences of timestamps saturate, so the bound covers the rows whose span is a word.
-/

namespace WeftDb

/-- The bounds of a row are words in order, as the index stores them. -/
def IndexRow.Ordered (row : IndexRow) : Prop :=
  ∀ low high, row.desc.minTs = some low → row.desc.maxTs = some high →
    Word64.Fits low ∧ Word64.Fits high ∧ low ≤ high

/-- The span of a row is itself a word. -/
def IndexRow.Measurable (row : IndexRow) : Prop :=
  ∀ low high, row.desc.minTs = some low → row.desc.maxTs = some high →
    high - low ≤ Word64.greatest

/-- Whether a row counts under a key. -/
def IndexRow.Under (row : IndexRow) (key : SpanKey) : Prop :=
  ∀ series, key.2 = some series → row.seriesId = series

variable {query : PruneQuery} {row : IndexRow} {db : IndexDb} {key : SpanKey} {ops : List IndexOp}
  {aspect : AspectName}

theorem PruneQuery.ofSeries_iff : query.ofSeries row = true ↔ row.Under query.key := by
  unfold PruneQuery.ofSeries IndexRow.Under PruneQuery.key
  cases query.series with
  | none => simp
  | some series => simp

/-- Every row of an index is ordered and measurable. -/
def IndexDb.Measurable (db : IndexDb) : Prop :=
  ∀ aspect, ∀ row ∈ db.rows aspect, row.Ordered ∧ row.Measurable

/-- No row under a key is wider than a bound. -/
def IndexDb.Bounded (db : IndexDb) (key : SpanKey) (bound : Int) : Prop :=
  ∀ row ∈ db.rows key.1, row.Under key → ∀ low high, row.desc.minTs = some low →
    row.desc.maxTs = some high → high - low ≤ bound

/-- The rows which a transaction writes are ordered and measurable. -/
def MeasurableOps (ops : List IndexOp) : Prop :=
  ∀ op ∈ ops, ∀ put ∈ op.puts, put.2.Ordered ∧ put.2.Measurable

theorem IndexDb.Bounded.mono {narrow wide : Int} (bounded : db.Bounded key narrow)
    (le : narrow ≤ wide) : db.Bounded key wide :=
  fun row member under low high first last =>
    (bounded row member under low high first last).trans le

theorem IndexDb.seek_eq_overlapping {bound : Int} (measurable : db.Measurable)
    (bounded : db.Bounded query.key bound) :
    db.seek query (Word64.saturatingSub query.start bound) = db.overlapping query := by
  refine List.filter_congr fun row member => ?_
  unfold SegmentDescriptor.overlapsTime SegmentDescriptor.timeRange
  cases first : row.desc.minTs with
  | none => simp
  | some low =>
      cases last : row.desc.maxTs with
      | none => simp
      | some high =>
          rw [Bool.eq_iff_iff]
          simp only [Bool.and_eq_true, decide_eq_true_eq]
          refine ⟨fun ⟨⟨_, overlaps⟩, admitted⟩ => ⟨overlaps, admitted⟩,
            fun ⟨overlaps, admitted⟩ => ⟨⟨?_, overlaps⟩, admitted⟩⟩
          have ofSeries : query.ofSeries row = true := by
            unfold PruneQuery.admits at admitted
            exact (Bool.and_eq_true_iff.mp admitted).1
          have span := bounded row member (PruneQuery.ofSeries_iff.mp ofSeries) low high first last
          refine Word64.saturatingSub_le ((measurable _ row member).1 low high first last).1 ?_
          omega

theorem IndexDb.bounded_widestSpan (measurable : db.Measurable) :
    db.Bounded query.key (db.widestSpan query) := by
  intro row member under low high first last
  unfold widestSpan
  generalize spans_eq : ((db.rows query.aspect).filter query.ofSeries).filterMap _ = spans
  have span_mem : high - low ∈ spans := by
    rw [← spans_eq, List.mem_filterMap]
    exact ⟨row, List.mem_filter.mpr ⟨member, PruneQuery.ofSeries_iff.mpr under⟩,
      by simp [first, last]⟩
  cases widest : spans.max? with
  | none => simp [List.max?_eq_none_iff.mp widest] at span_mem
  | some width =>
      obtain ⟨width_mem, most⟩ := List.max?_eq_some_iff.mp widest
      have fits : Word64.Fits width := by
        rw [← spans_eq, List.mem_filterMap] at width_mem
        obtain ⟨other, other_mem, same⟩ := width_mem
        have stored := (List.mem_filter.mp other_mem).1
        split at same
        · rename_i top bottom last' first'
          cases same
          obtain ⟨_, _, ordered⟩ := (measurable _ other stored).1 bottom top first' last'
          have narrow := (measurable _ other stored).2 bottom top first' last'
          simp only [Word64.Fits, Word64.least, Word64.greatest] at narrow ⊢
          omega
        · cases same
      simp only [if_pos fits]
      exact most _ span_mem

theorem mem_rowSpans {op : IndexOp} {low high : Int} (measurable : MeasurableOps ops)
    (member : op ∈ ops) (put : (aspect, row) ∈ op.puts) (first : row.desc.minTs = some low)
    (last : row.desc.maxTs = some high) : (aspect, row.seriesId, high - low) ∈ rowSpans ops := by
  obtain ⟨ordered, narrow⟩ := measurable op member _ put
  obtain ⟨_, _, le⟩ := ordered low high first last
  have fits : Word64.Fits (high - low) := by
    have narrow := narrow low high first last
    simp only [Word64.Fits, Word64.least, Word64.greatest] at narrow ⊢
    omega
  refine List.mem_filterMap.mpr ⟨op, member, ?_⟩
  cases op with
  | insertNew own stored | replaceExpected own expected stored | upsert own stored =>
      rw [IndexOp.puts, List.mem_singleton, Prod.mk.injEq] at put
      obtain ⟨rfl, rfl⟩ := put
      simp [IndexOp.rowSpan, first, last, Word64.saturatingSub, Word64.saturate_of_fits fits]
  | _ => simp [IndexOp.puts] at put

namespace IndexHandle

variable {handle after : IndexHandle} {ending : TxnEnd} {call next : IndexCall}

/-- The bounds over a row's aspect and series reach its span. -/
def Covers (handle : IndexHandle) (span : AspectName × Nat × Int) : Prop :=
  span.2.2 ≤ (handle.spans (span.1, none)).widest ∧
    span.2.2 ≤ (handle.spans (span.1, some span.2.1)).widest

/-- Every row is measurable, and a loaded bound reaches every row under its key. -/
structure Sound (handle : IndexHandle) : Prop where
  measurable : handle.db.Measurable
  loaded : ∀ key, (handle.spans key).loaded = true →
    handle.db.Bounded key (handle.spans key).widest

/-- What a prune found is what its query selects, and the bound still reaches what it read. -/
structure Seen (handle : IndexHandle) (query : PruneQuery) (seen : PruneSeen) : Prop where
  rows : seen.rows = seen.asOf.seek query (Word64.saturatingSub query.start seen.widest)
  measurable : seen.asOf.Measurable
  bounded : seen.asOf.Bounded query.key (handle.spans query.key).widest

/-- What holds of a call between two of its steps. -/
def Holds (handle : IndexHandle) : IndexCall → Prop
  | .widening ops left =>
      MeasurableOps ops ∧ ∀ span ∈ rowSpans ops, span ∈ left ∨ handle.Covers span
  | .bounding query seen | .measuring query seen =>
      ∀ found, seen = some found → handle.Seen query found
  | .measured query seen indexed =>
      (∀ found, seen = some found → handle.Seen query found) ∧
        handle.db.Bounded query.key (max (handle.spans query.key).widest indexed)
  | .seeking query widest =>
      (handle.spans query.key).loaded = true ∧ widest ≤ (handle.spans query.key).widest
  | .pruned query seen => seen.rows = seen.asOf.overlapping query
  | _ => True

/-- Bounds only widen, and reach every row which is new. -/
structure Grows (handle after : IndexHandle) : Prop where
  widest : ∀ key, (handle.spans key).widest ≤ (after.spans key).widest
  loaded : ∀ key, (handle.spans key).loaded = true → (after.spans key).loaded = true
  rows : ∀ aspect, ∀ row ∈ after.db.rows aspect, row ∈ handle.db.rows aspect ∨
    ((row.Ordered ∧ row.Measurable) ∧
      ∀ low high, row.desc.minTs = some low → row.desc.maxTs = some high →
        handle.Covers (aspect, row.seriesId, high - low))

theorem Grows.refl (handle : IndexHandle) : handle.Grows handle :=
  ⟨fun _ => le_rfl, fun _ => id, fun _ _ member => .inl member⟩

theorem Grows.covers (grows : handle.Grows after) {span : AspectName × Nat × Int}
    (covers : handle.Covers span) : after.Covers span :=
  ⟨covers.1.trans (grows.widest _), covers.2.trans (grows.widest _)⟩

theorem Covers.under {span : Int} {series : Option Nat}
    (covers : handle.Covers (aspect, row.seriesId, span)) (under : row.Under (aspect, series)) :
    span ≤ (handle.spans (aspect, series)).widest := by
  cases series with
  | none => exact covers.1
  | some series => exact under series rfl ▸ covers.2

theorem Grows.bounded (grows : handle.Grows after) {bound : Int}
    (bounded : handle.db.Bounded key bound) (le : (handle.spans key).widest ≤ bound) :
    after.db.Bounded key bound := by
  intro row member under low high first last
  rcases grows.rows key.1 row member with kept | ⟨_, covers⟩
  · exact bounded row kept under low high first last
  · exact ((covers low high first last).under under).trans le

theorem Seen.grows {seen : PruneSeen} (found : handle.Seen query seen)
    (grows : handle.Grows after) : after.Seen query seen :=
  ⟨found.rows, found.measurable, found.bounded.mono (grows.widest _)⟩

theorem Holds.grows (holds : handle.Holds call) (grows : handle.Grows after) :
    after.Holds call := by
  cases call with
  | widening ops left =>
      refine ⟨holds.1, fun span member => ?_⟩
      rcases holds.2 span member with left | covers
      · exact .inl left
      · exact .inr (grows.covers covers)
  | bounding query seen => exact fun found same => (holds found same).grows grows
  | measuring query seen => exact fun found same => (holds found same).grows grows
  | measured query seen indexed =>
      refine ⟨fun found same => (holds.1 found same).grows grows, ?_⟩
      exact (grows.bounded holds.2 (le_max_left _ _)).mono
        (max_le_max_right indexed (grows.widest _))
  | seeking query widest => exact ⟨grows.loaded _ holds.1, holds.2.trans (grows.widest _)⟩
  | pruned query seen => exact holds
  | _ => trivial

theorem widest_updated (spans : SpanKey → SpanBound) (key other : SpanKey) (span : Int) :
    (spans other).widest ≤ (updated spans key (·.widen span) other).widest := by
  unfold updated
  split
  · exact le_max_left _ _
  · exact le_rfl

theorem loaded_updated (spans : SpanKey → SpanBound) (key other : SpanKey) (span : Int) :
    (updated spans key (·.widen span) other).loaded = (spans other).loaded := by
  unfold updated
  split <;> rfl

theorem covers_widen (span : AspectName × Nat × Int) : (handle.widen span).Covers span := by
  obtain ⟨aspect, series, width⟩ := span
  constructor
  · simp [widen, updated, SpanBound.widen]
  · simp [widen, updated, SpanBound.widen]

theorem grows_widen (span : AspectName × Nat × Int) : handle.Grows (handle.widen span) where
  widest key := (widest_updated _ _ _ _).trans (widest_updated _ _ _ _)
  loaded key loaded := by
    simp only [widen, loaded_updated]
    exact loaded
  rows aspect row member := .inl member

theorem grows_loadBound (key : SpanKey) (indexed : Int) :
    handle.Grows (handle.loadBound key indexed) where
  widest other := by
    simp only [loadBound, updated]
    split
    · exact le_max_left _ _
    · exact le_rfl
  loaded other loaded := by
    simp only [loadBound, updated]
    split
    · rfl
    · exact loaded
  rows aspect row member := .inl member

theorem grows_commit (holds : handle.Holds (.widening ops []))
    (applied : handle.db.applyAll ops = .ok db) : handle.Grows { handle with db } where
  widest key := le_rfl
  loaded key := id
  rows aspect row member := by
    obtain ⟨measurable, covered⟩ := holds
    have stored : row ∈ db.stored aspect :=
      IndexDb.mem_stored.mpr (IndexDb.mem_rows.mp member)
    rcases IndexDb.mem_stored_of_applyAll applied stored with kept | ⟨op, op_mem, put⟩
    · exact .inl (IndexDb.mem_rows.mpr (IndexDb.mem_stored.mp kept))
    · refine .inr ⟨measurable op op_mem _ put, fun low high first last => ?_⟩
      rcases covered _ (mem_rowSpans measurable op_mem put first last) with left | covers
      · cases left
      · exact covers

theorem Advances.grows (advances : handle.Advances ending call after next)
    (holds : handle.Holds call) : handle.Grows after := by
  cases advances with
  | widen => exact grows_widen _
  | land _ applied => exact grows_commit holds applied
  | fold => exact grows_loadBound _ _
  | forget => exact ⟨fun _ => le_rfl, fun _ => id, fun _ _ member => .inl member⟩
  | put => exact ⟨fun _ => le_rfl, fun _ => id, fun _ _ member => .inl member⟩
  | _ => exact .refl handle

theorem Advances.loads_bound (advances : handle.Advances ending call after next)
    (loaded : (after.spans key).loaded = true) :
    (handle.spans key).loaded = true ∨
      ∃ query seen indexed, call = .measured query seen indexed ∧ query.key = key ∧
        after = handle.loadBound key indexed := by
  cases advances with
  | widen =>
      simp only [IndexHandle.widen, loaded_updated] at loaded
      exact .inl loaded
  | @fold query seen indexed =>
      simp only [loadBound, updated] at loaded
      split at loaded
      · rename_i same
        exact .inr ⟨query, seen, indexed, rfl, same.symm, same ▸ rfl⟩
      · exact .inl loaded
  | _ => exact .inl loaded

theorem widest_loadBound (key : SpanKey) (indexed : Int) :
    ((handle.loadBound key indexed).spans key).widest =
      max (handle.spans key).widest indexed := by
  simp [loadBound, updated, SpanBound.load, SpanBound.widen]

theorem Advances.sound (advances : handle.Advances ending call after next) (sound : handle.Sound)
    (holds : handle.Holds call) : after.Sound where
  measurable aspect row member := by
    rcases (advances.grows holds).rows aspect row member with kept | ⟨measurable, _⟩
    · exact sound.measurable aspect row kept
    · exact measurable
  loaded key loaded := by
    have grows := advances.grows holds
    rcases advances.loads_bound loaded with earlier | ⟨query, seen, indexed, rfl, rfl, rfl⟩
    · exact (grows.bounded (sound.loaded key earlier) le_rfl).mono (grows.widest key)
    · rw [widest_loadBound]
      exact holds.2

theorem holds_check {seen : Option PruneSeen}
    (found : ∀ earlier, seen = some earlier → handle.Seen query earlier)
    (loaded : (handle.spans query.key).loaded = true) :
    handle.Holds (query.check seen (handle.spans query.key).widest) := by
  cases seen with
  | none => exact ⟨loaded, le_rfl⟩
  | some earlier =>
      simp only [PruneQuery.check]
      split
      · rename_i same
        have seen := found earlier rfl
        change earlier.rows = earlier.asOf.overlapping query
        rw [seen.rows, ← same]
        exact IndexDb.seek_eq_overlapping seen.measurable seen.bounded
      · exact ⟨loaded, le_rfl⟩

theorem bound_eq_some {now : Int} (found : handle.bound key = some now) :
    (handle.spans key).loaded = true ∧ (handle.spans key).widest = now := by
  unfold bound at found
  split at found
  · rename_i loaded
    exact ⟨loaded, Option.some_inj.mp found⟩
  · cases found

theorem Advances.holds (advances : handle.Advances ending call after next) (sound : handle.Sound)
    (holds : handle.Holds call) : after.Holds next := by
  cases advances with
  | @widen ops span left =>
      refine ⟨holds.1, fun other member => ?_⟩
      rcases holds.2 other member with left | covers
      · rcases List.mem_cons.mp left with rfl | left
        · exact .inr (covers_widen _)
        · exact .inl left
      · exact .inr ((grows_widen span).covers covers)
  | bound found =>
      obtain ⟨loaded, rfl⟩ := bound_eq_some found
      exact holds_check holds loaded
  | unbound => exact holds
  | measure =>
      exact ⟨holds, (IndexDb.bounded_widestSpan sound.measurable).mono (le_max_right _ _)⟩
  | @fold query seen indexed =>
      refine holds_check (fun earlier same => ?_) ?_
      · exact (holds.1 earlier same).grows (grows_loadBound _ _)
      · simp [loadBound, updated, SpanBound.load]
  | @seek query widest =>
      rintro _ ⟨⟩
      exact ⟨rfl, sound.measurable, sound.loaded query.key holds.1⟩
  | _ => trivial

end IndexHandle

namespace HandleSystem

variable {before after : HandleSystem} {action : HandleAction} {actions : List HandleAction}
variable {handle : IndexHandle}

/-- The transactions of a run write measurable rows. -/
def Writes (_ : HandleSystem) : HandleAction → Prop
  | .request (.apply ops) => MeasurableOps ops
  | _ => True

/-- The cache keeps its promises, and every call what holds of it. -/
structure Prunes (system : HandleSystem) : Prop where
  sound : system.handle.Sound
  holds : ∀ {id : Nat} {call : IndexCall}, system.calls[id]? = some call →
    system.handle.Holds call

theorem opened_prunes (measurable : db.Measurable) : (opened db).Prunes where
  sound :=
    { measurable
      loaded := fun key loaded => by cases loaded }
  holds {id call} found := by simp [opened] at found

theorem holds_request {request : IndexRequest} (writes : Writes before (.request request)) :
    handle.Holds request.call := by
  cases request with
  | apply ops => exact ⟨writes, fun span member => .inl member⟩
  | cachedSeriesOf aspect => trivial
  | pruneRows query => rintro _ ⟨⟩

theorem holds_stopped {opened : IndexHandle} {call : IndexCall} (holds : handle.Holds call) :
    opened.Holds call.stopped := by
  cases call with
  | pruned query seen => exact holds
  | _ => trivial

theorem Prunes.step (prunes : before.Prunes) (writes : Writes before action)
    (taken : before.step action = some after) : after.Prunes where
  sound := by
    rcases handle_of_step taken with same | ⟨_, _, _, _, acts, advances⟩ | ⟨_, reopened⟩
    · exact same ▸ prunes.sound
    · exact advances.sound prunes.sound (prunes.holds acts)
    · exact reopened ▸ ⟨prunes.sound.measurable, fun key loaded => by cases loaded⟩
  holds {id call} found := by
    rcases call_of_step taken found with ⟨kept, open_⟩ | ⟨request, rfl, _, rfl⟩ |
      ⟨previous, ending, acts, advances⟩ | ⟨previous, acts, rfl⟩
    · rcases handle_of_step taken with same | ⟨_, _, _, _, acts, advances⟩ | ⟨reopened, _⟩
      · exact same ▸ prunes.holds kept
      · exact (prunes.holds kept).grows (advances.grows (prunes.holds acts))
      · exact absurd reopened open_
    · exact holds_request writes
    · exact advances.holds prunes.sound (prunes.holds acts)
    · exact holds_stopped (prunes.holds acts)

end HandleSystem

open HandleSystem in
/-- Every prune of a run returns exactly the rows which overlap its window, as committed at its
query, if no row is written whose span exceeds a word. -/
theorem prune_exact {db : IndexDb} (measurable : db.Measurable) {actions : List HandleAction}
    {after : HandleSystem} (writes : Execution.Meets HandleSystem.step Writes (opened db) actions)
    (execution : Execution.run HandleSystem.step (opened db) actions = some after)
    {id : Nat} {query : PruneQuery} {seen : PruneSeen}
    (returned : after.calls[id]? = some (.pruned query seen)) :
    seen.rows = seen.asOf.overlapping query := by
  have prunes : after.Prunes :=
    Execution.invariant_of_run Prunes (fun prunes writes taken => prunes.step writes taken)
      (opened_prunes measurable) writes execution
  exact prunes.holds returned

/-- A row from one time to another. -/
def rowSpanning (low high : Int) : IndexRow where
  desc :=
    { id := 1
      path := .elsewhere "price-1"
      formatVersion := 1
      physicalType := some .f64
      timeUnit := some .nanos
      rowCount := 2
      nullCount := 0
      timeSorted := true
      minTs := some low
      maxTs := some high
      minValue := some 1
      maxValue := some 1
      byteLen := 100 }
  gen := 1
  prec := none
  frameCrc := some 7
  commitEpoch := none
  seriesId := 0

/-- One prune loads the bound, a row is written, and the prune is asked again. -/
def prunesAround (row : IndexRow) (query : PruneQuery) : List HandleAction :=
  .request (.pruneRows query) :: List.replicate 5 (.advance 0 .committed) ++
    .request (.apply [.insertNew query.aspect row]) ::
      List.replicate 3 (.advance 1 .committed) ++
    .request (.pruneRows query) :: List.replicate 3 (.advance 2 .committed)

/-- The window of one instant. -/
def instantQuery : PruneQuery where
  aspect := "price"
  series := none
  start := 0
  stop := 0
  present := false

theorem prune_finds_row_written_after_load :
    ∃ after seen,
      Execution.run HandleSystem.step (.opened .fresh)
          (prunesAround (rowSpanning (-5) 5) instantQuery) = some after ∧
        after.calls[2]? = some (.pruned instantQuery seen) ∧
        seen.rows = seen.asOf.overlapping instantQuery := by
  refine ⟨_, _, rfl, rfl, ?_⟩
  refine @prune_exact .fresh ?_ (prunesAround (rowSpanning (-5) 5) instantQuery) _ ?_ rfl 2 _ _ rfl
  · intro aspect row member
    cases member
  · refine Execution.meets_of_forall (fun action member system => ?_) _
    simp only [prunesAround, List.mem_append, List.mem_cons, List.mem_replicate] at member
    rcases member with ((rfl | ⟨_, rfl⟩) | rfl | ⟨_, rfl⟩) | rfl | ⟨_, rfl⟩
    all_goals try trivial
    intro op op_mem put put_mem
    cases List.mem_singleton.mp op_mem
    cases List.mem_singleton.mp put_mem
    constructor
    · rintro _ _ ⟨⟩ ⟨⟩
      decide
    · rintro _ _ ⟨⟩ ⟨⟩
      decide

/-- A row whose span exceeds a word is missed: the bound saturates below the span. -/
theorem prune_misses_wide_row :
    ∃ after seen,
      Execution.run HandleSystem.step (.opened .fresh)
          (prunesAround (rowSpanning Word64.least Word64.greatest) instantQuery) = some after ∧
        after.calls[2]? = some (.pruned instantQuery seen) ∧
        (rowSpanning Word64.least Word64.greatest).Ordered ∧
        seen.rows = [] ∧
        seen.asOf.overlapping instantQuery = [rowSpanning Word64.least Word64.greatest] := by
  refine ⟨_, _, rfl, rfl, ?_, ?_, ?_⟩
  · rintro _ _ ⟨⟩ ⟨⟩
    decide
  · decide +kernel
  · decide +kernel

end WeftDb
