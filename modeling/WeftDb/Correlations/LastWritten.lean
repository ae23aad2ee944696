import WeftDb.Correlations.Tables

/-!
# What was last written of a correlation

After an insertion and updates the rows of an id are those of the correlation last written, its
times in the unit of the write: milliseconds for an insertion, seconds for an update.  The reader
takes both for milliseconds, so of what was updated only the epoch and the millisecond before it
are read back.
-/

namespace WeftDb.Correlations

open Option

open Reduce (Resolution)

variable {Id Decimal Info : Type} (codecs : Codecs Id Decimal Info)
variable {correlation : Correlation Id Decimal Info} {unit : DateTime → Int}

namespace DateTime

variable {date : DateTime}

theorem fromTimestampMillis_eq_some {millis : Int} :
    fromTimestampMillis millis = some date ↔ date.IsMillisecond ∧ date.timestampMillis = millis := by
  obtain ⟨⟨seconds, nanos, bounded⟩, first_le, le_last⟩ := date
  simp only [fromTimestampMillis, IsMillisecond, Instant.IsLeap, timestampMillis,
    Instant.timestampMillis]
  dsimp only at first_le le_last
  split
  · next calendar =>
      simp only [some.injEq, DateTime.mk.injEq, Instant.mk.injEq]
      omega
  · next outside =>
      refine iff_of_false (fun some => by cases some) ?_
      rintro ⟨⟨leap, whole⟩, same⟩
      refine outside ?_
      omega

/-- The dates whose seconds and milliseconds since the epoch are the same number: the epoch and the
millisecond before it. -/
def IsFixed (date : DateTime) : Prop :=
  date.timestampMillis = 0 ∨ date.timestampMillis = -1

instance (date : DateTime) : Decidable date.IsFixed :=
  inferInstanceAs (Decidable (_ ∨ _))

theorem timestamp_eq_iff (millisecond : date.IsMillisecond) :
    date.timestamp = date.timestampMillis ↔ date.IsFixed := by
  obtain ⟨⟨seconds, nanos, bounded⟩, first_le, le_last⟩ := date
  simp only [IsMillisecond, Instant.IsLeap] at millisecond
  simp only [IsFixed, timestamp, timestampMillis, Instant.timestampMillis]
  omega

theorem isSome_fromTimestampMillis_timestamp (date : DateTime) :
    (fromTimestampMillis date.timestamp).isSome := by
  have first_le := date.first_le
  have le_last := date.le_last
  have calendar : firstSecond ≤ date.timestamp / 1000 ∧ date.timestamp / 1000 ≤ lastSecond := by
    unfold timestamp
    unfold firstSecond lastSecond at *
    omega
  rw [fromTimestampMillis, dif_pos calendar]
  rfl

end DateTime

/-- The row of a correlation. -/
def correlationRow (created_at updated_at : Int) (correlation : Correlation Id Decimal Info) :
    CorrelationRow where
  id := codecs.id.render correlation.id
  dictionaryId := codecs.id.render correlation.keys.dictionaryId
  subjectId := codecs.id.render correlation.keys.subjectId
  aspectId := codecs.id.render correlation.keys.aspectId
  patternId := codecs.id.render correlation.keys.patternId
  eventId := codecs.id.render correlation.keys.eventId
  averageDistanceValue := correlation.averageDistance.map (codecs.decimal.render ·.value)
  averageDistanceUnits := correlation.averageDistance.map (codecs.resolution.render ·.units)
  createdAt := created_at
  updatedAt := updated_at

/-- The row of an occurrence. -/
def occurrenceRow (unit : DateTime → Int) (id : Id) (entry : Occurrence Id Info × Nat) :
    OccurrenceRow where
  correlationId := codecs.id.render id
  occurrenceIndex := entry.2
  aspectId := codecs.id.render entry.1.aspect
  resolution := codecs.resolution.render entry.1.resolution
  size := entry.1.size
  databaseInfo := codecs.databaseInfo.render entry.1.databaseInfo
  patternId := codecs.id.render entry.1.patternId
  beginningTimestamp := unit entry.1.beginning
  endTimestamp := unit entry.1.end

/-- Whether the indices and the sizes of the occurrences are integers of the tables. -/
def Correlation.Writable (correlation : Correlation Id Decimal Info) : Prop :=
  correlation.occurrences.length ≤ 2 ^ 63 ∧
    ∀ occurrence ∈ correlation.occurrences, occurrence.size < 2 ^ 63

instance (correlation : Correlation Id Decimal Info) : Decidable correlation.Writable :=
  inferInstanceAs (Decidable (_ ∧ _))

theorem toI64_eq_ok {number : Nat} {failure : WriteError} {result : Int} :
    toI64 number failure = .ok result ↔ number < 2 ^ 63 ∧ (number : Int) = result := by
  unfold toI64
  split
  · next small => rw [Except.ok.injEq, and_iff_right small]
  · next large => exact iff_of_false (fun done => by cases done) fun both => large both.1

theorem occurrenceRows_eq_ok {rows : List OccurrenceRow} :
    occurrenceRows codecs unit correlation = .ok rows ↔ correlation.Writable ∧
      correlation.occurrences.zipIdx.map (occurrenceRow codecs unit correlation.id) = rows := by
  rw [occurrenceRows, mapM_checked_eq_ok (fun entry row => show _ ↔
    (entry.2 < 2 ^ 63 ∧ entry.1.size < 2 ^ 63) ∧
      occurrenceRow codecs unit correlation.id entry = row from ?_)]
  · refine and_congr_left fun _ => ?_
    constructor
    · intro all
      refine ⟨not_lt.mp fun long => ?_, fun occurrence member => ?_⟩
      · have last := List.mk_mem_zipIdx_iff_getElem?.mpr (List.getElem?_eq_getElem long)
        exact lt_irrefl _ (all _ last).1
      · obtain ⟨index, found⟩ := List.mem_iff_getElem?.mp member
        exact (all _ (List.mk_mem_zipIdx_iff_getElem?.mpr found)).2
    · rintro ⟨few, small⟩ entry member
      have below := List.snd_lt_of_mem_zipIdx member
      exact ⟨below.trans_le few, small _ (List.fst_mem_of_mem_zipIdx member)⟩
  · simp only [bind_eq_ok, toI64_eq_ok, pure_eq_ok]
    constructor
    · rintro ⟨_, ⟨index, rfl⟩, _, ⟨size, rfl⟩, rfl⟩
      exact ⟨⟨index, size⟩, rfl⟩
    · rintro ⟨⟨index, size⟩, rfl⟩
      exact ⟨_, ⟨index, rfl⟩, _, ⟨size, rfl⟩, rfl⟩

/-- The tables have one row of an id, and besides the rows of this correlation and none other,
with its times in this unit. -/
structure Holds (unit : DateTime → Int) (correlation : Correlation Id Decimal Info)
    (tables : Tables) : Prop where
  correlations : ∃ created_at updated_at,
    tables.correlations.filter (·.id = codecs.id.render correlation.id) =
      [correlationRow codecs created_at updated_at correlation]
  errorRates : ∃ order,
    tables.errorRates.filter (·.correlationId = codecs.id.render correlation.id) =
      errorRateRows codecs order correlation
  occurrences :
    tables.occurrences.filter (·.correlationId = codecs.id.render correlation.id) =
      correlation.occurrences.zipIdx.map (occurrenceRow codecs unit correlation.id)

/-- No table has a row of an id. -/
structure Untouched (id : Id) (tables : Tables) : Prop where
  correlations : ∀ row ∈ tables.correlations, row.id ≠ codecs.id.render id
  errorRates : ∀ row ∈ tables.errorRates, row.correlationId ≠ codecs.id.render id
  occurrences : ∀ row ∈ tables.occurrences, row.correlationId ≠ codecs.id.render id

theorem correlationId_errorRateRows {order : HashOrder} {row : ErrorRateRow}
    (member : row ∈ errorRateRows codecs order correlation) :
    row.correlationId = codecs.id.render correlation.id := by
  obtain ⟨_, -, rfl⟩ := List.mem_map.mp member
  rfl

theorem correlationId_occurrenceRows {row : OccurrenceRow}
    (member : row ∈
      correlation.occurrences.zipIdx.map (occurrenceRow codecs unit correlation.id)) :
    row.correlationId = codecs.id.render correlation.id := by
  obtain ⟨_, -, rfl⟩ := List.mem_map.mp member
  rfl

section Writes

variable {codecs} {order : HashOrder} {correlation other : Correlation Id Decimal Info}
  {tables written : Tables} {unit : DateTime → Int} {created_at updated_at : Int}

theorem insertCorrelation_eq_ok :
    insertCorrelation codecs created_at updated_at order correlation tables = .ok written ↔
      correlation.Writable ∧
        { correlations := tables.correlations ++
            [correlationRow codecs created_at updated_at correlation]
          errorRates := tables.errorRates ++ errorRateRows codecs order correlation
          occurrences := tables.occurrences ++ correlation.occurrences.zipIdx.map
            (occurrenceRow codecs DateTime.timestampMillis correlation.id) } = written := by
  simp only [insertCorrelation, bind_eq_ok, pure_eq_ok, occurrenceRows_eq_ok]
  constructor
  · rintro ⟨_, ⟨writable, rfl⟩, rfl⟩
    exact ⟨writable, rfl⟩
  · rintro ⟨writable, rfl⟩
    exact ⟨_, ⟨writable, rfl⟩, rfl⟩

theorem holds_insertCorrelation (fresh : Untouched codecs correlation.id tables)
    (done : insertCorrelation codecs created_at updated_at order correlation tables = .ok written) :
    Holds codecs DateTime.timestampMillis correlation written := by
  obtain ⟨-, rfl⟩ := insertCorrelation_eq_ok.mp done
  refine ⟨⟨created_at, updated_at, ?_⟩, ⟨order, ?_⟩, ?_⟩
  · exact filter_appended tables.correlations (List.forall_mem_singleton.mpr rfl)
      fresh.correlations
  · exact filter_appended tables.errorRates
      (fun _ member => correlationId_errorRateRows codecs member) fresh.errorRates
  · exact filter_appended tables.occurrences
      (fun _ member => correlationId_occurrenceRows codecs member) fresh.occurrences

/-- The row of a correlation after an update. -/
def updatedRow (codecs : Codecs Id Decimal Info) (updated_at : Int)
    (correlation : Correlation Id Decimal Info) (row : CorrelationRow) : CorrelationRow :=
  if row.id = codecs.id.render correlation.id then
    correlationRow codecs row.createdAt updated_at correlation
  else row

theorem updateCorrelation_eq_ok :
    updateCorrelation codecs updated_at order correlation tables = .ok written ↔
      correlation.Writable ∧
        { correlations := tables.correlations.map (updatedRow codecs updated_at correlation)
          errorRates := tables.errorRates.filter
            (·.correlationId ≠ codecs.id.render correlation.id) ++
              errorRateRows codecs order correlation
          occurrences := tables.occurrences.filter
            (·.correlationId ≠ codecs.id.render correlation.id) ++
              correlation.occurrences.zipIdx.map
                (occurrenceRow codecs DateTime.timestamp correlation.id) } = written := by
  have same_row (row : CorrelationRow) : updatedRow codecs updated_at correlation row =
      if row.id = codecs.id.render correlation.id then { row with
        dictionaryId := codecs.id.render correlation.keys.dictionaryId
        subjectId := codecs.id.render correlation.keys.subjectId
        aspectId := codecs.id.render correlation.keys.aspectId
        patternId := codecs.id.render correlation.keys.patternId
        eventId := codecs.id.render correlation.keys.eventId
        averageDistanceValue := correlation.averageDistance.map (codecs.decimal.render ·.value)
        averageDistanceUnits := correlation.averageDistance.map (codecs.resolution.render ·.units)
        updatedAt := updated_at } else row := by
    unfold updatedRow
    split
    · next own => rw [own, correlationRow]
    · rfl
  simp only [updateCorrelation, bind_eq_ok, pure_eq_ok, occurrenceRows_eq_ok, ← same_row]
  constructor
  · rintro ⟨_, ⟨writable, rfl⟩, rfl⟩
    exact ⟨writable, rfl⟩
  · rintro ⟨writable, rfl⟩
    exact ⟨_, ⟨writable, rfl⟩, rfl⟩

theorem id_updatedRow (row : CorrelationRow) :
    (updatedRow codecs updated_at correlation row).id = row.id := by
  unfold updatedRow
  split
  · next own => exact own.symm
  · rfl

theorem Holds.updateCorrelation (holds : Holds codecs unit correlation tables)
    (own : other.id = correlation.id)
    (done : Correlations.updateCorrelation codecs updated_at order other tables = .ok written) :
    Holds codecs DateTime.timestamp other written := by
  obtain ⟨-, rfl⟩ := updateCorrelation_eq_ok.mp done
  obtain ⟨created_at, _, row⟩ := holds.correlations
  refine ⟨⟨created_at, updated_at, ?_⟩, ⟨order, ?_⟩, ?_⟩
  · rw [← own] at row
    simp only [List.filter_map, Function.comp_def, id_updatedRow, row, List.map_cons, List.map_nil]
    simp [updatedRow, correlationRow, own]
  · exact filter_replaced_own tables.errorRates
      fun _ member => correlationId_errorRateRows codecs member
  · exact filter_replaced_own tables.occurrences
      fun _ member => correlationId_occurrenceRows codecs member

theorem Holds.updateCorrelation_of_ne (holds : Holds codecs unit correlation tables)
    (different : other.id ≠ correlation.id)
    (done : Correlations.updateCorrelation codecs updated_at order other tables = .ok written) :
    Holds codecs unit correlation written := by
  obtain ⟨-, rfl⟩ := updateCorrelation_eq_ok.mp done
  have texts : codecs.id.render other.id ≠ codecs.id.render correlation.id :=
    mt codecs.id.render_inj.mp different
  obtain ⟨created_at, updated_at, row⟩ := holds.correlations
  obtain ⟨order, rates⟩ := holds.errorRates
  refine ⟨⟨created_at, updated_at, ?_⟩, ⟨order, ?_⟩, ?_⟩
  · rw [← row]
    simp only [List.filter_map, Function.comp_def, id_updatedRow]
    refine (List.map_congr_left fun member inside => ?_).trans (List.map_id _)
    have other_text : member.id ≠ codecs.id.render other.id :=
      (of_decide_eq_true (List.mem_filter.mp inside).2).trans_ne texts.symm
    rw [updatedRow, if_neg other_text, id_eq]
  · rw [← rates]
    exact filter_replaced_of_ne tables.errorRates
      (fun _ member => correlationId_errorRateRows codecs member) texts
  · rw [← holds.occurrences]
    exact filter_replaced_of_ne tables.occurrences
      (fun _ member => correlationId_occurrenceRows codecs member) texts

end Writes

/-- An occurrence with its times read as milliseconds. -/
def reread (unit : DateTime → Int) (occurrence : Occurrence Id Info) : Occurrence Id Info :=
  { occurrence with
    beginning :=
      (DateTime.fromTimestampMillis (unit occurrence.beginning)).getD occurrence.beginning
    «end» := (DateTime.fromTimestampMillis (unit occurrence.end)).getD occurrence.end }

/-- Whether the times of an occurrence are milliseconds of the calendar. -/
def Rereadable (unit : DateTime → Int) (occurrence : Occurrence Id Info) : Prop :=
  (DateTime.fromTimestampMillis (unit occurrence.beginning)).isSome ∧
    (DateTime.fromTimestampMillis (unit occurrence.end)).isSome

section Fetch

variable {codecs} {correlation : Correlation Id Decimal Info} {tables : Tables}
  {unit : DateTime → Int}

@[simp]
theorem parseOr_render {α : Type} (codec : TextCodec α) (failure : ReadError) (value : α) :
    parseOr codec failure (codec.render value) = .ok value := by
  rw [parseOr, codec.parse_render]

theorem parseAverageDistance_render (distance : Option (Distance Decimal)) :
    parseAverageDistance codecs (distance.map (codecs.decimal.render ·.value))
      (distance.map (codecs.resolution.render ·.units)) = distance := by
  cases distance with
  | none => rfl
  | some distance =>
      simp [parseAverageDistance, codecs.decimal.parse_render, codecs.resolution.parse_render]

theorem parseCorrelationRow_correlationRow (created_at updated_at : Int) :
    parseCorrelationRow codecs (correlationRow codecs created_at updated_at correlation) =
      .ok (correlation.id, correlation.keys, correlation.averageDistance) := by
  simp only [parseCorrelationRow, correlationRow, parseOr_render, parseAverageDistance_render]
  rfl

theorem Holds.loadCorrelationErrorRates (holds : Holds codecs unit correlation tables) :
    Correlations.loadCorrelationErrorRates codecs tables correlation.id =
      .ok correlation.errorRate := by
  obtain ⟨order, rows⟩ := holds.errorRates
  have reads (state : SignalType → Option (Distance Decimal))
      (entry : SignalType × Distance Decimal) :
      readErrorRate codecs state {
        correlationId := codecs.id.render correlation.id
        signalType := entry.1.toString
        errorRateValue := codecs.decimal.render entry.2.value
        errorRateUnits := codecs.resolution.render entry.2.units } = .ok (putEntry state entry) := by
    have signal_type : parseOr SignalType.codec (.databaseError "Invalid error type format")
        entry.1.toString = .ok entry.1 := parseOr_render SignalType.codec _ entry.1
    simp only [readErrorRate, parseOr_render, signal_type]
    rfl
  rw [Correlations.loadCorrelationErrorRates, rows, errorRateRows,
    foldlM_read _ fun state entry _ => reads state entry]
  refine congrArg Except.ok (funext fun signal_type => ?_)
  rw [foldl_putEntry]
  split
  · rfl
  · next missing =>
      exact (not_isSome_iff_eq_none.mp fun found =>
        missing ⟨order.complete signal_type, found⟩).symm

theorem toUsize_natCast (number : Nat) (failure : ReadError) :
    toUsize (number : Int) failure = .ok number := by
  rw [toUsize, if_pos (Int.natCast_nonneg number), Int.toNat_natCast]

theorem toDate_of_isSome {millis : Int} (failure : ReadError) (date : DateTime)
    (calendar : (DateTime.fromTimestampMillis millis).isSome) :
    toDate millis failure = .ok ((DateTime.fromTimestampMillis millis).getD date) := by
  obtain ⟨found, some⟩ := isSome_iff_exists.mp calendar
  rw [toDate, some, getD_some]

variable (codecs) in
theorem readOccurrence_occurrenceRow (id : Id) {entry : Occurrence Id Info × Nat}
    (rereadable : Rereadable unit entry.1) (occ_map : SortedMap Nat (Occurrence Id Info)) :
    readOccurrence codecs occ_map (occurrenceRow codecs unit id entry) =
      .ok (occ_map.insert entry.2 (reread unit entry.1)) := by
  simp only [readOccurrence, occurrenceRow, toUsize_natCast, parseOr_render,
    toDate_of_isSome _ entry.1.beginning rereadable.1, toDate_of_isSome _ entry.1.end rereadable.2]
  rfl

variable (holds : Holds codecs unit correlation tables)

include holds

variable (rereadable : ∀ occurrence ∈ correlation.occurrences, Rereadable unit occurrence)

include rereadable

theorem Holds.loadCorrelationOccurrences :
    Correlations.loadCorrelationOccurrences codecs tables correlation.id =
      .ok (correlation.occurrences.map (reread unit)) := by
  have read := foldlM_read correlation.occurrences.zipIdx
    (fun state entry member => readOccurrence_occurrenceRow codecs correlation.id
      (rereadable entry.1 (List.fst_mem_of_mem_zipIdx member)) state) SortedMap.empty
  have entries := SortedMap.foldl_insert_zipIdx (correlation.occurrences.map (reread unit))
    SortedMap.empty 0 (by simp [SortedMap.empty])
  rw [List.zipIdx_map, List.foldl_map] at entries
  simp only [Correlations.loadCorrelationOccurrences, holds.occurrences, bind_eq_ok, pure_eq_ok]
  refine ⟨_, read, ?_⟩
  rw [SortedMap.filterMap_keys]
  calc
    _ = (([] ++ (correlation.occurrences.zipIdx.map (Prod.map (reread unit) id)).map
        Prod.swap).map Prod.snd) := congrArg (List.map Prod.snd) entries
    _ = (correlation.occurrences.zipIdx.map Prod.fst).map (reread unit) := by
      rw [List.nil_append, List.map_map, List.map_map, List.map_map]
      rfl
    _ = correlation.occurrences.map (reread unit) := by rw [List.zipIdx_map_fst]

theorem Holds.fetchCorrelationById :
    Correlations.fetchCorrelationById codecs tables correlation.id =
      .ok { correlation with occurrences := correlation.occurrences.map (reread unit) } := by
  obtain ⟨created_at, updated_at, row⟩ := holds.correlations
  have found : tables.correlations.find? (·.id = codecs.id.render correlation.id) =
      some (correlationRow codecs created_at updated_at correlation) := by
    rw [← List.head?_filter, row, List.head?_cons]
  rw [Correlations.fetchCorrelationById, found]
  simp only [parseCorrelationRow_correlationRow, bind_eq_ok, pure_eq_ok]
  exact ⟨_, rfl, _, holds.loadCorrelationErrorRates, _,
    holds.loadCorrelationOccurrences rereadable, rfl⟩

theorem Holds.fetch_eq_iff :
    Correlations.fetchCorrelationById codecs tables correlation.id = .ok correlation ↔
      ∀ occurrence ∈ correlation.occurrences,
        DateTime.fromTimestampMillis (unit occurrence.beginning) = some occurrence.beginning ∧
          DateTime.fromTimestampMillis (unit occurrence.end) = some occurrence.end := by
  rw [holds.fetchCorrelationById rereadable, Except.ok.injEq]
  have same : { correlation with occurrences := correlation.occurrences.map (reread unit) } =
      correlation ↔ correlation.occurrences.map (reread unit) = correlation.occurrences := by
    refine ⟨congrArg Correlation.occurrences, fun occurrences => ?_⟩
    rw [occurrences]
  have fixed := List.map_inj_left (l := correlation.occurrences) (f := reread unit) (g := id)
  rw [List.map_id] at fixed
  rw [same, fixed]
  refine forall₂_congr fun occurrence member => ?_
  obtain ⟨beginning, has_beginning⟩ := isSome_iff_exists.mp (rereadable _ member).1
  obtain ⟨finish, has_finish⟩ := isSome_iff_exists.mp (rereadable _ member).2
  rw [reread, has_beginning, has_finish, some.injEq, some.injEq]
  cases occurrence
  simp

end Fetch

/-- An update with its time and the order of its error rates. -/
structure Update (Id Decimal Info : Type) where
  updatedAt : Int
  order : HashOrder
  correlation : Correlation Id Decimal Info

/-- The tables after an update, which may fail. -/
def runUpdate (tables : Tables) (update : Update Id Decimal Info) : Tables :=
  match updateCorrelation codecs update.updatedAt update.order update.correlation tables with
  | .ok written => written
  | .error _ => tables

/-- The tables after updates, of this and of other correlations. -/
def runUpdates (tables : Tables) (updates : List (Update Id Decimal Info)) : Tables :=
  updates.foldl (runUpdate codecs) tables

/-- Whether an update writes the rows of an id. -/
def Update.Writes (id : Id) (update : Update Id Decimal Info) : Prop :=
  update.correlation.id = id ∧ update.correlation.Writable

instance [DecidableEq Id] (id : Id) (update : Update Id Decimal Info) :
    Decidable (update.Writes id) :=
  inferInstanceAs (Decidable (_ ∧ _))

/-- What was written last of a correlation. -/
def lastWritten [DecidableEq Id] (correlation : Correlation Id Decimal Info)
    (updates : List (Update Id Decimal Info)) : Correlation Id Decimal Info :=
  ((updates.filter (·.Writes correlation.id)).getLast?.map Update.correlation).getD correlation

/-- Whether the occurrences begin and end at milliseconds. -/
def Correlation.AtMilliseconds (correlation : Correlation Id Decimal Info) : Prop :=
  ∀ occurrence ∈ correlation.occurrences,
    occurrence.beginning.IsMillisecond ∧ occurrence.end.IsMillisecond

/-- Whether the occurrences begin and end at the epoch or a millisecond before it. -/
def Correlation.IsFixed (correlation : Correlation Id Decimal Info) : Prop :=
  ∀ occurrence ∈ correlation.occurrences, occurrence.beginning.IsFixed ∧ occurrence.end.IsFixed

instance (correlation : Correlation Id Decimal Info) : Decidable correlation.IsFixed :=
  inferInstanceAs (Decidable (∀ occurrence ∈ correlation.occurrences, _ ∧ _))

/-- The tables have the same rows of an id, but for their times of creation and of update. -/
structure SameRows (id : Id) (left right : Tables) : Prop where
  correlations :
    (left.correlations.filter (·.id = codecs.id.render id)).map
        (fun row => { row with createdAt := 0, updatedAt := 0 }) =
      (right.correlations.filter (·.id = codecs.id.render id)).map
        (fun row => { row with createdAt := 0, updatedAt := 0 })
  errorRates :
    (left.errorRates.filter (·.correlationId = codecs.id.render id)).Perm
      (right.errorRates.filter (·.correlationId = codecs.id.render id))
  occurrences :
    left.occurrences.filter (·.correlationId = codecs.id.render id) =
      right.occurrences.filter (·.correlationId = codecs.id.render id)

section Runs

variable {codecs} [DecidableEq Id] {correlation : Correlation Id Decimal Info}
  {tables inserted : Tables} {unit : DateTime → Int}

theorem lastWritten_concat (correlation : Correlation Id Decimal Info)
    (updates : List (Update Id Decimal Info)) (update : Update Id Decimal Info) :
    lastWritten correlation (updates ++ [update]) =
      if update.Writes correlation.id then update.correlation
      else lastWritten correlation updates := by
  unfold lastWritten
  rw [List.filter_append]
  split
  · next writes => simp [writes]
  · next idle => simp [idle]

theorem id_lastWritten (correlation : Correlation Id Decimal Info)
    (updates : List (Update Id Decimal Info)) :
    (lastWritten correlation updates).id = correlation.id := by
  induction updates using List.reverseRecOn with
  | nil => rfl
  | append_singleton updates update ih =>
      rw [lastWritten_concat]
      split
      · next writes => exact writes.1
      · exact ih

omit [DecidableEq Id] in
theorem runUpdates_concat (tables : Tables) (updates : List (Update Id Decimal Info))
    (update : Update Id Decimal Info) :
    runUpdates codecs tables (updates ++ [update]) =
      runUpdate codecs (runUpdates codecs tables updates) update :=
  List.foldl_concat ..

theorem Holds.runUpdate (holds : Holds codecs unit correlation tables)
    (update : Update Id Decimal Info) :
    Holds codecs (if update.Writes correlation.id then DateTime.timestamp else unit)
      (if update.Writes correlation.id then update.correlation else correlation)
      (Correlations.runUpdate codecs tables update) := by
  unfold Correlations.runUpdate
  rcases done : Correlations.updateCorrelation codecs update.updatedAt update.order
    update.correlation tables with failure | written
  · have idle : ¬ update.Writes correlation.id := by
      rintro ⟨-, writable⟩
      rw [updateCorrelation_eq_ok.mpr ⟨writable, rfl⟩] at done
      cases done
    rw [if_neg idle, if_neg idle]
    exact holds
  · have writable := (updateCorrelation_eq_ok.mp done).1
    by_cases own : update.correlation.id = correlation.id
    · rw [if_pos ⟨own, writable⟩, if_pos ⟨own, writable⟩]
      exact holds.updateCorrelation own done
    · rw [if_neg fun writes => own writes.1, if_neg fun writes => own writes.1]
      exact holds.updateCorrelation_of_ne own done

theorem Holds.runUpdates (holds : Holds codecs unit correlation tables)
    (updates : List (Update Id Decimal Info)) :
    Holds codecs
      (if ∃ update ∈ updates, update.Writes correlation.id then DateTime.timestamp else unit)
      (lastWritten correlation updates) (Correlations.runUpdates codecs tables updates) := by
  induction updates using List.reverseRecOn with
  | nil =>
      rw [if_neg (by simp)]
      exact holds
  | append_singleton updates update ih =>
      have step := ih.runUpdate update
      rw [id_lastWritten] at step
      rw [lastWritten_concat, runUpdates_concat]
      by_cases writes : update.Writes correlation.id
      · rw [if_pos writes, if_pos writes] at step
        rw [if_pos writes, if_pos ⟨update, by simp, writes⟩]
        exact step
      · rw [if_neg writes, if_neg writes] at step
        rw [if_neg writes]
        simpa only [List.mem_append, List.mem_singleton, or_and_right, exists_or, exists_eq_left,
          writes, or_false] using step

theorem lastWritten_mem (correlation : Correlation Id Decimal Info)
    (updates : List (Update Id Decimal Info)) :
    lastWritten correlation updates ∈ correlation :: updates.map Update.correlation := by
  induction updates using List.reverseRecOn with
  | nil => exact List.mem_cons_self
  | append_singleton updates update ih =>
      rw [lastWritten_concat, List.map_append, ← List.cons_append, List.mem_append]
      split
      · exact .inr (by simp)
      · exact .inl ih

omit [DecidableEq Id] in
theorem Holds.sameRows {other : Tables} {unit' : DateTime → Int}
    (holds : Holds codecs unit correlation tables) (holds' : Holds codecs unit' correlation other)
    (units : ∀ occurrence ∈ correlation.occurrences,
      unit occurrence.beginning = unit' occurrence.beginning ∧
        unit occurrence.end = unit' occurrence.end) :
    SameRows codecs correlation.id tables other := by
  obtain ⟨created_at, updated_at, row⟩ := holds.correlations
  obtain ⟨created_at', updated_at', row'⟩ := holds'.correlations
  obtain ⟨order, rates⟩ := holds.errorRates
  obtain ⟨order', rates'⟩ := holds'.errorRates
  refine ⟨by rw [row, row']; rfl, ?_, ?_⟩
  · rw [rates, rates']
    refine (List.Perm.filterMap _ ?_).map _
    exact (List.perm_ext_iff_of_nodup order.nodup order'.nodup).mpr fun signal_type =>
      iff_of_true (order.complete signal_type) (order'.complete signal_type)
  · rw [holds.occurrences, holds'.occurrences]
    refine List.map_congr_left fun entry member => ?_
    obtain ⟨beginning, finish⟩ := units _ (List.fst_mem_of_mem_zipIdx member)
    rw [occurrenceRow, occurrenceRow, beginning, finish]

omit [DecidableEq Id] in
theorem Holds.fetch_inserted (holds : Holds codecs DateTime.timestampMillis correlation tables)
    (millis : correlation.AtMilliseconds) :
    Correlations.fetchCorrelationById codecs tables correlation.id = .ok correlation := by
  have read {date : DateTime} (millisecond : date.IsMillisecond) :=
    DateTime.fromTimestampMillis_eq_some.mpr ⟨millisecond, rfl⟩
  refine (holds.fetch_eq_iff fun occurrence member => ?_).mpr fun occurrence member =>
    ⟨read (millis occurrence member).1, read (millis occurrence member).2⟩
  exact ⟨isSome_of_mem (read (millis occurrence member).1),
    isSome_of_mem (read (millis occurrence member).2)⟩

omit [DecidableEq Id] in
theorem Holds.fetch_updated_iff (holds : Holds codecs DateTime.timestamp correlation tables)
    (millis : correlation.AtMilliseconds) :
    Correlations.fetchCorrelationById codecs tables correlation.id = .ok correlation ↔
      correlation.IsFixed := by
  have read {date : DateTime} (millisecond : date.IsMillisecond) :
      DateTime.fromTimestampMillis date.timestamp = some date ↔ date.IsFixed := by
    rw [DateTime.fromTimestampMillis_eq_some, and_iff_right millisecond, eq_comm,
      DateTime.timestamp_eq_iff millisecond]
  rw [holds.fetch_eq_iff fun _ _ => ⟨DateTime.isSome_fromTimestampMillis_timestamp _,
    DateTime.isSome_fromTimestampMillis_timestamp _⟩]
  refine forall₂_congr fun occurrence member => ?_
  rw [read (millis occurrence member).1, read (millis occurrence member).2]

/-- Whether a correlation reads back as it was last written: it is fetched, and its rows are those
which its insertion would have left. -/
structure ReadsBack (codecs : Codecs Id Decimal Info) (tables inserted : Tables)
    (correlation : Correlation Id Decimal Info) (updates : List (Update Id Decimal Info)) :
    Prop where
  fetched :
    fetchCorrelationById codecs (runUpdates codecs inserted updates) correlation.id =
      .ok (lastWritten correlation updates)
  rows : ∀ created_at updated_at order plain,
    insertCorrelation codecs created_at updated_at order (lastWritten correlation updates) tables =
        .ok plain →
      SameRows codecs correlation.id (runUpdates codecs inserted updates) plain

/-- **A correlation reads back as it was last written** exactly where its last write was the
insertion or its times are the same number of seconds and of milliseconds. -/
theorem correlation_readsBack_iff {created_at updated_at : Int} {order : HashOrder}
    (fresh : Untouched codecs correlation.id tables)
    (written : insertCorrelation codecs created_at updated_at order correlation tables =
      .ok inserted) (updates : List (Update Id Decimal Info))
    (instants : ∀ version ∈ correlation :: updates.map Update.correlation,
      version.AtMilliseconds) :
    ReadsBack codecs tables inserted correlation updates ↔
      ((∃ update ∈ updates, update.Writes correlation.id) →
        (lastWritten correlation updates).IsFixed) := by
  have holds := (holds_insertCorrelation fresh written).runUpdates updates
  have millis := instants _ (lastWritten_mem correlation updates)
  have same_id := id_lastWritten correlation updates
  constructor
  · intro back updated
    rw [if_pos updated] at holds
    have fetched := back.fetched
    rw [← same_id] at fetched
    exact (holds.fetch_updated_iff millis).mp fetched
  · intro fixed
    refine ⟨?_, fun created_at updated_at order plain inserted => ?_⟩
    · rw [← same_id]
      split at holds
      · next updated => exact (holds.fetch_updated_iff millis).mpr (fixed updated)
      · exact holds.fetch_inserted millis
    · have plainly := holds_insertCorrelation ⟨same_id ▸ fresh.correlations,
        same_id ▸ fresh.errorRates, same_id ▸ fresh.occurrences⟩ inserted
      rw [← same_id]
      refine holds.sameRows plainly fun occurrence member => ?_
      split
      · next updated =>
          exact ⟨(DateTime.timestamp_eq_iff (millis _ member).1).mpr (fixed updated _ member).1,
            (DateTime.timestamp_eq_iff (millis _ member).2).mpr (fixed updated _ member).2⟩
      · exact ⟨rfl, rfl⟩

end Runs

section Samples

/-- Resolutions by their names. -/
def resolutionCodec : TextCodec Resolution where
  render
    | .nanoseconds => "Nanoseconds"
    | .microseconds => "Microseconds"
    | .milliseconds => "Milliseconds"
    | .seconds => "Seconds"
    | .minutes => "Minutes"
    | .hours => "Hours"
    | .days => "Days"
    | .weeks => "Weeks"
    | .months => "Months"
    | .years => "Years"
  parse
    | "Nanoseconds" => some .nanoseconds
    | "Microseconds" => some .microseconds
    | "Milliseconds" => some .milliseconds
    | "Seconds" => some .seconds
    | "Minutes" => some .minutes
    | "Hours" => some .hours
    | "Days" => some .days
    | "Weeks" => some .weeks
    | "Months" => some .months
    | "Years" => some .years
    | _ => none
  parse_render resolution := by cases resolution <;> rfl

/-- Ids, decimals and database infos which are kept as their texts. -/
def textCodecs : Codecs String String String where
  id := .text
  decimal := .text
  resolution := resolutionCodec
  databaseInfo := .text

def declarationOrder : HashOrder where
  signals := [.predictStart, .predictMid, .predictEnd]
  nodup := by decide
  complete signal_type := by cases signal_type <;> decide

/-- A whole second after the epoch. -/
def dateOfSecond (second : Int) (calendar : firstSecond ≤ second ∧ second ≤ lastSecond) :
    DateTime where
  instant := .ofSeconds second
  first_le := calendar.1
  le_last := calendar.2

/-- A correlation with one occurrence, at one date. -/
def correlationAt (date : DateTime) : Correlation String String String where
  id := "7d444840-9dc0-11d1-b245-5ffdce74fad2"
  keys := {
    dictionaryId := "7d444840-9dc0-11d1-b245-5ffdce74fad3"
    subjectId := "7d444840-9dc0-11d1-b245-5ffdce74fad4"
    aspectId := "7d444840-9dc0-11d1-b245-5ffdce74fad5"
    patternId := "7d444840-9dc0-11d1-b245-5ffdce74fad6"
    eventId := "7d444840-9dc0-11d1-b245-5ffdce74fad7" }
  errorRate
    | .predictMid => some { value := "0.5", units := .minutes }
    | _ => none
  occurrences := [{
    aspect := "7d444840-9dc0-11d1-b245-5ffdce74fad5"
    resolution := .seconds
    size := 5
    databaseInfo := "\x7b\x7d"
    patternId := "7d444840-9dc0-11d1-b245-5ffdce74fad6"
    beginning := date
    «end» := date }]
  averageDistance := some { value := "90", units := .seconds }

def noTables : Tables where
  correlations := []
  errorRates := []
  occurrences := []

theorem untouched_noTables (id : String) : Untouched textCodecs id noTables :=
  ⟨by simp [noTables], by simp [noTables], by simp [noTables]⟩

theorem correlationAt_atMilliseconds (second : Int)
    (calendar : firstSecond ≤ second ∧ second ≤ lastSecond) :
    (correlationAt (dateOfSecond second calendar)).AtMilliseconds := by
  intro occurrence member
  obtain rfl := List.mem_singleton.mp member
  have millisecond : (dateOfSecond second calendar).IsMillisecond :=
    ⟨Nat.not_succ_le_zero _, dvd_zero _⟩
  exact ⟨millisecond, millisecond⟩

/-- The tables with one correlation inserted. -/
def insertedAt (date : DateTime) : Tables where
  correlations := [correlationRow textCodecs 0 0 (correlationAt date)]
  errorRates := errorRateRows textCodecs declarationOrder (correlationAt date)
  occurrences := (correlationAt date).occurrences.zipIdx.map
    (occurrenceRow textCodecs DateTime.timestampMillis (correlationAt date).id)

theorem insertCorrelation_correlationAt (date : DateTime) :
    insertCorrelation textCodecs 0 0 declarationOrder (correlationAt date) noTables =
      .ok (insertedAt date) :=
  insertCorrelation_eq_ok.mpr
    ⟨⟨by simp [correlationAt], by simp [correlationAt]⟩, rfl⟩

/-- A correlation whose occurrence moves to the epoch reads back. -/
theorem correlation_readsBack_at_epoch :
    ReadsBack textCodecs noTables (insertedAt (dateOfSecond 1700000000 (by decide)))
      (correlationAt (dateOfSecond 1700000000 (by decide)))
      [⟨1, declarationOrder, correlationAt (dateOfSecond 0 (by decide))⟩] :=
  (correlation_readsBack_iff (untouched_noTables _) (insertCorrelation_correlationAt _) _ (by
    simpa using ⟨correlationAt_atMilliseconds _ _, correlationAt_atMilliseconds _ _⟩)).mpr
      fun _ => by decide

/-- An update of a correlation, to what it is already, moves its occurrence from 1 000 s after the
epoch to 1 s after it. -/
theorem update_keeps_seconds_as_milliseconds :
    Untouched textCodecs (correlationAt (dateOfSecond 1000 (by decide))).id noTables ∧
      insertCorrelation textCodecs 0 0 declarationOrder
        (correlationAt (dateOfSecond 1000 (by decide))) noTables =
          .ok (insertedAt (dateOfSecond 1000 (by decide))) ∧
      (correlationAt (dateOfSecond 1000 (by decide))).AtMilliseconds ∧
      fetchCorrelationById textCodecs (runUpdates textCodecs
          (insertedAt (dateOfSecond 1000 (by decide)))
          [⟨1, declarationOrder, correlationAt (dateOfSecond 1000 (by decide))⟩])
        (correlationAt (dateOfSecond 1000 (by decide))).id =
          .ok (correlationAt (dateOfSecond 1 (by decide))) ∧
      ¬ ReadsBack textCodecs noTables (insertedAt (dateOfSecond 1000 (by decide)))
        (correlationAt (dateOfSecond 1000 (by decide)))
        [⟨1, declarationOrder, correlationAt (dateOfSecond 1000 (by decide))⟩] := by
  have fetched : fetchCorrelationById textCodecs (runUpdates textCodecs
      (insertedAt (dateOfSecond 1000 (by decide)))
      [⟨1, declarationOrder, correlationAt (dateOfSecond 1000 (by decide))⟩])
        (correlationAt (dateOfSecond 1000 (by decide))).id =
          .ok (correlationAt (dateOfSecond 1 (by decide))) := by
    have holds := (holds_insertCorrelation (untouched_noTables _)
      (insertCorrelation_correlationAt (dateOfSecond 1000 (by decide)))).runUpdates
        [⟨1, declarationOrder, correlationAt (dateOfSecond 1000 (by decide))⟩]
    rw [if_pos ⟨_, List.mem_singleton_self _, rfl, by decide⟩] at holds
    refine (holds.fetchCorrelationById fun _ _ =>
      ⟨DateTime.isSome_fromTimestampMillis_timestamp _,
        DateTime.isSome_fromTimestampMillis_timestamp _⟩).trans rfl
  refine ⟨untouched_noTables _, insertCorrelation_correlationAt _,
    correlationAt_atMilliseconds _ _, fetched, fun back => ?_⟩
  have same := Except.ok.inj (fetched.symm.trans back.fetched)
  exact absurd (congrArg Correlation.occurrences same) (by decide)

end Samples

end WeftDb.Correlations
