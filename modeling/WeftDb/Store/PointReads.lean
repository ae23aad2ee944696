import WeftDb.Index.SpanCache
import WeftDb.Physical.FrameReads

/-!
# Point reads

A point read prunes the index to the instant, and a batch to the span of its instants; each gives the
present value of the newest segment which it finds.  Every frame answers the instants of a batch as
it answers one, so a batch differs from the single reads only where the index does: both seek rows
from a floor on, which is lower for a batch, and a segment too wide for its span to be a word may
start between the two.
-/

namespace WeftDb

open BatchLookup
open Physical (Decimals)

variable {decimals : Decimals}

/-- Whether a row of the index describes a frame: it records the span of the frame, and no page of
the frame reaches beyond it. -/
structure DescribesFrame (descriptor : SegmentDescriptor) (frame : Physical.Frame decimals) : Prop where
  minTs : descriptor.minTs = frame.stats.minTs
  maxTs : descriptor.maxTs = frame.stats.maxTs
  pages : frame.PagesWithin

/-- What point reads see: the index behind its handle, and the frame which a row names. -/
structure PointStore (decimals : Decimals) where
  handle : IndexHandle
  frame : IndexRow → Physical.Frame decimals
  /-- Most instants of one batch. -/
  maxPointBatch : Nat
  described : ∀ aspect, ∀ row ∈ handle.db.rows aspect, DescribesFrame row.desc (frame row)

inductive PointError
  /-- The aspect, the instants asked for and the limit. -/
  | pointBatchTooLarge (aspect : AspectName) (instants limit : Nat)
  deriving DecidableEq

namespace PointStore

variable (store : PointStore decimals) (aspect : AspectName) (series : Nat)
variable {row : IndexRow} {instant : Int} {instants : List Int}

/-- The widest span under which the rows of a series are sought. -/
def widest : Int :=
  (store.handle.spans (aspect, some series)).widest

/-- The rows of a series which have a value and whose span meets a range, in id order. -/
def seriesPresentDescriptors (start stop : Int) : List IndexRow :=
  store.handle.db.seek ⟨aspect, some series, start, stop, true⟩
    (Word64.saturatingSub start (store.widest aspect series))

/-- The newest present value of an instant. -/
def readPointOf (instant : Int) : Option BigDecimal :=
  (store.seriesPresentDescriptors aspect series instant instant).foldl
    (fun found row => ((store.frame row).readPoint instant).or found) none

/-- The first and the last of some instants. -/
def instantSpan (instants : List Int) : Int × Int :=
  instants.foldl (fun span instant => (min span.1 instant, max span.2 instant))
    (Word64.greatest, Word64.least)

/-- The newest present value of each of many instants. -/
def readPointsOf (instants : List Int) : Except PointError (List (Option BigDecimal)) :=
  if instants.isEmpty then .ok []
  else if store.maxPointBatch < instants.length then
    .error (.pointBatchTooLarge aspect instants.length store.maxPointBatch)
  else
    let span := instantSpan instants
    .ok ((store.seriesPresentDescriptors aspect series span.1 span.2).foldl
      (fun found row => override found ((store.frame row).readPoints instants))
      (List.replicate instants.length none))

/-- A row of the series with a value, which starts at or after the floor of an instant. -/
def reaches (instant : Int) (row : IndexRow) : Bool :=
  match row.desc.minTs with
  | some first =>
      decide (Word64.saturatingSub instant (store.widest aspect series) ≤ first ∧
        row.seriesId = series ∧ row.desc.nullCount < row.desc.rowCount)
  | none => false

/-- The present value of an instant in the frame of a row. -/
def present (instant : Int) (row : IndexRow) : Option BigDecimal :=
  (store.frame row).readPoint instant

/-- The newest of some rows which has a value of an instant. -/
def Newest (instant : Int) (rows : List IndexRow) (row : IndexRow) (value : BigDecimal) : Prop :=
  IsLast (store.present instant) rows row value

/-- The rows of the series with a value, from the floor of an instant on. -/
def reached (instant : Int) : List IndexRow :=
  (store.handle.db.rows aspect).filter (store.reaches aspect series instant)

/-- No row which a batch seeks from the floor of its first instant on starts below the floor of one of
its instants, unless it ends before this instant. -/
def Unskipped (instants : List Int) : Prop :=
  ∀ instant ∈ instants, ∀ row ∈ store.reached aspect series (instantSpan instants).1,
    store.reaches aspect series instant row = true ∨ ∀ last ∈ row.desc.maxTs, last < instant

variable {store aspect series}

theorem present_of_outside (stored : row ∈ store.handle.db.rows aspect)
    (outside : row.desc.overlapsTime instant instant = false) :
    store.present instant row = none := by
  obtain ⟨first, last, -⟩ := store.described aspect row stored
  refine Physical.Frame.readPoint_of_outside ?_
  unfold SegmentDescriptor.overlapsTime SegmentDescriptor.timeRange at outside
  rw [first, last] at outside
  unfold Physical.SegmentStats.contains
  cases low : (store.frame row).stats.minTs <;> cases high : (store.frame row).stats.maxTs
  all_goals simp_all

theorem lastAnswer_seek {start stop : Int} (after : start ≤ instant) (before : instant ≤ stop) :
    lastAnswer (store.present instant)
        (store.seriesPresentDescriptors aspect series start stop) =
      lastAnswer (store.present instant) (store.reached aspect series start) := by
  have kept : store.seriesPresentDescriptors aspect series start stop =
      (store.reached aspect series start).filter fun row => row.desc.overlapsTime start stop := by
    rw [reached, List.filter_filter]
    refine List.filter_congr fun row _ => ?_
    unfold reaches PruneQuery.admits PruneQuery.ofSeries SegmentDescriptor.overlapsTime
      SegmentDescriptor.timeRange
    cases row.desc.minTs <;> cases row.desc.maxTs
    all_goals simp
    rename_i low high
    grind
  rw [kept]
  refine lastAnswer_filter fun row member apart => ?_
  refine present_of_outside (List.mem_of_mem_filter member) (eq_false_of_ne_true fun inside => ?_)
  refine absurd apart (ne_false_of_eq_true ?_)
  unfold SegmentDescriptor.overlapsTime at inside ⊢
  cases range : row.desc.timeRange with
  | none => rw [range] at inside; exact inside
  | some span =>
      rw [range] at inside
      simp only [decide_eq_true_eq] at inside ⊢
      omega

theorem readPointOf_eq (instant : Int) :
    store.readPointOf aspect series instant =
      lastAnswer (store.present instant) (store.reached aspect series instant) :=
  lastAnswer_seek le_rfl le_rfl

theorem instantSpan_around (asked : instant ∈ instants) :
    (instantSpan instants).1 ≤ instant ∧ instant ≤ (instantSpan instants).2 := by
  have general (span : Int × Int) :
      ((instants.foldl (fun span instant => (min span.1 instant, max span.2 instant)) span).1 ≤
          span.1 ∧
        span.2 ≤
          (instants.foldl (fun span instant => (min span.1 instant, max span.2 instant)) span).2) ∧
        ∀ instant ∈ instants,
          (instants.foldl (fun span instant => (min span.1 instant, max span.2 instant))
              span).1 ≤ instant ∧
            instant ≤ (instants.foldl
              (fun span instant => (min span.1 instant, max span.2 instant)) span).2 := by
    clear asked
    induction instants generalizing span with
    | nil => simp
    | cons first instants ih =>
        obtain ⟨⟨low, high⟩, each⟩ := ih (min span.1 first, max span.2 first)
        rw [List.foldl_cons]
        refine ⟨⟨low.trans (min_le_left _ _), (le_max_left _ _).trans high⟩, ?_⟩
        rw [List.forall_mem_cons]
        exact ⟨⟨low.trans (min_le_right _ _), (le_max_right _ _).trans high⟩, each⟩
  exact (general _).2 instant asked

theorem readPointsOf_eq (within : instants.length ≤ store.maxPointBatch) :
    store.readPointsOf aspect series instants =
      .ok (instants.map fun instant => lastAnswer (store.present instant)
        (store.reached aspect series (instantSpan instants).1)) := by
  unfold readPointsOf
  split
  · next empty =>
      obtain rfl := List.isEmpty_iff.mp empty
      rfl
  · rw [if_neg (not_lt.mpr within)]
    refine congrArg Except.ok ?_
    have frames : (store.seriesPresentDescriptors aspect series (instantSpan instants).1
          (instantSpan instants).2).foldl
          (fun found row => override found ((store.frame row).readPoints instants))
          (List.replicate instants.length none) =
        (store.seriesPresentDescriptors aspect series (instantSpan instants).1
          (instantSpan instants).2).foldl
          (fun found row => override found (instants.map fun instant => store.present instant row))
          (List.replicate instants.length none) := by
      refine List.foldl_ext _ _ _ fun found row member => ?_
      rw [Physical.Frame.readPoints_eq (store.described aspect row (List.mem_of_mem_filter member)).pages]
      rfl
    refine frames.trans ((foldl_override _ _ _).trans (List.map_congr_left fun instant asked => ?_))
    exact lastAnswer_seek (instantSpan_around asked).1 (instantSpan_around asked).2

theorem reaches_mono {earlier later : Int} (le : earlier ≤ later)
    (reaches : store.reaches aspect series later row = true) :
    store.reaches aspect series earlier row = true := by
  unfold PointStore.reaches at reaches ⊢
  split
  · next first found =>
      simp only [found, decide_eq_true_eq] at reaches ⊢
      refine ⟨le_trans ?_ reaches.1, reaches.2⟩
      simp only [Word64.saturatingSub, Word64.saturate]
      omega
  · next missing => simp [missing] at reaches

theorem reached_reached (asked : instant ∈ instants) :
    (store.reached aspect series (instantSpan instants).1).filter
        (store.reaches aspect series instant) = store.reached aspect series instant := by
  rw [reached, List.filter_filter]
  refine List.filter_congr fun row _ => ?_
  cases narrow : store.reaches aspect series instant row with
  | false => rfl
  | true => exact reaches_mono (instantSpan_around asked).1 narrow

theorem present_of_ended (stored : row ∈ store.handle.db.rows aspect)
    (ended : ∀ last ∈ row.desc.maxTs, last < instant) : store.present instant row = none := by
  refine present_of_outside stored ?_
  unfold SegmentDescriptor.overlapsTime SegmentDescriptor.timeRange
  cases first : row.desc.minTs <;> cases last : row.desc.maxTs <;> try rfl
  have before := ended _ last
  simp only [decide_eq_false_iff_not]
  omega

/-- Where the widest span under which rows are sought covers the span of every row, none is
skipped. -/
theorem unskipped_of_covered
    (covered : ∀ row ∈ store.handle.db.rows aspect, row.seriesId = series →
      ∀ first ∈ row.desc.minTs, ∀ last ∈ row.desc.maxTs,
        Word64.Fits first ∧ last - first ≤ store.widest aspect series) (instants : List Int) :
    store.Unskipped aspect series instants := by
  intro instant _ row member
  obtain ⟨stored, sought⟩ := List.mem_filter.mp member
  refine or_iff_not_imp_left.mpr fun below last is_last => ?_
  unfold PointStore.reaches at sought below
  cases found : row.desc.minTs with
  | none =>
      rw [found] at sought
      cases sought
  | some first =>
      rw [found] at sought below
      simp only [decide_eq_true_eq] at sought below
      obtain ⟨fits, short⟩ := covered row stored sought.2.1 first found last is_last
      have start : first < Word64.saturatingSub instant (store.widest aspect series) :=
        not_le.mp fun from_floor => below ⟨from_floor, sought.2⟩
      simp only [Word64.saturatingSub, Word64.saturate, Word64.Fits] at start fits
      omega

end PointStore

open PointStore

/-- A batch of point reads gives the single reads where it skips no row; it does not where the
newest value of an instant which it finds is in a row below the floor of this instant, and no row
from there on has this value. -/
theorem batch_reads_singles (store : PointStore decimals) (aspect : AspectName) (series : Nat)
    (instants : List Int) (within : instants.length ≤ store.maxPointBatch) :
    (store.Unskipped aspect series instants →
      store.readPointsOf aspect series instants =
        .ok (instants.map (store.readPointOf aspect series))) ∧
    ∀ instant ∈ instants, ∀ row value,
      store.Newest instant (store.reached aspect series (instantSpan instants).1) row value →
        store.reaches aspect series instant row = false →
          (∀ other ∈ store.reached aspect series instant,
            store.present instant other ≠ some value) →
              store.readPointsOf aspect series instants ≠
                .ok (instants.map (store.readPointOf aspect series)) := by
  rw [readPointsOf_eq within, Ne, Except.ok.injEq, List.map_inj_left]
  constructor
  · intro unskipped instant asked
    rw [readPointOf_eq, ← reached_reached asked]
    refine (lastAnswer_filter fun row member apart => ?_).symm
    have ended := (unskipped instant asked row member).resolve_left (by simp [apart])
    exact present_of_ended (List.mem_of_mem_filter member) ended
  · intro instant asked row value newest below absent same
    have one := same instant asked
    rw [readPointOf_eq] at one
    obtain ⟨other, before, after, reached_eq, answered, -⟩ := lastAnswer_eq_some_iff.mp
      (one.symm.trans (lastAnswer_eq_some_iff.mpr ⟨row, newest⟩))
    exact absent other (reached_eq ▸ List.mem_append_right _ List.mem_cons_self) answered

/-- A frame of two values, from one time to another. -/
def twoValues (low high : Int) : Physical.Frame Physical.wholeNumbers :=
  .singleBlock
    ⟨.buildNullable [low, high] [some ⟨1, 0⟩, some ⟨2, 0⟩] ⟨0, 0⟩, Physical.segmentFormatVersion⟩

/-- An index with the row of such a frame, under a bound of its span. -/
def twoValuesStore (low high bound : Int) (ordered : low ≤ high) :
    PointStore Physical.wholeNumbers where
  handle :=
    { IndexHandle.opened
        { IndexDb.fresh with
          segments := ⟨[("price", rowSpanning low high)], List.nodup_singleton _⟩ } with
      spans := fun _ => ⟨true, bound⟩ }
  frame _ := twoValues low high
  maxPointBatch := 4
  described aspect row stored := by
    have member := IndexDb.mem_rows.mp stored
    obtain ⟨-, rfl⟩ := Prod.mk.inj (List.mem_singleton.mp member)
    exact ⟨congrArg some (min_eq_left ordered).symm, congrArg some (max_eq_right ordered).symm,
      trivial⟩

/-- A store of a value at either end of time. -/
def endsOfTimeStore : PointStore Physical.wholeNumbers :=
  twoValuesStore Word64.least Word64.greatest Word64.greatest (by decide)

/-- A batch in any order, with an instant twice and one without a value. -/
theorem batch_reads_three_instants :
    (twoValuesStore 0 10 10 (by decide)).readPointsOf "price" 0 [10, 0, 10, 5] =
      .ok ([10, 0, 10, 5].map ((twoValuesStore 0 10 10 (by decide)).readPointOf "price" 0)) := by
  refine (batch_reads_singles (twoValuesStore 0 10 10 (by decide)) "price" 0 [10, 0, 10, 5]
    (by decide)).1 (unskipped_of_covered ?_ _)
  decide

/-- A batch of both ends of time finds the value of the later one, which a single read misses. -/
theorem batch_reads_what_single_misses :
    [Word64.least, Word64.greatest].length ≤ endsOfTimeStore.maxPointBatch ∧
      endsOfTimeStore.readPointsOf "price" 0 [Word64.least, Word64.greatest] =
        .ok [some ⟨1, 0⟩, some ⟨2, 0⟩] ∧
      [Word64.least, Word64.greatest].map (endsOfTimeStore.readPointOf "price" 0) =
        [some ⟨1, 0⟩, none] := by
  decide +kernel

end WeftDb
