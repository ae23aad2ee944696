import WeftDb.Batching.Interpolation
import WeftDb.Batching.UnbatchedQueue
import WeftDb.Foundation.Execution

/-!
# Incremental batching between commits

The aspect takes a commit and then a whole run of the consumer, one after the other, and nothing is
extracted.  A queue-backed aspect queues the instants of its rows; a seal-backed one logs the span
of each commit.  Either run falls back to a rebuild while it finds no batch.
-/

namespace WeftDb.Rebuild

open ChangeConsumer Outputs

variable {Value : Type} (bracketing : Bracketing Value) (grid : WindowGrid)

/-- The runs of overlapping windows, each with its first window apart; `fuel` bounds the runs. -/
def overlapRuns : Nat → List BatchWindow → List (BatchWindow × List BatchWindow)
  | 0, _ => []
  | _ + 1, [] => []
  | fuel + 1, window :: windows =>
      let (run, rest) := overlapRun window.finish windows
      (window, run) :: overlapRuns fuel rest

/-- Interpolate each run of overlapping windows and cut its windows out. -/
def buildBatchesForWindows (rows : List (Point Value)) (base : Int) (windows : List BatchWindow) :
    List (BatchWindow × Batch Value) :=
  (overlapRuns windows.length windows).flatMap fun run =>
    buildRun (bracketing.interpolator grid.stepMillis) grid rows base run.1 run.2

/-- The affected windows which end by the stored data's end, in order. -/
def windowsToBuild (latest : Int) (affected : List BatchWindow) : List BatchWindow :=
  (affected.filter fun window => decide (window.finish ≤ latest)).insertionSort
    fun left right => left.start ≤ right.start

/-- Reading no row outside its range costs no interpolation a knot: each run of windows ends at a
stored instant, and a row is stored between the start of its range and its first window. -/
def Bracketed (rows : List (Point Value)) (base : Int) (windows : List BatchWindow) : Prop :=
  ∀ run ∈ overlapRuns windows.length windows, reachOf run.1 run.2 ∈ rows.map Prod.fst ∧
    ∃ row ∈ rows, leadIn grid base run.1 ≤ row.1 ∧ row.1 ≤ run.1.start

instance (rows : List (Point Value)) (base : Int) (windows : List BatchWindow) :
    Decidable (Bracketed grid rows base windows) :=
  inferInstanceAs (Decidable (∀ run ∈ _, _))

/-- Commits which each hold only instants behind all that are stored by then. -/
def AppendOnly (grid : WindowGrid) : List (Point Value) → List (List (Point Value)) → Prop
  | _, [] => True
  | rows, commit :: commits =>
      (commit ≠ [] ∧ (∀ row ∈ commit, grid.Representable row.1) ∧
        ∀ row ∈ rows, ∀ next ∈ commit, row.1 < next.1) ∧ AppendOnly grid (rows ++ commit) commits

section Store

variable [DecidableEq Value]

instance : LawfulBEq (Batch Value) := inferInstance

/-- Queue batches, each unless it is queued already. -/
def insertUnprocessedBatches (queued batches : List (Batch Value)) : List (Batch Value) :=
  batches.foldl (fun queued batch => if batch ∈ queued then queued else queued ++ [batch]) queued

def earliest (rows : List (Point Value)) : Option Int := (rows.map Prod.fst).min?

def latest (rows : List (Point Value)) : Option Int := (rows.map Prod.fst).max?

/-- Every window of the stored rows; without a row there is nothing to rebuild from. -/
def buildUnprocessedQueue (rows : List (Point Value)) (queued : List (Batch Value)) :
    Option (List (Batch Value)) :=
  match earliest rows, latest rows with
  | some base, some latest =>
      let points :=
        analyzeRange (bracketing.interpolator grid.stepMillis) grid.stepMillis rows base latest
      some (insertUnprocessedBatches queued (slidingWindowBatches grid.batchSize points))
  | _, _ => none

/-- The rows, the queue and the batches. -/
structure QueueBacked (Value : Type) where
  rows : List (Point Value)
  queue : UnbatchedQueue
  batches : List (Batch Value)

/-- The rows of one commit, queued when they are offered and again when they are stored. -/
structure Capture (Value : Type) where
  rows : List (Point Value)
  offeredAt : Int
  storedAt : Int

namespace QueueBacked

def empty (Value : Type) : QueueBacked Value where
  rows := []
  queue := KeyedTable.empty
  batches := []

omit [DecidableEq Value] in
def capture (aspect : QueueBacked Value) (capture : Capture Value) : QueueBacked Value :=
  let timestamps := capture.rows.map Prod.fst
  { aspect with
    rows := aspect.rows ++ capture.rows
    queue := (aspect.queue.enqueueUnbatchedMeasurements timestamps
      capture.offeredAt).enqueueUnbatchedMeasurements timestamps capture.storedAt }

/-- The entries whose instants a built window contains. -/
def covered (entries : List UnbatchedEntry) (built : List (BatchWindow × Batch Value)) :
    List UnbatchedEntry :=
  entries.filter fun entry =>
    built.any fun window => decide (window.1.Contains entry.dataTimestamp)

def buildIncrementalUnprocessedQueue (aspect : QueueBacked Value) : Option (QueueBacked Value) :=
  let unbatched := aspect.queue.rows
  if unbatched = [] ∧ aspect.batches = [] then
    (buildUnprocessedQueue bracketing grid aspect.rows aspect.batches).map fun batches =>
      { aspect with batches := batches }
  else if unbatched = [] then some aspect
  else
    match earliest aspect.rows with
    | none => some aspect
    | some base =>
        let timestamps := unbatched.map UnbatchedEntry.dataTimestamp
        let affected := grid.calculateAffectedWindows timestamps base
        if affected = [] then
          some { aspect with queue := aspect.queue.dequeueUnbatchedEntries unbatched }
        else
          match latest aspect.rows with
          | none => some aspect
          | some latest =>
              let windows := windowsToBuild latest affected
              let built := buildBatchesForWindows bracketing grid aspect.rows base windows
              some
                { aspect with
                  queue := aspect.queue.dequeueUnbatchedEntries (covered unbatched built)
                  batches := insertUnprocessedBatches aspect.batches (built.map Prod.snd) }

/-- A commit, and a run behind it. -/
def step (aspect : QueueBacked Value) (capture : Capture Value) : Option (QueueBacked Value) :=
  (aspect.capture capture).buildIncrementalUnprocessedQueue bracketing grid

/-- What the run behind a commit builds is bracketed. -/
def ReadsBracketed (aspect : QueueBacked Value) (capture : Capture Value) : Prop :=
  let next := aspect.capture capture
  ∀ base ∈ earliest next.rows, ∀ last ∈ latest next.rows, Bracketed grid next.rows base
    (windowsToBuild last (grid.calculateAffectedWindows
      (next.queue.rows.map UnbatchedEntry.dataTimestamp) base))

omit [DecidableEq Value] in
instance (aspect : QueueBacked Value) (capture : Capture Value) :
    Decidable (ReadsBracketed grid aspect capture) :=
  inferInstanceAs (Decidable (∀ base ∈ earliest (aspect.capture capture).rows, _))

end QueueBacked

/-- The rows, the change log and the batches, with the epoch of the last commit. -/
structure SealBacked (Value : Type) where
  rows : List (Point Value)
  epoch : Nat
  log : List SegmentChange
  batches : List (Batch Value)

namespace SealBacked

def empty (Value : Type) : SealBacked Value where
  rows := []
  epoch := 0
  log := []
  batches := []

omit [DecidableEq Value] in
def commit (aspect : SealBacked Value) (rows : List (Point Value)) : SealBacked Value :=
  let commit : Commit Value := ⟨aspect.epoch + 1, rows⟩
  { aspect with
    rows := aspect.rows ++ rows
    epoch := aspect.epoch + 1
    log := aspect.log ++ [commit.change] }

omit [DecidableEq Value] in
/-- Delete the changes through an epoch. -/
def ackSealChanges (log : List SegmentChange) : Option Nat → List SegmentChange
  | none => log
  | some epoch => log.filter fun change => decide (epoch < change.epoch)

def buildIncrementalFromChangeLog (aspect : SealBacked Value) : Option (SealBacked Value) :=
  let changes := aspect.log
  if changes = [] ∧ aspect.batches ≠ [] then some aspect
  else if aspect.batches = [] then
    (buildUnprocessedQueue bracketing grid aspect.rows aspect.batches).map fun batches =>
      { aspect with
        batches := batches
        log := ackSealChanges aspect.log (changes.getLast?.map SegmentChange.epoch) }
  else
    match earliest aspect.rows, latest aspect.rows with
    | some base, some latest =>
        let affected := (changes.flatMap (Aspect.changeWindows grid base)).dedup
        let windows := windowsToBuild latest affected
        let built := buildBatchesForWindows bracketing grid aspect.rows base windows
        let ackThrough := Aspect.ackThrough grid base (built.map Prod.fst) changes
        some
          { aspect with
            batches := insertUnprocessedBatches aspect.batches (built.map Prod.snd)
            log := ackSealChanges aspect.log ackThrough }
    | _, _ => some aspect

/-- A commit, and a run behind it. -/
def step (aspect : SealBacked Value) (rows : List (Point Value)) : Option (SealBacked Value) :=
  (aspect.commit rows).buildIncrementalFromChangeLog bracketing grid

/-- What the run behind a commit builds, unless it rebuilds every window, is bracketed. -/
def ReadsBracketed (aspect : SealBacked Value) (rows : List (Point Value)) : Prop :=
  let next := aspect.commit rows
  next.batches ≠ [] → ∀ base ∈ earliest next.rows, ∀ last ∈ latest next.rows,
    Bracketed grid next.rows base
      (windowsToBuild last (next.log.flatMap (Aspect.changeWindows grid base)).dedup)

instance (aspect : SealBacked Value) (rows : List (Point Value)) :
    Decidable (ReadsBracketed grid aspect rows) :=
  inferInstanceAs (Decidable (_ → ∀ base ∈ earliest (aspect.commit rows).rows, _))

end SealBacked

end Store

end WeftDb.Rebuild
