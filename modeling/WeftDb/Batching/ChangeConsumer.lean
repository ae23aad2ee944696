import WeftDb.Batching.AnalyzeRange
import WeftDb.Foundation.Execution

/-!
# The consumer of the change log of one aspect

Every seal and ingest commits its rows with one change-log row, which carries the commit's epoch and
span.  The consumer reads the log, builds the windows which the spans touch, stores their batches
and acknowledges the longest prefix of the changes whose windows were all built.  A first run, which
finds no batch, rebuilds every window instead and acknowledges every change it read.
-/

namespace WeftDb.ChangeConsumer

open Outputs

/-- The rows of one seal or ingest, with its epoch. -/
structure Commit (Value : Type) where
  epoch : Nat
  rows : List (Point Value)

/-- A row of the change log. -/
structure SegmentChange where
  epoch : Nat
  minTs : Option Int
  maxTs : Option Int
  deriving DecidableEq

/-- The change-log row of a commit. -/
def Commit.change {Value : Type} (commit : Commit Value) : SegmentChange where
  epoch := commit.epoch
  minTs := (commit.rows.map Prod.fst).min?
  maxTs := (commit.rows.map Prod.fst).max?

section Rebuild

variable {Value : Type}

/-- The window of a full batch: from its first point to its last one. -/
def windowOf (batch : Batch Value) : Option BatchWindow :=
  match batch.head?, batch.getLast? with
  | some first, some last => some ⟨first.1, last.1⟩
  | _, _ => none

/-- One batch of `batchSize` points from every point which leaves a full window. -/
def slidingWindowBatches (batchSize : Nat) (points : List (Point Value)) : List (Batch Value) :=
  if 0 < batchSize ∧ batchSize ≤ points.length then
    (List.range (points.length - batchSize + 1)).map fun first =>
      (points.drop first).take batchSize
  else []

/-- The windows which a full rebuild finds, with their batches. -/
def rebuildWindows (batchSize : Nat) (points : List (Point Value)) :
    List (BatchWindow × Batch Value) :=
  (slidingWindowBatches batchSize points).filterMap fun batch =>
    (windowOf batch).map fun window => (window, batch)

end Rebuild

/-- A batch with its window and how many commits its points were read behind. -/
structure CutBatch (Value : Type) where
  built : BuiltBatch
  batch : Batch Value

/-- Where the consumer is. -/
inductive Consumer (Value : Type)
  | idle
  | listed (changes : List SegmentChange)
  /-- No batch exists: every window is to be rebuilt. -/
  | firstRun (changes : List SegmentChange)
  | rebuilding (changes : List SegmentChange) (base : Int)
  | interpolating (changes : List SegmentChange) (base latest : Int)
  | counted (changes : List SegmentChange)
  | aligned (changes : List SegmentChange) (base : Int)
  | building (changes : List SegmentChange) (base latest : Int) (pending : List BatchWindow)
      (cut : List (CutBatch Value))
  /-- Storing batches, and about to acknowledge the changes through an epoch. -/
  | storing (base : Int) (left : List (CutBatch Value)) (ackThrough : Option Nat)
  | acking (base : Int) (ackThrough : Nat)

/-- A change which was acknowledged by a run aligned on `base`. -/
structure Acknowledged where
  epoch : Nat
  base : Int

/-- The rows, the change log and the batches of one aspect, with the consumer.  The last two fields
are the history of the run and take no part in it. -/
structure Aspect (Value : Type) where
  commits : List (Commit Value)
  log : List SegmentChange
  /-- The batches queued or processed. -/
  queued : List (Batch Value)
  /-- The batches extracted, by their record. -/
  extracted : List (Batch Value)
  consumer : Consumer Value
  stored : List BuiltBatch
  acknowledged : List Acknowledged

/-- An aspect without rows. -/
def fresh (Value : Type) : Aspect Value where
  commits := []
  log := []
  queued := []
  extracted := []
  consumer := .idle
  stored := []
  acknowledged := []

namespace Aspect

variable {Value : Type}

/-- The stored rows. -/
def rows (aspect : Aspect Value) : List (Point Value) := aspect.commits.flatMap Commit.rows

def timestamps (aspect : Aspect Value) : List Int := aspect.rows.map Prod.fst

variable (grid : WindowGrid)

/-- The earliest stored instant, when the calendar represents it. -/
def earliest (aspect : Aspect Value) : Option Int :=
  aspect.timestamps.min?.filter fun millis => decide (grid.Representable millis)

/-- The latest stored instant, when the calendar represents it. -/
def latest (aspect : Aspect Value) : Option Int :=
  aspect.timestamps.max?.filter fun millis => decide (grid.Representable millis)

/-- Commit rows with their change-log row, at an epoch past every earlier one. -/
def commitRows (aspect : Aspect Value) (epoch : Nat) (rows : List (Point Value)) :
    Option (Aspect Value) :=
  if ∀ commit ∈ aspect.commits, commit.epoch < epoch then
    let commit : Commit Value := ⟨epoch, rows⟩
    some
      { aspect with
        commits := aspect.commits ++ [commit]
        log := aspect.log ++ [commit.change] }
  else none

/-- Pattern extraction consumes the oldest batches. -/
def extract (aspect : Aspect Value) (count : Nat) : Aspect Value :=
  { aspect with
    queued := aspect.queued.drop count
    extracted := aspect.extracted ++ aspect.queued.take count }

/-- Read the change log. -/
def readChanges (aspect : Aspect Value) : Option (Aspect Value) :=
  match aspect.consumer with
  | .idle => some { aspect with consumer := .listed aspect.log }
  | _ => none

/-- Count the batches: without any this is a first run. -/
def countBatches (aspect : Aspect Value) : Option (Aspect Value) :=
  match aspect.consumer with
  | .listed changes =>
      if aspect.queued = [] then some { aspect with consumer := .firstRun changes }
      else if changes = [] then some { aspect with consumer := .idle }
      else some { aspect with consumer := .counted changes }
  | _ => none

/-- Read the instant on which the grid is aligned.  A first run may find an older answer in a
cache. -/
def readEarliest (aspect : Aspect Value) (cached : Option Int) : Option (Aspect Value) :=
  match aspect.consumer with
  | .firstRun changes =>
      if ∀ millis ∈ cached, millis ∈ aspect.timestamps ∧ grid.Representable millis then
        match cached.or (aspect.earliest grid) with
        | none => some { aspect with consumer := .idle }
        | some base => some { aspect with consumer := .rebuilding changes base }
      else none
  | .counted changes =>
      match aspect.earliest grid with
      | none => some { aspect with consumer := .idle }
      | some base => some { aspect with consumer := .aligned changes base }
  | _ => none

/-- The windows which the span of a change touches. -/
def changeWindows (base : Int) (change : SegmentChange) : List BatchWindow :=
  match change.minTs, change.maxTs with
  | some minTs, some maxTs =>
      if grid.Representable minTs ∧ grid.Representable maxTs then
        grid.calculateAffectedWindowsForRange minTs maxTs base
      else []
  | _, _ => []

/-- Read the end of the stored data, and keep the windows which end by it. -/
def readLatest (aspect : Aspect Value) : Option (Aspect Value) :=
  match aspect.consumer with
  | .rebuilding changes base =>
      match aspect.latest grid with
      | none => some { aspect with consumer := .idle }
      | some latest => some { aspect with consumer := .interpolating changes base latest }
  | .aligned changes base =>
      match aspect.latest grid with
      | none => some { aspect with consumer := .idle }
      | some latest =>
          let affected := (changes.flatMap (changeWindows grid base)).dedup
          let complete := affected.filter fun window => decide (window.finish ≤ latest)
          let pending := complete.insertionSort fun left right => left.start ≤ right.start
          some { aspect with consumer := .building changes base latest pending [] }
  | _ => none

/-- The longest prefix of changes whose windows were all built, by the epoch of its last one. -/
def ackThrough (base : Int) (built : List BatchWindow) : List SegmentChange → Option Nat
  | [] => none
  | change :: changes =>
      if ∀ window ∈ changeWindows grid base change, window ∈ built then
        some ((ackThrough base built changes).getD change.epoch)
      else none

/-- Interpolate from the rows stored now: the whole range of a first run, or the next run of
overlapping windows. -/
def build (method : Interpolator Value) (aspect : Aspect Value) : Option (Aspect Value) :=
  let readAfter := aspect.commits.length
  match aspect.consumer with
  | .interpolating changes base latest =>
      let points := analyzeRange method grid.stepMillis aspect.rows base latest
      let found := rebuildWindows grid.batchSize points
      let cut := found.map fun window => ⟨⟨window.1, readAfter⟩, window.2⟩
      some
        { aspect with
          consumer := .storing base cut (changes.getLast?.map SegmentChange.epoch) }
  | .building changes base _ [] cut =>
      let built := cut.map fun batch => batch.built.window
      some { aspect with consumer := .storing base cut (ackThrough grid base built changes) }
  | .building changes base latest (window :: windows) cut =>
      let (run, rest) := overlapRun window.finish windows
      let reached := buildRun method grid aspect.rows base window run
      let more := reached.map fun window => ⟨⟨window.1, readAfter⟩, window.2⟩
      some { aspect with consumer := .building changes base latest rest (cut ++ more) }
  | _ => none

variable [DecidableEq Value]

/-- Queue a batch, unless it is queued, processed or extracted already. -/
def storeBatch (aspect : Aspect Value) (cut : CutBatch Value) : Aspect Value :=
  { aspect with
    queued :=
      if cut.batch ∈ aspect.queued ++ aspect.extracted then aspect.queued
      else aspect.queued ++ [cut.batch]
    stored := aspect.stored ++ [cut.built] }

/-- Store the next chunk of batches. -/
def storeBatches (aspect : Aspect Value) : Option (Aspect Value) :=
  match aspect.consumer with
  | .storing base [] ackThrough =>
      match ackThrough with
      | none => some { aspect with consumer := .idle }
      | some epoch => some { aspect with consumer := .acking base epoch }
  | .storing base left ackThrough =>
      some
        { (left.take queueBatchChunk).foldl storeBatch aspect with
          consumer := .storing base (left.drop queueBatchChunk) ackThrough }
  | _ => none

omit [DecidableEq Value] in
/-- Delete the changes through an epoch; there is no epoch 0. -/
def ackChanges (aspect : Aspect Value) : Option (Aspect Value) :=
  match aspect.consumer with
  | .acking _ 0 => some { aspect with consumer := .idle }
  | .acking base epoch =>
      let deleted := aspect.log.filter fun change => decide (change.epoch ≤ epoch)
      some
        { aspect with
          log := aspect.log.filter fun change => decide (epoch < change.epoch)
          consumer := .idle
          acknowledged := aspect.acknowledged ++ deleted.map fun change => ⟨change.epoch, base⟩ }
  | _ => none

end Aspect

/-- What can happen next. -/
inductive Action (Value : Type)
  /-- A seal or an ingest commits. -/
  | commitRows (epoch : Nat) (rows : List (Point Value))
  | extract (count : Nat)
  | readChanges
  | countBatches
  | readEarliest (cached : Option Int)
  | readLatest
  | build
  | storeBatches
  | ackChanges
  /-- The consumer crashes or fails. -/
  | stopConsumer

/-- One step of the aspect. -/
def step {Value : Type} [DecidableEq Value] (grid : WindowGrid) (method : Interpolator Value)
    (aspect : Aspect Value) : Action Value → Option (Aspect Value)
  | .commitRows epoch rows => aspect.commitRows epoch rows
  | .extract count => some (aspect.extract count)
  | .readChanges => aspect.readChanges
  | .countBatches => aspect.countBatches
  | .readEarliest cached => aspect.readEarliest grid cached
  | .readLatest => aspect.readLatest grid
  | .build => aspect.build grid method
  | .storeBatches => aspect.storeBatches
  | .ackChanges => aspect.ackChanges
  | .stopConsumer => some { aspect with consumer := .idle }

end WeftDb.ChangeConsumer
