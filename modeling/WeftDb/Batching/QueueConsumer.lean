import WeftDb.Batching.AnalyzeRange
import WeftDb.Batching.UnbatchedQueue
import WeftDb.Foundation.Execution
import WeftDb.Segment.Frame

/-!
# Captures and the queue consumer of one aspect

A capture queues its timestamps, commits their rows chunk by chunk, and queues each chunk again
behind its commit.  The consumer reads the queue, aligns the grid on the earliest stored row,
builds the windows which end by the latest one, stores their batches and deletes the entries which
they cover.  Any number of captures interleave with one consumer, and either may stop anywhere.

Which windows reach their points depends on the instants of the rows, so their values are left out.
-/

namespace WeftDb.QueueConsumer

open Outputs

/-- A chunk of rows whose timestamps were queued again behind its commit. -/
structure ChunkCommit where
  timestamps : List Int
  /-- How many chunks had been committed, this one included. -/
  number : Nat
  deriving DecidableEq

inductive CapturePhase
  | offered
  /-- Queued, with chunks still to commit. -/
  | writing (chunks : List (List Int))
  /-- A chunk is committed and about to be queued again. -/
  | requeuing (chunk : List Int) (number : Nat) (chunks : List (List Int))
  | returned
  deriving DecidableEq

/-- One call of `batch_capture_measurements`. -/
structure Capture where
  timestamps : List Int
  phase : CapturePhase
  /-- The chunks committed and queued again. -/
  settled : List ChunkCommit
  deriving DecidableEq

abbrev CaptureId := Nat

/-- How many rows one transaction of a call of `total` rows inserts. -/
def captureChunkSize (total : Nat) : Nat := if 100000 < total then 5000 else 2500

/-- A run of the consumer: the entries it read, and how many chunks were committed then. -/
structure ConsumerRun where
  entries : List UnbatchedEntry
  begun : Nat

/-- Where the consumer is. -/
inductive Consumer
  | idle
  | listed (run : ConsumerRun)
  /-- No window is affected: the entries read are being deleted. -/
  | clearing (run : ConsumerRun) (base : Int) (left : List UnbatchedEntry)
  | aligned (run : ConsumerRun) (base : Int) (windows : List BatchWindow)
  | building (run : ConsumerRun) (base latest : Int) (pending : List BatchWindow)
      (built : List BuiltBatch)
  | storing (run : ConsumerRun) (base latest : Int) (left built : List BuiltBatch)
  /-- The covered entries are being deleted. -/
  | dequeuing (run : ConsumerRun) (base latest : Int) (left : List UnbatchedEntry)

/-- How many entries one transaction deletes. -/
def dequeueChunk : Nat := 5000

/-- The entries which a built window covers. -/
def coveredEntries (entries : List UnbatchedEntry) (built : List BuiltBatch) :
    List UnbatchedEntry :=
  entries.filter fun entry =>
    built.any fun batch => decide (batch.window.Contains entry.dataTimestamp)

/-- The queue, the rows and the stored batches of one aspect, with the calls and the consumer. -/
structure Aspect where
  queue : UnbatchedQueue
  /-- The timestamps of the stored rows, one list for each chunk commit. -/
  commits : List (List Int)
  captures : CaptureId → Option Capture
  nextCapture : CaptureId
  consumer : Consumer
  /-- The batches stored so far; storing one already queued, processed or extracted is skipped. -/
  stored : List BuiltBatch
  /-- The timestamps ever queued. -/
  enqueued : List Int

/-- An aspect without rows. -/
def fresh : Aspect where
  queue := KeyedTable.empty
  commits := []
  captures := fun _ => none
  nextCapture := 0
  consumer := .idle
  stored := []
  enqueued := []

namespace Aspect

def earliest (aspect : Aspect) : Option Int := aspect.commits.flatten.min?

def latest (aspect : Aspect) : Option Int := aspect.commits.flatten.max?

def setCapture (aspect : Aspect) (id : CaptureId) (capture : Capture) : Aspect :=
  { aspect with captures := Function.update aspect.captures id (some capture) }

def enqueue (aspect : Aspect) (timestamps : List Int) (now : Int) : Aspect :=
  { aspect with
    queue := aspect.queue.enqueueUnbatchedMeasurements timestamps now
    enqueued := aspect.enqueued ++ timestamps }

/-- Queue every timestamp of a call, ahead of its rows. -/
def enqueueAhead (aspect : Aspect) (id : CaptureId) (now : Int) : Option Aspect :=
  match aspect.captures id with
  | some ⟨timestamps, .offered, settled⟩ =>
      let chunks := chunks (captureChunkSize timestamps.length) timestamps
      some ((aspect.enqueue timestamps now).setCapture id ⟨timestamps, .writing chunks, settled⟩)
  | _ => none

/-- Commit the rows of the next chunk of a call. -/
def commitChunk (aspect : Aspect) (id : CaptureId) : Option Aspect :=
  match aspect.captures id with
  | some ⟨timestamps, .writing (chunk :: chunks), settled⟩ =>
      let number := aspect.commits.length + 1
      some ({ aspect with commits := aspect.commits ++ [chunk] }.setCapture id
        ⟨timestamps, .requeuing chunk number chunks, settled⟩)
  | _ => none

/-- Queue the timestamps of a committed chunk again. -/
def requeue (aspect : Aspect) (id : CaptureId) (now : Int) : Option Aspect :=
  match aspect.captures id with
  | some ⟨timestamps, .requeuing chunk number chunks, settled⟩ =>
      some ((aspect.enqueue chunk now).setCapture id
        ⟨timestamps, .writing chunks, settled ++ [⟨chunk, number⟩]⟩)
  | _ => none

/-- A call returns once every chunk is committed and queued again. -/
def finish (aspect : Aspect) (id : CaptureId) : Option Aspect :=
  match aspect.captures id with
  | some ⟨timestamps, .writing [], settled⟩ =>
      some (aspect.setCapture id ⟨timestamps, .returned, settled⟩)
  | _ => none

/-- A call which has not returned fails or is abandoned. -/
def abandon (aspect : Aspect) (id : CaptureId) : Option Aspect :=
  match aspect.captures id with
  | some ⟨_, .returned, _⟩ => none
  | some _ => some { aspect with captures := Function.update aspect.captures id none }
  | none => none

/-- Read the queue entries, oldest stamp first. -/
def readEntries (aspect : Aspect) : Option Aspect :=
  match aspect.consumer with
  | .idle =>
      let entries :=
        aspect.queue.rows.insertionSort fun left right => left.queuedAt ≤ right.queuedAt
      if entries = [] then some aspect
      else some { aspect with consumer := .listed ⟨entries, aspect.commits.length⟩ }
  | _ => none

variable (grid : WindowGrid)

/-- Read the earliest stored row and compute the affected windows. -/
def readEarliest (aspect : Aspect) : Option Aspect :=
  match aspect.consumer with
  | .listed run =>
      match aspect.earliest with
      | none => some { aspect with consumer := .idle }
      | some base =>
          let windows :=
            grid.calculateAffectedWindows (run.entries.map UnbatchedEntry.dataTimestamp) base
          if windows = [] then some { aspect with consumer := .clearing run base run.entries }
          else some { aspect with consumer := .aligned run base windows }
  | _ => none

/-- Delete the next entries of a run which affects no window. -/
def clearEntries (aspect : Aspect) : Option Aspect :=
  match aspect.consumer with
  | .clearing run base left =>
      let rest := left.drop dequeueChunk
      some
        { aspect with
          queue := aspect.queue.dequeueUnbatchedEntries (left.take dequeueChunk)
          consumer := if rest = [] then .idle else .clearing run base rest }
  | _ => none

/-- Read the latest stored row and keep the windows which end by it. -/
def readLatest (aspect : Aspect) : Option Aspect :=
  match aspect.consumer with
  | .aligned run base windows =>
      match aspect.latest with
      | none => some { aspect with consumer := .idle }
      | some latest =>
          let complete := windows.filter fun window => decide (window.finish ≤ latest)
          let pending := complete.insertionSort fun left right => left.start ≤ right.start
          some { aspect with consumer := .building run base latest pending [] }
  | _ => none

/-- Interpolate the next run of overlapping windows from the rows stored now, and keep the windows
which reach `batch_size` points. -/
def buildWindows (method : Interpolator Unit) (aspect : Aspect) : Option Aspect :=
  match aspect.consumer with
  | .building run base latest [] built =>
      some { aspect with consumer := .storing run base latest built built }
  | .building run base latest (window :: windows) built =>
      let (overlapping, rest) := overlapRun window.finish windows
      let rows := aspect.commits.flatten.map fun timestamp => (timestamp, ())
      let reached := buildRun method grid rows base window overlapping
      let batches := reached.map fun window => ⟨window.1, aspect.commits.length⟩
      some { aspect with consumer := .building run base latest rest (built ++ batches) }
  | _ => none

/-- Store the next batches. -/
def storeBatches (aspect : Aspect) : Option Aspect :=
  match aspect.consumer with
  | .storing run base latest [] built =>
      let covered := coveredEntries run.entries built
      if covered = [] then some { aspect with consumer := .idle }
      else some { aspect with consumer := .dequeuing run base latest covered }
  | .storing run base latest left built =>
      some
        { aspect with
          stored := aspect.stored ++ left.take queueBatchChunk
          consumer := .storing run base latest (left.drop queueBatchChunk) built }
  | _ => none

/-- Delete the next covered entries. -/
def dequeueCovered (aspect : Aspect) : Option Aspect :=
  match aspect.consumer with
  | .dequeuing run base latest left =>
      let rest := left.drop dequeueChunk
      some
        { aspect with
          queue := aspect.queue.dequeueUnbatchedEntries (left.take dequeueChunk)
          consumer := if rest = [] then .idle else .dequeuing run base latest rest }
  | _ => none

end Aspect

/-- What can happen next. -/
inductive Action
  /-- A call with these timestamps begins. -/
  | capture (timestamps : List Int)
  | enqueueAhead (id : CaptureId) (now : Int)
  | commitChunk (id : CaptureId)
  | requeue (id : CaptureId) (now : Int)
  | finish (id : CaptureId)
  | abandon (id : CaptureId)
  | readEntries
  | readEarliest
  | clearEntries
  | readLatest
  | buildWindows
  | storeBatches
  | dequeueCovered
  /-- The consumer crashes or fails. -/
  | stopConsumer
  deriving DecidableEq

/-- One step of the aspect. -/
def step (grid : WindowGrid) (method : Interpolator Unit) (aspect : Aspect) :
    Action → Option Aspect
  | .capture timestamps =>
      if timestamps = [] then none
      else
        some { aspect.setCapture aspect.nextCapture ⟨timestamps, .offered, []⟩ with
          nextCapture := aspect.nextCapture + 1 }
  | .enqueueAhead id now => aspect.enqueueAhead id now
  | .commitChunk id => aspect.commitChunk id
  | .requeue id now => aspect.requeue id now
  | .finish id => aspect.finish id
  | .abandon id => aspect.abandon id
  | .readEntries => aspect.readEntries
  | .readEarliest => aspect.readEarliest grid
  | .clearEntries => aspect.clearEntries
  | .readLatest => aspect.readLatest
  | .buildWindows => aspect.buildWindows grid method
  | .storeBatches => aspect.storeBatches
  | .dequeueCovered => aspect.dequeueCovered
  | .stopConsumer => some { aspect with consumer := .idle }

end WeftDb.QueueConsumer
