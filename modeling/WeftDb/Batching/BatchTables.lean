import Mathlib.Data.List.Nodup
import WeftDb.Foundation.Execution

/-!
# The way of a batch through the tables

A batch is queued in one database, moved to the processed batches of another one, and removed from
those when pattern extraction consumed it, which records its hash.  Each transaction lies in one
database, no table has a unique constraint, and only the insertion into the queue looks whether the
hash is known: as queued, then as processed, then as extracted, each at its own moment.
-/

namespace WeftDb.BatchTables

/-- The identifier of a batch. -/
abbrev BatchId := Nat

/-- What an identifier names, and what is computed from it. -/
structure BatchCodec (Measurements Hash : Type) where
  /-- The measurements of the batch which an identifier names. -/
  measurementsOf : BatchId → Measurements
  /-- The hash of stored measurements. -/
  batchIdentity : Measurements → Hash
  /-- The level transform and analysis, which rewrite the measurements. -/
  process : Measurements → Measurements

/-- A batch in memory: one which was read from a table has its hash. -/
structure Batch (Measurements Hash : Type) where
  batchId : BatchId
  measurements : Measurements
  batchHash : Option Hash

/-- A row of the queued or of the processed batches. -/
structure BatchRow (Measurements Hash : Type) where
  id : BatchId
  measurements : Measurements
  batchHash : Hash

/-- The record of a batch which extraction consumed. -/
structure ExtractedBatch (Hash : Type) where
  batchHash : Hash
  extractedAt : Int

section Rows

variable {Measurements Hash : Type}

/-- The batch of a row. -/
def BatchRow.parse (row : BatchRow Measurements Hash) : Batch Measurements Hash where
  batchId := row.id
  measurements := row.measurements
  batchHash := some row.batchHash

variable (codec : BatchCodec Measurements Hash)

/-- The row which a batch is queued as. -/
def BatchCodec.queuedRow (id : BatchId) : BatchRow Measurements Hash where
  id := id
  measurements := codec.measurementsOf id
  batchHash := codec.batchIdentity (codec.measurementsOf id)

/-- The hash a processed batch is stored under: the one it was queued under. -/
def BatchCodec.processedBatchHash (batch : Batch Measurements Hash) : Hash :=
  batch.batchHash.getD (codec.batchIdentity batch.measurements)

/-- The row which a batch is moved to the processed batches as. -/
def BatchCodec.processedRow (batch : Batch Measurements Hash) : BatchRow Measurements Hash :=
  let processed := { batch with measurements := codec.process batch.measurements }
  ⟨processed.batchId, processed.measurements, codec.processedBatchHash processed⟩

end Rows

/-- Where the transaction is which queues batches.  It sees the queue as it was when it began, with
its own insertions. -/
inductive Consumer (Measurements Hash : Type)
  | idle
  | checking (snapshot inserted : List (BatchRow Measurements Hash)) (left : List BatchId)
  /-- The next batch is not queued. -/
  | notQueued (snapshot inserted : List (BatchRow Measurements Hash)) (batch : BatchId)
      (left : List BatchId)
  /-- Neither is it processed. -/
  | notProcessed (snapshot inserted : List (BatchRow Measurements Hash)) (batch : BatchId)
      (left : List BatchId)

/-- Where the mover is. -/
inductive Mover (Measurements Hash : Type)
  | idle
  | moving (left : List (Batch Measurements Hash))
  /-- A chunk is inserted into the processed batches and still queued. -/
  | inserted (chunk left : List (Batch Measurements Hash))

/-- How many batches the mover takes at a time. -/
def moveChunk : Nat := 1000

/-- The three tables, with the processes which work on them.  The last three fields are the history
of the run and take no part in it. -/
structure Tables (Measurements Hash : Type) where
  queued : List (BatchRow Measurements Hash)
  processed : List (BatchRow Measurements Hash)
  extracted : List (ExtractedBatch Hash)
  /-- The last queued batches which this process listed, while it caches them. -/
  cached : List (Batch Measurements Hash)
  consumer : Consumer Measurements Hash
  mover : Mover Measurements Hash
  /-- The hash of every row committed to the queue, and of every processed row. -/
  everQueued : List Hash
  everProcessed : List Hash
  /-- The hashes of the rows which each completed removal deleted. -/
  removals : List (List Hash)

/-- Empty tables. -/
def fresh (Measurements Hash : Type) : Tables Measurements Hash where
  queued := []
  processed := []
  extracted := []
  cached := []
  consumer := .idle
  mover := .idle
  everQueued := []
  everProcessed := []
  removals := []

/-- What can happen next. -/
inductive Action
  /-- A transaction begins which queues these batches, one or a chunk of them. -/
  | beginQueue (batches : List BatchId)
  | checkQueued
  | checkProcessed
  | checkExtracted
  | commitQueue
  /-- The mover lists the queued batches, from the cache unless it expired. -/
  | listQueued (expired : Bool)
  | insertProcessed
  | removeUnprocessed
  /-- Extraction removes the batches which it consumed. -/
  | removeExtracted (batches : List BatchId) (now : Int)
  | stopConsumer
  | stopMover
  /-- The process crashes and starts again. -/
  | restart
  deriving DecidableEq

namespace Tables

variable {Measurements Hash : Type} (codec : BatchCodec Measurements Hash)
  (retentionMillis : Int) (tables : Tables Measurements Hash)

def beginQueue (batches : List BatchId) : Option (Tables Measurements Hash) :=
  match tables.consumer with
  | .idle => some { tables with consumer := .checking tables.queued [] batches }
  | _ => none

/-- Commit the insertions. -/
def commitQueue : Option (Tables Measurements Hash) :=
  match tables.consumer with
  | .checking _ inserted [] =>
      some
        { tables with
          queued := tables.queued ++ inserted
          consumer := .idle
          everQueued := tables.everQueued ++ inserted.map BatchRow.batchHash }
  | _ => none

section Lookups

variable [DecidableEq Hash]

/-- Look the next batch up in the queue. -/
def checkQueued : Option (Tables Measurements Hash) :=
  match tables.consumer with
  | .checking snapshot inserted (batch :: left) =>
      if (codec.queuedRow batch).batchHash ∈ (snapshot ++ inserted).map BatchRow.batchHash then
        some { tables with consumer := .checking snapshot inserted left }
      else some { tables with consumer := .notQueued snapshot inserted batch left }
  | _ => none

/-- Look it up in the processed batches. -/
def checkProcessed : Option (Tables Measurements Hash) :=
  match tables.consumer with
  | .notQueued snapshot inserted batch left =>
      if (codec.queuedRow batch).batchHash ∈ tables.processed.map BatchRow.batchHash then
        some { tables with consumer := .checking snapshot inserted left }
      else some { tables with consumer := .notProcessed snapshot inserted batch left }
  | _ => none

/-- Look it up in the extracted ones, and insert it when it is unknown. -/
def checkExtracted : Option (Tables Measurements Hash) :=
  match tables.consumer with
  | .notProcessed snapshot inserted batch left =>
      let row := codec.queuedRow batch
      if row.batchHash ∈ tables.extracted.map ExtractedBatch.batchHash then
        some { tables with consumer := .checking snapshot inserted left }
      else some { tables with consumer := .checking snapshot (inserted ++ [row]) left }
  | _ => none

end Lookups

/-- List the queued batches.  A list which is not empty is cached, and nothing but its expiry or a
restart drops it. -/
def listQueued (expired : Bool) : Option (Tables Measurements Hash) :=
  match tables.mover with
  | .idle =>
      let batches :=
        if expired ∨ tables.cached.isEmpty then tables.queued.map BatchRow.parse else tables.cached
      some { tables with cached := batches, mover := .moving batches }
  | _ => none

/-- Insert the next chunk into the processed batches, in one transaction. -/
def insertProcessed : Option (Tables Measurements Hash) :=
  match tables.mover with
  | .moving [] => some { tables with mover := .idle }
  | .moving left =>
      let chunk := left.take moveChunk
      let rows := chunk.map codec.processedRow
      some
        { tables with
          processed := tables.processed ++ rows
          mover := .inserted chunk (left.drop moveChunk)
          everProcessed := tables.everProcessed ++ rows.map BatchRow.batchHash }
  | _ => none

/-- Delete the chunk from the queue, in the next transaction. -/
def removeUnprocessed : Option (Tables Measurements Hash) :=
  match tables.mover with
  | .inserted chunk left =>
      let removed := chunk.map Batch.batchId
      some
        { tables with
          queued := tables.queued.filter fun row => decide (row.id ∉ removed)
          mover := .moving left }
  | _ => none

/-- Delete processed batches and record their hashes, in one transaction which also deletes the
records past their retention. -/
def removeExtracted (batches : List BatchId) (now : Int) : Tables Measurements Hash :=
  let kept := tables.extracted.filter fun record =>
    decide (now - retentionMillis ≤ record.extractedAt)
  let removed := (tables.processed.filter fun row => decide (row.id ∈ batches)).map
    BatchRow.batchHash
  { tables with
    processed := tables.processed.filter fun row => decide (row.id ∉ batches)
    extracted := kept ++ removed.map fun batchHash => ⟨batchHash, now⟩
    removals := tables.removals ++ [removed] }

/-- A crash loses the transactions under way and the cache. -/
def restart : Tables Measurements Hash :=
  { tables with cached := [], consumer := .idle, mover := .idle }

end Tables

/-- One step. -/
def step {Measurements Hash : Type} [DecidableEq Hash] (codec : BatchCodec Measurements Hash)
    (retentionMillis : Int) (tables : Tables Measurements Hash) :
    Action → Option (Tables Measurements Hash)
  | .beginQueue batches => tables.beginQueue batches
  | .checkQueued => tables.checkQueued codec
  | .checkProcessed => tables.checkProcessed codec
  | .checkExtracted => tables.checkExtracted codec
  | .commitQueue => tables.commitQueue
  | .listQueued expired => tables.listQueued expired
  | .insertProcessed => tables.insertProcessed codec
  | .removeUnprocessed => tables.removeUnprocessed
  | .removeExtracted batches now => some (tables.removeExtracted retentionMillis batches now)
  | .stopConsumer => some { tables with consumer := .idle }
  | .stopMover => some { tables with mover := .idle }
  | .restart => some tables.restart

end WeftDb.BatchTables
