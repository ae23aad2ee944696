import WeftDb.Batching.BatchTables
import WeftDb.Extraction.Dictionary

/-!
# Extraction of patterns from the processed batches

`build_patterns_queue` lists the processed batches, from the cache if it has them, and imports the
pattern of each into a dictionary in memory.  Then it stores every pattern of the dictionary, each
in a transaction of its own, and last removes the batches, in one transaction which records their
hashes.  An import which fails aborts the call.  A store which fails is only logged, and the
batches are removed all the same.
-/

namespace WeftDb.Extraction

open BatchTables

structure BatchedMeasurement where
  active : Bool
  timestamp : Instant
  vector : Option MeasurementVector
  /-- The relative of the analysis, if the measurement has one. -/
  relative : Option Relative
  deriving DecidableEq

/-- What the row of a batch holds. -/
structure BatchContents where
  resolution : ResolutionName
  size : Nat
  measurements : List BatchedMeasurement
  deriving DecidableEq

namespace BatchContents

def activeMeasurements (contents : BatchContents) : List BatchedMeasurement :=
  contents.measurements.filter (·.active)

/-- The relatives of the active measurements: those of the analysis, or, if there are none, those
of the vectors. -/
def relatives (contents : BatchContents) : List Relative :=
  match contents.activeMeasurements.filterMap (·.relative) with
  | [] =>
      let vectors := contents.activeMeasurements.filterMap (·.vector)
      let maxX := (vectors.map (·.location)).max?.getD 0
      let maxY := (vectors.map (·.amplitude)).max?.getD 0
      vectors.map fun vector => ⟨vector, maxX, maxY⟩
  | analysed => analysed

/-- The pattern of a batch which has active measurements and relatives. -/
def buildPattern (aspect : AspectId) (patternId : PatternId) (contents : BatchContents) :
    Except ExtractionError (Option Pattern) :=
  if contents.activeMeasurements.isEmpty then .ok none
  else
    let timestamps := contents.activeMeasurements.map (·.timestamp)
    match timestamps.min?, timestamps.max? with
    | none, _ => .error .noMinimum
    | some _, none => .error .noMaximum
    | some beginning, some finish =>
        if contents.relatives.isEmpty then .ok none
        else
          let occurrence :=
            ⟨aspect, contents.resolution, contents.size, patternId, beginning, finish⟩
          .ok (some ⟨patternId, [occurrence], contents.relatives⟩)

/-- Where the pattern of a batch is seen, if the batch has one. -/
def extractedSpan (aspect : AspectId) (contents : BatchContents) : Option Span :=
  match contents.buildPattern aspect 0 with
  | .ok (some pattern) => pattern.occurrences.head?.map Occurrence.span
  | _ => none

end BatchContents

/-- A row of an occurrence: its instants are stored in milliseconds. -/
structure StoredOccurrence where
  aspectId : AspectId
  resolution : ResolutionName
  size : Nat
  beginningTimestamp : Int
  endTimestamp : Int
  deriving DecidableEq

/-- A pattern with its rows. -/
structure StoredPattern where
  id : PatternId
  occurrences : List StoredOccurrence
  relatives : List Relative
  deriving DecidableEq

/-- The rows of a pattern, which are stored under the aspect of the call. -/
def Pattern.stored (aspect : AspectId) (pattern : Pattern) : StoredPattern where
  id := pattern.id
  occurrences := pattern.occurrences.map fun occurrence =>
    ⟨aspect, occurrence.resolution, occurrence.size, occurrence.beginning.timestampMillis,
      occurrence.finish.timestampMillis⟩
  relatives := pattern.relatives

/-- A row which stands for an occurrence at this place. -/
def StoredOccurrence.StandsFor (row : StoredOccurrence) (span : Span) : Prop :=
  row.aspectId = span.1 ∧ row.beginningTimestamp = span.2.1.timestampMillis ∧
    row.endTimestamp = span.2.2.timestampMillis

instance (row : StoredOccurrence) (span : Span) : Decidable (row.StandsFor span) :=
  inferInstanceAs (Decidable (_ ∧ _ ∧ _))

/-- Some stored pattern has an occurrence at this place. -/
def Stores (stored : List StoredPattern) (span : Span) : Prop :=
  ∃ pattern ∈ stored, ∃ row ∈ pattern.occurrences, row.StandsFor span

instance (stored : List StoredPattern) (span : Span) : Decidable (Stores stored span) :=
  inferInstanceAs (Decidable (∃ pattern ∈ stored, _))

/-- What extraction runs with. -/
structure Extractor (Variability Hash : Type) where
  aspect : AspectId
  numerics : DictionaryNumerics Variability
  codec : BatchCodec BatchContents Hash
  /-- How long the hash of an extracted batch is kept. -/
  retentionMillis : Int

/-- Where the call is. -/
inductive Stage (Variability Hash : Type)
  /-- No call runs: none began yet, the last one failed, or the process crashed under it. -/
  | idle
  | importing (listed pending : List (Batch BatchContents Hash))
      (dictionary : Dictionary Variability)
  | storing (listed : List (Batch BatchContents Hash)) (pending : List Pattern)
  | removing (listed : List (Batch BatchContents Hash))
  /-- The last call succeeded. -/
  | returned

/-- The tables of the batches, the dictionary's database and the call.  The last two fields are the
history of the run and take no part in it. -/
structure ExtractionSystem (Variability Hash : Type) where
  tables : Tables BatchContents Hash
  /-- The last processed batches which this process listed, while it caches them. -/
  cached : Option (List (Batch BatchContents Hash))
  stored : List StoredPattern
  stage : Stage Variability Hash
  /-- Every batch which a call has listed. -/
  listed : List (Batch BatchContents Hash)
  /-- Every row which a call has removed. -/
  removed : List (BatchRow BatchContents Hash)

/-- How a transaction ends: one which fails may have been committed all the same. -/
inductive TransactionEnd
  | committed
  | failed (landed : Bool)
  deriving DecidableEq

/-- What can happen next. -/
inductive ExtractionAction (Variability : Type)
  /-- The queue consumer or the mover takes a step. -/
  | others (action : BatchTables.Action)
  | list (dictionary : Dictionary Variability)
  | importNext (patternId : PatternId)
  | finishImport
  | storeNext (ending : TransactionEnd)
  | finishStore
  | remove (now : Int) (ending : TransactionEnd)
  /-- The cached batches expire. -/
  | expire
  /-- The process crashes and starts again. -/
  | crash

namespace ExtractionSystem

variable {Variability Hash : Type}

/-- A process which has just started over tables and a dictionary's database. -/
def opened (tables : Tables BatchContents Hash) (stored : List StoredPattern) :
    ExtractionSystem Variability Hash where
  tables := tables
  cached := none
  stored := stored
  stage := .idle
  listed := []
  removed := []

variable (extractor : Extractor Variability Hash) (system : ExtractionSystem Variability Hash)

/-- The processed batches: the cached ones, or those of the table, which are then cached unless
there are none. -/
def processedBatches : List (Batch BatchContents Hash) :=
  system.cached.getD (system.tables.processed.map BatchRow.parse)

def listProcessed (dictionary : Dictionary Variability) :
    Option (ExtractionSystem Variability Hash) :=
  let batches := system.processedBatches
  let listing :=
    { system with
      cached := if batches.isEmpty then system.cached else some batches
      stage := .importing batches batches dictionary
      listed := system.listed ++ batches }
  match system.stage with
  | .idle | .returned => some listing
  | _ => none

/-- Import the pattern of the next batch.  A failure aborts the call. -/
def importNext (patternId : PatternId) : Option (ExtractionSystem Variability Hash) :=
  match system.stage with
  | .importing listed (batch :: pending) dictionary =>
      let imported := do
        match ← batch.measurements.buildPattern extractor.aspect patternId with
        | none => pure dictionary
        | some pattern => dictionary.importPattern extractor.numerics pattern
      match imported with
      | .ok dictionary => some { system with stage := .importing listed pending dictionary }
      | .error _ => some { system with stage := .idle }
  | _ => none

def finishImport : Option (ExtractionSystem Variability Hash) :=
  match system.stage with
  | .importing listed [] dictionary =>
      some { system with stage := .storing listed dictionary.patterns }
  | _ => none

/-- Add the rows of a pattern to the dictionary's database. -/
def insertPattern (pattern : Pattern) : List StoredPattern :=
  system.stored ++ [pattern.stored extractor.aspect]

/-- What the dictionary's database has after a transaction which inserts a pattern. -/
def storedAfter (pattern : Pattern) : TransactionEnd → List StoredPattern
  | .committed | .failed true => system.insertPattern extractor pattern
  | .failed false => system.stored

/-- Store the next pattern.  A failure ends the storing and is only logged. -/
def storeNext (ending : TransactionEnd) : Option (ExtractionSystem Variability Hash) :=
  match system.stage with
  | .storing listed (pattern :: pending) =>
      let stage :=
        match ending with
        | .committed => .storing listed pending
        | .failed _ => .removing listed
      some { system with stored := system.storedAfter extractor pattern ending, stage := stage }
  | _ => none

def finishStore : Option (ExtractionSystem Variability Hash) :=
  match system.stage with
  | .storing listed [] => some { system with stage := .removing listed }
  | _ => none

/-- The state after the removal of the listed batches was committed. -/
def removeListed (listed : List (Batch BatchContents Hash)) (now : Int) :
    ExtractionSystem Variability Hash :=
  let ids := listed.map Batch.batchId
  { system with
    tables := system.tables.removeExtracted extractor.retentionMillis ids now
    removed := system.removed ++ system.tables.processed.filter fun row => decide (row.id ∈ ids) }

/-- Remove the listed batches.  Without any there is no transaction. -/
def remove (now : Int) (ending : TransactionEnd) :
    Option (ExtractionSystem Variability Hash) :=
  match system.stage with
  | .removing [] => some { system with stage := .returned }
  | .removing listed =>
      match ending with
      | .committed => some { system.removeListed extractor listed now with stage := .returned }
      | .failed true => some { system.removeListed extractor listed now with stage := .idle }
      | .failed false => some { system with stage := .idle }
  | _ => none

/-- The queue consumer or the mover takes a step. -/
def others [DecidableEq Hash] (action : BatchTables.Action) :
    Option (ExtractionSystem Variability Hash) :=
  match action with
  | .removeExtracted _ _ | .restart => none
  | action => do
      let tables ← BatchTables.step extractor.codec extractor.retentionMillis system.tables action
      pure { system with tables := tables }

def crash : ExtractionSystem Variability Hash :=
  { system with tables := system.tables.restart, cached := none, stage := .idle }

/-- One step. -/
def step [DecidableEq Hash] (extractor : Extractor Variability Hash)
    (system : ExtractionSystem Variability Hash) :
    ExtractionAction Variability → Option (ExtractionSystem Variability Hash)
  | .others action => system.others extractor action
  | .list dictionary => system.listProcessed dictionary
  | .importNext patternId => system.importNext extractor patternId
  | .finishImport => system.finishImport
  | .storeNext ending => system.storeNext extractor ending
  | .finishStore => system.finishStore
  | .remove now ending => system.remove extractor now ending
  | .expire => some { system with cached := none }
  | .crash => some system.crash

end ExtractionSystem

end WeftDb.Extraction
