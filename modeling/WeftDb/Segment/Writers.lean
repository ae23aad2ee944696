import WeftDb.Segment.Merge

/-!
# The writers of frames

A seal writes one frame of its rows.  An ingest writes one frame when the whole batch encodes
within the target, and otherwise one for each chunk of a cut by an estimate of the encoded bytes.
A merge writes one frame for each stretch of the folded rows.  No writer bounds rows or pages, so
its frames are readable exactly when the rows of each of them are few enough.
-/

namespace WeftDb

/-- The target of encoded bytes for one frame. -/
def maxEncodedFrameBytes : Nat := 128 * 1024 * 1024

/-- The most bytes which an envelope with this series key adds to a frame. -/
def seriesEnvelopeOverhead (key : String) : Nat := 16 + 6 + key.utf8ByteSize

def ingestFrameTarget (groups : TagSet) : Nat :=
  if groups.isEmpty then maxEncodedFrameBytes
  else maxEncodedFrameBytes - seriesEnvelopeOverhead groups.seriesKey

/-- The bytes which a row is charged. -/
def rowCost (row : Row) : Nat :=
  24 + (row.2.map BigDecimal.plainDigitCount).getD 0

/-- The rows which still join a chunk after one at `last`, and the rows after the chunk.  A cut
stands only at a timestamp boundary. -/
def fillChunk (target : Nat) : Nat → Int → List Row → List Row × List Row
  | _, _, [] => ([], [])
  | estimate, last, row :: rows =>
      if target < estimate + rowCost row ∧ row.1 ≠ last then ([], row :: rows)
      else
        let (chunk, later) := fillChunk target (estimate + rowCost row) row.1 rows
        (row :: chunk, later)

/-- Cut rows into chunks; `fuel` bounds their number. -/
def chunkIngestRowsFrom (target : Nat) : Nat → List Row → List (List Row)
  | 0, _ => []
  | _ + 1, [] => []
  | fuel + 1, row :: rows =>
      let (chunk, later) := fillChunk target (rowCost row) row.1 rows
      (row :: chunk) :: chunkIngestRowsFrom target fuel later

/-- Cut an ingest's rows by the estimate of their encoded bytes. -/
def chunkIngestRows (rows : List Row) (target : Nat) : List (List Row) :=
  chunkIngestRowsFrom target rows.length rows

/-- Why a write is refused. -/
inductive WriteError
  | seal (refused : SealError)
  | chunkPastTarget (rows target : Nat)
  deriving DecidableEq

/-- A writer: the declared schema, and how many bytes the frame writer spends on a body. -/
structure FrameWriter where
  schema : AspectSchema
  encodedBytes : FrameBody → Nat

namespace FrameWriter

variable (writer : FrameWriter)

/-- Seal rows in the shape which a page height asks for. -/
def sealRows (rows : List Row) (rowsPerPage : Option Nat) : Except WriteError FrameBody :=
  (writer.schema.sealShaped (rows.map Prod.fst) (rows.map Prod.snd) rowsPerPage).mapError .seal

/-- The frames of a seal; the untagged frame is its body. -/
def sealFrames (timestamps : List Int) (values : List (Option BigDecimal))
    (rowsPerPage : Option Nat) : Except WriteError (List Frame) := do
  let body ← (writer.schema.sealShaped timestamps values rowsPerPage).mapError WriteError.seal
  return [tagFrame body ""]

/-- A chunk fits the target, or it is a single row. -/
def proveChunk (target : Nat) (rowsPerPage : Option Nat) (rows : List Row) :
    Except WriteError Unit := do
  let body ← writer.sealRows rows rowsPerPage
  require (writer.encodedBytes body ≤ target ∨ rows.length ≤ 1)
    (.chunkPastTarget rows.length target)

/-- The row stretches of an ingest whose whole batch encodes as `whole`. -/
def ingestChunks (batch : IngestBatch) (whole : FrameBody) :
    Except WriteError (List (List Row)) := do
  let target := ingestFrameTarget batch.groups
  let rows := batch.timestamps.zip batch.values
  if writer.encodedBytes whole ≤ target then
    return [rows]
  (chunkIngestRows rows target).forM (writer.proveChunk target batch.rowsPerPage)
  return chunkIngestRows rows target

/-- The frames of an ingest. -/
def ingestFrames (batch : IngestBatch) : Except WriteError (List Frame) := do
  let whole ← (writer.schema.sealShaped batch.timestamps batch.values batch.rowsPerPage).mapError
    WriteError.seal
  let chunks ← writer.ingestChunks batch whole
  chunks.mapM fun chunk => do
    return tagFrame (← writer.sealRows chunk batch.rowsPerPage) batch.groups.seriesKey

/-- The frames of a merge of `members`, its fold cut at `cuts`. -/
def mergeFrames (members : List DecodedFrame) (cuts : List Int) (key : String) :
    Except WriteError (List Frame) := do
  let merged := foldNewestWins members
  (cutRows merged cuts).mapM fun stretch => do
    return tagFrame (← writer.sealRows stretch (mergeRowsPerPage merged.length)) key

end FrameWriter

/-- One call of a writer. -/
inductive FrameWrite
  | direct (timestamps : List Int) (values : List (Option BigDecimal)) (rowsPerPage : Option Nat)
  | ingest (batch : IngestBatch)
  | merge (members : List DecodedFrame) (cuts : List Int) (key : String)

/-- The frames which a call writes, when it is accepted. -/
def FrameWrite.frames (writer : FrameWriter) : FrameWrite → Except WriteError (List Frame)
  | .direct timestamps values rowsPerPage => writer.sealFrames timestamps values rowsPerPage
  | .ingest batch => writer.ingestFrames batch
  | .merge members cuts key => writer.mergeFrames members cuts key

end WeftDb
