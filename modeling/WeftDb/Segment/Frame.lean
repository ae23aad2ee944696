import WeftDb.Foundation.Results
import WeftDb.Ingest.Batch

/-!
# Frames and the limits of their reader

A batch is sealed into one block, or into pages of a declared height, and a tagged frame is wrapped
in an envelope.  A reader holds every count which a frame declares against its decode limits, and
the columns against the header, before it trusts them.
-/

namespace WeftDb

/-- The row counts of a block's header. -/
structure SegmentStats where
  rowCount : Nat
  nullCount : Nat
  deriving DecidableEq

/-- A timestamp column: its anchor, its first delta and its second differences. -/
structure DeltaOfDeltaColumn where
  first : Int
  firstDelta : Option Int
  dods : List Int
  deriving DecidableEq

/-- One block of rows: a page of a paged frame, or the whole of a single-block one. -/
structure Page where
  /-- The values which are present. -/
  values : List BigDecimal
  timestamps : DeltaOfDeltaColumn
  /-- Which rows have a value. -/
  nulls : List Bool
  stats : SegmentStats
  deriving DecidableEq

/-- The body of a frame. -/
inductive FrameBody
  | single (block : Page)
  | paged (rowsPerPage : Nat) (pages : List Page) (stats : SegmentStats)
  deriving DecidableEq

/-- A frame: its body and the extensions of the envelope around it, when it has one. -/
structure Frame where
  body : FrameBody
  extensions : Option (List String)
  deriving DecidableEq

/-- Why a batch cannot be sealed. -/
inductive SealError
  | lengthMismatch (timestamps values : Nat)
  | encode (index : Nat)
  | toleranceExceeded
  | emptyPageSize
  deriving DecidableEq

/-- What a declared schema decides of a column: whether its encoding represents the values, with no
more error than it tolerates. -/
structure AspectSchema where
  encodeColumn : List BigDecimal → Except SealError Unit

/-- Subtraction of 64-bit integers, wrapping around. -/
def wrappingSub (left right : Int) : Int :=
  Int.bmod (left - right) (2 ^ 64)

/-- The differences of neighbours. -/
def deltas : List Int → List Int
  | first :: second :: later => wrappingSub second first :: deltas (second :: later)
  | _ => []

def encodeDeltaOfDelta (timestamps : List Int) : DeltaOfDeltaColumn where
  first := timestamps.head?.getD 0
  firstDelta := (deltas timestamps).head?
  dods := deltas (deltas timestamps)

/-- The rows of a nullable column which hold a value. -/
def presentValues (values : List (Option BigDecimal)) : List BigDecimal :=
  values.filterMap id

/-- The header of a nullable batch. -/
def fromColumnsNullable (timestamps : List Int) (nullCount : Nat) : SegmentStats :=
  ⟨timestamps.length, nullCount⟩

variable {α : Type}

/-- The rows in pages of `height` rows, the last one perhaps shorter; `fuel` bounds the pages. -/
def chunksFrom (height : Nat) : Nat → List α → List (List α)
  | 0, _ => []
  | _ + 1, [] => []
  | fuel + 1, row :: rows =>
      (row :: rows).take height :: chunksFrom height fuel ((row :: rows).drop height)

/-- The rows in pages of `height` rows. -/
def chunks (height : Nat) (rows : List α) : List (List α) :=
  chunksFrom height rows.length rows

theorem flatten_chunksFrom {height : Nat} (tall : 0 < height) (fuel : Nat) (rows : List α)
    (enough : rows.length ≤ fuel) : (chunksFrom height fuel rows).flatten = rows := by
  induction fuel generalizing rows with
  | zero =>
      obtain rfl := List.length_eq_zero_iff.mp (Nat.le_zero.mp enough)
      rfl
  | succ fuel ih =>
      cases rows with
      | nil => rfl
      | cons row rows =>
          have shorter : ((row :: rows).drop height).length ≤ fuel := by
            simp only [List.length_drop, List.length_cons] at enough ⊢
            omega
          rw [chunksFrom, List.flatten_cons, ih _ shorter, List.take_append_drop]

theorem flatten_chunks {height : Nat} (tall : 0 < height) (rows : List α) :
    (chunks height rows).flatten = rows :=
  flatten_chunksFrom tall _ rows le_rfl

namespace AspectSchema

variable (schema : AspectSchema)

/-- Seal one page's rows. -/
def sealPageNullable (timestamps : List Int) (values : List (Option BigDecimal)) :
    Except SealError Page := do
  schema.encodeColumn (presentValues values)
  let nulls := values.map Option.isSome
  return ⟨presentValues values, encodeDeltaOfDelta timestamps, nulls,
    fromColumnsNullable timestamps (nulls.count false)⟩

/-- Seal a batch into one block. -/
def sealNullable (timestamps : List Int) (values : List (Option BigDecimal)) :
    Except SealError FrameBody := do
  require (timestamps.length = values.length)
    (.lengthMismatch timestamps.length values.length)
  return .single (← schema.sealPageNullable timestamps values)

/-- Seal a batch into pages. -/
def sealPagedNullable (timestamps : List Int) (values : List (Option BigDecimal))
    (rowsPerPage : Nat) : Except SealError FrameBody := do
  require (timestamps.length = values.length)
    (.lengthMismatch timestamps.length values.length)
  require (rowsPerPage ≠ 0) .emptyPageSize
  let pages ← ((chunks rowsPerPage timestamps).zip (chunks rowsPerPage values)).mapM
    fun (stamps, page) => schema.sealPageNullable stamps page
  return .paged rowsPerPage pages
    (fromColumnsNullable timestamps ((values.map Option.isSome).count false))

/-- Seal a batch in the frame shape which a page height asks for. -/
def sealShaped (timestamps : List Int) (values : List (Option BigDecimal)) :
    Option Nat → Except SealError FrameBody
  | none => schema.sealNullable timestamps values
  | some rowsPerPage => schema.sealPagedNullable timestamps values rowsPerPage

end AspectSchema

/-- Wrap a frame of a tagged series in an envelope with its key. -/
def tagFrame (body : FrameBody) (key : String) : Frame :=
  ⟨body, if key.isEmpty then none else some [key]⟩

/-- The limits which a frame decode enforces. -/
structure DecodeLimits where
  /-- Most rows in one frame. -/
  maxRows : Nat
  /-- Most pages in one paged frame. -/
  maxPages : Nat
  /-- Most extension entries in one envelope. -/
  maxExtensions : Nat

def maxFrameRows : Nat := 16777216
def maxFramePages : Nat := 1048576
def maxFrameExtensions : Nat := 1024

/-- The limits which every frame reader applies. -/
def DecodeLimits.standard : DecodeLimits := ⟨maxFrameRows, maxFramePages, maxFrameExtensions⟩

/-- Why a frame is refused on its counts. -/
inductive WeftSegError
  | decodeLimit (limit : String) (found max : Nat)
  | columnLengthMismatch (column : String) (expected found : Nat)
  deriving DecidableEq

def checkDecodeLimit (limit : String) (found max : Nat) : Except WeftSegError Unit :=
  require (found ≤ max) (.decodeLimit limit found max)

/-- Rows of a timestamp column, or `none` where the column cannot tell zero from one. -/
def impliedTimestampRows (column : DeltaOfDeltaColumn) : Option Nat :=
  match column.firstDelta with
  | none => if column.dods.isEmpty then none else some 1
  | some _ => some (column.dods.length + 2)

/-- The columns of a block have the heights of its header. -/
def checkSegmentColumns (page : Page) : Except WeftSegError Unit := do
  let present := page.stats.rowCount - page.stats.nullCount
  require (page.values.length = present)
    (.columnLengthMismatch "value_column" present page.values.length)
  match impliedTimestampRows page.timestamps with
  | some rows =>
      require (rows = page.stats.rowCount)
        (.columnLengthMismatch "timestamp_column" page.stats.rowCount rows)
  | none =>
      require (page.stats.rowCount ≤ 1)
        (.columnLengthMismatch "timestamp_column" page.stats.rowCount 1)

namespace DecodeLimits

variable (limits : DecodeLimits)

def readSegmentStats (stats : SegmentStats) : Except WeftSegError Unit := do
  checkDecodeLimit "row_count" stats.rowCount limits.maxRows
  require (stats.nullCount ≤ stats.rowCount)
    (.columnLengthMismatch "null_count" stats.rowCount stats.nullCount)

/-- Read the columns of a block. -/
def readColumns (page : Page) : Except WeftSegError Unit := do
  checkDecodeLimit "value_count" page.values.length limits.maxRows
  checkDecodeLimit "timestamp_count" page.timestamps.dods.length limits.maxRows
  checkSegmentColumns page

/-- Read a frame's body. -/
def readBody : FrameBody → Except WeftSegError Unit
  | .single block => do
      limits.readSegmentStats block.stats
      limits.readColumns block
  | .paged _ pages stats => do
      limits.readSegmentStats stats
      checkDecodeLimit "page_count" pages.length limits.maxPages
      pages.forM fun page => limits.readSegmentStats page.stats
      pages.forM limits.readColumns
      let rows := (pages.map fun page => page.stats.rowCount).sum
      let nulls := (pages.map fun page => page.stats.nullCount).sum
      require (rows = stats.rowCount)
        (.columnLengthMismatch "page_rollup_row_count" stats.rowCount rows)
      require (nulls = stats.nullCount)
        (.columnLengthMismatch "page_rollup_null_count" stats.nullCount nulls)

/-- Read a frame, its envelope first. -/
def readFrame (frame : Frame) : Except WeftSegError Unit := do
  checkDecodeLimit "extension_count" (frame.extensions.getD []).length limits.maxExtensions
  limits.readBody frame.body

end DecodeLimits

end WeftDb
