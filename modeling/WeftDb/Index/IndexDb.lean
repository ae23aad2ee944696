import Mathlib.Data.List.Sort
import WeftDb.Foundation.KeyedTable
import WeftDb.Index.Descriptor

/-!
# The tables of `segment_index.db`

`IndexDb` holds the control plane's tables, each under its primary key, and the queries which the
writers run against them.  Counters are natural numbers.
-/

namespace WeftDb

/-- The version of a row which a precondition expects to find. -/
structure RowVersion where
  id : Nat
  gen : Nat
  /-- The frame checksum; `none` matches only an unbound row. -/
  frameCrc : Option Nat
  deriving DecidableEq

/-- One row of `segment_index`. -/
structure IndexRow where
  desc : SegmentDescriptor
  /-- Generation of the frame, `0` for a legacy frame. -/
  gen : Nat
  /-- Adoption order of the frame. -/
  prec : Option Nat
  /-- Checksum of the frame. -/
  frameCrc : Option Nat
  /-- Aspect epoch in which the row was committed. -/
  commitEpoch : Option Nat
  /-- Tag series held by the frame. -/
  seriesId : Nat
  deriving DecidableEq

/-- The identity which a precondition on this row names. -/
def IndexRow.version (row : IndexRow) : RowVersion where
  id := row.desc.id
  gen := row.gen
  frameCrc := row.frameCrc

/-- One row of `aspect_seq`: the persisted allocator of an aspect. -/
structure SequenceRow where
  aspect : AspectName
  nextId : Nat
  nextGen : Nat
  epoch : Nat
  nextSeriesId : Nat
  deriving DecidableEq

/-- The state of a `frame_journal` row. -/
inductive JournalState
  /-- An output which is written, or about to be, and not yet swapped in. -/
  | pending
  /-- A frame taken out of the index, awaiting the reaper. -/
  | retired
  /-- A frame kept out of every reclaim path. -/
  | held
  deriving DecidableEq

/-- One row of `frame_journal`. -/
structure JournalEntry where
  name : FrameName
  aspect : AspectName
  state : JournalState
  /-- Aspect epoch of the swap which retired the frame. -/
  retireEpoch : Option Nat
  createdMs : Int
  deriving DecidableEq

/-- Why a segment was quarantined. -/
inductive QuarantineClass
  /-- Damage. -/
  | corrupt
  /-- Data which another build can read. -/
  | suspect
  deriving DecidableEq

/-- One row of `segment_quarantine`. -/
structure QuarantineRecord where
  aspect : AspectName
  id : Nat
  gen : Nat
  name : FrameName
  quarantineClass : QuarantineClass
  reason : String
  minTs : Option Int
  maxTs : Option Int
  seriesId : Nat
  quarantinedMs : Int
  /-- The row which an operator release puts back. -/
  row : Option IndexRow
  deriving DecidableEq

/-- The canonical key of a tag series; the empty key is series `0`. -/
abbrev SeriesKey := String

/-- One row of the series catalog. -/
structure SeriesEntry where
  aspect : AspectName
  key : SeriesKey
  id : Nat
  deriving DecidableEq

/-- What a committed ingest returns. -/
structure IngestReceipt where
  aspect : AspectName
  key : String
  fingerprint : UInt64
  rowCount : Nat
  minTs : Option Int
  maxTs : Option Int
  /-- The segment ids which the commit assigned. -/
  segmentIds : List Nat
  seriesIds : List Nat
  commitEpoch : Nat
  /-- Whether the receipt is a replay of an earlier commit. -/
  duplicate : Bool
  deriving DecidableEq

/-- One row of `ingest_ledger`. -/
structure LedgerEntry where
  aspect : AspectName
  key : String
  fingerprint : UInt64
  rowCount : Nat
  minTs : Option Int
  maxTs : Option Int
  idLo : Option Nat
  idHi : Option Nat
  /-- The receipt which the commit returned. -/
  receipt : IngestReceipt
  seriesIds : List Nat
  commitEpoch : Nat
  createdMs : Int
  deriving DecidableEq

/-- One row of the change log `segment_changes`. -/
structure SegmentChange where
  aspect : AspectName
  epoch : Nat
  minTs : Option Int
  maxTs : Option Int
  rowCount : Nat
  deriving DecidableEq

/-- The primary key of a `segment_index` row. -/
def segmentKey (stored : AspectName × IndexRow) : AspectName × Nat :=
  (stored.1, stored.2.desc.id)

/-- The tables which a transaction reads and writes. -/
structure IndexDb where
  segments : KeyedTable segmentKey
  sequences : KeyedTable SequenceRow.aspect
  journal : KeyedTable JournalEntry.name
  quarantine : KeyedTable fun record : QuarantineRecord => (record.aspect, record.id, record.gen)
  rollups : KeyedTable (Prod.fst : AspectName × AspectMetadata → AspectName)
  series : KeyedTable fun entry : SeriesEntry => (entry.aspect, entry.key)
  ledger : KeyedTable fun entry : LedgerEntry => (entry.aspect, entry.key)
  /-- Whether the registry has created `segment_changes`. -/
  hasChangeLog : Bool
  changes : KeyedTable fun change : SegmentChange => (change.aspect, change.epoch)

namespace IndexDb

/-- A freshly migrated index. -/
def fresh : IndexDb where
  segments := .empty
  sequences := .empty
  journal := .empty
  quarantine := .empty
  rollups := .empty
  series := .empty
  ledger := .empty
  hasChangeLog := true
  changes := .empty

/-- The rows of an aspect, in insertion order. -/
def stored (db : IndexDb) (aspect : AspectName) : List IndexRow :=
  (db.segments.rows.filter fun stored => decide (stored.1 = aspect)).map Prod.snd

variable {aspect : AspectName} {db : IndexDb} {row : IndexRow}

theorem mem_stored : row ∈ db.stored aspect ↔ (aspect, row) ∈ db.segments := by
  simp only [stored, List.mem_map, List.mem_filter, decide_eq_true_eq, KeyedTable.mem_rows]
  constructor
  · rintro ⟨⟨_, _⟩, ⟨stored, rfl⟩, rfl⟩
    exact stored
  · intro stored
    exact ⟨(aspect, row), ⟨stored, rfl⟩, rfl⟩

/-- The rows of an aspect, in id order. -/
def rows (db : IndexDb) (aspect : AspectName) : List IndexRow :=
  (db.stored aspect).insertionSort fun left right => left.desc.id ≤ right.desc.id

theorem mem_rows : row ∈ db.rows aspect ↔ (aspect, row) ∈ db.segments := by
  rw [rows, List.mem_insertionSort, mem_stored]

theorem nodup_ids_rows (db : IndexDb) (aspect : AspectName) :
    ((db.rows aspect).map fun row => row.desc.id).Nodup := by
  have perm : (db.rows aspect).Perm (db.stored aspect) := List.perm_insertionSort _ _
  rw [(perm.map _).nodup_iff, stored, List.map_map]
  have keys := (List.pairwise_map.mp db.segments.nodup).sublist
    (List.filter_sublist : (db.segments.rows.filter fun stored =>
      decide (stored.1 = aspect)).Sublist _)
  refine List.pairwise_map.mpr (keys.imp_of_mem ?_)
  intro left right left_mem right_mem apart same
  have left_aspect := of_decide_eq_true (List.mem_filter.mp left_mem).2
  have right_aspect := of_decide_eq_true (List.mem_filter.mp right_mem).2
  exact apart (Prod.ext (left_aspect.trans right_aspect.symm) same)

/-- The resident index which the rows of an aspect describe. -/
def index (db : IndexDb) (aspect : AspectName) : SegmentIndex :=
  ⟨(db.rows aspect).map (·.desc)⟩

/-- The allocator row of an aspect. -/
def sequence (db : IndexDb) (aspect : AspectName) : Option SequenceRow :=
  db.sequences.find? aspect

/-- The stored rollup of an aspect. -/
def rollup (db : IndexDb) (aspect : AspectName) : Option AspectMetadata :=
  (db.rollups.find? aspect).map Prod.snd

/-- The recorded ingest under a key. -/
def ledgerEntry (db : IndexDb) (aspect : AspectName) (key : String) : Option LedgerEntry :=
  db.ledger.find? (aspect, key)

/-- The id under which a series key is registered; the empty key is series `0`. -/
def seriesIdFor (db : IndexDb) (aspect : AspectName) (key : SeriesKey) : Option Nat :=
  if key = "" then some 0 else (db.series.find? (aspect, key)).map (·.id)

/-- The series key registered under an id. -/
def seriesKeyFor (db : IndexDb) (aspect : AspectName) (id : Nat) : Option SeriesKey :=
  if id = 0 then some ""
  else (db.series.rows.find? fun entry =>
    decide (entry.aspect = aspect ∧ entry.id = id)).map (·.key)

/-- The next series id of an aspect, never `0`. -/
def nextSeriesId (db : IndexDb) (aspect : AspectName) : Nat :=
  max (((db.sequence aspect).map (·.nextSeriesId)).getD 1) 1

/-- How many series an aspect has registered. -/
def seriesCount (db : IndexDb) (aspect : AspectName) : Nat :=
  (db.series.rows.filter fun entry => decide (entry.aspect = aspect)).length

/-- The change rows of an aspect after an epoch, in epoch order. -/
def changesAfter (db : IndexDb) (aspect : AspectName) (after : Nat) : List SegmentChange :=
  if db.hasChangeLog then
    (db.changes.rows.filter fun change =>
      decide (change.aspect = aspect ∧ after < change.epoch)).insertionSort
        fun left right => left.epoch ≤ right.epoch
  else
    []

theorem mem_changesAfter {after : Nat} {change : SegmentChange} :
    change ∈ db.changesAfter aspect after ↔
      db.hasChangeLog = true ∧ change ∈ db.changes ∧ change.aspect = aspect ∧
        after < change.epoch := by
  unfold changesAfter
  split
  · simp [*, KeyedTable.mem_rows]
  · simp [*]

theorem ledgerEntry_eq_none {key : String} :
    db.ledgerEntry aspect key = none ↔
      ∀ entry ∈ db.ledger.rows, (entry.aspect, entry.key) ≠ (aspect, key) :=
  KeyedTable.find?_eq_none

theorem ledgerEntry_eq_some {key : String} {entry : LedgerEntry} :
    db.ledgerEntry aspect key = some entry ↔
      entry ∈ db.ledger.rows ∧ (entry.aspect, entry.key) = (aspect, key) :=
  KeyedTable.find?_eq_some

/-- What an aspect's allocators are seeded from. -/
structure AllocatorSeed where
  nextId : Option Nat
  nextGen : Option Nat
  epoch : Nat
  /-- The largest indexed id. -/
  maxId : Option Nat
  /-- The largest indexed generation. -/
  maxGen : Option Nat

def allocatorSeed (db : IndexDb) (aspect : AspectName) : AllocatorSeed where
  nextId := (db.sequence aspect).map (·.nextId)
  nextGen := (db.sequence aspect).map (·.nextGen)
  epoch := ((db.sequence aspect).map (·.epoch)).getD 0
  maxId := ((db.rows aspect).map (·.desc.id)).max?
  maxGen := ((db.rows aspect).map (·.gen)).max?

end IndexDb

end WeftDb
