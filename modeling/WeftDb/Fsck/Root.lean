import WeftDb.Foundation.Program
import WeftDb.Store.Recovery

/-!
# What recovery works on

A root is the index, the frames in `segments/` and those in `segments/quarantine/`.  Recovery
reads and changes it by one request at a time.  What it reads off a frame's bytes is a parameter,
the reader; the classification of a failed decode follows the causes which the policy names.
-/

namespace WeftDb.Fsck

/-- The causes of a failed decode which recovery tells apart. -/
inductive DecodeCause
  | unsupportedVersion (found : Nat)
  | codecNotEnabled
  | unknownCriticalExtension (id : Nat)
  | invalidTag
  /-- The bytes disagree with themselves. -/
  | integrity
  deriving DecidableEq

/-- A frame which does not decode. -/
structure FrameFault where
  source : DecodeCause
  /-- What the operator reads. -/
  message : String
  deriving DecidableEq

/-- One extension of a frame's envelope. -/
structure FrameExtension where
  id : Nat
  payload : List UInt8
  deriving DecidableEq

/-- What a frame is, without decoding it. -/
structure FrameInfo where
  /-- Whether this build has a reader for the body's layout. -/
  layoutKnown : Bool
  extensions : List FrameExtension
  unknownCritical : Bool
  deriving DecidableEq

/-- Whether this build may decode the frame's body. -/
def FrameInfo.decodable (info : FrameInfo) : Bool :=
  info.layoutKnown && !info.unknownCritical

/-- What recovery reads off bytes and paths. -/
structure FrameReader where
  describeFrame : List UInt8 → Except String FrameInfo
  /-- The frame's own descriptor, without id and path. -/
  readFull : FrameName → List UInt8 → Except FrameFault SegmentDescriptor
  /-- Whether the bytes end in the checksum of what is before it. -/
  crcVerified : List UInt8 → Bool
  /-- The series key which an extension's payload spells. -/
  fromCanonical : List UInt8 → Except String SeriesKey
  /-- The last component of a path which is not directly in `segments/`. -/
  fileName : String → Option FrameName

def extSeriesKey : Nat := 1

def frameVersionMaxKnown : Nat := 7

/-- The checksum in a frame's last four bytes. -/
def trailer (bytes : List UInt8) : Option Nat :=
  if 4 ≤ bytes.length then
    some ((bytes.drop (bytes.length - 4)).foldr (fun byte word => byte.toNat + 256 * word) 0)
  else
    none

namespace FrameReader

variable (reader : FrameReader)

/-- The series key which a frame's extension carries; a frame without one is untagged. -/
def frameSeriesKey (info : FrameInfo) : Except String SeriesKey :=
  match info.extensions.filter fun extension => decide (extension.id = extSeriesKey) with
  | [] => .ok ""
  | [first] =>
      if first.payload = [] then
        .error "the SERIES_KEY extension is empty, but an untagged frame carries no envelope"
      else
        match reader.fromCanonical first.payload with
        | .ok key => .ok key
        | .error error =>
            .error ("the SERIES_KEY payload is not a canonical series key: " ++ error)
  | _ => .error "the frame carries more than one SERIES_KEY extension"

/-- The series key of a frame which decodes. -/
def frameKey (bytes : List UInt8) : Except String SeriesKey :=
  match reader.describeFrame bytes with
  | .ok info => reader.frameSeriesKey info
  | .error error => .error ("describing the frame: " ++ error)

/-- The class of a failed decode: a frame whose checksum verifies is suspect whatever the cause. -/
def classifyDecodeFailure (bytes : List UInt8) (cause : DecodeCause) : QuarantineClass :=
  if reader.crcVerified bytes then
    .suspect
  else
    match cause with
    | .integrity => .corrupt
    | _ => .suspect

/-- The file name which a row's path ends in. -/
def rowName (row : IndexRow) : Option FrameName :=
  match row.desc.path with
  | .segments name => some name
  | .elsewhere text => reader.fileName text

end FrameReader

/-- Whether the cause is a frame version which this build predates. -/
def isNewerFormat : DecodeCause → Bool
  | .unsupportedVersion found => decide (frameVersionMaxKnown < found)
  | _ => false

/-- Whether a file is a frame by its name. -/
def isFrameFile : FrameName → Bool
  | .other text => text.endsWith ".weftseg"
  | _ => true

/-- Whether an orphan can be filed: its name names an aspect. -/
def orphanNamesAspect (name : FrameName) : Bool :=
  (orphanIdentity name).isSome

/-- Files under their names. -/
abbrev Files := KeyedTable (Prod.fst : FrameName × List UInt8 → FrameName)

/-- The contents of a file. -/
def contents (files : Files) (name : FrameName) : Option (List UInt8) :=
  (files.find? name).map Prod.snd

structure Root where
  db : IndexDb
  /-- The files in `segments/`. -/
  files : Files
  /-- The files in `segments/quarantine/`. -/
  quarantined : Files
  /-- The aspects with a declared schema. -/
  declared : List AspectName
  /-- The allocators behind the commit locks, once they are seeded. -/
  allocators : AspectName → Option AspectState
  now : Int

namespace Root

def fileNames (root : Root) : List FrameName :=
  root.files.rows.map Prod.fst

/-- The allocator which the holder of an aspect's commit lock finds. -/
def allocator (root : Root) (aspect : AspectName) : AspectState :=
  (root.allocators aspect).getD (seedAllocator root.db root.fileNames aspect)

def setAllocator (root : Root) (aspect : AspectName) (state : AspectState) : Root :=
  { root with allocators := Function.update root.allocators aspect (some state) }

/-- The largest series id which an aspect's catalog registered. -/
def maxRegisteredSeriesId (root : Root) (aspect : AspectName) : Nat :=
  (((root.db.series.rows.filter fun entry => decide (entry.aspect = aspect)).map
    (·.id)).max?).getD 0

/-- Move a frame to `segments/quarantine/`. -/
def moveToQuarantine (root : Root) (name : FrameName) : Option Root :=
  (root.files.find? name).map fun file =>
    { root with
      files := root.files.erase name
      quarantined := root.quarantined.put file }

/-- The aspects which the index or the series catalog names, each once and in order. -/
def sortedAspects (aspects : List AspectName) : List AspectName :=
  aspects.dedup.insertionSort (· ≤ ·)

end Root

/-- On whose behalf a frame is read. -/
inductive Reading
  | row
  | held
  | orphan
  deriving DecidableEq

/-- One access of recovery to the root. -/
inductive Request
  | journal
  | listAspects
  | seriesAspects
  | maxRegisteredSeriesId (aspect : AspectName)
  | rows (aspect : AspectName)
  | seriesKeyOf (aspect : AspectName) (id : Nat)
  | seriesIdFor (aspect : AspectName) (key : SeriesKey)
  | nextSeriesId (aspect : AspectName)
  | schemaFor (aspect : AspectName)
  /-- Enter the commit lock, which seeds the allocator. -/
  | commitLock (aspect : AspectName)
  /-- Hand out an id under the commit lock. -/
  | allocate (aspect : AspectName)
  | commitIndex (ops : List IndexOp)
  | read (reading : Reading) (name : FrameName)
  | tryExists (name : FrameName)
  /-- Move a frame to `segments/quarantine/`. -/
  | rename (name : FrameName)
  | readDir
  | quarantineList
  /-- Unlink a file of `segments/quarantine/`. -/
  | removeQuarantined (name : FrameName)
  | now

/-- The reply to a request. -/
@[reducible]
def Reply : Request → Type
  | .journal => List JournalEntry
  | .listAspects | .seriesAspects => List AspectName
  | .maxRegisteredSeriesId _ | .nextSeriesId _ => Nat
  | .rows _ => List IndexRow
  | .seriesKeyOf _ _ => Option SeriesKey
  | .seriesIdFor _ _ => Option Nat
  | .schemaFor _ | .tryExists _ => Bool
  | .commitLock _ | .removeQuarantined _ => Unit
  | .allocate _ => Option (Nat × AspectState)
  | .commitIndex _ => Except TxnErrorKind Unit
  | .read _ _ => Option (List UInt8)
  | .rename _ => Bool
  | .readDir => List FrameName
  | .quarantineList => List QuarantineRecord
  | .now => Int

/-- Answer a request. -/
def Root.answer : (request : Request) → Root → Reply request × Root
  | .journal, root => (root.db.journal.rows, root)
  | .listAspects, root => (sortedAspects (root.db.segments.rows.map Prod.fst), root)
  | .seriesAspects, root => (sortedAspects (root.db.series.rows.map (·.aspect)), root)
  | .maxRegisteredSeriesId aspect, root => (root.maxRegisteredSeriesId aspect, root)
  | .rows aspect, root => (root.db.rows aspect, root)
  | .seriesKeyOf aspect id, root => (root.db.seriesKeyFor aspect id, root)
  | .seriesIdFor aspect key, root => (root.db.seriesIdFor aspect key, root)
  | .nextSeriesId aspect, root => (root.db.nextSeriesId aspect, root)
  | .schemaFor aspect, root => (decide (aspect ∈ root.declared), root)
  | .commitLock aspect, root => ((), root.setAllocator aspect (root.allocator aspect))
  | .allocate aspect, root =>
      match (root.allocator aspect).allocate with
      | some (id, state) => (some (id, state), root.setAllocator aspect state)
      | none => (none, root)
  | .commitIndex ops, root =>
      match root.db.applyAll ops with
      | .ok db => (.ok (), { root with db })
      | .error kind => (.error kind, root)
  | .read _ name, root => (contents root.files name, root)
  | .tryExists name, root => ((contents root.files name).isSome, root)
  | .rename name, root =>
      match root.moveToQuarantine name with
      | some after => (true, after)
      | none => (false, root)
  | .readDir, root => (root.fileNames, root)
  | .quarantineList, root => (root.db.quarantine.rows, root)
  | .removeQuarantined name, root =>
      ((), { root with quarantined := root.quarantined.erase name })
  | .now, root => (root.now, root)

end WeftDb.Fsck
