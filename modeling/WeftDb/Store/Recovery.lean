import WeftDb.Index.FrameNames
import WeftDb.Store.Publish

/-!
# Recovery, quarantine and rollup rebuilds

The transactions which the fsck pass, an operator's quarantine commands and a rollup rebuild
commit, each built from the row or record it is about.
-/

namespace WeftDb

/-- Where an aspect's id allocator starts: above every id it can have used. -/
def seedAllocator (db : IndexDb) (frames : List FrameName) (aspect : AspectName) : AspectState :=
  let seed := db.allocatorSeed aspect
  { nextId := max (max (seed.nextId.getD 0) (past seed.maxId)) (past (legacyFileId frames aspect))
    epoch := seed.epoch }

/-- Where an aspect's generation counter starts: above every generation it can have used, and
never at `0`, the legacy generation. -/
def seedGen (db : IndexDb) (frames : List FrameName) (aspect : AspectName) : Nat :=
  let seed := db.allocatorSeed aspect
  max (max (max (seed.nextGen.getD 0) (past seed.maxGen))
    (past (frameGenOnDisk frames (stem aspect)))) 1

/-- The transaction which rewrites an aspect's rollup from its rows. -/
def rebuildRollup (db : IndexDb) (aspect : AspectName) : List IndexOp :=
  [.putRollup aspect (.fromIndex (db.index aspect))]

/-- The record of an indexed row under quarantine; it carries the row back for a release. -/
def quarantineRecordOf (aspect : AspectName) (row : IndexRow) (name : FrameName)
    (quarantineClass : QuarantineClass) (reason : String) (now : Int) : QuarantineRecord where
  aspect := aspect
  id := row.desc.id
  gen := row.gen
  name := name
  quarantineClass := quarantineClass
  reason := reason
  minTs := row.desc.minTs
  maxTs := row.desc.maxTs
  seriesId := row.seriesId
  quarantinedMs := now
  row := some row

/-- Quarantine an indexed row: its record and its deletion commit together. -/
def quarantineRow (aspect : AspectName) (row : IndexRow) (name : FrameName)
    (quarantineClass : QuarantineClass) (reason : String) (now : Int) : List IndexOp :=
  [ .quarantineInsert (quarantineRecordOf aspect row name quarantineClass reason now),
    .deleteExpected aspect row.version ]

/-- The aspect, id and generation under which an orphan is filed, when its name names one. -/
def orphanIdentity (name : FrameName) : Option (AspectName × Nat × Nat) :=
  match name with
  | .writeOnce _ gen _ => name.aspect.map fun aspect => (aspect, 0, gen)
  | .legacy aspect id => some (aspect, id, 0)
  | .other _ => none

/-- Quarantine a frame without a row, optionally clearing its journal row. -/
def quarantineOrphan (name : FrameName) (quarantineClass : QuarantineClass) (reason : String)
    (now : Int) (clear : Bool) : Option (List IndexOp) :=
  (orphanIdentity name).map fun (aspect, id, gen) =>
    .quarantineInsert
        { aspect, id, gen, name, quarantineClass, reason, minTs := none, maxTs := none,
          seriesId := 0, quarantinedMs := now, row := none } ::
      if clear then [.clearJournal name] else []

/-- Release a quarantined row: its record goes and the row comes back as it was. -/
def quarantineRelease (record : QuarantineRecord) : Option (List IndexOp) :=
  record.row.map fun row =>
    [ .quarantineDelete record.aspect record.id record.gen, .insertNew record.aspect row ]

/-- Delete a quarantine record whose file is gone. -/
def quarantinePurge (record : QuarantineRecord) : List IndexOp :=
  [.quarantineDelete record.aspect record.id record.gen]

/-- What a row's frame says the row should be: the row rebound to the frame's name and checksum,
whether it differs, and the aspect the name names when it is another one. -/
def reboundFromFrame (aspect : AspectName) (row : IndexRow) (name : FrameName)
    (computedCrc : Option Nat) : IndexRow × Bool × Option AspectName :=
  let frameCrc := if row.frameCrc = computedCrc then row.frameCrc else computedCrc
  let crcChanged := decide (row.frameCrc ≠ computedCrc)
  match name with
  | .writeOnce _ gen prec =>
      let newAspect := name.aspect.filter fun found => decide (found ≠ aspect)
      let precChanged :=
        decide (prec ≠ row.prec.getD 0 ∧ ¬(row.prec = none ∧ prec = 0))
      ({ row with
          gen, frameCrc
          prec := if precChanged then some prec else row.prec },
        newAspect.isSome || decide (gen ≠ row.gen) || precChanged || crcChanged, newAspect)
  | _ => ({ row with frameCrc }, crcChanged, none)

/-- The series of a rebound row: its own when the catalog agrees with the frame, or the frame's in
the catalog of the aspect which the row will be in. -/
def rebindSeries (db : IndexDb) (aspect : AspectName) (row : IndexRow)
    (newAspect : Option AspectName) (frameKey : SeriesKey) : Nat × List IndexOp :=
  if newAspect = none ∧ db.seriesKeyFor aspect row.seriesId = some frameKey then
    (row.seriesId, [])
  else
    resolveSeriesKey db (newAspect.getD aspect) frameKey

theorem rebindSeries_ofSeries (db : IndexDb) (aspect : AspectName) (row : IndexRow)
    (newAspect : Option AspectName) (frameKey : SeriesKey) :
    ∀ op ∈ (rebindSeries db aspect row newAspect frameKey).2,
      op.OfSeries (newAspect.getD aspect) := by
  intro op member
  unfold rebindSeries at member
  split at member
  · cases member
  · exact resolveSeriesKey_ofSeries db _ frameKey op member

/-- Put a rebound row where it belongs.  A row moving to another aspect is deleted and inserted
there under its old id; a row staying put is replaced. -/
def moveRow (aspect : AspectName) (row : IndexRow) (newAspect : Option AspectName)
    (rebound : IndexRow) : List IndexOp :=
  match newAspect with
  | some newAspect => [.deleteExpected aspect row.version, .insertNew newAspect rebound]
  | none => [.replaceExpected aspect row.version rebound]

/-- Rebind a row to its frame, if that changes the row. -/
def rebindRow (db : IndexDb) (aspect : AspectName) (row : IndexRow) (name : FrameName)
    (computedCrc : Option Nat) (frameKey : SeriesKey) : Option (List IndexOp) :=
  let (rebound, changed, newAspect) := reboundFromFrame aspect row name computedCrc
  let (seriesId, seriesOps) := rebindSeries db aspect row newAspect frameKey
  if changed ∨ seriesId ≠ row.seriesId then
    some (seriesOps ++ moveRow aspect row newAspect { rebound with seriesId })
  else
    none

/-- The series of an adopted frame; a frame which names none is in series `0`. -/
def adoptSeries (db : IndexDb) (aspect : AspectName) (seriesKey : Option SeriesKey) :
    Nat × List IndexOp :=
  match seriesKey with
  | some key => resolveSeriesKey db aspect key
  | none => (0, [])

theorem adoptSeries_ofSeries (db : IndexDb) (aspect : AspectName)
    (seriesKey : Option SeriesKey) :
    ∀ op ∈ (adoptSeries db aspect seriesKey).2, op.OfSeries aspect := by
  intro op member
  cases seriesKey with
  | none => cases member
  | some key => exact resolveSeriesKey_ofSeries db aspect key op member

/-- The row of an adopted frame. -/
def adoptedRow (frame : FrameName) (desc : SegmentDescriptor) (crc : Option Nat)
    (seriesId id : Nat) : IndexRow where
  desc := { desc with id, path := .segments frame }
  gen :=
    match frame with
    | .writeOnce _ gen _ => gen
    | _ => 0
  prec :=
    match frame with
    | .writeOnce _ _ prec => some prec
    | _ => none
  frameCrc := crc
  commitEpoch := none
  seriesId := seriesId

/-- Adopt an orphan frame under its aspect's next id. -/
def adoptOrphan (db : IndexDb) (aspect : AspectName) (state : AspectState) (frame : FrameName)
    (desc : SegmentDescriptor) (crc : Option Nat) (seriesKey : Option SeriesKey)
    (clear : Bool) : AspectState × Option (List IndexOp) :=
  match state.allocate with
  | none => (state, none)
  | some (id, state) =>
      let (seriesId, seriesOps) := adoptSeries db aspect seriesKey
      let row := adoptedRow frame desc crc seriesId id
      (state, some
        (seriesOps ++
          [.insertNew aspect row, seqBump aspect state (row.gen + 1) state.epoch] ++
          if clear then [.clearJournal frame] else []))

variable {ops : List IndexOp} {aspect : AspectName} {crc : Option Nat}

theorem rebindRow_eq_some {db : IndexDb} {row : IndexRow} {name : FrameName} {key : SeriesKey}
    (built : rebindRow db aspect row name crc key = some ops) :
    ∃ seriesOps rebound,
      (∀ op ∈ seriesOps,
        op.OfSeries ((reboundFromFrame aspect row name crc).2.2.getD aspect)) ∧
      ops = seriesOps ++
        moveRow aspect row (reboundFromFrame aspect row name crc).2.2 rebound := by
  unfold rebindRow at built
  simp only at built
  split at built
  · cases built
    exact ⟨_, _, rebindSeries_ofSeries _ _ _ _ _, rfl⟩
  · cases built

theorem adoptOrphan_eq_some {db : IndexDb} {state next : AspectState} {frame : FrameName}
    {desc : SegmentDescriptor} {seriesKey : Option SeriesKey} {clear : Bool}
    (built : adoptOrphan db aspect state frame desc crc seriesKey clear = (next, some ops)) :
    ∃ seriesOps seriesId id,
      (∀ op ∈ seriesOps, op.OfSeries aspect) ∧ state.allocate = some (id, next) ∧
      ops = seriesOps ++
        [.insertNew aspect (adoptedRow frame desc crc seriesId id),
          seqBump aspect next ((adoptedRow frame desc crc seriesId id).gen + 1) next.epoch] ++
        if clear then [.clearJournal frame] else [] := by
  unfold adoptOrphan at built
  split at built
  · cases built
  · rename_i id last allocated
    cases built
    exact ⟨_, _, id, adoptSeries_ofSeries _ _ _, allocated, rfl⟩

end WeftDb
