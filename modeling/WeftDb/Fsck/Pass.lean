import WeftDb.Fsck.Root

/-!
# The fsck pass

One pass checks every indexed row against its frame, releases the held frames, checks the files
which nothing claims, rebuilds the rollups of the aspects it changed and purges the quarantine.
A report-only pass counts what it would do and changes nothing.
-/

namespace WeftDb.Fsck

/-- What one pass found and did. -/
structure RecoveryReport where
  checked : Nat := 0
  quarantined : Nat := 0
  suspected : Nat := 0
  rebound : Nat := 0
  seeded : Nat := 0
  purged : Nat := 0
  orphans : Nat := 0
  adopted : Nat := 0
  held : Nat := 0
  seriesRebound : Nat := 0
  heldCleared : Nat := 0
  skippedOutsideSegments : Nat := 0
  incompatibleStore : Bool := false
  deriving DecidableEq

namespace RecoveryReport

/-- Count a frame under its quarantine class. -/
def count (report : RecoveryReport) (quarantineClass : QuarantineClass) : RecoveryReport :=
  match quarantineClass with
  | .corrupt => { report with quarantined := report.quarantined + 1 }
  | .suspect => { report with suspected := report.suspected + 1 }

/-- Note whether a frame's fault is that of a newer build. -/
def noteNewer (report : RecoveryReport) (cause : DecodeCause) : RecoveryReport :=
  { report with incompatibleStore := report.incompatibleStore || isNewerFormat cause }

end RecoveryReport

/-- What a pass carries between its steps. -/
structure FsckPass where
  report : RecoveryReport := {}
  /-- The frames the journal names: never orphans. -/
  journalNames : List FrameName
  /-- The frames a row claims: never orphans. -/
  liveNames : List FrameName := []
  /-- The aspects whose rollups need rebuilding. -/
  changedAspects : List AspectName := []

/-- Remember that an aspect's rows changed. -/
def FsckPass.change (pass : FsckPass) (aspect : AspectName) : FsckPass :=
  if aspect ∈ pass.changedAspects then pass
  else { pass with changedAspects := pass.changedAspects ++ [aspect] }

/-- Why a pass ended early. -/
inductive FsckFailure
  | commitIndex (kind : TxnErrorKind)
  | readFull (fault : FrameFault)
  | rename (name : FrameName)
  | allocate
  deriving DecidableEq

/-- A step of recovery. -/
abbrev Recovery (Value : Type) := Program Reply FsckFailure Value

/-- One access to the root. -/
abbrev ask (request : Request) : Recovery (Reply request) :=
  Program.request request

/-- How an adoption went. -/
inductive Adoption
  | adopted (aspect : AspectName)
  | undeclared (aspect : AspectName)
  | skipped

/-- How long a corrupt record is kept. -/
def quarantineTtlMs : Int := 30 * 24 * 60 * 60 * 1000

/-- The largest value of the clock. -/
def i64Max : Int := 2 ^ 63 - 1

section Steps

variable (reader : FrameReader)

/-- Commit a transaction, or end the pass. -/
def commitIndex (ops : List IndexOp) : Recovery Unit := do
  match ← ask (.commitIndex ops) with
  | .ok () => pure ()
  | .error kind => .fail (.commitIndex kind)

/-- Move a frame to the quarantine, or end the pass. -/
def quarantineFile (name : FrameName) : Recovery Unit := do
  if ← ask (.rename name) then pure () else .fail (.rename name)

/-- The id of a series key, and the operations which register it when the catalog lacks it. -/
def resolveSeriesKey (aspect : AspectName) (key : SeriesKey) : Recovery (Nat × List IndexOp) := do
  match ← ask (.seriesIdFor aspect key) with
  | some id => pure (id, [])
  | none =>
      let id ← ask (.nextSeriesId aspect)
      pure (id, [.registerSeries aspect id key, .seedSeries aspect (id + 1)])

/-- Quarantine an indexed row: its record and its deletion commit, and then its file moves. -/
def quarantineIndexedRow (aspect : AspectName) (row : IndexRow) (name : FrameName)
    (quarantineClass : QuarantineClass) (reason : String) : Recovery Unit := do
  let now ← ask .now
  commitIndex (quarantineRow aspect row name quarantineClass reason now)
  if ← ask (.tryExists name) then quarantineFile name else pure ()

/-- Quarantine a frame without a row: its record commits, and then the file moves. -/
def quarantineOrphanFile (name : FrameName) (quarantineClass : QuarantineClass)
    (reason : String) (clear : Bool) : Recovery Unit := do
  let now ← ask .now
  match quarantineOrphan name quarantineClass reason now clear with
  | none => pure ()
  | some ops =>
      commitIndex ops
      quarantineFile name

/-- What an adoption of a frame would do. -/
def planAdoption (name : FrameName) (bytes : List UInt8) :
    Recovery (Except Adoption (AspectName × SegmentDescriptor)) := do
  match orphanIdentity name with
  | none => pure (.error .skipped)
  | some (aspect, _, _) =>
      if ← ask (.schemaFor aspect) then
        match reader.readFull name bytes with
        | .error fault => .fail (.readFull fault)
        | .ok desc => pure (if desc.rowCount = 0 then .error .skipped else .ok (aspect, desc))
      else
        pure (.error (.undeclared aspect))

/-- How an adoption would go. -/
def wouldAdopt (name : FrameName) (bytes : List UInt8) : Recovery Adoption := do
  match ← planAdoption reader name bytes with
  | .ok (aspect, _) => pure (.adopted aspect)
  | .error outcome => pure outcome

/-- The series of an adopted frame; an untagged one is in series `0`. -/
def adoptedSeries (aspect : AspectName) (seriesKey : Option SeriesKey) :
    Recovery (Nat × List IndexOp) :=
  match seriesKey with
  | some key => resolveSeriesKey aspect key
  | none => pure (0, [])

/-- Adopt a frame without a row under its aspect's next id. -/
def adoptOrphanFile (name : FrameName) (bytes : List UInt8) (seriesKey : Option SeriesKey)
    (clear : Bool) : Recovery Adoption := do
  match ← planAdoption reader name bytes with
  | .error outcome => pure outcome
  | .ok (aspect, desc) =>
      ask (.commitLock aspect)
      let (seriesId, seriesOps) ← adoptedSeries aspect seriesKey
      match ← ask (.allocate aspect) with
      | none => .fail .allocate
      | some (id, state) =>
          let row := adoptedRow name { desc with byteLen := bytes.length } (trailer bytes)
            seriesId id
          commitIndex (seriesOps ++
            [.insertNew aspect row, seqBump aspect state (row.gen + 1) state.epoch] ++
            if clear then [.clearJournal name] else [])
          pure (.adopted aspect)

/-- Whether the catalog holds the frame's key under the row's series. -/
def catalogMatches (aspect : AspectName) (row : IndexRow) (newAspect : Option AspectName)
    (frameKey : SeriesKey) : Recovery Bool :=
  match newAspect with
  | some _ => pure false
  | none => do
      let key ← ask (.seriesKeyOf aspect row.seriesId)
      pure (decide (key = some frameKey))

/-- The series of a row whose frame carries another key than the catalog. -/
def resolveRow (reportOnly : Bool) (target : AspectName) (frameKey : SeriesKey) :
    Recovery (Option Nat × List IndexOp) := do
  if reportOnly then
    let resolved ← ask (.seriesIdFor target frameKey)
    pure (resolved, [])
  else
    ask (.commitLock target)
    let (id, seriesOps) ← resolveSeriesKey target frameKey
    pure (some id, seriesOps)

/-- The series which a row is to have, which is its own when the catalog agrees with the frame. -/
def rowSeries (reportOnly : Bool) (aspect : AspectName) (row : IndexRow)
    (newAspect : Option AspectName) (frameKey : SeriesKey) :
    Recovery (Option Nat × List IndexOp) := do
  if ← catalogMatches aspect row newAspect frameKey then
    pure (some row.seriesId, [])
  else
    resolveRow reportOnly (newAspect.getD aspect) frameKey

/-- A row whose frame decoded: bind it to what the frame says, or quarantine it when its key
cannot be bound.  Returns whether the aspect changed. -/
def fsckRebindRow (reportOnly : Bool) (pass : FsckPass) (aspect : AspectName) (row : IndexRow)
    (name : FrameName) (bytes : List UInt8) : Recovery (FsckPass × Bool) := do
  match reader.frameKey bytes with
  | .error reason =>
      if !reportOnly then
        quarantineIndexedRow aspect row name .suspect reason
      pure ({ pass with report := pass.report.count .suspect }, !reportOnly)
  | .ok frameKey =>
      let (rebound, changed, newAspect) := reboundFromFrame aspect row name (trailer bytes)
      let (resolved, seriesOps) ← rowSeries reportOnly aspect row newAspect frameKey
      let seriesChanged := decide (resolved ≠ some row.seriesId)
      let rebound := { rebound with seriesId := resolved.getD rebound.seriesId }
      let report :=
        if seriesChanged then { pass.report with seriesRebound := pass.report.seriesRebound + 1 }
        else pass.report
      if changed || seriesChanged then
        if !reportOnly then
          commitIndex (seriesOps ++ moveRow aspect row newAspect rebound)
        pure ({ pass with report := { report with rebound := report.rebound + 1 } }, !reportOnly)
      else
        pure ({ pass with report }, false)

/-- Check one row of an aspect against its frame.  Returns whether the aspect changed. -/
def fsckCheckRow (reportOnly : Bool) (pass : FsckPass) (aspect : AspectName) (row : IndexRow) :
    Recovery (FsckPass × Bool) := do
  let report := { pass.report with checked := pass.report.checked + 1 }
  let skipped := { report with skippedOutsideSegments := report.skippedOutsideSegments + 1 }
  match row.desc.path with
  | .elsewhere text =>
      pure ({ pass with
        report := skipped
        liveNames := pass.liveNames ++ (reader.fileName text).toList }, false)
  | .segments name =>
      let pass := { pass with report, liveNames := pass.liveNames ++ [name] }
      match ← ask (.read .row name) with
      | none =>
          if !reportOnly then
            let now ← ask .now
            commitIndex (quarantineRow aspect row name .corrupt
              "missing: the indexed frame is not under segments/" now)
          pure ({ pass with report := report.count .corrupt }, !reportOnly)
      | some bytes =>
          match reader.readFull name bytes with
          | .ok _ => fsckRebindRow reader reportOnly pass aspect row name bytes
          | .error fault =>
              let quarantineClass := reader.classifyDecodeFailure bytes fault.source
              if !reportOnly then
                quarantineIndexedRow aspect row name quarantineClass fault.message
              pure ({ pass with
                report := (report.noteNewer fault.source).count quarantineClass }, !reportOnly)

/-- Check an aspect's rows, as they were listed. -/
def fsckCheckRows (reportOnly : Bool) (aspect : AspectName) :
    FsckPass → Bool → List IndexRow → Recovery (FsckPass × Bool)
  | pass, changed, [] => pure (pass, changed)
  | pass, changed, row :: rows => do
      let (pass, rowChanged) ← fsckCheckRow reader reportOnly pass aspect row
      fsckCheckRows reportOnly aspect pass (changed || rowChanged) rows

/-- Check the rows of each aspect. -/
def fsckAspects (reportOnly : Bool) : FsckPass → List AspectName → Recovery FsckPass
  | pass, [] => pure pass
  | pass, aspect :: aspects => do
      let rows ← ask (.rows aspect)
      let (pass, changed) ← fsckCheckRows reader reportOnly aspect pass false rows
      let pass := if changed then
        { pass with changedAspects := pass.changedAspects ++ [aspect] } else pass
      fsckAspects reportOnly pass aspects

/-- Seed each aspect's series allocator past every id its catalog and its rows hold. -/
def fsckSeedSeries (reportOnly : Bool) : FsckPass → List AspectName → Recovery FsckPass
  | pass, [] => pure pass
  | pass, aspect :: aspects => do
      let registered ← ask (.maxRegisteredSeriesId aspect)
      let rows ← ask (.rows aspect)
      let largest := rows.foldl (fun id row => max id row.seriesId) registered
      if !reportOnly then
        commitIndex [.seedSeries aspect (max (largest + 1) 1)]
      fsckSeedSeries reportOnly
        { pass with report := { pass.report with seeded := pass.report.seeded + 1 } } aspects

/-- The key of a held frame, or the class and the reason for which it cannot be bound. -/
def heldKey (pass : FsckPass) (name : FrameName) (bytes : List UInt8) :
    FsckPass × Except (QuarantineClass × String) SeriesKey :=
  let refused : FsckPass × Except (QuarantineClass × String) SeriesKey :=
    match reader.readFull name bytes with
    | .error fault =>
        ({ pass with report := pass.report.noteNewer fault.source },
          .error (reader.classifyDecodeFailure bytes fault.source, fault.message))
    | .ok _ => (pass, .error (.suspect, "describing the frame: not decodable"))
  match reader.describeFrame bytes with
  | .ok info =>
      if info.decodable then
        (pass, (reader.frameSeriesKey info).mapError fun reason => (.suspect, reason))
      else
        refused
  | .error _ => refused

/-- Count a cleared journal row. -/
def FsckPass.cleared (pass : FsckPass) : FsckPass :=
  { pass with report := { pass.report with heldCleared := pass.report.heldCleared + 1 } }

/-- Count an adopted frame. -/
def FsckPass.adopt (pass : FsckPass) : FsckPass :=
  { pass with report := { pass.report with adopted := pass.report.adopted + 1 } }

/-- Clear a held frame's journal row. -/
def clearHeld (reportOnly : Bool) (pass : FsckPass) (name : FrameName) : Recovery FsckPass := do
  if !reportOnly then
    commitIndex [.clearJournal name]
  pure pass.cleared

/-- Adopt a held frame, or say what would come of it. -/
def adoptHeld (reportOnly : Bool) (name : FrameName) (bytes : List UInt8) (key : SeriesKey) :
    Recovery Adoption :=
  if reportOnly then
    wouldAdopt reader name bytes
  else
    adoptOrphanFile reader name bytes (if key = "" then none else some key) true

/-- Adopt, keep, quarantine or clear one held frame. -/
def fsckReleaseOne (reportOnly : Bool) (pass : FsckPass) (name : FrameName) :
    Recovery FsckPass := do
  match ← ask (.read .held name) with
  | none => clearHeld reportOnly pass name
  | some bytes =>
      let (pass, key) := heldKey reader pass name bytes
      match key with
      | .ok key =>
          match ← adoptHeld reader reportOnly name bytes key with
          | .adopted aspect =>
              pure (if reportOnly then pass.adopt else pass.adopt.change aspect)
          | .undeclared _ => pure pass
          | .skipped => clearHeld reportOnly pass name
      | .error (quarantineClass, reason) =>
          if orphanNamesAspect name then
            if !reportOnly then
              quarantineOrphanFile name quarantineClass ("held: " ++ reason) true
            pure { pass with report := pass.report.count quarantineClass }
          else
            clearHeld reportOnly pass name

/-- Release the held frames among journal entries. -/
def fsckReleaseHeld (reportOnly : Bool) : FsckPass → List JournalEntry → Recovery FsckPass
  | pass, [] => pure pass
  | pass, entry :: entries => do
      let pass ←
        if entry.state = .held then fsckReleaseOne reader reportOnly pass entry.name
        else pure pass
      fsckReleaseHeld reportOnly pass entries

/-- A file which nothing claims and which does not decode. -/
def fsckOrphan (reportOnly : Bool) (pass : FsckPass) (name : FrameName) : Recovery FsckPass := do
  let pass := { pass with report := { pass.report with orphans := pass.report.orphans + 1 } }
  match ← ask (.read .orphan name) with
  | none => pure pass
  | some bytes =>
      match reader.readFull name bytes with
      | .ok _ => pure pass
      | .error fault =>
          let pass := { pass with report := pass.report.noteNewer fault.source }
          if orphanNamesAspect name then
            let quarantineClass := reader.classifyDecodeFailure bytes fault.source
            if !reportOnly then
              quarantineOrphanFile name quarantineClass
                ("orphan: no index row claims this frame: " ++ fault.message) false
            pure { pass with report := pass.report.count quarantineClass }
          else
            pure pass

/-- Check the listed files which no row and no journal entry claims. -/
def fsckOrphans (reportOnly : Bool) : FsckPass → List FrameName → Recovery FsckPass
  | pass, [] => pure pass
  | pass, name :: names => do
      let pass ←
        if isFrameFile name && decide (name ∉ pass.liveNames ∧ name ∉ pass.journalNames) then
          fsckOrphan reader reportOnly pass name
        else
          pure pass
      fsckOrphans reportOnly pass names

/-- Rebuild the rollup of each aspect which the pass changed. -/
def rebuildRollups : List AspectName → Recovery Unit
  | [] => pure ()
  | aspect :: aspects => do
      ask (.commitLock aspect)
      let rows ← ask (.rows aspect)
      commitIndex [.putRollup aspect (.fromIndex ⟨rows.map (·.desc)⟩)]
      rebuildRollups aspects

/-- Whether a record's time is up. -/
def expired (now : Int) (record : QuarantineRecord) : Bool :=
  decide (record.quarantineClass = .corrupt ∧
    min (record.quarantinedMs + quarantineTtlMs) i64Max ≤ now)

/-- Purge the corrupt records whose time is up. -/
def purgeRecords (now : Int) : Nat → List QuarantineRecord → Recovery Nat
  | purged, [] => pure purged
  | purged, record :: records => do
      if expired now record then
        ask (.removeQuarantined record.name)
        commitIndex (quarantinePurge record)
        purgeRecords now (purged + 1) records
      else
        purgeRecords now purged records

def purgeExpiredQuarantine : Recovery Nat := do
  let now ← ask .now
  let records ← ask .quarantineList
  purgeRecords now 0 records

/-- The fsck pass. -/
def fsck (reportOnly : Bool) : Recovery RecoveryReport := do
  let journal ← ask .journal
  let indexed ← ask .listAspects
  let catalogued ← ask .seriesAspects
  let aspects := Root.sortedAspects (indexed ++ catalogued)
  let pass ← fsckSeedSeries reportOnly { journalNames := journal.map (·.name) } aspects
  let pass ← fsckAspects reader reportOnly pass aspects
  let entries ← ask .journal
  let pass ← fsckReleaseHeld reader reportOnly pass entries
  let names ← ask .readDir
  let pass ← fsckOrphans reader reportOnly pass names
  if reportOnly then
    pure pass.report
  else
    rebuildRollups pass.changedAspects
    let purged ← purgeExpiredQuarantine
    pure { pass.report with purged }

end Steps

end WeftDb.Fsck
