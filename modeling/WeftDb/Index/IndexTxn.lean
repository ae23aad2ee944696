import WeftDb.Index.IndexDb

/-!
# Index transactions

`IndexOp` lists the changes a control-plane transaction can make and `IndexDb.apply` their
preconditions and effects.  `applyAll` applies a whole transaction: either every operation takes
effect or the error of the first failing one is returned and nothing does.
-/

namespace WeftDb

/-- Why a transaction failed. -/
inductive TxnErrorKind
  /-- A lost race, before anything was written. -/
  | retryable
  /-- A precondition failed. -/
  | conflict
  /-- Any other failure before the commit. -/
  | definite
  /-- The commit itself failed: the transaction may be durable or not. -/
  | ambiguous
  deriving DecidableEq

/-- One change of a transaction. -/
inductive IndexOp
  | insertNew (aspect : AspectName) (row : IndexRow)
  | replaceExpected (aspect : AspectName) (expected : RowVersion) (row : IndexRow)
  | deleteExpected (aspect : AspectName) (expected : RowVersion)
  | deleteEveryExpected (aspect : AspectName) (expected : List RowVersion)
  | upsert (aspect : AspectName) (row : IndexRow)
  | delete (aspect : AspectName) (id : Nat)
  | seqBump (aspect : AspectName) (nextId nextGen epoch : Nat)
  | journalPending (aspect : AspectName) (name : FrameName) (createdMs : Int)
  | journalRetire (aspect : AspectName) (name : FrameName) (retireEpoch : Nat) (createdMs : Int)
  | journalHeld (aspect : AspectName) (name : FrameName) (createdMs : Int)
  | clearJournal (name : FrameName)
  | putRollup (aspect : AspectName) (rollup : AspectMetadata)
  | quarantineInsert (record : QuarantineRecord)
  | quarantineDelete (aspect : AspectName) (id gen : Nat)
  | seedSeries (aspect : AspectName) (nextSeriesId : Nat)
  | registerSeries (aspect : AspectName) (seriesId : Nat) (seriesKey : SeriesKey)
  | recordIngest (entry : LedgerEntry)
  | recordChange (change : SegmentChange)
  | deleteChanges (aspect : AspectName) (throughEpoch : Nat)
  deriving DecidableEq

/-- A plain insert: a taken key is a conflict. -/
def orConflict {α : Type*} : Option α → Except TxnErrorKind α
  | some value => .ok value
  | none => .error .conflict

@[simp]
theorem orConflict_eq_ok {α : Type*} {found : Option α} {value : α} :
    orConflict found = .ok value ↔ found = some value := by
  cases found <;> simp [orConflict]

namespace IndexDb

/-- Replace the segment table. -/
def withSegments (db : IndexDb) (segments : KeyedTable segmentKey) : IndexDb :=
  { db with segments }

/-- The row of an aspect which is exactly at the expected version. -/
def matching (db : IndexDb) (aspect : AspectName) (expected : RowVersion) : Option IndexRow :=
  match db.segments.find? (aspect, expected.id) with
  | some (_, row) => if row.version = expected then some row else none
  | none => none

/-- Delete the row at the expected version, which must exist. -/
def deleteExpected (db : IndexDb) (aspect : AspectName) (expected : RowVersion) :
    Except TxnErrorKind IndexDb :=
  match db.matching aspect expected with
  | some _ => .ok (db.withSegments (db.segments.erase (aspect, expected.id)))
  | none => .error .conflict

/-- Delete each row at its expected version. -/
def deleteEveryExpected (db : IndexDb) (aspect : AspectName) :
    List RowVersion → Except TxnErrorKind IndexDb
  | [] => .ok db
  | expected :: later =>
      match db.deleteExpected aspect expected with
      | .ok next => next.deleteEveryExpected aspect later
      | .error kind => .error kind

/-- The raised allocator row of an aspect, or the created one if the aspect has none. -/
def raisedRow (db : IndexDb) (created : SequenceRow) (raised : SequenceRow → SequenceRow) :
    SequenceRow :=
  match db.sequence created.aspect with
  | some row => { raised row with aspect := created.aspect }
  | none => created

/-- Raise the allocator row of an aspect, creating it if the aspect has none. -/
def raise (db : IndexDb) (created : SequenceRow) (raised : SequenceRow → SequenceRow) : IndexDb :=
  { db with sequences := db.sequences.put (db.raisedRow created raised) }

/-- Apply one operation, or refuse it with the kind of its failure. -/
def apply (db : IndexDb) : IndexOp → Except TxnErrorKind IndexDb
  | .insertNew aspect row => do
      let segments ← orConflict (db.segments.insert? (aspect, row))
      .ok (db.withSegments segments)
  | .replaceExpected aspect expected row =>
      match db.matching aspect expected with
      | some _ => do
          let segments ←
            orConflict ((db.segments.erase (aspect, expected.id)).insert? (aspect, row))
          .ok (db.withSegments segments)
      | none => .error .conflict
  | .deleteExpected aspect expected => db.deleteExpected aspect expected
  | .deleteEveryExpected aspect expected => db.deleteEveryExpected aspect expected
  | .upsert aspect row => .ok (db.withSegments (db.segments.put (aspect, row)))
  | .delete aspect id => .ok (db.withSegments (db.segments.erase (aspect, id)))
  | .seqBump aspect nextId nextGen epoch =>
      -- Generation `0` names the legacy frames, so no counter starts below `1`.
      .ok (db.raise ⟨aspect, nextId, max nextGen 1, epoch, 1⟩ fun row =>
        { row with
          nextId := max row.nextId nextId
          nextGen := max row.nextGen (max nextGen 1)
          epoch := max row.epoch epoch })
  | .journalPending aspect name createdMs => do
      let journal ← orConflict (db.journal.insert? ⟨name, aspect, .pending, none, createdMs⟩)
      .ok { db with journal }
  | .journalRetire aspect name retireEpoch createdMs => do
      let journal ←
        orConflict (db.journal.insert? ⟨name, aspect, .retired, some retireEpoch, createdMs⟩)
      .ok { db with journal }
  | .journalHeld aspect name createdMs => do
      let journal ← orConflict (db.journal.insert? ⟨name, aspect, .held, none, createdMs⟩)
      .ok { db with journal }
  | .clearJournal name => .ok { db with journal := db.journal.erase name }
  | .putRollup aspect rollup => .ok { db with rollups := db.rollups.put (aspect, rollup) }
  | .quarantineInsert record => .ok { db with quarantine := db.quarantine.put record }
  | .quarantineDelete aspect id gen =>
      .ok { db with quarantine := db.quarantine.erase (aspect, id, gen) }
  | .seedSeries aspect nextSeriesId =>
      .ok (db.raise ⟨aspect, 1, 0, 0, nextSeriesId⟩ fun row =>
        { row with nextSeriesId := max row.nextSeriesId nextSeriesId })
  | .registerSeries aspect seriesId seriesKey =>
      if seriesId = 0 ∨ seriesKey = "" then
        .error .definite
      else if db.series.rows.any fun entry =>
          decide (entry.aspect = aspect ∧ entry.id = seriesId) then
        .error .conflict
      else do
        let series ← orConflict (db.series.insert? ⟨aspect, seriesKey, seriesId⟩)
        .ok { db with series }
  | .recordIngest entry => do
      let ledger ← orConflict (db.ledger.insert? entry)
      .ok { db with ledger }
  | .recordChange change =>
      if db.hasChangeLog then do
        let changes ← orConflict (db.changes.insert? change)
        .ok { db with changes }
      else
        .ok db
  | .deleteChanges aspect throughEpoch =>
      if db.hasChangeLog then
        .ok
          { db with
            changes := db.changes.filter fun change =>
              decide (¬(change.aspect = aspect ∧ change.epoch ≤ throughEpoch)) }
      else
        .ok db

/-- Apply a whole transaction, or nothing of it. -/
def applyAll (db : IndexDb) : List IndexOp → Except TxnErrorKind IndexDb
  | [] => .ok db
  | op :: later =>
      match db.apply op with
      | .ok next => next.applyAll later
      | .error kind => .error kind

@[simp]
theorem applyAll_nil (db : IndexDb) : db.applyAll [] = .ok db := by
  rfl

variable {later : List IndexOp} {db after : IndexDb}

theorem applyAll_cons_eq_ok {op : IndexOp} :
    db.applyAll (op :: later) = .ok after ↔
      ∃ middle, db.apply op = .ok middle ∧ middle.applyAll later = .ok after := by
  rw [applyAll]
  cases db.apply op <;> simp

theorem applyAll_append_eq_ok {earlier : List IndexOp} :
    db.applyAll (earlier ++ later) = .ok after ↔
      ∃ middle, db.applyAll earlier = .ok middle ∧ middle.applyAll later = .ok after := by
  induction earlier generalizing db with
  | nil => simp
  | cons op earlier ih =>
      rw [List.cons_append, applyAll_cons_eq_ok]
      constructor
      · rintro ⟨first, applied, rest⟩
        obtain ⟨middle, prefixed, suffixed⟩ := ih.mp rest
        exact ⟨middle, applyAll_cons_eq_ok.mpr ⟨first, applied, prefixed⟩, suffixed⟩
      · rintro ⟨middle, prefixed, suffixed⟩
        obtain ⟨first, applied, rest⟩ := applyAll_cons_eq_ok.mp prefixed
        exact ⟨first, applied, ih.mpr ⟨middle, rest, suffixed⟩⟩

theorem applyAll_induction (property : IndexDb → Prop) {ops : List IndexOp}
    (kept : ∀ {before after : IndexDb} {op : IndexOp}, op ∈ ops → property before →
      before.apply op = .ok after → property after) (start : property db)
    (applied : db.applyAll ops = .ok after) : property after := by
  induction ops generalizing db with
  | nil =>
      cases applied
      exact start
  | cons op later ih =>
      obtain ⟨middle, first, rest⟩ := applyAll_cons_eq_ok.mp applied
      exact ih (fun member => kept (List.mem_cons_of_mem op member))
        (kept List.mem_cons_self start first) rest

end IndexDb

end WeftDb
