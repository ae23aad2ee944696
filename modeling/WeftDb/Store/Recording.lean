import WeftDb.Index.Effects
import WeftDb.Store.System

/-!
# What transactions record in the ledger

The transaction of a new batch records it in the ledger together with the rows it inserts, and no
other transaction records anything.  An answer given while the ledger holds an entry under the
batch's key is the replay of that entry or a conflict with it.
-/

namespace WeftDb

/-- The segment ids under which an operation inserts a row of an aspect. -/
def IndexOp.insertedIds (aspect : AspectName) : IndexOp → List Nat
  | .insertNew own row => if own = aspect then [row.desc.id] else []
  | _ => []

namespace Publication

/-- The ledger rows which a transaction records. -/
def ingested (publication : Publication) : List LedgerEntry :=
  publication.ops.flatMap (·.ingested)

/-- The segment ids under which a transaction inserts rows of an aspect. -/
def insertedIds (publication : Publication) (aspect : AspectName) : List Nat :=
  publication.ops.flatMap (·.insertedIds aspect)

end Publication

/-- A transaction publishes a batch: it records one ledger row, whose receipt names the batch and
the rows inserted. -/
structure Publishes (publication : Publication) (aspect : AspectName) (batch : IngestBatch)
    (receipt : IngestReceipt) : Prop where
  recorded : ∃ createdMs, publication.ingested = [ledgerEntryOf receipt createdMs]
  aspect_eq : receipt.aspect = aspect
  key_eq : receipt.key = batch.key
  fingerprint_eq : batch.fingerprint = some receipt.fingerprint
  first : receipt.duplicate = false
  segmentIds_eq : receipt.segmentIds = publication.insertedIds aspect

variable {written : List WrittenSegment} {receipt : IngestReceipt} {continuation : Continuation}
  {createdMs : Int}

section Transactions

variable {catalog : Catalog} {db : IndexDb} {aspect : AspectName} {state next : AspectState}
  {publication : Publication} {ops : List IndexOp}
variable {batch : IngestBatch} {crc : Option Nat}

theorem IndexOp.OfSeries.ingested {op : IndexOp} (series : op.OfSeries aspect) :
    op.ingested = [] := by
  rcases series with ⟨id, key, rfl⟩ | ⟨next, rfl⟩ <;> rfl

theorem IndexOp.OfSeries.insertedIds {op : IndexOp} (series : op.OfSeries aspect)
    (own : AspectName) : op.insertedIds own = [] := by
  rcases series with ⟨id, key, rfl⟩ | ⟨next, rfl⟩ <;> rfl

theorem zip_insertedIds (aspect : AspectName) (epoch seriesId : Nat)
    (written : List WrittenSegment) (ids : List Nat) (lengths : ids.length = written.length) :
    ((written.zip ids).map (fun (frame, id) =>
      IndexOp.insertNew aspect (frame.row id epoch seriesId))).flatMap (·.insertedIds aspect) =
        ids := by
  induction written generalizing ids with
  | nil => simp [List.length_eq_zero_iff.mp lengths]
  | cons frame written ih =>
      cases ids with
      | nil => simp at lengths
      | cons id ids =>
          have rest := ih ids (by simpa using lengths)
          simpa [IndexOp.insertedIds] using rest

theorem publishIngest_publish {fingerprint : UInt64}
    (built : publishIngest catalog db aspect state batch fingerprint written createdMs =
      (next, .ok (.publish publication receipt))) (hashed : batch.fingerprint = some fingerprint) :
    db.ledgerEntry aspect batch.key = none ∧ Publishes publication aspect batch receipt := by
  unfold publishIngest at built
  split at built
  · cases built
  · cases built
  · rename_i fresh
    refine ⟨checkLedger_new.mp fresh, ?_⟩
    split at built
    · cases built
    · rename_i seriesId seriesOps resolved
      simp only at built
      split at built
      · cases built
      · rename_i last ids allocated
        have handed : (state.allocateMany written.length).2 = some ids := by rw [allocated]
        have lengths : ids.length = written.length := by
          rw [(AspectState.allocateMany_ids handed).1]
          simp
        have series := commitSeriesId_ofSeries resolved
        have series_ingested : seriesOps.flatMap (·.ingested) = [] :=
          List.flatMap_eq_nil_iff.mpr fun op member => (series op member).ingested
        have series_inserted : seriesOps.flatMap (·.insertedIds aspect) = [] :=
          List.flatMap_eq_nil_iff.mpr fun op member => (series op member).insertedIds aspect
        cases built
        refine ⟨⟨createdMs, ?_⟩, rfl, rfl, hashed, rfl, ?_⟩
        · have rows : ((written.zip ids).map fun (frame, id) => IndexOp.insertNew aspect
              (frame.row id (state.epoch + 1) seriesId)).flatMap (·.ingested) = [] := by
            rw [List.flatMap_eq_nil_iff]
            intro op member
            obtain ⟨_, _, rfl⟩ := List.mem_map.mp member
            rfl
          simp only [Publication.ingested, ingestOps, List.flatMap_append, series_ingested]
          exact congrArg (· ++ _) rows
        · simp only [Publication.insertedIds, ingestOps, List.flatMap_append, series_inserted,
            zip_insertedIds aspect _ _ written ids lengths]
          simp [ingestReceipt, IndexOp.insertedIds, seqBump]

theorem publishIngest_replay {fingerprint : UInt64}
    (built : publishIngest catalog db aspect state batch fingerprint written createdMs =
      (next, .ok (.replay receipt))) :
    ∃ entry, db.ledgerEntry aspect batch.key = some entry ∧ entry.fingerprint = fingerprint ∧
      { entry.receipt with duplicate := true } = receipt := by
  unfold publishIngest at built
  split at built
  · cases built
  · rename_i recorded replayed
    cases built
    exact checkLedger_replay.mp replayed
  · split at built
    · cases built
    · simp only at built
      split at built <;> cases built

theorem publishIngest_refused {fingerprint : UInt64} {refused : StoreError}
    (built : publishIngest catalog db aspect state batch fingerprint written createdMs =
      (next, .error refused)) :
    db.ledgerEntry aspect batch.key = none ∨
      ∃ entry, db.ledgerEntry aspect batch.key = some entry ∧
        entry.fingerprint ≠ fingerprint ∧
        .idempotencyConflict aspect batch.key entry.fingerprint fingerprint = refused := by
  unfold publishIngest at built
  split at built
  · rename_i conflict
    cases built
    exact .inr (checkLedger_refused.mp conflict)
  · cases built
  · rename_i fresh
    exact .inl (checkLedger_new.mp fresh)

theorem publishSeal_ingested {frame : WrittenSegment}
    (built : publishSeal db aspect state frame = (next, some publication)) :
    publication.ingested = [] := by
  unfold publishSeal at built
  split at built
  · cases built
  · cases built
    rfl

theorem commitPlans_ingested (plans : List PreparedPlan) (createdMs : Int) :
    (commitPlans db aspect state plans createdMs).ingested = [] := by
  refine List.flatMap_eq_nil_iff.mpr fun op member => ?_
  rcases mem_commitPlans member with swap | ⟨_, rfl⟩ | ⟨_, rfl⟩
  · cases swap <;> rfl
  · rfl
  · rfl

theorem journalOutputs_ingested (planned : List WrittenOutput) (createdMs : Int) :
    (journalOutputs aspect state planned createdMs).ingested = [] := by
  refine List.flatMap_eq_nil_iff.mpr fun op member => ?_
  rcases mem_journalOutputs member with ⟨_, rfl⟩ | ⟨_, rfl⟩ <;> rfl

theorem rebindRow_ingested {row : IndexRow} {name : FrameName} {key : SeriesKey}
    (built : rebindRow db aspect row name crc key = some ops) : ops.flatMap (·.ingested) = [] := by
  obtain ⟨seriesOps, rebound, series, rfl⟩ := rebindRow_eq_some built
  have series_ingested : seriesOps.flatMap (·.ingested) = [] :=
    List.flatMap_eq_nil_iff.mpr fun op member => (series op member).ingested
  rw [List.flatMap_append, series_ingested]
  unfold moveRow
  split <;> rfl

theorem adoptOrphan_ingested {frame : FrameName} {desc : SegmentDescriptor}
    {seriesKey : Option SeriesKey} {clear : Bool}
    (built : adoptOrphan db aspect state frame desc crc seriesKey clear = (next, some ops)) :
    ops.flatMap (·.ingested) = [] := by
  obtain ⟨seriesOps, seriesId, id, series, _, rfl⟩ := adoptOrphan_eq_some built
  have series_ingested : seriesOps.flatMap (·.ingested) = [] :=
    List.flatMap_eq_nil_iff.mpr fun op member => (series op member).ingested
  rw [List.flatMap_append, List.flatMap_append, series_ingested]
  split <;> rfl

theorem repair_ingested {changed : List AspectName} {step : Store.Repair}
    (built : Store.repair db aspect state changed step =
      (next, some (publication, continuation))) :
    publication.ingested = [] ∧ ∃ later, continuation = .resume (.recovery later) := by
  cases step with
  | rebuild =>
      cases built
      exact ⟨rfl, _, rfl⟩
  | adopt name desc crc seriesKey clear =>
      simp only [Store.repair] at built
      cases adopted : adoptOrphan db aspect state name desc crc seriesKey clear with
      | mk last ops =>
          rw [adopted] at built
          cases ops with
          | none => cases built
          | some ops =>
              cases built
              exact ⟨adoptOrphan_ingested adopted, _, rfl⟩
  | rebind source row name crc seriesKey =>
      simp only [Store.repair] at built
      split at built
      · cases rebound : rebindRow db source row name crc seriesKey with
        | none =>
            rw [rebound] at built
            cases built
        | some ops =>
            rw [rebound] at built
            cases built
            exact ⟨rebindRow_ingested rebound, _, rfl⟩
      · cases built

theorem recoveryOps_ingested {step : Store.RecoveryStep} {changed : Option AspectName}
    (built : Store.recoveryOps db step = some (ops, changed)) :
    ops.flatMap (·.ingested) = [] := by
  cases step with
  | quarantineRow own row quarantineClass reason now =>
      simp only [Store.recoveryOps] at built
      split at built
      · obtain ⟨name, _, found⟩ := Option.map_eq_some_iff.mp built
        cases found
        rfl
      · cases built
  | quarantineOrphan name quarantineClass reason now clear =>
      obtain ⟨found, quarantined, pair⟩ := Option.map_eq_some_iff.mp built
      obtain ⟨identity, _, rfl⟩ := Option.map_eq_some_iff.mp quarantined
      cases pair
      cases clear <;> rfl
  | release record =>
      simp only [Store.recoveryOps] at built
      split at built
      · obtain ⟨found, released, pair⟩ := Option.map_eq_some_iff.mp built
        obtain ⟨row, _, rfl⟩ := Option.map_eq_some_iff.mp released
        cases pair
        rfl
      · cases built
  | purge record =>
      simp only [Store.recoveryOps] at built
      split at built
      · cases built
        rfl
      · cases built
  | rebind own row name crc seriesKey =>
      simp only [Store.recoveryOps] at built
      split at built
      · obtain ⟨found, rebound, pair⟩ := Option.map_eq_some_iff.mp built
        cases pair
        exact rebindRow_ingested rebound
      · cases built
  | journalHeld own name now =>
      cases built
      rfl
  | seedSeries own nextSeriesId =>
      cases built
      rfl

end Transactions

namespace Store

section Answers

variable {catalog : Catalog} {db : IndexDb} {aspect : AspectName} {batch : IngestBatch}
variable {state next : AspectState} {step : Repair}

/-- An answer given while the ledger holds an entry under the batch's key. -/
inductive LedgerAnswer (catalog : Catalog) (aspect : AspectName) (batch : IngestBatch)
    (entry : LedgerEntry) : Except StoreError IngestReceipt → Prop
  /-- The request is refused before the ledger is consulted. -/
  | invalid {refused} (validation : validateIngest catalog aspect batch = .error refused) :
      LedgerAnswer catalog aspect batch entry (.error refused)
  | replay (same : batch.fingerprint = some entry.fingerprint) :
      LedgerAnswer catalog aspect batch entry (.ok { entry.receipt with duplicate := true })
  | conflict {fingerprint} (hashed : batch.fingerprint = some fingerprint)
      (different : entry.fingerprint ≠ fingerprint) :
      LedgerAnswer catalog aspect batch entry
        (.error (.idempotencyConflict aspect batch.key entry.fingerprint fingerprint))
  | poisoned : LedgerAnswer catalog aspect batch entry (.error .poisoned)
  | fault : LedgerAnswer catalog aspect batch entry (.error .fault)

theorem admitBatch_new {fingerprint : UInt64}
    (admission : admitBatch catalog db aspect batch = .ok (fingerprint, none)) :
    batch.fingerprint = some fingerprint ∧ db.ledgerEntry aspect batch.key = none := by
  unfold admitBatch at admission
  split at admission
  · cases admission
  · rename_i fingerprint' valid
    split at admission
    · cases admission
    · cases admission
    · rename_i fresh
      split at admission
      · cases admission
      · cases admission
        exact ⟨validateIngest_fingerprint valid, checkLedger_new.mp fresh⟩

theorem admitBatch_replay {fingerprint : UInt64}
    (admission : admitBatch catalog db aspect batch = .ok (fingerprint, some receipt)) :
    ∃ entry, db.ledgerEntry aspect batch.key = some entry ∧
      LedgerAnswer catalog aspect batch entry (.ok receipt) := by
  unfold admitBatch at admission
  split at admission
  · cases admission
  · rename_i fingerprint' valid
    split at admission
    · cases admission
    · rename_i recorded replayed
      cases admission
      obtain ⟨entry, found, rfl, rfl⟩ := checkLedger_replay.mp replayed
      exact ⟨entry, found, .replay (validateIngest_fingerprint valid)⟩
    · split at admission <;> cases admission

theorem admitBatch_refused {entry : LedgerEntry} {refused : StoreError}
    (admission : admitBatch catalog db aspect batch = .error refused)
    (recorded : db.ledgerEntry aspect batch.key = some entry) :
    LedgerAnswer catalog aspect batch entry (.error refused) := by
  unfold admitBatch at admission
  split at admission
  · rename_i invalid
    cases admission
    exact .invalid invalid
  · rename_i fingerprint' valid
    split at admission
    · rename_i conflict
      cases admission
      obtain ⟨found, found_eq, different, rfl⟩ := checkLedger_refused.mp conflict
      rw [recorded] at found_eq
      cases found_eq
      exact .conflict (validateIngest_fingerprint valid) different
    · cases admission
    · rename_i fresh
      rw [checkLedger_new.mp fresh] at recorded
      cases recorded

theorem prepared_ingest {own : AspectName} {checked : Option UInt64} {queued : List Chunk}
    {outcome : Prepared}
    (built : prepared catalog db aspect state step createdMs
      (.ingest own batch checked queued written) = some (next, outcome))
    (hashed : ∀ fingerprint ∈ checked, batch.fingerprint = some fingerprint) :
    (db.ledgerEntry aspect batch.key = none ∧
        ((∃ publication receipt, outcome = .commit publication (.finish (some receipt)) ∧
            Publishes publication aspect batch receipt) ∨
          ∃ refused unlinked, outcome = .answer (.error refused) unlinked)) ∨
      ∃ entry result unlinked, db.ledgerEntry aspect batch.key = some entry ∧
        outcome = .answer result unlinked ∧ LedgerAnswer catalog aspect batch entry result := by
  cases checked with
  | none => cases built
  | some fingerprint =>
      have hash := hashed fingerprint rfl
      have encoded : queued = [] := by
        cases queued with
        | nil => rfl
        | cons chunk queued => cases built
      subst encoded
      simp only [prepared] at built
      split at built
      · rename_i published
        cases built
        obtain ⟨free, publishes⟩ := publishIngest_publish published hash
        exact .inl ⟨free, .inl ⟨_, _, rfl, publishes⟩⟩
      · rename_i replayed
        cases built
        obtain ⟨entry, found, rfl, rfl⟩ := publishIngest_replay replayed
        exact .inr ⟨entry, _, _, found, rfl, .replay hash⟩
      all_goals
        rename_i refused
        cases built
        rcases publishIngest_refused refused with free | ⟨entry, found, different, conflict⟩
        · exact .inl ⟨free, .inr ⟨_, _, rfl⟩⟩
        · rw [← conflict]
          exact .inr ⟨entry, _, _, found, rfl, .conflict hash different⟩

/-- A task which is not an ingest goes on without recording one. -/
def Quiet : Continuation → Prop
  | .finish receipt => receipt = none
  | .resume work => work.batch = none
  | .retain work => work.batch = none

theorem prepared_quiet {work : Work} {publication : Publication} (other : work.batch = none)
    (built : prepared catalog db aspect state step createdMs work =
      some (next, .commit publication continuation)) :
    publication.ingested = [] ∧ Quiet continuation := by
  unfold prepared at built
  split at built
  · split at built
    · rename_i published
      cases built
      exact ⟨publishSeal_ingested published, rfl⟩
    · cases built
  · cases other
  · cases built
    exact ⟨journalOutputs_ingested _ _, rfl⟩
  · cases built
    refine ⟨commitPlans_ingested _ _, ?_⟩
    split <;> rfl
  · split at built
    · rename_i repaired
      cases built
      obtain ⟨silent, later, rfl⟩ := repair_ingested repaired
      exact ⟨silent, rfl⟩
    · cases built
  · cases built

theorem retried_batch {kind : TxnErrorKind} {work again : Work}
    (retry : retried kind work = some again) : work.batch = none ∧ again.batch = none := by
  unfold retried at retry
  split at retry
  · split at retry
    · cases retry
      exact ⟨rfl, rfl⟩
    · cases retry
  · cases retry
    exact ⟨rfl, rfl⟩
  · cases retry

end Answers

end Store

end WeftDb
