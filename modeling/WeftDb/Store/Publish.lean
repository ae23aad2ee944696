import WeftDb.Ingest.Batch

/-!
# Publishing seals and ingests

The commit lock of an aspect guards the next segment id and the aspect's epoch.  Ids are handed
out one at a time and each hand-out is recorded at once, whether or not its commit happens.  Under
the lock a seal or an ingest turns the frames it wrote into one index transaction: fresh rows, the
raised allocator, the rollup folded forward, the change-log row and, for an ingest, its ledger row.
The functions below build these transactions from the index read under the lock.
-/

namespace WeftDb

/-- The largest 64-bit unsigned integer. -/
def u64Max : Nat := 2 ^ 64 - 1

/-- What an aspect's commit lock guards. -/
structure AspectState where
  /-- The next segment id to hand out. -/
  nextId : Nat
  /-- The commit epoch of the aspect's latest commit. -/
  epoch : Nat
  deriving DecidableEq

namespace AspectState

/-- Hand out the next id, unless the aspect has used every id. -/
def allocate (state : AspectState) : Option (Nat × AspectState) :=
  if state.nextId < u64Max then
    some (state.nextId, { state with nextId := state.nextId + 1 })
  else
    none

/-- Hand out ids one after another, keeping those handed out before a failure. -/
def allocateMany (state : AspectState) : Nat → AspectState × Option (List Nat)
  | 0 => (state, some [])
  | count + 1 =>
      match state.allocate with
      | none => (state, none)
      | some (id, next) =>
          let (last, later) := next.allocateMany count
          (last, later.map (id :: ·))

/-- Record that a commit advanced the epoch; it is only ever raised. -/
def setEpoch (state : AspectState) (epoch : Nat) : AspectState :=
  { state with epoch := max state.epoch epoch }

@[simp]
theorem setEpoch_nextId (state : AspectState) (epoch : Nat) :
    (state.setEpoch epoch).nextId = state.nextId := by
  rfl

@[simp]
theorem setEpoch_epoch (state : AspectState) (epoch : Nat) :
    (state.setEpoch epoch).epoch = max state.epoch epoch := by
  rfl

variable {state : AspectState}

theorem allocate_eq_some {next : AspectState} {id : Nat}
    (allocated : state.allocate = some (id, next)) :
    id = state.nextId ∧ next.nextId = state.nextId + 1 ∧ next.epoch = state.epoch := by
  unfold allocate at allocated
  split at allocated
  · cases allocated
    exact ⟨rfl, rfl, rfl⟩
  · cases allocated

theorem allocateMany_epoch (state : AspectState) (count : Nat) :
    (state.allocateMany count).1.epoch = state.epoch := by
  induction count generalizing state with
  | zero => rfl
  | succ count ih =>
      unfold allocateMany
      cases allocated : state.allocate with
      | none => rfl
      | some result =>
          obtain ⟨id, next⟩ := result
          exact (ih next).trans (allocate_eq_some allocated).2.2

theorem allocateMany_nextId (state : AspectState) (count : Nat) :
    state.nextId ≤ (state.allocateMany count).1.nextId := by
  induction count generalizing state with
  | zero => exact Nat.le_refl _
  | succ count ih =>
      unfold allocateMany
      cases allocated : state.allocate with
      | none => exact Nat.le_refl _
      | some result =>
          obtain ⟨id, next⟩ := result
          have first := (allocate_eq_some allocated).2.1
          have rest := ih next
          simp only
          omega

theorem allocateMany_ids {count : Nat} {ids : List Nat}
    (allocated : (state.allocateMany count).2 = some ids) :
    ids = (List.range count).map (state.nextId + ·) ∧
      (state.allocateMany count).1.nextId = state.nextId + count := by
  induction count generalizing state ids with
  | zero =>
      cases allocated
      exact ⟨rfl, rfl⟩
  | succ count ih =>
      unfold allocateMany at allocated ⊢
      cases first : state.allocate with
      | none =>
          rw [first] at allocated
          cases allocated
      | some result =>
          obtain ⟨id, next⟩ := result
          obtain ⟨id_eq, next_id, _⟩ := allocate_eq_some first
          rw [first] at allocated
          simp only [Option.map_eq_some_iff] at allocated
          obtain ⟨later, rest, rfl⟩ := allocated
          obtain ⟨later_eq, last_id⟩ := ih rest
          refine ⟨?_, ?_⟩
          · rw [List.range_succ_eq_map, List.map_cons, List.map_map, later_eq, id_eq, next_id]
            refine congrArg₂ _ (by simp) (List.map_congr_left fun offset _ => ?_)
            simp only [Function.comp_apply]
            omega
          · simp only
            omega

end AspectState

/-- The operation which persists the allocator held for an aspect. -/
def seqBump (aspect : AspectName) (state : AspectState) (nextGen epoch : Nat) : IndexOp :=
  .seqBump aspect state.nextId nextGen epoch

/-- A frame written by a seal or an ingest and not yet indexed. -/
structure WrittenSegment where
  /-- The frame's descriptor, before an id is assigned. -/
  desc : SegmentDescriptor
  gen : Nat
  frameCrc : Nat
  deriving DecidableEq

namespace WrittenSegment

/-- The descriptor under an assigned id. -/
def descWith (frame : WrittenSegment) (id : Nat) : SegmentDescriptor :=
  { frame.desc with id }

/-- The row which publishes the frame; its adoption order is its own generation. -/
def row (frame : WrittenSegment) (id epoch seriesId : Nat) : IndexRow where
  desc := frame.descWith id
  gen := frame.gen
  prec := some frame.gen
  frameCrc := some frame.frameCrc
  commitEpoch := some epoch
  seriesId := seriesId

@[simp]
theorem row_id (frame : WrittenSegment) (id epoch seriesId : Nat) :
    (frame.row id epoch seriesId).desc.id = id := by
  rfl

end WrittenSegment

/-- One transaction built under a commit lock. -/
structure Publication where
  /-- The commit epoch to which the transaction advances the aspect, if it advances it. -/
  epoch : Option Nat
  ops : List IndexOp
  deriving DecidableEq

/-- The transaction of a seal: the row, the allocator, the rollup and the change row. -/
def publishSeal (db : IndexDb) (aspect : AspectName) (state : AspectState)
    (frame : WrittenSegment) : AspectState × Option Publication :=
  match state.allocate with
  | none => (state, none)
  | some (id, state) =>
      let epoch := state.epoch + 1
      let desc := frame.descWith id
      let rollup := ((db.rollup aspect).getD {}).folded desc
      (state, some
        { epoch := some epoch
          ops :=
            [ .insertNew aspect (frame.row id epoch 0),
              seqBump aspect state (frame.gen + 1) epoch,
              .putRollup aspect rollup,
              .recordChange ⟨aspect, epoch, desc.minTs, desc.maxTs, desc.rowCount⟩ ] })

/-- The id a series key has, with the operations registering it when the catalog lacks it. -/
def resolveSeriesKey (db : IndexDb) (aspect : AspectName) (key : SeriesKey) :
    Nat × List IndexOp :=
  match db.seriesIdFor aspect key with
  | some id => (id, [])
  | none =>
      let id := db.nextSeriesId aspect
      (id, [.registerSeries aspect id key, .seedSeries aspect (id + 1)])

/-- The series an ingest commits under; a new series past the cap is refused. -/
def commitSeriesId (catalog : Catalog) (db : IndexDb) (aspect : AspectName) (groups : TagSet) :
    Except StoreError (Nat × List IndexOp) :=
  if groups.isEmpty then
    .ok (0, [])
  else
    match db.seriesIdFor aspect groups.seriesKey with
    | some id => .ok (id, [])
    | none =>
        if catalog.maxSeriesPerAspect ≤ db.seriesCount aspect then
          .error (.seriesLimit aspect catalog.maxSeriesPerAspect)
        else
          .ok (resolveSeriesKey db aspect groups.seriesKey)

/-- Whether an operation only writes an aspect's series catalog. -/
def IndexOp.OfSeries (aspect : AspectName) (op : IndexOp) : Prop :=
  (∃ id key, op = .registerSeries aspect id key) ∨ ∃ next, op = .seedSeries aspect next

theorem resolveSeriesKey_ofSeries (db : IndexDb) (aspect : AspectName) (key : SeriesKey) :
    ∀ op ∈ (resolveSeriesKey db aspect key).2, op.OfSeries aspect := by
  intro op member
  unfold resolveSeriesKey at member
  split at member
  · cases member
  · rcases List.mem_cons.mp member with rfl | member
    · exact .inl ⟨_, _, rfl⟩
    · rcases List.mem_singleton.mp member with rfl
      exact .inr ⟨_, rfl⟩

theorem commitSeriesId_ofSeries {catalog : Catalog} {db : IndexDb} {aspect : AspectName}
    {groups : TagSet} {seriesId : Nat} {seriesOps : List IndexOp}
    (resolved : commitSeriesId catalog db aspect groups = .ok (seriesId, seriesOps)) :
    ∀ op ∈ seriesOps, op.OfSeries aspect := by
  unfold commitSeriesId at resolved
  split at resolved
  · cases resolved
    simp
  · split at resolved
    · cases resolved
      simp
    · split at resolved
      · cases resolved
      · injection resolved with pair
        intro op member
        have same : (resolveSeriesKey db aspect groups.seriesKey).2 = seriesOps := by rw [pair]
        rw [← same] at member
        exact resolveSeriesKey_ofSeries db aspect _ op member

/-- The receipt of an ingest whose frames take the given ids. -/
def ingestReceipt (aspect : AspectName) (batch : IngestBatch) (fingerprint : UInt64)
    (ids : List Nat) (seriesId epoch : Nat) : IngestReceipt where
  aspect := aspect
  key := batch.key
  fingerprint := fingerprint
  rowCount := batch.timestamps.length
  minTs := batch.span.map Prod.fst
  maxTs := batch.span.map Prod.snd
  segmentIds := ids
  seriesIds := [seriesId]
  commitEpoch := epoch
  duplicate := false

/-- The ledger row which records a receipt. -/
def ledgerEntryOf (receipt : IngestReceipt) (createdMs : Int) : LedgerEntry where
  aspect := receipt.aspect
  key := receipt.key
  fingerprint := receipt.fingerprint
  rowCount := receipt.rowCount
  minTs := receipt.minTs
  maxTs := receipt.maxTs
  idLo := receipt.segmentIds.head?
  idHi := receipt.segmentIds.getLast?
  receipt := receipt
  seriesIds := receipt.seriesIds
  commitEpoch := receipt.commitEpoch
  createdMs := createdMs

/-- The operations of an ingest whose frames take the given ids. -/
def ingestOps (db : IndexDb) (aspect : AspectName) (state : AspectState)
    (seriesOps : List IndexOp) (seriesId : Nat) (written : List WrittenSegment) (ids : List Nat)
    (receipt : IngestReceipt) (createdMs : Int) : List IndexOp :=
  let epoch := receipt.commitEpoch
  let rollup := (written.zip ids).foldl
    (fun rollup (frame, id) => rollup.folded (frame.descWith id)) ((db.rollup aspect).getD {})
  let maxGen := written.foldl (fun gen frame => max gen frame.gen) 0
  seriesOps ++
    (written.zip ids).map (fun (frame, id) => .insertNew aspect (frame.row id epoch seriesId)) ++
    [ seqBump aspect state (maxGen + 1) epoch,
      .putRollup aspect rollup,
      .recordIngest (ledgerEntryOf receipt createdMs),
      .recordChange ⟨aspect, epoch, receipt.minTs, receipt.maxTs, receipt.rowCount⟩ ]

/-- What an ingest does once it holds the commit lock. -/
inductive IngestDecision
  /-- The key is recorded with this fingerprint. -/
  | replay (receipt : IngestReceipt)
  /-- Commit the transaction and return the receipt. -/
  | publish (publication : Publication) (receipt : IngestReceipt)
  deriving DecidableEq

/-- The ledger checked again under the lock, and the transaction of a new batch. -/
def publishIngest (catalog : Catalog) (db : IndexDb) (aspect : AspectName) (state : AspectState)
    (batch : IngestBatch) (fingerprint : UInt64) (written : List WrittenSegment)
    (createdMs : Int) : AspectState × Except StoreError IngestDecision :=
  match checkLedger db aspect batch.key fingerprint with
  | .error refused => (state, .error refused)
  | .ok (some receipt) => (state, .ok (.replay receipt))
  | .ok none =>
      match commitSeriesId catalog db aspect batch.groups with
      | .error refused => (state, .error refused)
      | .ok (seriesId, seriesOps) =>
          let epoch := state.epoch + 1
          match state.allocateMany written.length with
          | (state, none) => (state, .error .fault)
          | (state, some ids) =>
              let receipt := ingestReceipt aspect batch fingerprint ids seriesId epoch
              (state, .ok (.publish
                { epoch := some epoch
                  ops := ingestOps db aspect state seriesOps seriesId written ids receipt
                    createdMs }
                receipt))

end WeftDb
