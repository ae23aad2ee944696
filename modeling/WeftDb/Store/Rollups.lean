import WeftDb.Store.Sequencing
import WeftDb.Store.SwapEffect

/-!
# The stored rollup of an aspect

A seal or an ingest folds its segments into the rollup it reads, a swap derives the rollup from
the rows it leaves, and a recovery pass rebuilds the rollup of every aspect it changed.  Whichever
of them commits under an aspect's lock leaves the aspect's rollup exact, or will rebuild it.
-/

namespace WeftDb

namespace AspectMetadata

theorem folded_fromIndex (descriptors : List SegmentDescriptor)
    (descriptor : SegmentDescriptor) :
    (fromIndex ⟨descriptors⟩).folded descriptor = fromIndex ⟨descriptors ++ [descriptor]⟩ := by
  have time : SegmentIndex.timeRange ⟨descriptors ++ [descriptor]⟩ =
      Hull.join (SegmentIndex.timeRange ⟨descriptors⟩) descriptor.timeRange := by
    simp only [SegmentIndex.timeRange_eq_hull, Hull.ofList, List.map_append, List.foldl_append]
    rfl
  have value : valueSpan (descriptors ++ [descriptor]) =
      Hull.join (valueSpan descriptors) descriptor.valueRange := by
    simp only [valueSpan_eq_hull, Hull.ofList, List.map_append, List.foldl_append]
    rfl
  ext1
  · simp [folded, fromIndex]
  · simp [folded, fromIndex, SegmentIndex.totalRows]
  · simp [folded, fromIndex]
  · simp [folded, fromIndex, SegmentIndex.totalBytes]
  · cases sorted : descriptor.timeSorted <;>
      simp [folded, fromIndex, SegmentIndex.unsortedCount, sorted]
  · simp only [folded, fromIndex, time]
    cases descriptor.timeRange <;> cases SegmentIndex.timeRange ⟨descriptors⟩ <;> rfl
  · simp only [folded, fromIndex, value, SegmentDescriptor.valueRange]
    cases descriptor.minValue <;> cases descriptor.maxValue <;> cases valueSpan descriptors <;> rfl

theorem foldl_folded (descriptors added : List SegmentDescriptor) :
    added.foldl folded (fromIndex ⟨descriptors⟩) = fromIndex ⟨descriptors ++ added⟩ := by
  induction added generalizing descriptors with
  | nil => simp
  | cons descriptor added ih => rw [List.foldl_cons, folded_fromIndex, ih, List.append_assoc,
      List.singleton_append]

theorem folded_eq_fromIndex {descriptors index : List SegmentDescriptor}
    {descriptor : SegmentDescriptor} (same : index.Perm (descriptor :: descriptors)) :
    (fromIndex ⟨descriptors⟩).folded descriptor = fromIndex ⟨index⟩ := by
  rw [folded_fromIndex]
  exact fromIndex_perm ((List.perm_append_singleton _ _).trans same.symm)

end AspectMetadata

/-- Whether an operation leaves the rows and the rollup of an aspect alone. -/
def IndexOp.Sparing (aspect : AspectName) (op : IndexOp) : Prop :=
  (∀ rows, op.onStored aspect rows = rows) ∧ ∀ rollup, op.onRollup aspect rollup = rollup

variable {aspect own : AspectName} {ops : List IndexOp}

theorem IndexOp.Within.sparing {op : IndexOp} (within : op.Within own) (different : aspect ≠ own) :
    op.Sparing aspect :=
  ⟨IndexDb.onStored_of_within within different.symm,
    IndexDb.onRollup_of_within within different.symm⟩

theorem ofSeries_sparing {op : IndexOp} (series : op.OfSeries own) (aspect : AspectName) :
    op.Sparing aspect := by
  rcases series with ⟨id, key, rfl⟩ | ⟨next, rfl⟩ <;> exact ⟨fun _ => rfl, fun _ => rfl⟩

namespace IndexDb

variable {db like after : IndexDb} {ops : List IndexOp} {aspect : AspectName}

/-- Whether the stored rollup of an aspect is the one which its rows derive.  No stored rollup is
the rollup of no rows. -/
def RollupExact (db : IndexDb) (aspect : AspectName) : Prop :=
  (db.rollup aspect).getD {} = .fromIndex (db.index aspect)

instance (db : IndexDb) (aspect : AspectName) : Decidable (db.RollupExact aspect) :=
  inferInstanceAs (Decidable (_ = _))

/-- Two indexes with the same rows and the same rollup of an aspect. -/
structure Alike (db like : IndexDb) (aspect : AspectName) : Prop where
  stored : like.stored aspect = db.stored aspect
  rollup : like.rollup aspect = db.rollup aspect

theorem Alike.refl (db : IndexDb) (aspect : AspectName) : db.Alike db aspect :=
  ⟨rfl, rfl⟩

theorem Alike.trans (first : db.Alike like aspect) (second : like.Alike after aspect) :
    db.Alike after aspect :=
  ⟨second.stored.trans first.stored, second.rollup.trans first.rollup⟩

theorem fromIndex_index (db : IndexDb) (aspect : AspectName) :
    AspectMetadata.fromIndex (db.index aspect) =
      .fromIndex ⟨(db.stored aspect).map (·.desc)⟩ :=
  AspectMetadata.fromIndex_perm ((List.perm_insertionSort _ _).map _)

theorem Alike.exact (alike : db.Alike like aspect) (exact : db.RollupExact aspect) :
    like.RollupExact aspect := by
  rw [RollupExact, fromIndex_index] at exact ⊢
  rw [alike.stored, alike.rollup, exact]

theorem applyAll_rollup (applied : db.applyAll ops = .ok after) (aspect : AspectName) :
    after.rollup aspect =
      ops.foldl (fun rollup op => op.onRollup aspect rollup) (db.rollup aspect) := by
  induction ops generalizing db with
  | nil =>
      cases applied
      rfl
  | cons op later ih =>
      obtain ⟨middle, first, rest⟩ := applyAll_cons_eq_ok.mp applied
      rw [ih rest, apply_rollup first, List.foldl_cons]

theorem alike_of_applyAll (sparing : ∀ op ∈ ops, op.Sparing aspect)
    (applied : db.applyAll ops = .ok after) : db.Alike after aspect :=
  applyAll_induction (fun next => db.Alike next aspect)
    (fun member alike step => alike.trans
      ⟨(apply_stored step aspect).trans ((sparing _ member).1 _),
        (apply_rollup step aspect).trans ((sparing _ member).2 _)⟩)
    (.refl db aspect) applied

/-- Whether a transaction built from this index leaves the rollup of an aspect exact, whatever
happens to the other aspects before it commits. -/
def Settling (db : IndexDb) (aspect : AspectName) (ops : List IndexOp) : Prop :=
  ∀ like after : IndexDb, db.Alike like aspect → like.applyAll ops = .ok after →
    after.RollupExact aspect

theorem Settling.congr (settling : db.Settling aspect ops) (alike : db.Alike like aspect) :
    like.Settling aspect ops :=
  fun _ _ next applied => settling _ _ (alike.trans next) applied

theorem settling_of_folded (added : List IndexRow) (exact : db.RollupExact aspect)
    (rows : ops.foldl (fun rows op => op.onStored aspect rows) (db.stored aspect) =
      db.stored aspect ++ added)
    (put : ops.foldl (fun rollup op => op.onRollup aspect rollup) (db.rollup aspect) =
      some ((added.map (·.desc)).foldl AspectMetadata.folded ((db.rollup aspect).getD {}))) :
    db.Settling aspect ops := by
  intro like after alike applied
  have stored := applyAll_stored applied aspect
  have rollup := applyAll_rollup applied aspect
  rw [alike.stored, rows] at stored
  rw [alike.rollup, put, exact, fromIndex_index, AspectMetadata.foldl_folded] at rollup
  rw [RollupExact, fromIndex_index, stored, rollup, List.map_append]
  rfl

theorem settling_of_sparing (exact : db.RollupExact aspect)
    (sparing : ∀ op ∈ ops, op.Sparing aspect) : db.Settling aspect ops :=
  fun _ _ alike applied => (alike_of_applyAll sparing applied).exact (alike.exact exact)

end IndexDb

section Transactions

variable {catalog : Catalog} {db : IndexDb} {aspect : AspectName} {state next : AspectState}
  {publication : Publication}
variable {written : List WrittenSegment} {receipt : IngestReceipt} {createdMs : Int}

theorem foldl_onStored_inserts (aspect : AspectName) (added rows : List IndexRow) :
    (added.map (IndexOp.insertNew aspect)).foldl (fun rows op => op.onStored aspect rows) rows =
      rows ++ added := by
  induction added generalizing rows with
  | nil => simp
  | cons row added ih =>
      rw [List.map_cons, List.foldl_cons, ih, IndexOp.onStored, if_pos rfl, List.append_assoc,
        List.singleton_append]

theorem foldl_onRollup_inserts (aspect : AspectName) (added : List IndexRow)
    (rollup : Option AspectMetadata) :
    (added.map (IndexOp.insertNew aspect)).foldl (fun rollup op => op.onRollup aspect rollup)
      rollup = rollup := by
  induction added with
  | nil => rfl
  | cons row added ih => exact ih

theorem foldl_onRollup_eq_self (sparing : ∀ op ∈ ops, op.Sparing aspect)
    (rollup : Option AspectMetadata) :
    ops.foldl (fun rollup op => op.onRollup aspect rollup) rollup = rollup := by
  induction ops with
  | nil => rfl
  | cons op ops ih =>
      obtain ⟨own, others⟩ := List.forall_mem_cons.mp sparing
      rw [List.foldl_cons, own.2, ih others]

theorem publishSeal_settling {frame : WrittenSegment} (exact : db.RollupExact aspect)
    (built : publishSeal db aspect state frame = (next, some publication)) :
    db.Settling aspect publication.ops := by
  unfold publishSeal at built
  split at built
  · cases built
  · rename_i id last allocated
    cases built
    refine IndexDb.settling_of_folded [frame.row id (next.epoch + 1) 0] exact ?_ ?_
    · simp [IndexOp.onStored, seqBump]
    · simp [IndexOp.onRollup, seqBump, WrittenSegment.row]

/-- The rows of an ingest. -/
def ingestRows (seriesId : Nat) (written : List WrittenSegment) (ids : List Nat)
    (receipt : IngestReceipt) : List IndexRow :=
  (written.zip ids).map fun item => item.1.row item.2 receipt.commitEpoch seriesId

theorem ingestOps_eq {seriesOps : List IndexOp} {seriesId : Nat} {ids : List Nat} :
    ingestOps db aspect state seriesOps seriesId written ids receipt createdMs =
      seriesOps ++ (ingestRows seriesId written ids receipt).map (IndexOp.insertNew aspect) ++
        [ seqBump aspect state (written.foldl (fun gen frame => max gen frame.gen) 0 + 1)
            receipt.commitEpoch,
          .putRollup aspect (((ingestRows seriesId written ids receipt).map (·.desc)).foldl
            AspectMetadata.folded ((db.rollup aspect).getD {})),
          .recordIngest (ledgerEntryOf receipt createdMs),
          .recordChange ⟨aspect, receipt.commitEpoch, receipt.minTs, receipt.maxTs,
            receipt.rowCount⟩ ] := by
  rw [ingestRows, List.map_map, List.map_map, List.foldl_map]
  rfl

theorem publishIngest_settling {batch : IngestBatch} {fingerprint : UInt64}
    (exact : db.RollupExact aspect)
    (built : publishIngest catalog db aspect state batch fingerprint written createdMs =
      (next, .ok (.publish publication receipt))) : db.Settling aspect publication.ops := by
  obtain ⟨-, -, -, seriesId, seriesOps, ids, resolved, -, -, -, ops⟩ :=
    publishIngest_eq_publish built
  have series : ∀ op ∈ seriesOps, op.Sparing aspect := fun op member =>
    ofSeries_sparing (commitSeriesId_ofSeries resolved op member) aspect
  rw [ops, ingestOps_eq]
  refine IndexDb.settling_of_folded (ingestRows seriesId written ids receipt) exact ?_ ?_
  · simp only [List.foldl_append, foldl_onStored_eq_self fun op member => (series op member).1,
      foldl_onStored_inserts]
    rfl
  · simp only [List.foldl_append, foldl_onRollup_eq_self series, foldl_onRollup_inserts]
    simp [IndexOp.onRollup, seqBump]

theorem commitPlans_settling {plans : List PreparedPlan}
    (uncut : ∀ plan ∈ plans, plan.keep = true → plan.outputs = []) :
    db.Settling aspect (commitPlans db aspect state plans createdMs).ops := by
  intro like after alike applied
  rw [IndexDb.RollupExact, commitPlans_rollup uncut alike.stored applied]
  rfl

theorem rebuildRollup_settling : db.Settling aspect (rebuildRollup db aspect) := by
  intro like after alike applied
  have stored := IndexDb.applyAll_stored applied aspect
  have rollup := IndexDb.applyAll_rollup applied aspect
  simp only [rebuildRollup, List.foldl_cons, List.foldl_nil, IndexOp.onStored, IndexOp.onRollup,
    if_true] at stored rollup
  rw [IndexDb.RollupExact, IndexDb.fromIndex_index, stored, alike.stored,
    ← IndexDb.fromIndex_index, rollup]
  rfl

end Transactions

/-- The aspects whose rollup a work still has to rebuild. -/
def Work.owed : Work → List AspectName
  | .recovery changed => changed
  | _ => []

/-- The aspects whose rollup a task still has to rebuild once its commit has returned. -/
def Continuation.owed : Continuation → List AspectName
  | .finish _ => []
  | .resume work => work.owed
  | .retain work => work.owed

/-- The aspects whose rollup a task still has to rebuild. -/
def Task.owed (task : Task) : List AspectName :=
  match task.stage with
  | .landed _ _ next => next.owed
  | _ => task.work.owed

/-- A plan which keeps its first member writes no output. -/
def PreparedPlan.Uncut (plan : PreparedPlan) : Prop :=
  plan.keep = true → plan.outputs = []

/-- The plans which are left once a commit has returned. -/
def Continuation.plans : Continuation → List PreparedPlan
  | .finish _ => []
  | .resume work => work.plans
  | .retain work => work.plans

/-- The plans of a task, now and once its commit has returned. -/
def Task.plans (task : Task) : List PreparedPlan :=
  task.work.plans ++
    match task.stage with
    | .committing _ _ next => next.plans
    | .landed _ _ next => next.plans
    | _ => []

namespace Store

/-- Whether a repair under the lock of an aspect puts no row into it unless its pass rebuilds the
aspect's rollup. -/
def Repair.Home (aspect : AspectName) (owed : List AspectName) : Repair → Prop
  | .rebind source _ _ _ _ => aspect = source ∨ aspect ∈ owed
  | _ => True

instance (aspect : AspectName) (owed : List AspectName) (step : Repair) :
    Decidable (step.Home aspect owed) := by
  cases step <;> simp only [Repair.Home] <;> infer_instance

/-- What a commit under an aspect's lock leaves of the rollups of other aspects. -/
structure Carries (aspect : AspectName) (owed : List AspectName) (publication : Publication)
    (next : Continuation) : Prop where
  /-- An aspect whose rows it moves is rebuilt later. -/
  others : ∀ other, other ≠ aspect →
    other ∈ next.owed ∨ ∀ op ∈ publication.ops, op.Sparing other
  /-- No aspect which is to be rebuilt is forgotten. -/
  carried : ∀ other ∈ owed, other ≠ aspect → other ∈ next.owed

/-- What a commit under an aspect's lock leaves of the rollups. -/
structure Rebuilds (db : IndexDb) (aspect : AspectName) (owed : List AspectName)
    (publication : Publication) (next : Continuation) : Prop
    extends Carries aspect owed publication next where
  /-- The rollup of the aspect is exact behind it, or is rebuilt later. -/
  own : db.RollupExact aspect ∨ aspect ∈ owed →
    aspect ∈ next.owed ∨ db.Settling aspect publication.ops

section Prepared

variable {catalog : Catalog} {db : IndexDb} {aspect : AspectName} {state last : AspectState}
  {step : Repair} {createdMs : Int} {work : Work} {publication : Publication}
  {next : Continuation}
variable {crc : Option Nat}

theorem adoptOrphan_within {frame : FrameName} {desc : SegmentDescriptor}
    {seriesKey : Option SeriesKey} {clear : Bool}
    (built : adoptOrphan db aspect state frame desc crc seriesKey clear = (last, some ops)) :
    ∀ op ∈ ops, op.Within aspect := by
  obtain ⟨seriesOps, seriesId, id, series, -, rfl⟩ := adoptOrphan_eq_some built
  intro op member
  simp only [List.mem_append, List.mem_cons, List.not_mem_nil, or_false] at member
  rcases member with (own | rfl | rfl) | cleared
  · exact ofSeries_within (series op own)
  · rfl
  · rfl
  · split at cleared
    · rw [List.mem_singleton.mp cleared]
      trivial
    · cases cleared

theorem rebindRow_sparing {source other : AspectName} {row : IndexRow} {name : FrameName}
    {key : SeriesKey} (built : rebindRow db source row name crc key = some ops)
    (apart : other ≠ source)
    (elsewhere : other ≠ (reboundFromFrame source row name crc).2.2.getD source) :
    ∀ op ∈ ops, op.Sparing other := by
  obtain ⟨seriesOps, rebound, series, rfl⟩ := rebindRow_eq_some built
  intro op member
  rcases List.mem_append.mp member with own | moved
  · exact ofSeries_sparing (series op own) other
  · cases target : (reboundFromFrame source row name crc).2.2 with
    | none =>
        rw [target, moveRow, List.mem_singleton] at moved
        rw [moved]
        exact IndexOp.Within.sparing rfl apart
    | some newAspect =>
        rw [target, Option.getD_some] at elsewhere
        rw [target, moveRow, List.mem_cons, List.mem_singleton] at moved
        rcases moved with rfl | rfl
        · exact IndexOp.Within.sparing rfl apart
        · exact IndexOp.Within.sparing rfl elsewhere

theorem repair_rebuilds {changed : List AspectName} (home : step.Home aspect changed)
    (built : repair db aspect state changed step = (last, some (publication, next))) :
    Rebuilds db aspect changed publication next := by
  cases step with
  | rebuild =>
      cases built
      refine ⟨⟨fun other apart => .inr fun op member => ?_,
        fun other owed apart => List.mem_filter.mpr ⟨owed, decide_eq_true apart⟩⟩,
        fun _ => .inr rebuildRollup_settling⟩
      rw [List.mem_singleton.mp member]
      exact IndexOp.Within.sparing rfl apart
  | adopt name desc crc seriesKey clear =>
      simp only [repair, Prod.mk.injEq] at built
      obtain ⟨ops, adopted, rebuilt⟩ := Option.map_eq_some_iff.mp built.2
      cases rebuilt
      have within := adoptOrphan_within (Prod.ext rfl adopted)
      exact ⟨⟨fun other apart => .inr fun op member => (within op member).sparing apart,
        fun other owed _ => List.mem_cons_of_mem _ owed⟩, fun _ => .inl List.mem_cons_self⟩
  | rebind source row name crc seriesKey =>
      simp only [repair] at built
      split at built
      · rename_i target
        obtain ⟨ops, rebound, rebuilt⟩ := Option.map_eq_some_iff.mp (Prod.mk.inj built).2
        cases rebuilt
        refine ⟨⟨fun other apart => ?_, fun other owed _ => List.mem_cons_of_mem _ owed⟩,
          fun _ => .inl ?_⟩
        · by_cases same : other = source
          · exact .inl (same ▸ List.mem_cons_self)
          · exact .inr (rebindRow_sparing rebound same (target.2.symm ▸ apart))
        · rcases home with rfl | owed
          · exact List.mem_cons_self
          · exact List.mem_cons_of_mem _ owed
      · cases built

theorem rebuilds_of_within (within : ∀ op ∈ publication.ops, op.Within aspect)
    (settling : db.RollupExact aspect → db.Settling aspect publication.ops) :
    Rebuilds db aspect [] publication next where
  own start := .inr (settling (start.resolve_right List.not_mem_nil))
  others _ apart := .inr fun op member => (within op member).sparing apart
  carried _ owed := absurd owed List.not_mem_nil

theorem prepared_rebuilds (uncut : ∀ plan ∈ work.plans, plan.Uncut)
    (home : step.Home aspect work.owed)
    (built : prepared catalog db aspect state step createdMs work =
      some (last, .commit publication next)) : Rebuilds db aspect work.owed publication next := by
  unfold prepared at built
  split at built
  · split at built
    · rename_i published
      cases built
      exact rebuilds_of_within (publishSeal_builds published).within
        fun exact => publishSeal_settling exact published
    · cases built
  · split at built
    · rename_i published
      cases built
      refine rebuilds_of_within ?_ fun exact => publishIngest_settling exact published
      obtain ⟨-, -, -, _, _, _, resolved, -, rfl, -, ops⟩ :=
        publishIngest_eq_publish published
      intro op member
      rw [ops] at member
      rcases mem_ingestOps member with own | ⟨_, _, _, rfl⟩ | ⟨_, rfl⟩ | ⟨_, rfl⟩ | rfl | rfl
      · exact ofSeries_within (commitSeriesId_ofSeries resolved op own)
      all_goals rfl
    all_goals cases built
  · cases built
    refine rebuilds_of_within journalOutputs_builds.within fun exact =>
      IndexDb.settling_of_sparing exact fun op member => ?_
    rcases mem_journalOutputs member with ⟨_, rfl⟩ | ⟨_, rfl⟩ <;>
      exact ⟨fun _ => rfl, fun _ => rfl⟩
  · rename_i own plans attempt later
    cases built
    refine rebuilds_of_within (fun op member => ?_) fun _ =>
      commitPlans_settling fun plan member => uncut plan (by simp [Work.plans, member])
    rcases mem_commitPlans member with swap | ⟨_, rfl⟩ | ⟨_, rfl⟩
    · exact (swapOp_plain swap).1
    · rfl
    · rfl
  · rename_i changed
    split at built
    · rename_i repaired
      cases built
      exact repair_rebuilds home repaired
    · cases built
  · cases built

theorem prepared_plans (built : prepared catalog db aspect state step createdMs work =
    some (last, .commit publication next)) : ∀ plan ∈ next.plans, plan ∈ work.plans := by
  unfold prepared at built
  split at built
  · split at built <;> cases built
    simp [Continuation.plans]
  · split at built <;> cases built
    simp [Continuation.plans]
  · cases built
    exact fun plan member => member
  · rename_i own plans attempt later
    cases built
    intro plan member
    split at member
    · cases member
    · simp only [Continuation.plans, Work.plans, List.flatten_cons, List.mem_append] at member ⊢
      tauto
  · rename_i changed
    split at built
    · rename_i repaired
      cases built
      cases step with
      | rebuild =>
          cases repaired
          simp [Continuation.plans, Work.plans]
      | adopt name desc crc seriesKey clear =>
          simp only [repair, Prod.mk.injEq] at repaired
          obtain ⟨ops, -, rebuilt⟩ := Option.map_eq_some_iff.mp repaired.2
          cases rebuilt
          simp [Continuation.plans, Work.plans]
      | rebind source row name crc seriesKey =>
          simp only [repair] at repaired
          split at repaired
          · obtain ⟨ops, -, rebuilt⟩ := Option.map_eq_some_iff.mp (Prod.mk.inj repaired).2
            cases rebuilt
            simp [Continuation.plans, Work.plans]
          · cases repaired
    · cases built
  · cases built

theorem owed_of_answer {result : Except StoreError IngestReceipt}
    {unlinked : List WrittenSegment}
    (built : prepared catalog db aspect state step createdMs work =
      some (last, .answer result unlinked)) : work.owed = [] := by
  unfold prepared at built
  split at built
  · rfl
  · rfl
  · rfl
  · rfl
  · split at built <;> cases built
  · cases built

end Prepared

variable {work : Work}

theorem start_uncut {db : IndexDb} {request : Request} (started : start db request = some work) :
    ∀ plan ∈ work.plans, plan.Uncut := by
  rcases request with ⟨aspect, chunk⟩ | ⟨aspect, batch⟩ | ⟨aspect, plans⟩ | _
  · cases started
    simp [Work.plans]
  · cases started
    simp [Work.plans]
  · simp only [start] at started
    split at started
    · obtain ⟨prepared, all, rfl⟩ := Option.map_eq_some_iff.mp started
      intro plan member
      obtain ⟨asked, -, built⟩ := List.mem_map.mp (mem_of_allSome all plan member)
      exact fun _ => (preparePlan_spec built).2.2.1
    · cases started
  · cases started
    simp [Work.plans]

theorem namePlans_uncut {gen : Nat} {plans named : List PreparedPlan} {outputs : List (List Chunk)}
    (names : namePlans aspect gen plans outputs = some named) : ∀ plan ∈ named, plan.Uncut := by
  intro plan member keep
  obtain ⟨old, -, first, chunks, kept, rfl⟩ := namePlans_spec names plan member
  have empty : chunks = [] := List.isEmpty_iff.mp (kept.symm.trans keep)
  subst empty
  rfl

theorem retried_owed {kind : TxnErrorKind} {again : Work} (retry : retried kind work = some again) :
    work.owed = [] ∧ again.owed = [] := by
  unfold retried at retry
  split at retry
  · split at retry
    · cases retry
      exact ⟨rfl, rfl⟩
    · cases retry
  · cases retry
    exact ⟨rfl, rfl⟩
  · cases retry

/-- A recovery step outside the lock spares every aspect but the one it will rebuild. -/
theorem recoveryOps_sparing {db : IndexDb} {step : RecoveryStep} {changedAspect : Option AspectName}
    (built : recoveryOps db step = some (ops, changedAspect))
    (apart : changedAspect ≠ some aspect) : ∀ op ∈ ops, op.Sparing aspect := by
  have elsewhere : ∀ {own : AspectName}, changedAspect = some own → aspect ≠ own := by
    rintro own changed rfl
    exact apart changed
  intro op member
  cases step with
  | quarantineRow own row quarantineClass reason now =>
      simp only [recoveryOps] at built
      split at built
      · obtain ⟨name, -, quarantined⟩ := Option.map_eq_some_iff.mp built
        cases quarantined
        rw [quarantineRow, List.mem_cons, List.mem_singleton] at member
        rcases member with rfl | rfl
        · exact ⟨fun _ => rfl, fun _ => rfl⟩
        · exact IndexOp.Within.sparing rfl (elsewhere rfl)
      · cases built
  | quarantineOrphan name quarantineClass reason now clear =>
      obtain ⟨quarantined, filed, built⟩ := Option.map_eq_some_iff.mp built
      cases built
      obtain ⟨identity, -, rfl⟩ := Option.map_eq_some_iff.mp filed
      rcases List.mem_cons.mp member with rfl | cleared
      · exact ⟨fun _ => rfl, fun _ => rfl⟩
      · split at cleared
        · rw [List.mem_singleton.mp cleared]
          exact ⟨fun _ => rfl, fun _ => rfl⟩
        · cases cleared
  | release record =>
      simp only [recoveryOps] at built
      split at built
      · obtain ⟨released, filed, built⟩ := Option.map_eq_some_iff.mp built
        cases built
        obtain ⟨row, -, rfl⟩ := Option.map_eq_some_iff.mp filed
        rw [List.mem_cons, List.mem_singleton] at member
        rcases member with rfl | rfl
        · exact ⟨fun _ => rfl, fun _ => rfl⟩
        · exact IndexOp.Within.sparing rfl (elsewhere rfl)
      · cases built
  | purge record =>
      simp only [recoveryOps] at built
      split at built
      · cases built
        rw [List.mem_singleton.mp member]
        exact ⟨fun _ => rfl, fun _ => rfl⟩
      · cases built
  | rebind own row name crc seriesKey =>
      simp only [recoveryOps] at built
      split at built
      · rename_i stays
        obtain ⟨rebound, filed, built⟩ := Option.map_eq_some_iff.mp built
        cases built
        refine rebindRow_sparing filed (elsewhere rfl) ?_ op member
        rw [stays.2.1, Option.getD_none]
        exact elsewhere rfl
      · cases built
  | journalHeld own name now =>
      cases built
      rw [List.mem_singleton.mp member]
      exact ⟨fun _ => rfl, fun _ => rfl⟩
  | seedSeries own nextSeriesId =>
      cases built
      rw [List.mem_singleton.mp member]
      exact ⟨fun _ => rfl, fun _ => rfl⟩

theorem owed_of_guarded {step : Repair} (guarded : step.guarded work = true) :
    step ≠ .rebuild ∨ work.owed = [] := by
  cases work with
  | recovery changed => exact .inl (of_decide_eq_true guarded)
  | _ => exact .inr rfl

end Store

end WeftDb
