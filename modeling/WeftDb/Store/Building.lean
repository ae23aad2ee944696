import WeftDb.Index.Applicability
import WeftDb.Store.System

/-!
# Transactions built under a commit lock

Whoever builds a transaction under an aspect's lock writes within the aspect, raises its counters
to those of the allocator, and advances its epoch by one or not at all.  A seal's or an ingest's
transaction inserts under keys which are free, so it cannot be refused.
-/

namespace WeftDb

namespace Publication

/-- The change rows which a transaction records. -/
def changed (publication : Publication) : List SegmentChange :=
  publication.ops.flatMap (·.changed)

end Publication

/-- The rows of an aspect stay below its persisted counters. -/
structure Bounded (db : IndexDb) (aspect : AspectName) : Prop where
  ids : ∀ row ∈ db.stored aspect, row.desc.id < db.nextIdOf aspect
  epochs : ∀ change ∈ db.changes, change.aspect = aspect →
    0 < change.epoch ∧ change.epoch ≤ db.epochOf aspect
  series : ∀ entry ∈ db.series, entry.aspect = aspect → entry.id < db.nextSeriesId aspect

/-- A transaction is built from an aspect's allocator, under the aspect's lock. -/
structure Builds (aspect : AspectName) (state : AspectState) (publication : Publication) :
    Prop where
  within : ∀ op ∈ publication.ops, op.Within aspect
  epoch : publication.epoch = none ∨ publication.epoch = some (state.epoch + 1)
  bump : ∃ nextGen,
    seqBump aspect state nextGen (publication.epoch.getD state.epoch) ∈ publication.ops
  bumped : ∀ op ∈ publication.ops,
    op.bumpedEpoch aspect ≤ publication.epoch.getD state.epoch
  raised : ∀ op ∈ publication.ops, op.bumpedId aspect ≤ state.nextId
  puts : ∀ op ∈ publication.ops, ∀ row, (aspect, row) ∈ op.puts → row.desc.id < state.nextId
  changed : ∀ change ∈ publication.changed,
    change.aspect = aspect ∧ publication.epoch = some change.epoch
  keeps : ∀ op ∈ publication.ops, ∀ change, ¬op.forgets change
  registered : ∀ op ∈ publication.ops, ∀ entry ∈ op.registers, ∃ next,
    entry.id < next ∧ .seedSeries aspect next ∈ publication.ops

/-- A transaction publishes new rows and cannot be refused. -/
structure Admitted (db : IndexDb) (aspect : AspectName) (publication : Publication) : Prop where
  free : ∀ op ∈ publication.ops, op.Free db
  independent : publication.ops.Pairwise IndexOp.Independent
  recorded : ∃ change, publication.changed = [change]

section Builders

variable {catalog : Catalog} {db : IndexDb} {aspect : AspectName} {state next : AspectState}
  {publication : Publication}
variable {key : SeriesKey} {seriesOps : List IndexOp} {seriesId : Nat} {frame : WrittenSegment}
  {written : List WrittenSegment} {receipt : IngestReceipt} {batch : IngestBatch} {createdMs : Int}
  {fingerprint : UInt64} {op : IndexOp} {ids : List Nat} {plan : PreparedPlan}

theorem seriesIdFor_eq_none (unknown : db.seriesIdFor aspect key = none) :
    key ≠ "" ∧ ∀ entry ∈ db.series, entry.aspect = aspect → entry.key ≠ key := by
  unfold IndexDb.seriesIdFor at unknown
  split at unknown
  · cases unknown
  · rename_i nonempty
    refine ⟨nonempty, fun entry member own same => ?_⟩
    rw [Option.map_eq_none_iff, KeyedTable.find?_eq_none] at unknown
    exact unknown entry member (Prod.ext own same)

theorem nextSeriesId_pos (db : IndexDb) (aspect : AspectName) : 0 < db.nextSeriesId aspect := by
  unfold IndexDb.nextSeriesId
  omega

theorem resolveSeriesKey_cases (db : IndexDb) (aspect : AspectName) (key : SeriesKey) :
    (resolveSeriesKey db aspect key).2 = [] ∨ db.seriesIdFor aspect key = none ∧
      (resolveSeriesKey db aspect key).2 =
        [.registerSeries aspect (db.nextSeriesId aspect) key,
          .seedSeries aspect (db.nextSeriesId aspect + 1)] := by
  unfold resolveSeriesKey
  cases found : db.seriesIdFor aspect key with
  | some id => exact .inl rfl
  | none => exact .inr ⟨rfl, rfl⟩

theorem commitSeriesId_cases {groups : TagSet}
    (resolved : commitSeriesId catalog db aspect groups = .ok (seriesId, seriesOps)) :
    seriesOps = [] ∨ ∃ key, db.seriesIdFor aspect key = none ∧
      seriesOps = [.registerSeries aspect (db.nextSeriesId aspect) key,
        .seedSeries aspect (db.nextSeriesId aspect + 1)] := by
  unfold commitSeriesId at resolved
  split at resolved
  · cases resolved
    exact .inl rfl
  · split at resolved
    · cases resolved
      exact .inl rfl
    · split at resolved
      · cases resolved
      · injection resolved with pair
        have same : (resolveSeriesKey db aspect groups.seriesKey).2 = seriesOps := by rw [pair]
        rw [← same]
        rcases resolveSeriesKey_cases db aspect groups.seriesKey with none | ⟨unknown, ops⟩
        · exact .inl none
        · exact .inr ⟨_, unknown, ops⟩

theorem registerSeries_free (bounded : Bounded db aspect)
    (unknown : db.seriesIdFor aspect key = none) :
    (IndexOp.registerSeries aspect (db.nextSeriesId aspect) key).Free db := by
  obtain ⟨nonempty, unused⟩ := seriesIdFor_eq_none unknown
  refine ⟨Nat.ne_of_gt (nextSeriesId_pos db aspect), nonempty, fun entry member own => ?_⟩
  exact ⟨Nat.ne_of_lt (bounded.series entry member own), unused entry member own⟩

theorem recordChange_free {change : SegmentChange} (bounded : Bounded db aspect)
    (own : change.aspect = aspect) (later : db.epochOf aspect < change.epoch) :
    (IndexOp.recordChange change).Free db := by
  intro other member same
  have bound := (bounded.epochs other member (same.trans own)).2
  omega

theorem publishSeal_builds (built : publishSeal db aspect state frame = (next, some publication)) :
    Builds aspect next publication := by
  unfold publishSeal at built
  split at built
  · cases built
  · rename_i id last allocated
    cases built
    obtain ⟨id_eq, next_id, next_epoch⟩ := AspectState.allocate_eq_some allocated
    constructor
    · simp [IndexOp.Within, seqBump]
    · exact .inr rfl
    · exact ⟨frame.gen + 1, by simp⟩
    · simp [IndexOp.bumpedEpoch, seqBump]
    · simp [IndexOp.bumpedId, seqBump]
    · simp [IndexOp.puts, seqBump]
      omega
    · simp [Publication.changed, IndexOp.changed, seqBump]
    · simp [IndexOp.forgets, seqBump]
    · simp [IndexOp.registers, seqBump]

theorem publishSeal_admitted (bounded : Bounded db aspect) (ids : db.nextIdOf aspect ≤ state.nextId)
    (epochs : state.epoch = db.epochOf aspect)
    (built : publishSeal db aspect state frame = (next, some publication)) :
    Admitted db aspect publication := by
  unfold publishSeal at built
  split at built
  · cases built
  · rename_i id last allocated
    cases built
    obtain ⟨id_eq, next_id, next_epoch⟩ := AspectState.allocate_eq_some allocated
    constructor
    · simp only [List.forall_mem_cons, List.not_mem_nil, false_imp_iff, implies_true, and_true]
      refine ⟨fun other member => ?_, trivial, trivial, recordChange_free bounded rfl ?_⟩
      · have bound := bounded.ids other member
        simp only [WrittenSegment.row_id]
        omega
      · simp only
        omega
    · simp [IndexOp.Independent, seqBump]
    · exact ⟨_, rfl⟩

theorem publishIngest_eq_publish
    (built : publishIngest catalog db aspect state batch fingerprint written createdMs =
      (next, .ok (.publish publication receipt))) :
    db.ledgerEntry aspect batch.key = none ∧ next.epoch = state.epoch ∧
      next.nextId = state.nextId + written.length ∧
      ∃ seriesId seriesOps ids, commitSeriesId catalog db aspect batch.groups =
          .ok (seriesId, seriesOps) ∧
        ids = (List.range written.length).map (state.nextId + ·) ∧
        receipt = ingestReceipt aspect batch fingerprint ids seriesId (state.epoch + 1) ∧
        publication.epoch = some (state.epoch + 1) ∧
        publication.ops = ingestOps db aspect next seriesOps seriesId written ids receipt
          createdMs := by
  unfold publishIngest at built
  split at built
  · cases built
  · cases built
  · rename_i fresh
    refine ⟨checkLedger_new.mp fresh, ?_⟩
    split at built
    · cases built
    · rename_i seriesId seriesOps resolved
      simp only at built
      split at built
      · cases built
      · rename_i last ids allocated
        have handed : (state.allocateMany written.length).2 = some ids := by rw [allocated]
        obtain ⟨ids_eq, next_id⟩ := AspectState.allocateMany_ids handed
        have next_epoch := AspectState.allocateMany_epoch state written.length
        rw [allocated] at next_id next_epoch
        cases built
        exact ⟨next_epoch, next_id, seriesId, seriesOps, ids, resolved, ids_eq, rfl, rfl, rfl⟩

theorem mem_ingestOps
    (member : op ∈ ingestOps db aspect state seriesOps seriesId written ids receipt createdMs) :
    op ∈ seriesOps ∨
      (∃ (frame : WrittenSegment) (id : Nat), (frame ∈ written ∧ id ∈ ids) ∧
        op = .insertNew aspect (frame.row id receipt.commitEpoch seriesId)) ∨
      (∃ nextGen, op = seqBump aspect state nextGen receipt.commitEpoch) ∨
      (∃ rollup, op = .putRollup aspect rollup) ∨
      op = .recordIngest (ledgerEntryOf receipt createdMs) ∨
      op = .recordChange
        ⟨aspect, receipt.commitEpoch, receipt.minTs, receipt.maxTs, receipt.rowCount⟩ := by
  simp only [ingestOps, List.mem_append, List.mem_map, List.mem_cons, List.not_mem_nil,
    or_false] at member
  rcases member with (series | ⟨⟨frame, id⟩, zipped, rfl⟩) | bump | rollup | ingest | change
  · exact .inl series
  · exact .inr (.inl ⟨frame, id, List.of_mem_zip zipped, rfl⟩)
  · exact .inr (.inr (.inl ⟨_, bump⟩))
  · exact .inr (.inr (.inr (.inl ⟨_, rollup⟩)))
  · exact .inr (.inr (.inr (.inr (.inl ingest))))
  · exact .inr (.inr (.inr (.inr (.inr change))))

theorem ofSeries_within (series : op.OfSeries aspect) : op.Within aspect := by
  rcases series with ⟨id, key, rfl⟩ | ⟨next, rfl⟩ <;> rfl

theorem ofSeries_plain (series : op.OfSeries aspect) :
    op.bumpedEpoch aspect = 0 ∧ op.puts = [] ∧ op.changed = [] ∧
      ∀ change, ¬op.forgets change := by
  rcases series with ⟨id, key, rfl⟩ | ⟨next, rfl⟩ <;>
    exact ⟨rfl, rfl, rfl, fun _ forgotten => forgotten.elim⟩

theorem ingestOps_changed (series : ∀ op ∈ seriesOps, op.OfSeries aspect) :
    (ingestOps db aspect state seriesOps seriesId written ids receipt createdMs).flatMap
        (·.changed) =
      [⟨aspect, receipt.commitEpoch, receipt.minTs, receipt.maxTs, receipt.rowCount⟩] := by
  have series_changed : seriesOps.flatMap (·.changed) = [] :=
    List.flatMap_eq_nil_iff.mpr fun op member => (ofSeries_plain (series op member)).2.2.1
  have rows_changed : ((written.zip ids).map fun pair => IndexOp.insertNew aspect
      (pair.1.row pair.2 receipt.commitEpoch seriesId)).flatMap (·.changed) = [] := by
    rw [List.flatMap_eq_nil_iff]
    intro op member
    obtain ⟨_, _, rfl⟩ := List.mem_map.mp member
    rfl
  rw [ingestOps, List.flatMap_append, List.flatMap_append, series_changed]
  exact congrArg (· ++ _) rows_changed

theorem publishIngest_builds (framed : written ≠ [])
    (built : publishIngest catalog db aspect state batch fingerprint written createdMs =
      (next, .ok (.publish publication receipt))) : Builds aspect next publication := by
  obtain ⟨free, next_epoch, next_id, seriesId, seriesOps, ids, resolved, ids_eq, rfl, epoch,
    ops⟩ := publishIngest_eq_publish built
  have series := commitSeriesId_ofSeries resolved
  constructor
  · intro op member
    rw [ops] at member
    rcases mem_ingestOps member with own | ⟨_, _, _, rfl⟩ | ⟨_, rfl⟩ | ⟨_, rfl⟩ | rfl | rfl
    · exact ofSeries_within (series op own)
    all_goals rfl
  · rw [epoch, next_epoch]
    exact .inr rfl
  · rw [epoch, ops]
    exact ⟨_, List.mem_append_right _ List.mem_cons_self⟩
  · intro op member
    rw [ops] at member
    rw [epoch]
    rcases mem_ingestOps member with own | ⟨_, _, _, rfl⟩ | ⟨_, rfl⟩ | ⟨_, rfl⟩ | rfl | rfl
    · rw [(ofSeries_plain (series op own)).1]
      exact Nat.zero_le _
    all_goals simp [IndexOp.bumpedEpoch, seqBump, ingestReceipt]
  · intro op member
    have positive : 0 < written.length := List.length_pos_of_ne_nil framed
    rw [ops] at member
    rcases mem_ingestOps member with own | ⟨_, _, _, rfl⟩ | ⟨_, rfl⟩ | ⟨_, rfl⟩ | rfl | rfl
    · rcases series op own with ⟨_, _, rfl⟩ | ⟨_, rfl⟩ <;>
        simp only [IndexOp.bumpedId, if_true] <;> omega
    all_goals simp [IndexOp.bumpedId, seqBump]
  · intro op member row put
    rw [ops] at member
    rcases mem_ingestOps member with own | ⟨_, _, ⟨-, id_mem⟩, rfl⟩ | ⟨_, rfl⟩ | ⟨_, rfl⟩ | rfl |
      rfl
    · rw [(ofSeries_plain (series op own)).2.1] at put
      cases put
    · simp only [IndexOp.puts, List.mem_singleton, Prod.mk.injEq, true_and] at put
      subst put
      rw [ids_eq, List.mem_map] at id_mem
      obtain ⟨offset, offset_mem, rfl⟩ := id_mem
      rw [List.mem_range] at offset_mem
      simp only [WrittenSegment.row_id]
      omega
    all_goals cases put
  · intro change member
    rw [Publication.changed, ops, ingestOps_changed series, List.mem_singleton] at member
    rw [member, epoch]
    exact ⟨rfl, rfl⟩
  · intro op member change
    rw [ops] at member
    rcases mem_ingestOps member with own | ⟨_, _, _, rfl⟩ | ⟨_, rfl⟩ | ⟨_, rfl⟩ | rfl | rfl
    · exact (ofSeries_plain (series op own)).2.2.2 change
    all_goals exact fun forgotten => forgotten.elim
  · intro op member entry registered
    rw [ops] at member ⊢
    rcases mem_ingestOps member with own | ⟨_, _, _, rfl⟩ | ⟨_, rfl⟩ | ⟨_, rfl⟩ | rfl | rfl
    · rcases commitSeriesId_cases resolved with rfl | ⟨key, _, rfl⟩
      · cases own
      · refine ⟨db.nextSeriesId aspect + 1, ?_, ?_⟩
        · rcases List.mem_cons.mp own with rfl | own
          · rw [IndexOp.registers, List.mem_singleton] at registered
            rw [registered]
            exact Nat.lt_succ_self _
          · rw [List.mem_singleton.mp own] at registered
            cases registered
        · exact List.mem_append_left _ (List.mem_append_left _ (by simp))
    all_goals cases registered

theorem inserts_independent (aspect : AspectName) (epoch seriesId : Nat) (distinct : ids.Nodup) :
    ((written.zip ids).map fun (frame, id) =>
      IndexOp.insertNew aspect (frame.row id epoch seriesId)).Pairwise IndexOp.Independent := by
  induction written generalizing ids with
  | nil => simp
  | cons frame written ih =>
      cases ids with
      | nil => simp
      | cons id ids =>
          obtain ⟨fresh, distinct⟩ := List.nodup_cons.mp distinct
          refine List.pairwise_cons.mpr ⟨?_, ih distinct⟩
          intro op member
          obtain ⟨⟨other, other_id⟩, zipped, rfl⟩ := List.mem_map.mp member
          intro _ same
          simp only [WrittenSegment.row_id] at same
          rw [same] at fresh
          exact fresh (List.of_mem_zip zipped).2

theorem publishIngest_admitted (bounded : Bounded db aspect)
    (ids_le : db.nextIdOf aspect ≤ state.nextId) (epochs : state.epoch = db.epochOf aspect)
    (built : publishIngest catalog db aspect state batch fingerprint written createdMs =
      (next, .ok (.publish publication receipt))) : Admitted db aspect publication := by
  obtain ⟨free, next_epoch, next_id, seriesId, seriesOps, ids, resolved, ids_eq, rfl, epoch,
    ops⟩ := publishIngest_eq_publish built
  have series := commitSeriesId_ofSeries resolved
  have distinct : ids.Nodup := by
    rw [ids_eq]
    exact List.nodup_range.map fun one two same => Nat.add_left_cancel same
  constructor
  · intro op member
    rw [ops] at member
    rcases mem_ingestOps member with own | ⟨_, _, ⟨-, id_mem⟩, rfl⟩ | ⟨_, rfl⟩ | ⟨_, rfl⟩ | rfl |
      rfl
    · rcases commitSeriesId_cases resolved with rfl | ⟨key, unknown, rfl⟩
      · cases own
      · rcases List.mem_cons.mp own with rfl | own
        · exact registerSeries_free bounded unknown
        · rw [List.mem_singleton.mp own]
          trivial
    · intro other other_mem
      have bound := bounded.ids other other_mem
      rw [ids_eq, List.mem_map] at id_mem
      obtain ⟨offset, _, rfl⟩ := id_mem
      simp only [WrittenSegment.row_id]
      omega
    · trivial
    · trivial
    · exact free
    · refine recordChange_free bounded rfl ?_
      simp only [ingestReceipt]
      omega
  · rw [ops, ingestOps, List.append_assoc]
    refine List.pairwise_append.mpr ⟨?_, List.pairwise_append.mpr ⟨?_, ?_, ?_⟩, ?_⟩
    · rcases commitSeriesId_cases resolved with rfl | ⟨key, _, rfl⟩
      · exact List.Pairwise.nil
      · simp [IndexOp.Independent]
    · exact inserts_independent aspect _ _ distinct
    · simp [IndexOp.Independent, seqBump]
    · intro op member other other_mem
      obtain ⟨_, _, rfl⟩ := List.mem_map.mp member
      simp only [List.mem_cons, List.not_mem_nil, or_false] at other_mem
      rcases other_mem with rfl | rfl | rfl | rfl <;> trivial
    · intro op member other other_mem
      rcases series op member with ⟨_, _, rfl⟩ | ⟨_, rfl⟩
      · rcases List.mem_append.mp other_mem with insert | last
        · obtain ⟨_, _, rfl⟩ := List.mem_map.mp insert
          trivial
        · simp only [List.mem_cons, List.not_mem_nil, or_false] at last
          rcases last with rfl | rfl | rfl | rfl <;> trivial
      · trivial
  · rw [Publication.changed, ops, ingestOps_changed series]
    exact ⟨_, rfl⟩

/-- The ids which a plan may reuse or take are below a bound. -/
def PreparedPlan.Below (plan : PreparedPlan) (bound : Nat) : Prop :=
  (∀ member ∈ plan.members, member.desc.id < bound) ∧ ∀ id ∈ plan.fresh, id < bound

theorem PreparedPlan.outputIds_below {bound : Nat} (below : plan.Below bound) :
    ∀ id ∈ plan.outputIds, id < bound := by
  intro id member
  unfold PreparedPlan.outputIds at member
  split at member
  · obtain ⟨row, row_mem, rfl⟩ := List.mem_map.mp member
    exact below.1 row (List.mem_of_mem_take row_mem)
  · rcases List.mem_append.mp (List.mem_of_mem_take member) with own | fresh
    · obtain ⟨row, row_mem, rfl⟩ := List.mem_map.mp own
      exact below.1 row row_mem
    · exact below.2 id fresh

theorem PreparedPlan.puts_below {bound epoch : Nat} (below : plan.Below bound) :
    ∀ op ∈ plan.ops aspect epoch createdMs, ∀ row,
      (aspect, row) ∈ op.puts → row.desc.id < bound := by
  intro op member row put
  simp only [PreparedPlan.ops, List.mem_append, List.mem_map] at member
  rcases member with (((kept | ⟨⟨⟨output, id⟩, position⟩, zipped, rfl⟩) | deleted) |
    ⟨_, _, rfl⟩) | ⟨_, _, rfl⟩
  · split at kept
    · obtain ⟨found, found_mem, rfl⟩ := List.mem_map.mp kept
      simp only [IndexOp.puts, List.mem_singleton, Prod.mk.injEq, true_and] at put
      rw [put]
      exact below.1 found (List.mem_of_mem_take found_mem)
    · cases kept
  · have zipped_mem : (output, id) ∈ plan.outputs.zip plan.outputIds :=
      List.fst_mem_of_mem_zipIdx zipped
    have id_lt := plan.outputIds_below below id (List.of_mem_zip zipped_mem).2
    simp only [PreparedPlan.outputOp] at put
    split at put <;>
      simp only [IndexOp.puts, List.mem_singleton, Prod.mk.injEq, true_and] at put <;>
      rw [put] <;>
      exact id_lt
  · split at deleted
    · cases deleted
    · rw [List.mem_singleton.mp deleted] at put
      cases put
  · cases put
  · cases put

theorem swapOp_plain (swap : SwapOp aspect op) :
    op.Within aspect ∧ op.bumpedEpoch aspect = 0 ∧ op.changed = [] ∧
      (∀ change, ¬op.forgets change) ∧ op.registers = [] := by
  cases swap <;>
    exact ⟨by first | rfl | trivial, rfl, rfl, fun _ forgotten => forgotten.elim, rfl⟩

theorem commitPlans_builds {plans : List PreparedPlan}
    (below : ∀ plan ∈ plans, plan.Below state.nextId) :
    Builds aspect state (commitPlans db aspect state plans createdMs) := by
  have changed_nil : (commitPlans db aspect state plans createdMs).changed = [] := by
    refine List.flatMap_eq_nil_iff.mpr fun op member => ?_
    rcases mem_commitPlans member with swap | ⟨_, rfl⟩ | ⟨_, rfl⟩
    · exact (swapOp_plain swap).2.2.1
    all_goals rfl
  constructor
  · intro op member
    rcases mem_commitPlans member with swap | ⟨_, rfl⟩ | ⟨_, rfl⟩
    · exact (swapOp_plain swap).1
    all_goals rfl
  · exact .inr rfl
  · exact ⟨_, List.mem_append_right _ List.mem_cons_self⟩
  · intro op member
    rcases mem_commitPlans member with swap | ⟨_, rfl⟩ | ⟨_, rfl⟩
    · rw [(swapOp_plain swap).2.1]
      exact Nat.zero_le _
    all_goals simp [IndexOp.bumpedEpoch, seqBump, commitPlans]
  · intro op member
    rcases mem_commitPlans member with swap | ⟨_, rfl⟩ | ⟨_, rfl⟩
    · cases swap <;> exact Nat.zero_le _
    all_goals simp [IndexOp.bumpedId, seqBump]
  · intro op member row put
    rcases List.mem_append.mp member with planned | finished
    · obtain ⟨plan, plan_mem, op_mem⟩ := List.mem_flatMap.mp planned
      exact plan.puts_below (below plan plan_mem) op op_mem row put
    · rcases List.mem_cons.mp finished with rfl | finished
      · cases put
      · rw [List.mem_singleton.mp finished] at put
        cases put
  · rw [changed_nil]
    simp
  · intro op member
    rcases mem_commitPlans member with swap | ⟨_, rfl⟩ | ⟨_, rfl⟩
    · exact (swapOp_plain swap).2.2.2.1
    all_goals exact fun _ forgotten => forgotten.elim
  · intro op member entry registered
    rcases mem_commitPlans member with swap | ⟨_, rfl⟩ | ⟨_, rfl⟩
    · rw [(swapOp_plain swap).2.2.2.2] at registered
      cases registered
    all_goals cases registered

theorem journalOutputs_builds {planned : List WrittenOutput} :
    Builds aspect state (journalOutputs aspect state planned createdMs) := by
  have changed_nil : (journalOutputs aspect state planned createdMs).changed = [] := by
    refine List.flatMap_eq_nil_iff.mpr fun op member => ?_
    rcases mem_journalOutputs member with ⟨_, rfl⟩ | ⟨_, rfl⟩ <;> rfl
  constructor
  · intro op member
    rcases mem_journalOutputs member with ⟨_, rfl⟩ | ⟨_, rfl⟩
    · trivial
    · rfl
  · exact .inl rfl
  · exact ⟨_, List.mem_append_right _ List.mem_cons_self⟩
  · intro op member
    rcases mem_journalOutputs member with ⟨_, rfl⟩ | ⟨_, rfl⟩ <;>
      simp [IndexOp.bumpedEpoch, seqBump, journalOutputs]
  · intro op member
    rcases mem_journalOutputs member with ⟨_, rfl⟩ | ⟨_, rfl⟩ <;>
      simp [IndexOp.bumpedId, seqBump]
  · intro op member row put
    rcases mem_journalOutputs member with ⟨_, rfl⟩ | ⟨_, rfl⟩ <;> cases put
  · rw [changed_nil]
    simp
  · intro op member
    rcases mem_journalOutputs member with ⟨_, rfl⟩ | ⟨_, rfl⟩ <;>
      exact fun _ forgotten => forgotten.elim
  · intro op member entry registered
    rcases mem_journalOutputs member with ⟨_, rfl⟩ | ⟨_, rfl⟩ <;> cases registered

theorem allocatePlans_spec (rows : List IndexRow) (state : AspectState)
    (plans : List PreparedPlan) :
    (allocatePlans rows state plans).1.epoch = state.epoch ∧
      state.nextId ≤ (allocatePlans rows state plans).1.nextId ∧
      ∀ ready ∈ (allocatePlans rows state plans).2,
        (∃ plan ∈ plans, ready = { plan with fresh := ready.fresh }) ∧
          ∀ id ∈ ready.fresh, id < (allocatePlans rows state plans).1.nextId := by
  induction plans generalizing state with
  | nil => exact ⟨rfl, Nat.le_refl _, by simp [allocatePlans]⟩
  | cons plan plans ih =>
      have first : (allocateFresh rows state plan).1.epoch = state.epoch ∧
          state.nextId ≤ (allocateFresh rows state plan).1.nextId ∧
          ∀ ready ∈ (allocateFresh rows state plan).2,
            ready = { plan with fresh := ready.fresh } ∧
            ∀ id ∈ ready.fresh, id < (allocateFresh rows state plan).1.nextId := by
        unfold allocateFresh
        split
        · refine ⟨rfl, Nat.le_refl _, ?_⟩
          rintro _ ⟨⟩
          exact ⟨rfl, by simp⟩
        · split
          · exact ⟨rfl, Nat.le_refl _, by simp⟩
          · refine ⟨AspectState.allocateMany_epoch _ _, AspectState.allocateMany_nextId _ _, ?_⟩
            intro ready ready_mem
            obtain ⟨ids, handed, rfl⟩ := Option.map_eq_some_iff.mp ready_mem
            refine ⟨rfl, fun id id_mem => ?_⟩
            obtain ⟨ids_eq, next_id⟩ := AspectState.allocateMany_ids handed
            rw [ids_eq] at id_mem
            obtain ⟨offset, offset_mem, rfl⟩ := List.mem_map.mp id_mem
            rw [List.mem_range] at offset_mem
            simp only
            omega
      obtain ⟨first_epoch, first_id, first_ready⟩ := first
      obtain ⟨rest_epoch, rest_id, rest_ready⟩ := ih (allocateFresh rows state plan).1
      simp only [allocatePlans]
      refine ⟨rest_epoch.trans first_epoch, first_id.trans rest_id, ?_⟩
      intro ready member
      rcases List.mem_append.mp member with own | others
      · obtain ⟨same, fresh⟩ := first_ready ready (by simpa using own)
        exact ⟨⟨plan, List.mem_cons_self, same⟩,
          fun id id_mem => (fresh id id_mem).trans_le rest_id⟩
      · obtain ⟨⟨other, other_mem, same⟩, fresh⟩ := rest_ready ready others
        exact ⟨⟨other, List.mem_cons_of_mem plan other_mem, same⟩, fresh⟩

end Builders

section Effect

variable {db after : IndexDb} {aspect : AspectName} {state : AspectState}
  {publication : Publication}

theorem Builds.counters (builds : Builds aspect state publication)
    (epochs : state.epoch = db.epochOf aspect)
    (applied : db.applyAll publication.ops = .ok after) :
    after.epochOf aspect = publication.epoch.getD state.epoch ∧
      state.nextId ≤ after.nextIdOf aspect := by
  obtain ⟨nextGen, bump⟩ := builds.bump
  obtain ⟨ids, _, reached⟩ := IndexDb.le_of_seqBump applied bump
  have least : db.epochOf aspect ≤ publication.epoch.getD state.epoch := by
    rcases builds.epoch with epoch | epoch <;> rw [epoch] <;> simp only [Option.getD_none,
      Option.getD_some] <;> omega
  have most := IndexDb.epochOf_le_of_applyAll applied least builds.bumped
  exact ⟨Nat.le_antisymm most reached, ids⟩

theorem Builds.bounded (builds : Builds aspect state publication) (bounded : Bounded db aspect)
    (epochs : state.epoch = db.epochOf aspect)
    (applied : db.applyAll publication.ops = .ok after) : Bounded after aspect := by
  obtain ⟨epoch_eq, ids⟩ := builds.counters epochs applied
  have raised := IndexDb.raised_of_applyAll applied aspect
  constructor
  · intro row member
    rcases IndexDb.mem_stored_of_applyAll applied member with kept | ⟨op, op_mem, put⟩
    · exact (bounded.ids row kept).trans_le raised.nextId
    · exact (builds.puts op op_mem row put).trans_le ids
  · intro change member own
    rcases IndexDb.mem_changes_of_applyAll applied member with kept | added
    · obtain ⟨positive, le⟩ := bounded.epochs change kept own
      exact ⟨positive, le.trans raised.epoch⟩
    · obtain ⟨_, epoch⟩ := builds.changed change added
      rw [epoch_eq, epoch]
      rcases builds.epoch with none | some
      · rw [none] at epoch
        cases epoch
      · rw [some, Option.some.injEq] at epoch
        simp only [Option.getD_some]
        omega
  · intro entry member own
    rcases IndexDb.mem_series_of_applyAll applied member with kept | ⟨op, op_mem, registered⟩
    · exact (bounded.series entry kept own).trans_le raised.nextSeriesId
    · obtain ⟨next, lt, seeded⟩ := builds.registered op op_mem entry registered
      exact lt.trans_le (IndexDb.le_of_seedSeries applied seeded)

end Effect

end WeftDb
