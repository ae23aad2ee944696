import WeftDb.Store.ExactlyOnce
import WeftDb.Store.Sequencing

/-!
# The change log loses no commit

Every seal and every ingest records its change in the transaction which publishes its rows, under
the epoch of that transaction.  A consumer acknowledges the highest epoch it read, so a change is
deleted only after the consumer saw it, as long as the epochs of an aspect grow with its commits.
That fails when a future is dropped between its commit becoming durable and the allocator noticing.
-/

namespace WeftDb

namespace Store

open Function

/-- Epochs grow from an earlier commit of an aspect to a later one. -/
def Earlier (earlier later : Commit) : Prop :=
  earlier.aspect = later.aspect → ∀ first ∈ earlier.publication.epoch,
    ∀ second ∈ later.publication.epoch, first < second

/-- What the change log promises its consumers and its writers. -/
structure LosesNothing (store : Store) : Prop where
  /-- Commit epochs are unique and grow in commit order. -/
  ordered : store.log.Pairwise Earlier
  /-- A committed seal or ingest recorded its change, and a consumer read it before it was
  deleted. -/
  delivered : ∀ commit ∈ store.log, commit.publishes = true →
    ∃ change, commit.publication.changed = [change] ∧ change.aspect = commit.aspect ∧
      commit.publication.epoch = some change.epoch ∧
      (change ∈ store.db.changes ∨ change ∈ (store.consumers commit.aspect).seen)
  /-- The index accepts the transaction of every pending seal or ingest. -/
  accepted : ∀ id work aspect publication next,
    store.tasks id = some ⟨work, .committing aspect publication next⟩ → work.publishes = true →
    ∃ db, store.db.applyAll publication.ops = .ok db
  /-- A commit lock is held by a task which is still there to release it. -/
  released : ∀ aspect id, (store.locks aspect).holder = some id →
    ∃ task, store.tasks id = some task

theorem throughEpoch_le {changes : List SegmentChange} {bound : Nat}
    (below : ∀ change ∈ changes, change.epoch ≤ bound) : throughEpoch changes ≤ bound := by
  have stays : ∀ (later : List SegmentChange) (epoch : Nat), epoch ≤ bound →
      (∀ change ∈ later, change.epoch ≤ bound) →
      later.foldl (fun epoch change => max epoch change.epoch) epoch ≤ bound := by
    intro later
    induction later with
    | nil => exact fun epoch least _ => least
    | cons head later ih =>
        intro epoch least below
        exact ih _ (Nat.max_le.mpr ⟨least, below head List.mem_cons_self⟩)
          fun change member => below change (List.mem_cons_of_mem _ member)
  exact stays changes 0 (Nat.zero_le _) below

/-- Where the recorded changes are, and how far the consumers have come. -/
structure Delivering (store : Store) : Prop where
  epochs : ∀ commit ∈ store.log, ∀ epoch ∈ commit.publication.epoch,
    epoch ≤ store.db.epochOf commit.aspect
  ordered : store.log.Pairwise Earlier
  recorded : ∀ commit ∈ store.log, commit.publishes = true →
    ∃ change, commit.publication.changed = [change] ∧ change.aspect = commit.aspect ∧
      commit.publication.epoch = some change.epoch
  kept : ∀ commit ∈ store.log, ∀ change ∈ commit.publication.changed,
    change ∈ store.db.changes ∨ change ∈ (store.consumers change.aspect).seen
  read : ∀ change ∈ store.db.changes,
    change.epoch ≤ (store.consumers change.aspect).acknowledged ∨
      change.epoch ≤ throughEpoch (store.consumers change.aspect).reading →
    change ∈ (store.consumers change.aspect).seen
  behind : ∀ aspect, (store.consumers aspect).acknowledged ≤ store.db.epochOf aspect ∧
    throughEpoch (store.consumers aspect).reading ≤ store.db.epochOf aspect

namespace Delivering

variable {store next : Store}
variable {aspect : AspectName}

section

variable (delivering : Delivering store)

include delivering

theorem congr (db : next.db = store.db) (log : next.log = store.log)
    (consumers : next.consumers = store.consumers) : Delivering next where
  epochs := by
    rw [db, log]
    exact delivering.epochs
  ordered := by
    rw [log]
    exact delivering.ordered
  recorded := by
    rw [log]
    exact delivering.recorded
  kept := by
    rw [db, log, consumers]
    exact delivering.kept
  read := by
    rw [db, consumers]
    exact delivering.read
  behind := by
    rw [db, consumers]
    exact delivering.behind

/-- A commit which advances its aspect's epoch, if it has one, past everything read so far. -/
theorem land (sequenced : Sequenced store) {id : TaskId} {work : Work} {publication : Publication}
    {continuation : Continuation} {db : IndexDb} {task : Task}
    (found : store.tasks id = some ⟨work, .committing aspect publication continuation⟩)
    (applied : store.db.applyAll publication.ops = .ok db) :
    Delivering
      { store.setTask id task with
        db
        log := store.log ++ [⟨some id, aspect, work.batch, work.publishes, publication⟩] } := by
  obtain ⟨state, seeded, epoch, builds, admitted, -⟩ := (sequenced.tasks found).committing rfl
  obtain ⟨epoch_after, -⟩ := builds.counters epoch applied
  have raised := fun other => (IndexDb.raised_of_applyAll applied other).epoch
  have newer : ∀ committed ∈ publication.epoch, store.db.epochOf aspect < committed ∧
      committed = db.epochOf aspect := by
    intro committed member
    rcases builds.epoch with quiet | advanced
    · rw [quiet] at member
      cases member
    · rw [Option.mem_def.mp member, Option.some.injEq] at advanced
      rw [Option.mem_def.mp member, Option.getD_some] at epoch_after
      omega
  have fresh : ∀ change ∈ publication.changed,
      change.aspect = aspect ∧ store.db.epochOf aspect < change.epoch := by
    intro change member
    obtain ⟨own, committed⟩ := builds.changed change member
    exact ⟨own, (newer _ committed).1⟩
  have unforgotten : ∀ change, ¬∃ op ∈ publication.ops, op.forgets change := by
    rintro change ⟨op, member, forgotten⟩
    exact builds.keeps op member change forgotten
  constructor
  · intro commit member committed own
    rcases List.mem_append.mp member with member | member
    · exact (delivering.epochs commit member committed own).trans (raised _)
    · rw [List.mem_singleton.mp member] at own ⊢
      exact (newer committed own).2.le
  · refine List.pairwise_append.mpr ⟨delivering.ordered, List.pairwise_singleton _ _, ?_⟩
    intro earlier earlier_mem later later_mem same first first_own second second_own
    rw [List.mem_singleton.mp later_mem] at same second_own
    have least := delivering.epochs earlier earlier_mem first first_own
    rw [same] at least
    exact least.trans_lt (newer second second_own).1
  · intro commit member publishes
    rcases List.mem_append.mp member with member | member
    · exact delivering.recorded commit member publishes
    · rw [List.mem_singleton.mp member] at publishes ⊢
      obtain ⟨change, changed⟩ := (admitted publishes).recorded
      obtain ⟨own, committed⟩ := builds.changed change (by rw [changed]; exact List.mem_cons_self)
      exact ⟨change, changed, own, committed⟩
  · intro commit member change changed
    rcases List.mem_append.mp member with member | member
    · rcases delivering.kept commit member change changed with present | seen
      · rcases IndexDb.changes_kept_of_applyAll applied present with kept | forgotten
        · exact .inl kept
        · exact absurd forgotten (unforgotten change)
      · exact .inr seen
    · rw [List.mem_singleton.mp member] at changed
      rcases IndexDb.change_recorded sequenced.logged applied changed with kept | forgotten
      · exact .inl kept
      · exact absurd forgotten (unforgotten change)
  · intro change present reached
    rcases IndexDb.mem_changes_of_applyAll applied present with present | added
    · exact delivering.read change present reached
    · obtain ⟨own, above⟩ := fresh change added
      obtain ⟨acknowledged, through⟩ := delivering.behind aspect
      subst own
      have reached : change.epoch ≤ (store.consumers change.aspect).acknowledged ∨
        change.epoch ≤ throughEpoch (store.consumers change.aspect).reading := reached
      omega
  · intro other
    obtain ⟨acknowledged, through⟩ := delivering.behind other
    exact ⟨acknowledged.trans (raised other), through.trans (raised other)⟩

/-- A transaction which records no change and deletes only what was read. -/
theorem write {ops : List IndexOp} {commit : Commit} (applied : store.db.applyAll ops = .ok next.db)
    (lasts : ∀ aspect, store.db.Lasts next.db aspect)
    (deletes : ∀ change, (∃ op ∈ ops, op.forgets change) →
      change.epoch ≤ throughEpoch (store.consumers change.aspect).reading)
    (silent : commit.publication.epoch = none ∧ commit.publication.changed = [] ∧
      commit.publishes = false) (log : next.log = store.log ++ [commit])
    (consumers : next.consumers = store.consumers) : Delivering next where
  epochs := by
    intro earlier member committed own
    rw [log] at member
    rw [lasts_epochOf (lasts _)]
    rcases List.mem_append.mp member with member | member
    · exact delivering.epochs earlier member committed own
    · rw [List.mem_singleton.mp member, silent.1] at own
      cases own
  ordered := by
    rw [log]
    refine List.pairwise_append.mpr ⟨delivering.ordered, List.pairwise_singleton _ _, ?_⟩
    intro earlier _ later later_mem _ first _ second own
    rw [List.mem_singleton.mp later_mem, silent.1] at own
    cases own
  recorded := by
    intro earlier member publishes
    rw [log] at member
    rcases List.mem_append.mp member with member | member
    · exact delivering.recorded earlier member publishes
    · rw [List.mem_singleton.mp member, silent.2.2] at publishes
      cases publishes
  kept := by
    intro earlier member change changed
    rw [log] at member
    rw [consumers]
    rcases List.mem_append.mp member with member | member
    · rcases delivering.kept earlier member change changed with present | seen
      · rcases IndexDb.changes_kept_of_applyAll applied present with kept | forgotten
        · exact .inl kept
        · exact .inr (delivering.read change present (.inr (deletes change forgotten)))
      · exact .inr seen
    · rw [List.mem_singleton.mp member, silent.2.1] at changed
      cases changed
  read := by
    intro change present
    rw [consumers]
    exact delivering.read change ((lasts change.aspect).changes change present rfl)
  behind := by
    intro aspect
    rw [consumers, lasts_epochOf (lasts aspect)]
    exact delivering.behind aspect

/-- A consumer changes; what it is past it has seen. -/
theorem consumer {consumer : Consumer} (db : next.db = store.db) (log : next.log = store.log)
    (consumers : next.consumers = update store.consumers aspect consumer)
    (grows : ∀ change ∈ (store.consumers aspect).seen, change ∈ consumer.seen)
    (read : ∀ change ∈ store.db.changes, change.aspect = aspect →
      change.epoch ≤ consumer.acknowledged ∨ change.epoch ≤ throughEpoch consumer.reading →
      change ∈ consumer.seen)
    (behind : consumer.acknowledged ≤ store.db.epochOf aspect ∧
      throughEpoch consumer.reading ≤ store.db.epochOf aspect) : Delivering next where
  epochs := by
    rw [db, log]
    exact delivering.epochs
  ordered := by
    rw [log]
    exact delivering.ordered
  recorded := by
    rw [log]
    exact delivering.recorded
  kept := by
    intro commit member change changed
    rw [log] at member
    rw [db, consumers]
    rcases delivering.kept commit member change changed with present | seen
    · exact .inl present
    · right
      by_cases own : change.aspect = aspect
      · rw [own, update_self]
        rw [own] at seen
        exact grows change seen
      · rw [update_of_ne own]
        exact seen
  read := by
    intro change present reached
    rw [db] at present
    rw [consumers] at reached ⊢
    by_cases own : change.aspect = aspect
    · rw [own, update_self] at reached ⊢
      exact read change present own reached
    · rw [update_of_ne own] at reached ⊢
      exact delivering.read change present reached
  behind := by
    intro other
    rw [db, consumers, update_apply]
    split
    · rename_i same
      rw [same]
      exact behind
    · exact delivering.behind other

variable (bounded : ∀ aspect, Bounded store.db aspect)

include bounded

theorem consume (logged : store.db.hasChangeLog = true) (aspect : AspectName) :
    Delivering (store.consume aspect) := by
  refine delivering.consumer rfl rfl rfl (fun change seen => List.mem_append_left _ seen) ?_ ?_
  · intro change present own reached
    refine List.mem_append.mpr ?_
    by_cases acknowledged : change.epoch ≤ (store.consumers aspect).acknowledged
    · left
      have seen := delivering.read change present
      rw [own] at seen
      exact seen (.inl acknowledged)
    · exact .inr (IndexDb.mem_changesAfter.mpr ⟨logged, present, own, by omega⟩)
  · refine ⟨(delivering.behind aspect).1, throughEpoch_le fun change member => ?_⟩
    obtain ⟨-, present, own, -⟩ := IndexDb.mem_changesAfter.mp member
    exact ((bounded aspect).epochs change present own).2

theorem forget (aspect : AspectName) : Delivering (store.forget aspect) := by
  refine delivering.consumer rfl rfl rfl (fun _ seen => seen) ?_ ⟨Nat.zero_le _, Nat.zero_le _⟩
  intro change present own reached
  have positive := ((bounded aspect).epochs change present own).1
  simp only [throughEpoch, List.foldl_nil] at reached
  omega

theorem crash (frames quarantined : List FrameName) :
    Delivering (store.crash frames quarantined) where
  epochs := delivering.epochs
  ordered := delivering.ordered
  recorded := delivering.recorded
  kept := delivering.kept
  read := by
    intro change present reached
    change change.epoch ≤ 0 ∨ change.epoch ≤ 0 at reached
    have positive := ((bounded change.aspect).epochs change present rfl).1
    omega
  behind _ := ⟨Nat.zero_le _, Nat.zero_le _⟩

/-- Acknowledging deletes what was read, whether or not the consumer learns of it. -/
theorem acknowledge {returned : Bool} {db : IndexDb}
    (applied : store.db.applyAll
      [.deleteChanges aspect (throughEpoch (store.consumers aspect).reading)] = .ok db) :
    Delivering
      { store with
        db
        log := store.log ++ [⟨none, aspect, none, false,
          ⟨none, [.deleteChanges aspect (throughEpoch (store.consumers aspect).reading)]⟩⟩]
        consumers :=
          if returned then
            update store.consumers aspect
              { store.consumers aspect with
                acknowledged := throughEpoch (store.consumers aspect).reading, reading := [] }
          else
            store.consumers } := by
  have lasts := IndexDb.lasts_of_applyAll applied fun op member =>
    .inr ⟨_, _, List.mem_singleton.mp member⟩
  have deletes : ∀ change : SegmentChange, (∃ op ∈ [IndexOp.deleteChanges aspect
      (throughEpoch (store.consumers aspect).reading)], op.forgets change) →
      change.epoch ≤ throughEpoch (store.consumers change.aspect).reading := by
    rintro change ⟨op, member, forgotten⟩
    rw [List.mem_singleton.mp member] at forgotten
    obtain ⟨own, below⟩ := forgotten
    rw [own]
    exact below
  have written : Delivering
      { store with
        db
        log := store.log ++ [⟨none, aspect, none, false,
          ⟨none, [.deleteChanges aspect (throughEpoch (store.consumers aspect).reading)]⟩⟩] } :=
    delivering.write applied lasts deletes ⟨rfl, rfl, rfl⟩ rfl rfl
  cases returned with
  | false => exact written
  | true =>
      refine written.consumer rfl rfl rfl (fun _ seen => seen) ?_ ?_
      · intro change present own reached
        have seen := written.read change present
        have positive := ((bounded aspect).epochs change
          ((lasts aspect).changes change present own) own).1
        change change.epoch ≤ throughEpoch (store.consumers aspect).reading ∨
          change.epoch ≤ 0 at reached
        rw [own] at seen
        refine seen (.inr ?_)
        change change.epoch ≤ throughEpoch (store.consumers aspect).reading
        omega
      · exact ⟨(written.behind aspect).2, Nat.zero_le _⟩

end

/-- Every step which drops no durable commit keeps the changes for their consumer. -/
theorem step {catalog : Catalog} {before after : Store} {action : Action}
    (delivering : Delivering before) (sequenced : Sequenced before)
    (stepped : Stepped catalog before action after) : Delivering after := by
  cases stepped with
  | call started => exact delivering.congr rfl rfl rfl
  | checkPoisoned found poisoned => exact delivering.congr (by simp) (by simp) (by simp)
  | checkRefused found admission => exact delivering.congr (by simp) (by simp) (by simp)
  | checkReplayed found admission => exact delivering.congr (by simp) (by simp) (by simp)
  | checkAdmitted found admission chunked => exact delivering.congr rfl rfl rfl
  | writeSeal found counted =>
      obtain ⟨db, _, _, _, consumers, log, _⟩ := allocateGens_frame counted
      exact delivering.congr db log consumers
  | writeIngest found counted =>
      obtain ⟨db, _, _, _, consumers, log, _⟩ := allocateGens_frame counted
      exact delivering.congr db log consumers
  | planWithout found names => exact delivering.congr rfl rfl rfl
  | planNamed found counted names =>
      obtain ⟨db, _, _, _, consumers, log, _⟩ := allocateGens_frame counted
      exact delivering.congr db log consumers
  | writeOutput found => exact delivering.congr rfl rfl rfl
  | enter found wanted free => exact delivering.congr rfl rfl rfl
  | allocateNone found seeded none_ready => exact delivering.congr rfl rfl rfl
  | allocateReady found seeded => exact delivering.congr rfl rfl rfl
  | prepareCommit found seeded built readable healthy => exact delivering.congr rfl rfl rfl
  | preparePoisoned found seeded built readable poisoned guarded =>
      exact delivering.congr (by simp) (by simp) (by simp)
  | prepareAnswer found seeded built readable =>
      exact delivering.congr (by simp) (by simp) (by simp)
  | land found applied => exact delivering.land sequenced found applied
  | settleReceipt found =>
      rw [reply_eq]
      exact delivering.congr rfl rfl rfl
  | settleDone found => exact delivering.congr rfl rfl rfl
  | settleResume found => exact delivering.congr rfl rfl rfl
  | settleRetain found => exact delivering.congr rfl rfl rfl
  | refuseRetry found retry => exact delivering.congr rfl rfl rfl
  | refuseFail found final => exact delivering.congr (by simp) (by simp) (by simp)
  | ambiguous found pending => exact delivering.congr (by simp) (by simp) (by simp)
  | fault found uncommitted => exact delivering.congr (by simp) (by simp) (by simp)
  | drop found => exact delivering.congr rfl rfl rfl
  | recover found healthy readable built applied =>
      obtain ⟨own, named, -⟩ := (sequenced.tasks found).named
      cases named.1
  | finishRecovery found => exact delivering.congr rfl rfl rfl
  | @reap unlinked cleared db healthy free applied =>
      have clears : ∀ op ∈ cleared.map IndexOp.clearJournal, ∃ name, op = .clearJournal name := by
        intro op member
        obtain ⟨name, -, rfl⟩ := List.mem_map.mp member
        exact ⟨name, rfl⟩
      refine delivering.write applied (IndexDb.lasts_of_applyAll applied fun op member =>
        .inl (clears op member)) ?_ ⟨rfl, ?_, rfl⟩ rfl rfl
      · rintro change ⟨op, member, forgotten⟩
        obtain ⟨name, rfl⟩ := clears op member
        cases forgotten
      · refine List.flatMap_eq_nil_iff.mpr fun op member => ?_
        obtain ⟨name, rfl⟩ := clears op member
        rfl
  | consume => exact delivering.consume sequenced.bounded sequenced.logged _
  | @acknowledgeNothing aspect _ nothing =>
      obtain ⟨acknowledged, -⟩ := delivering.behind aspect
      refine delivering.consumer rfl rfl rfl (fun _ seen => seen) ?_ ⟨acknowledged, Nat.zero_le _⟩
      intro change present own reached
      have seen := delivering.read change present
      have positive := ((sequenced.bounded aspect).epochs change present own).1
      rw [own] at seen
      change change.epoch ≤ (before.consumers aspect).acknowledged ∨ change.epoch ≤ 0 at reached
      exact seen (.inl (by omega))
  | acknowledge healthy applied => exact delivering.acknowledge sequenced.bounded applied
  | forget => exact delivering.forget sequenced.bounded _
  | crash => exact delivering.crash sequenced.bounded _ _

end Delivering

theorem sequenced_fresh : Sequenced fresh where
  logged := rfl
  bounded aspect :=
    ⟨by simp [fresh, opened, IndexDb.fresh, IndexDb.stored, KeyedTable.empty],
      by simp [fresh, opened, IndexDb.fresh], by simp [fresh, opened, IndexDb.fresh]⟩
  ids := by simp [fresh, opened]
  epochs := by simp [fresh, opened]
  tasks := by simp [fresh, opened]

theorem delivering_fresh : Delivering fresh where
  epochs := by simp [fresh, opened]
  ordered := .nil
  recorded := by simp [fresh, opened]
  kept := by simp [fresh, opened]
  read := by simp [fresh, opened, IndexDb.fresh]
  behind _ := ⟨Nat.zero_le _, Nat.zero_le _⟩

theorem Delivering.losesNothing {store : Store} (delivering : Delivering store)
    (sequenced : Sequenced store) (discipline : Disciplined store) : LosesNothing store where
  ordered := delivering.ordered
  delivered := by
    intro commit member publishes
    obtain ⟨change, changed, own, committed⟩ := delivering.recorded commit member publishes
    refine ⟨change, changed, own, committed, ?_⟩
    rw [← own]
    exact delivering.kept commit member change (by rw [changed]; exact List.mem_cons_self)
  accepted := by
    intro id work aspect publication next found publishes
    obtain ⟨state, -, -, -, admitted, -⟩ := (sequenced.tasks found).committing rfl
    exact IndexDb.applyAll_of_free (admitted publishes).free (admitted publishes).independent
  released := by
    intro aspect id held
    obtain ⟨task, found, -⟩ := discipline.held held
    exact ⟨task, found⟩

/-- The actions of writers and consumers: all but those of a recovery pass, in runs which drop no
future whose commit is durable and has advanced the epoch. -/
def AttendedWrite (store : Store) (action : Action) : Prop :=
  action ≠ .call .recovery ∧ Attended store action

instance (store : Store) (action : Action) : Decidable (AttendedWrite store action) :=
  inferInstanceAs (Decidable (_ ∧ _))

/-- The change log loses no commit as long as no durable commit goes unnoticed. -/
theorem changeLog_losesNothing {catalog : Catalog} {actions : List Action} {store : Store}
    (attended : Execution.Meets (step catalog) AttendedWrite fresh actions)
    (execution : Execution.run (step catalog) fresh actions = some store) :
    LosesNothing store := by
  obtain ⟨delivering, sequenced, discipline⟩ := Execution.invariant_of_run
    (fun store => Delivering store ∧ Sequenced store ∧ Disciplined store)
    (fun ⟨delivering, sequenced, discipline⟩ allowed taken =>
      have stepped := stepped_of_step taken
      ⟨delivering.step sequenced stepped,
        sequenced.step discipline allowed.1 allowed.2 stepped, discipline.step stepped⟩)
    ⟨delivering_fresh, sequenced_fresh, disciplined_fresh⟩ attended execution
  exact delivering.losesNothing sequenced discipline

/-- Seal, read and acknowledge the change, drop a seal before its commit, and ingest. -/
def attendedWrites : List Action :=
  [ .call (.seal "a" oneRowChunk), .writeFrame 0, .enter 0 "a", .prepare 0 .rebuild 0, .land 0,
    .settle 0, .consume "a", .acknowledge "a" true,
    .call (.seal "a" oneRowChunk), .writeFrame 1, .enter 1 "a", .prepare 1 .rebuild 0, .drop 1,
    .call (.ingest "a" oneRow), .check 2 [oneRowChunk], .writeFrame 2, .enter 2 "a",
    .prepare 2 .rebuild 0, .land 2, .settle 2, .consume "a" ]

/-- The promise holds of a run which drops a seal before its commit is durable. -/
theorem changeLog_losesNothing_attendedWrites :
    ∃ store, Execution.run (step openCatalog) fresh attendedWrites = some store ∧
      LosesNothing store := by
  have runs : (Execution.run (step openCatalog) fresh attendedWrites).isSome = true := by
    decide +kernel
  have attended : Execution.Meets (step openCatalog) AttendedWrite fresh attendedWrites := by
    decide +kernel
  obtain ⟨store, execution⟩ := Option.isSome_iff_exists.mp runs
  exact ⟨store, execution, changeLog_losesNothing attended execution⟩

/-- Whether a pending seal or ingest will be refused by the index. -/
def refusedPending (store : Store) (id : TaskId) : Bool :=
  match store.tasks id with
  | some ⟨work, .committing _ publication _⟩ =>
      work.publishes && decide ((store.db.applyAll publication.ops).toOption = none)
  | _ => false

/-- Drop a seal once its commit is durable, and prepare another. -/
def droppedSeal : List Action :=
  [ .call (.seal "a" oneRowChunk), .writeFrame 0, .enter 0 "a", .prepare 0 .rebuild 0, .land 0,
    .drop 0, .call (.seal "a" oneRowChunk), .writeFrame 1, .enter 1 "a", .prepare 1 .rebuild 0 ]

/-- The epoch which the dropped seal committed is used again, and the index refuses the next
seal. -/
theorem droppedSeal_losesNothing_false :
    (∀ action ∈ droppedSeal, action ≠ .call .recovery) ∧
      ∃ store, Execution.run (step openCatalog) fresh droppedSeal = some store ∧
        ¬LosesNothing store := by
  refine ⟨by decide +kernel, ?_⟩
  have refused : (Execution.run (step openCatalog) fresh droppedSeal).any
      (fun store => store.refusedPending 1) = true := by
    decide +kernel
  obtain ⟨store, execution, pending⟩ := (Option.any_eq_true _ _).mp refused
  refine ⟨store, execution, fun promised => ?_⟩
  unfold refusedPending at pending
  split at pending
  · rename_i found
    obtain ⟨publishes, refusal⟩ := (Bool.and_eq_true _ _).mp pending
    obtain ⟨db, applied⟩ := promised.accepted _ _ _ _ _ found publishes
    rw [applied] at refusal
    cases of_decide_eq_true refusal
  · cases pending

end Store

end WeftDb
