import WeftDb.Store.ExactlyOnce
import WeftDb.Store.Rollups

/-!
# Rollups over whole runs

The stored rollup of an aspect is the one its rows derive, except while a pass still has to rebuild
it, as long as no pass is broken off before it has rebuilt what it owes and none moves a row into
an aspect which it will not rebuild.
-/

namespace WeftDb

namespace Store

open Function

/-- The aspects whose rollup a task still has to rebuild, if it runs. -/
def owedBy (store : Store) (id : TaskId) : List AspectName :=
  ((store.tasks id).map Task.owed).getD []

/-- Whether a running pass still has to rebuild the rollup of an aspect. -/
def Owed (store : Store) (aspect : AspectName) : Prop :=
  ∃ id, aspect ∈ store.owedBy id

/-- Whether an action may end a task before its work is done. -/
def BreaksOff (store : Store) (id : TaskId) : Action → Prop
  | .drop broken => id = broken
  | .fault broken => id = broken
  | .ambiguous broken => id = broken
  | .refuse broken _ => id = broken
  | .prepare broken step _ => id = broken ∧ store.poisoned = true ∧ step ≠ .rebuild
  | .crash _ _ => True
  | _ => False

instance (store : Store) (id : TaskId) (action : Action) :
    Decidable (store.BreaksOff id action) := by
  cases action <;> simp only [BreaksOff] <;> infer_instance

/-- Whether an action puts a row only into an aspect whose rollup is rebuilt. -/
def RepairsHome (store : Store) : Action → Prop
  | .prepare id step _ =>
      match store.tasks id with
      | some ⟨work, .locked aspect⟩ => step.Home aspect work.owed
      | _ => True
  | _ => True

instance (store : Store) (action : Action) : Decidable (store.RepairsHome action) := by
  cases action with
  | prepare id step createdMs =>
      simp only [RepairsHome]
      split <;> infer_instance
  | _ => exact .isTrue trivial

/-- No pass is broken off which still has to rebuild a rollup. -/
def Unbroken (store : Store) (action : Action) : Prop :=
  ∀ id < store.nextTask, store.BreaksOff id action → store.owedBy id = []

instance (store : Store) (action : Action) : Decidable (store.Unbroken action) :=
  inferInstanceAs (Decidable (∀ id < store.nextTask, _))

/-- What holds of a commit which is not durable yet. -/
structure Pending (store : Store) (id : TaskId) (aspect : AspectName) (owed : List AspectName)
    (publication : Publication) (next : Continuation) : Prop
    extends Carries aspect owed publication next where
  own : aspect ∈ next.owed ∨ store.db.Settling aspect publication.ops ∨
    ∃ other, other ≠ id ∧ aspect ∈ store.owedBy other

/-- Every rollup is exact or rebuilt later, and so it will be behind every pending commit. -/
structure Rolled (store : Store) : Prop where
  exact : ∀ aspect, store.db.RollupExact aspect ∨ store.Owed aspect
  uncut : ∀ {id task}, store.tasks id = some task → ∀ plan ∈ task.plans, plan.Uncut
  pending : ∀ {id work aspect publication next},
    store.tasks id = some ⟨work, .committing aspect publication next⟩ →
    store.Pending id aspect work.owed publication next

theorem owedBy_of_found {store : Store} {id : TaskId} {task : Task}
    (found : store.tasks id = some task) : store.owedBy id = task.owed := by
  rw [owedBy, found]
  rfl

variable {task : Option Task}

theorem owedBy_update {before next : Store} {id : TaskId}
    (tasks : next.tasks = update before.tasks id task) (other : TaskId) :
    next.owedBy other = if other = id then (task.map Task.owed).getD [] else
      before.owedBy other := by
  simp only [owedBy, tasks, update_apply]
  split <;> rfl

namespace Rolled

variable {before next : Store} {id : TaskId}
variable {publication : Publication} {aspect : AspectName} {after : Store} {catalog : Catalog}

variable (rolled : Rolled before)

include rolled

theorem change (tasks : next.tasks = update before.tasks id task)
    (kept : ∀ aspect ∈ before.owedBy id, aspect ∈ (task.map Task.owed).getD [])
    (alike : ∀ aspect, before.db.Alike next.db aspect ∨ aspect ∈ (task.map Task.owed).getD [])
    (uncut : ∀ new ∈ task, ∀ plan ∈ new.plans, plan.Uncut)
    (pending : ∀ work aspect publication continuation,
      task = some ⟨work, .committing aspect publication continuation⟩ →
      next.Pending id aspect work.owed publication continuation) : Rolled next := by
  have own : next.owedBy id = (task.map Task.owed).getD [] := by
    rw [owedBy_update tasks, if_pos rfl]
  have mono : ∀ {aspect other}, aspect ∈ before.owedBy other → aspect ∈ next.owedBy other := by
    intro aspect other owed
    rw [owedBy_update tasks]
    split
    · rename_i same
      exact kept aspect (same ▸ owed)
    · exact owed
  refine ⟨fun aspect => ?_, ?_, ?_⟩
  · rcases alike aspect with same | owed
    · rcases rolled.exact aspect with exact | ⟨other, owed⟩
      · exact .inl (same.exact exact)
      · exact .inr ⟨other, mono owed⟩
    · exact .inr ⟨id, own ▸ owed⟩
  · intro other found_task found
    rw [tasks, update_apply] at found
    split at found
    · exact uncut found_task found
    · exact rolled.uncut found
  · intro other work aspect publication continuation found
    rw [tasks, update_apply] at found
    split at found
    · rename_i same
      exact same ▸ pending work aspect publication continuation found
    · rename_i different
      obtain ⟨carries, settled⟩ := rolled.pending found
      refine ⟨carries, ?_⟩
      rcases settled with later | settling | ⟨third, apart, owed⟩
      · exact .inl later
      · rcases alike aspect with same | owed
        · exact .inr (.inl (settling.congr same))
        · exact .inr (.inr ⟨id, Ne.symm different, own ▸ owed⟩)
      · exact .inr (.inr ⟨third, apart, mono owed⟩)

theorem advance {old task : Task} (found : before.tasks id = some old)
    (tasks : next.tasks = update before.tasks id (some task)) (db : next.db = before.db)
    (owed : task.owed = old.owed) (uncut : ∀ plan ∈ task.plans, plan.Uncut)
    (outside : ∀ aspect publication continuation,
      task.stage ≠ .committing aspect publication continuation) : Rolled next := by
  refine rolled.change tasks (fun aspect member => ?_) (fun aspect => .inl (db ▸ .refl _ _)) ?_ ?_
  · rw [owedBy_of_found found, ← owed] at member
    exact member
  · rintro _ ⟨⟩
    exact uncut
  · rintro work aspect publication continuation ⟨⟩
    exact absurd rfl (outside aspect publication continuation)

theorem finish (nothing : before.owedBy id = [])
    (tasks : next.tasks = update before.tasks id none) (db : next.db = before.db) :
    Rolled next := by
  refine rolled.change tasks (fun aspect member => ?_) (fun aspect => .inl (db ▸ .refl _ _)) ?_ ?_
  · rw [nothing] at member
    cases member
  · rintro _ ⟨⟩
  · rintro _ _ _ _ ⟨⟩

theorem spare (tasks : next.tasks = before.tasks)
    (alike : ∀ aspect, before.db.Alike next.db aspect) : Rolled next := by
  have owed : next.owedBy = before.owedBy := by
    funext other
    simp only [owedBy, tasks]
  refine ⟨fun aspect => ?_, fun found => rolled.uncut (tasks ▸ found), fun found => ?_⟩
  · rcases rolled.exact aspect with exact | ⟨other, member⟩
    · exact .inl ((alike aspect).exact exact)
    · exact .inr ⟨other, owed ▸ member⟩
  · obtain ⟨carries, settled⟩ := rolled.pending (tasks ▸ found)
    refine ⟨carries, settled.imp_right (Or.imp (fun settling => settling.congr (alike _)) ?_)⟩
    rintro ⟨other, apart, member⟩
    exact ⟨other, apart, owed ▸ member⟩

/-- A commit becomes durable. -/
theorem land (discipline : Disciplined before) {work : Work} {next : Continuation}
    (found : before.tasks id = some ⟨work, .committing aspect publication next⟩)
    (tasks : after.tasks =
      update before.tasks id (some ⟨work, .landed aspect publication next⟩))
    (applied : before.db.applyAll publication.ops = .ok after.db) : Rolled after := by
  have own : after.owedBy id = next.owed := by
    rw [owedBy_update tasks, if_pos rfl]
    rfl
  have beside : ∀ {other}, other ≠ id → after.owedBy other = before.owedBy other := by
    intro other apart
    rw [owedBy_update tasks, if_neg apart]
  obtain ⟨carries, settled⟩ := rolled.pending found
  -- What is owed of another aspect is still owed.
  have mono : ∀ {other third}, other ≠ aspect → other ∈ before.owedBy third →
      other ∈ after.owedBy third := by
    intro other third apart member
    by_cases same : third = id
    · subst same
      rw [owedBy_of_found found] at member
      exact own ▸ carries.carried other member apart
    · exact (beside same).symm ▸ member
  have alike : ∀ other, other ≠ aspect →
      other ∈ next.owed ∨ before.db.Alike after.db other := fun other apart =>
    (carries.others other apart).imp_right fun sparing =>
      IndexDb.alike_of_applyAll sparing applied
  refine ⟨fun other => ?_, ?_, ?_⟩
  · by_cases same : other = aspect
    · subst same
      rcases settled with later | settling | ⟨third, apart, owed⟩
      · exact .inr ⟨id, own ▸ later⟩
      · exact .inl (settling _ _ (.refl _ _) applied)
      · exact .inr ⟨third, (beside apart).symm ▸ owed⟩
    · rcases alike other same with later | kept
      · exact .inr ⟨id, own ▸ later⟩
      · rcases rolled.exact other with exact | ⟨third, owed⟩
        · exact .inl (kept.exact exact)
        · exact .inr ⟨third, mono same owed⟩
  · intro other task other_found
    rw [tasks, update_apply] at other_found
    split at other_found
    · cases other_found
      have plans := rolled.uncut found
      exact plans
    · exact rolled.uncut other_found
  · intro other work' aspect' publication' next' other_found
    rw [tasks, update_apply] at other_found
    split at other_found
    · cases other_found
    · rename_i different
      -- Two tasks never commit under one lock.
      have apart : aspect' ≠ aspect := by
        rintro rfl
        have first := discipline.holder other_found rfl
        rw [discipline.holder found rfl] at first
        exact different (Option.some.inj first).symm
      obtain ⟨others, pending⟩ := rolled.pending other_found
      refine ⟨others, ?_⟩
      rcases pending with later | settling | ⟨third, beyond, owed⟩
      · exact .inl later
      · rcases alike aspect' apart with later | kept
        · exact .inr (.inr ⟨id, Ne.symm different, own ▸ later⟩)
        · exact .inr (.inl (settling.congr kept))
      · exact .inr (.inr ⟨third, beyond, mono apart owed⟩)

theorem prepare {work : Work} {state last : AspectState} {step : Repair} {createdMs : Int}
    {continuation : Continuation} (found : before.tasks id = some ⟨work, .locked aspect⟩)
    (home : step.Home aspect work.owed)
    (built : prepared catalog before.db aspect state step createdMs work =
      some (last, .commit publication continuation))
    (tasks : next.tasks = update before.tasks id
      (some ⟨work, .committing aspect publication continuation⟩)) (db : next.db = before.db) :
    Rolled next := by
  have plans := rolled.uncut found
  simp only [Task.plans, List.append_nil] at plans
  have rebuilds := prepared_rebuilds plans home built
  have owed := owedBy_of_found found
  refine rolled.change tasks (fun aspect member => ?_) (fun aspect => .inl (db ▸ .refl _ _)) ?_ ?_
  · rw [owed] at member
    exact member
  · rintro _ ⟨⟩ plan member
    rcases List.mem_append.mp member with now | later
    · exact plans plan now
    · exact plans plan (prepared_plans built plan later)
  · rintro _ _ _ _ ⟨⟩
    refine ⟨rebuilds.toCarries, ?_⟩
    have start : before.db.RollupExact aspect ∨ aspect ∈ work.owed ∨
        ∃ other, other ≠ id ∧ aspect ∈ before.owedBy other := by
      rcases rolled.exact aspect with exact | ⟨other, member⟩
      · exact .inl exact
      · by_cases same : other = id
        · subst same
          rw [owed] at member
          exact .inr (.inl member)
        · exact .inr (.inr ⟨other, same, member⟩)
    rw [← or_assoc] at start
    rcases start with start | ⟨other, apart, member⟩
    · exact (rebuilds.own start).imp_right fun settling => .inl (db ▸ settling)
    · refine .inr (.inr ⟨other, apart, ?_⟩)
      rw [owedBy_update tasks, if_neg apart]
      exact member

theorem recover {step : RecoveryStep} {changed : List AspectName} {ops : List IndexOp}
    {changedAspect : Option AspectName}
    (found : before.tasks id = some ⟨.recovery changed, .running⟩)
    (built : recoveryOps before.db step = some (ops, changedAspect))
    (applied : before.db.applyAll ops = .ok after.db)
    (tasks : after.tasks = update before.tasks id
      (some ⟨.recovery (changedAspect.toList ++ changed), .running⟩)) : Rolled after := by
  refine rolled.change tasks (fun aspect member => ?_) (fun aspect => ?_) ?_ ?_
  · rw [owedBy_of_found found] at member
    exact List.mem_append_right _ member
  · by_cases own : changedAspect = some aspect
    · exact .inr (List.mem_append_left _ (by simp [own]))
    · exact .inl (IndexDb.alike_of_applyAll (recoveryOps_sparing built own) applied)
  · rintro _ ⟨⟩
    simp [Task.plans, Work.plans]
  · rintro _ _ _ _ ⟨⟩

/-- Every attentive step keeps the rollups. -/
theorem step {action : Action} (discipline : Disciplined before) (unbroken : before.Unbroken action)
    (home : before.RepairsHome action) (stepped : Stepped catalog before action after) :
    Rolled after := by
  have broken : ∀ {id task}, before.tasks id = some task → before.BreaksOff id action →
      before.owedBy id = [] :=
    fun found ends => unbroken _ (discipline.live found) ends
  cases stepped with
  | @call request work started =>
      refine rolled.change rfl (fun aspect member => ?_) (fun aspect => .inl (.refl _ _)) ?_ ?_
      · have fresh : before.tasks before.nextTask = none := by
          by_contra live
          obtain ⟨task, found⟩ := Option.ne_none_iff_exists'.mp live
          exact absurd (discipline.live found) (Nat.lt_irrefl _)
        rw [owedBy, fresh] at member
        cases member
      · rintro _ ⟨⟩ plan member
        simp only [Task.plans, List.append_nil] at member
        exact start_uncut started plan member
      · rintro _ _ _ _ ⟨⟩
  | checkPoisoned found poisoned =>
      exact rolled.finish (owedBy_of_found found) (reply_tasks ..) (by simp)
  | checkRefused found admission =>
      exact rolled.finish (owedBy_of_found found) (reply_tasks ..) (by simp)
  | checkReplayed found admission =>
      exact rolled.finish (owedBy_of_found found) (reply_tasks ..) (by simp)
  | checkAdmitted found admission chunked =>
      exact rolled.advance found rfl rfl rfl (by simp [Task.plans, Work.plans]) (by simp)
  | writeSeal found counted =>
      obtain ⟨db, tasks, -⟩ := allocateGens_frame counted
      exact rolled.advance found (congrArg (update · _ _) tasks) db rfl
        (by simp [Task.plans, Work.plans]) (by simp)
  | writeIngest found counted =>
      obtain ⟨db, tasks, -⟩ := allocateGens_frame counted
      exact rolled.advance found (congrArg (update · _ _) tasks) db rfl
        (by simp [Task.plans, Work.plans]) (by simp)
  | planWithout found names =>
      refine rolled.advance found rfl rfl rfl (fun plan member => ?_) (by simp)
      simp only [Task.plans, Work.plans, List.append_nil] at member
      exact namePlans_uncut names plan member
  | planNamed found counted names =>
      obtain ⟨db, tasks, -⟩ := allocateGens_frame counted
      refine rolled.advance found (congrArg (update · _ _) tasks) db rfl
        (fun plan member => ?_) (by simp)
      simp only [Task.plans, Work.plans, List.append_nil] at member
      exact namePlans_uncut names plan member
  | writeOutput found =>
      have plans := rolled.uncut found
      refine rolled.advance found rfl rfl rfl (fun plan member => plans plan ?_) (by simp)
      simp only [Task.plans, List.append_nil] at member ⊢
      split at member <;> exact member
  | enter found wanted free =>
      have plans := rolled.uncut found
      exact rolled.advance found rfl rfl rfl plans (by simp)
  | allocateNone found seeded none_ready =>
      exact rolled.finish (owedBy_of_found found) rfl rfl
  | @allocateReady id aspect held plans state found seeded =>
      have uncut := rolled.uncut found
      refine rolled.advance found rfl rfl rfl (fun plan member => ?_) (by simp)
      simp only [Task.plans, Work.plans, List.append_nil, List.flatten_cons, List.flatten_nil,
        List.mem_append] at member uncut
      rcases member with named | ready
      · exact uncut plan named
      · obtain ⟨⟨old, old_mem, same⟩, -⟩ :=
          (allocatePlans_spec (before.db.rows aspect) state plans).2.2 plan ready
        rw [same]
        exact uncut old old_mem
  | prepareCommit found seeded built readable healthy =>
      rw [RepairsHome, found] at home
      exact rolled.prepare found home built rfl rfl
  | preparePoisoned found seeded built readable poisoned guarded =>
      refine rolled.finish ?_ (reply_tasks ..) (by simp)
      rcases owed_of_guarded guarded with other | nothing
      · exact broken found ⟨rfl, poisoned, other⟩
      · exact (owedBy_of_found found).trans nothing
  | prepareAnswer found seeded built readable =>
      exact rolled.finish ((owedBy_of_found found).trans (owed_of_answer built)) (reply_tasks ..)
        (by simp)
  | land found applied => exact rolled.land discipline found rfl applied
  | settleReceipt found =>
      exact rolled.finish (owedBy_of_found found) (reply_tasks ..) (reply_frame ..).1
  | settleDone found => exact rolled.finish (owedBy_of_found found) rfl rfl
  | settleResume found =>
      have plans := rolled.uncut found
      refine rolled.advance found rfl rfl rfl (fun plan member => plans plan ?_) (by simp)
      simp only [Task.plans, List.append_nil] at member
      exact List.mem_append_right _ member
  | settleRetain found =>
      have plans := rolled.uncut found
      refine rolled.advance found rfl rfl rfl (fun plan member => plans plan ?_) (by simp)
      simp only [Task.plans, List.append_nil] at member
      exact List.mem_append_right _ member
  | @refuseRetry id kind work again aspect publication next found retry =>
      have plans := rolled.uncut found
      refine rolled.advance found rfl rfl ?_ (fun plan member => plans plan ?_) (by simp)
      · obtain ⟨before_nothing, after_nothing⟩ := retried_owed retry
        exact after_nothing.trans before_nothing.symm
      · simp only [Task.plans, List.append_nil] at member
        exact List.mem_append_left _ ((retried_spec retry).2.2.2 plan member)
  | refuseFail found final =>
      exact rolled.finish (broken found rfl) (reply_tasks ..) (by simp)
  | ambiguous found pending =>
      exact rolled.finish (broken found rfl) (reply_tasks ..) (by simp)
  | fault found uncommitted =>
      exact rolled.finish (broken found rfl) (reply_tasks ..) (by simp)
  | drop found => exact rolled.finish (broken found rfl) rfl rfl
  | recover found healthy readable built applied => exact rolled.recover found built applied rfl
  | finishRecovery found => exact rolled.finish (owedBy_of_found found) rfl rfl
  | @reap unlinked cleared db healthy free applied =>
      refine rolled.spare rfl fun aspect => IndexDb.alike_of_applyAll (fun op member => ?_) applied
      obtain ⟨name, -, rfl⟩ := List.mem_map.mp member
      exact ⟨fun _ => rfl, fun _ => rfl⟩
  | consume => exact rolled.spare rfl fun aspect => .refl _ _
  | acknowledgeNothing nothing => exact rolled.spare rfl fun aspect => .refl _ _
  | acknowledge healthy applied =>
      refine rolled.spare rfl fun aspect => IndexDb.alike_of_applyAll (fun op member => ?_) applied
      rw [List.mem_singleton.mp member]
      exact ⟨fun _ => rfl, fun _ => rfl⟩
  | forget => exact rolled.spare rfl fun aspect => .refl _ _
  | crash =>
      refine ⟨fun aspect => .inl ?_, fun found => ?_, fun found => ?_⟩
      · rcases rolled.exact aspect with exact | ⟨other, owed⟩
        · exact exact
        · cases found : before.tasks other with
          | none =>
              rw [owedBy, found] at owed
              cases owed
          | some task =>
              rw [broken found trivial] at owed
              cases owed
      · cases found
      · cases found

end Rolled

/-- No pass is broken off which still has to rebuild a rollup, and none puts a row into an aspect
whose rollup it will not rebuild. -/
def Attentive (store : Store) (action : Action) : Prop :=
  store.Unbroken action ∧ store.RepairsHome action

instance (store : Store) (action : Action) : Decidable (store.Attentive action) :=
  inferInstanceAs (Decidable (_ ∧ _))

theorem disciplined_opened (db : IndexDb) (frames quarantined : List FrameName) :
    Disciplined (opened db frames quarantined) :=
  ⟨by simp [opened], by simp [opened], by simp [opened]⟩

theorem rolled_opened {db : IndexDb} (start : ∀ aspect, db.RollupExact aspect)
    (frames quarantined : List FrameName) : Rolled (opened db frames quarantined) :=
  ⟨fun aspect => .inl (start aspect), by simp [opened], by simp [opened]⟩

/-- In every attentive run the rollup of an aspect is exact unless a running pass still has to
rebuild it, and folding a segment forward gives what any order of the index derives. -/
theorem rollups_exact {catalog : Catalog} {db : IndexDb} {frames quarantined : List FrameName}
    {actions : List Action} {store : Store} (start : ∀ aspect, db.RollupExact aspect)
    (attentive : Execution.Meets (step catalog) Attentive (opened db frames quarantined) actions)
    (execution : Execution.run (step catalog) (opened db frames quarantined) actions =
      some store) :
    (∀ aspect, ¬store.Owed aspect → store.db.RollupExact aspect) ∧
      ∀ {descriptors index : List SegmentDescriptor} {descriptor : SegmentDescriptor},
        index.Perm (descriptor :: descriptors) →
        (AspectMetadata.fromIndex ⟨descriptors⟩).folded descriptor = .fromIndex ⟨index⟩ := by
  obtain ⟨rolled, -⟩ := Execution.invariant_of_run
    (fun store => Rolled store ∧ Disciplined store)
    (fun ⟨rolled, discipline⟩ allowed taken =>
      have stepped := stepped_of_step taken
      ⟨rolled.step discipline allowed.1 allowed.2 stepped, discipline.step stepped⟩)
    ⟨rolled_opened start frames quarantined, disciplined_opened db frames quarantined⟩
    attentive execution
  exact ⟨fun aspect settled => (rolled.exact aspect).resolve_right settled,
    AspectMetadata.folded_eq_fromIndex⟩

/-- The name of the first frame of the aspect `a`. -/
def firstFrame : FrameName :=
  frameName "a" 1 1

/-- A segment of one row under that name. -/
def firstRow : IndexRow where
  desc := { oneRowChunk.desc with id := 0, path := .segments firstFrame }
  gen := 1
  prec := some 1
  frameCrc := some 1
  commitEpoch := some 1
  seriesId := 0

/-- Seal a row, and quarantine it in a pass which rebuilds the rollup. -/
def quarantinedSeal : List Action :=
  [ .call (.seal "a" oneRowChunk), .writeFrame 0, .enter 0 "a", .prepare 0 .rebuild 0, .land 0,
    .settle 0, .call .recovery, .recover 1 (.quarantineRow "a" firstRow .corrupt "" 0),
    .enter 1 "a", .prepare 1 .rebuild 0, .land 1, .settle 1, .finishRecovery 1 ]

/-- The rollups are exact behind a seal and its quarantine. -/
theorem rollups_exact_quarantinedSeal :
    ∃ store, Execution.run (step openCatalog) (opened .fresh [] []) quarantinedSeal =
      some store ∧ ∀ aspect, ¬store.Owed aspect → store.db.RollupExact aspect := by
  have runs : (Execution.run (step openCatalog) (opened .fresh [] []) quarantinedSeal).isSome =
      true := by
    decide +kernel
  have attentive : Execution.Meets (step openCatalog) Attentive (opened .fresh [] [])
      quarantinedSeal := by
    decide +kernel
  obtain ⟨store, execution⟩ := Option.isSome_iff_exists.mp runs
  have start : ∀ aspect, IndexDb.fresh.RollupExact aspect := fun _ => rfl
  exact ⟨store, execution, (rollups_exact start attentive execution).1⟩

/-- An index which files the frame of `a` under the aspect `b`. -/
def misfiled : IndexDb :=
  { IndexDb.fresh with
    segments := ⟨[("b", firstRow)], List.nodup_singleton _⟩
    rollups := ⟨[("b", .fromIndex ⟨[firstRow.desc]⟩)], List.nodup_singleton _⟩ }

/-- A pass which binds the row to its frame's aspect, and rebuilds what it changed. -/
def misfiledPass : List Action :=
  [ .call .recovery, .enter 0 "a", .prepare 0 (.rebind "b" firstRow firstFrame (some 1) "") 0,
    .land 0, .settle 0, .enter 0 "b", .prepare 0 .rebuild 0, .land 0, .settle 0,
    .finishRecovery 0 ]

/-- The pass returns with the rollup of the aspect which gained the row out of date. -/
theorem misfiledPass_not_exact :
    (∀ aspect, misfiled.RollupExact aspect) ∧
      Execution.Meets (step openCatalog) Unbroken (opened misfiled [firstFrame] [])
        misfiledPass ∧
      ∃ store, Execution.run (step openCatalog) (opened misfiled [firstFrame] []) misfiledPass =
        some store ∧ (∀ id < store.nextTask, store.tasks id = none) ∧
        ¬store.db.RollupExact "a" := by
  refine ⟨fun aspect => ?_, by decide +kernel, ?_⟩
  · by_cases own : "b" = aspect
    · subst own
      decide +kernel
    · have none_stored : misfiled.rollup aspect = none := by
        simp [misfiled, IndexDb.rollup, KeyedTable.find?, own]
      have no_rows : misfiled.rows aspect = [] := by
        simp [misfiled, IndexDb.rows, IndexDb.stored, own]
      rw [IndexDb.RollupExact, none_stored, IndexDb.index, no_rows]
      rfl
  · have ended : (Execution.run (step openCatalog) (opened misfiled [firstFrame] [])
        misfiledPass).any (fun store => decide ((∀ id < store.nextTask, store.tasks id = none) ∧
          ¬store.db.RollupExact "a")) = true := by
      decide +kernel
    obtain ⟨store, execution, found⟩ := (Option.any_eq_true _ _).mp ended
    obtain ⟨returned, stale⟩ := of_decide_eq_true found
    exact ⟨store, execution, returned, stale⟩

end Store

end WeftDb
