import WeftDb.Store.Steps

/-!
# The commit lock is exclusive

Whoever is between taking an aspect's commit lock and returning from its commit is the lock's
holder, so at most one task is there at a time.
-/

namespace WeftDb

namespace Store

open Function

theorem setState_holder (store : Store) (own : AspectName) (state : AspectState)
    (aspect : AspectName) :
    ((store.setState own state).locks aspect).holder = (store.locks aspect).holder := by
  rw [setState_locks]
  split
  · rename_i same
    rw [same]
  · rfl

theorem settled_holder (store : Store) (own : AspectName) (publication : Publication)
    (aspect : AspectName) :
    ((store.settled own publication).locks aspect).holder = (store.locks aspect).holder := by
  rw [settled, setLock_locks]
  split
  · rename_i same
    rw [same]
  · rfl

/-- The holder of a commit lock is the task which is past taking it. -/
structure Disciplined (store : Store) : Prop where
  holder : ∀ {id task aspect}, store.tasks id = some task →
    task.stage.aspect = some aspect → (store.locks aspect).holder = some id
  held : ∀ {id aspect}, (store.locks aspect).holder = some id →
    ∃ task, store.tasks id = some task ∧ task.stage.aspect = some aspect
  live : ∀ {id task}, store.tasks id = some task → id < store.nextTask

variable {catalog : Catalog}

namespace Disciplined

variable {store next : Store} {id : TaskId} {task : Task}

theorem congr (discipline : Disciplined store) (tasks : next.tasks = store.tasks)
    (nextTask : next.nextTask = store.nextTask)
    (holders : ∀ aspect, (next.locks aspect).holder = (store.locks aspect).holder) :
    Disciplined next where
  holder found held := by
    rw [holders]
    rw [tasks] at found
    exact discipline.holder found held
  held taken := by
    rw [holders] at taken
    rw [tasks]
    exact discipline.held taken
  live found := by
    rw [nextTask]
    rw [tasks] at found
    exact discipline.live found

theorem advance (discipline : Disciplined store) {stage : Stage} {work new : Work}
    {old : Stage} (found : store.tasks id = some ⟨work, old⟩)
    (same : stage.aspect = old.aspect) : Disciplined (store.setTask id ⟨new, stage⟩) where
  holder := by
    intro other found_task aspect other_found held
    rw [setTask_tasks, update_apply] at other_found
    split at other_found
    · rename_i same_id
      cases other_found
      rw [same_id]
      exact discipline.holder found (same.symm.trans held)
    · exact discipline.holder other_found held
  held := by
    intro other aspect taken
    obtain ⟨task, other_found, held⟩ := discipline.held taken
    rw [setTask_tasks, update_apply]
    split
    · rename_i same_id
      rw [same_id, found] at other_found
      cases other_found
      exact ⟨_, rfl, same.trans held⟩
    · exact ⟨task, other_found, held⟩
  live := by
    intro other found_task other_found
    rw [setTask_tasks, update_apply] at other_found
    split at other_found
    · rename_i same_id
      rw [same_id]
      exact discipline.live found
    · exact discipline.live other_found

theorem unlock_holder (store : Store) (id : TaskId) (aspect : AspectName) :
    ((store.unlock id).locks aspect).holder =
      if (store.locks aspect).holder = some id then none else (store.locks aspect).holder := by
  rw [unlock_locks]
  split <;> rfl

section

variable (discipline : Disciplined store)

include discipline

theorem release (task : Option Task)
    (outside : ∀ found ∈ task, found.stage = .running ∧ id < store.nextTask)
    (tasks : next.tasks = update store.tasks id task)
    (nextTask : next.nextTask = store.nextTask)
    (holders : ∀ aspect, (next.locks aspect).holder = ((store.unlock id).locks aspect).holder) :
    Disciplined next where
  holder := by
    intro other found_task aspect other_found held
    rw [tasks, update_apply] at other_found
    split at other_found
    · rw [(outside found_task other_found).1] at held
      cases held
    · rename_i different
      have taken := discipline.holder other_found held
      rw [holders, unlock_holder, if_neg]
      · exact taken
      · rw [taken]
        simpa using different
  held := by
    intro other aspect taken
    rw [holders, unlock_holder] at taken
    split at taken
    · cases taken
    · rename_i kept
      obtain ⟨task, other_found, held⟩ := discipline.held taken
      rw [tasks, update_of_ne]
      · exact ⟨task, other_found, held⟩
      · rintro rfl
        exact kept taken
  live := by
    intro other found_task other_found
    rw [nextTask]
    rw [tasks, update_apply] at other_found
    split at other_found
    · rename_i same_id
      rw [same_id]
      exact (outside found_task other_found).2
    · exact discipline.live other_found

theorem leave (id : TaskId) : Disciplined (store.leave id) :=
  discipline.release none (by simp) rfl rfl fun _ => rfl

theorem reply (id : TaskId) (work : Work) (result : Except StoreError IngestReceipt) :
    Disciplined (store.reply id work result) := by
  rw [reply_eq]
  exact (discipline.leave id).congr rfl rfl fun _ => rfl

theorem resume (found : store.tasks id = some task) (work : Work) :
    Disciplined ((store.unlock id).setTask id ⟨work, .running⟩) := by
  refine discipline.release (some ⟨work, .running⟩) ?_ rfl rfl fun _ => rfl
  rintro _ ⟨⟩
  exact ⟨rfl, discipline.live found⟩

theorem allocateGens {aspect : AspectName} {count gen : Nat}
    (counted : store.allocateGens aspect count = some (next, gen)) : Disciplined next := by
  obtain ⟨_, tasks, _, nextTask, _, _, _, locks⟩ := allocateGens_frame counted
  exact discipline.congr tasks nextTask fun other => (locks other).1

theorem setState (aspect : AspectName) (state : AspectState) :
    Disciplined (store.setState aspect state) :=
  discipline.congr rfl rfl (setState_holder store aspect state)

theorem settled (aspect : AspectName) (publication : Publication) :
    Disciplined (store.settled aspect publication) :=
  discipline.congr rfl rfl (settled_holder store aspect publication)

end

/-- Every step keeps the discipline. -/
theorem step {before after : Store} {action : Action} (discipline : Disciplined before)
    (stepped : Stepped catalog before action after) : Disciplined after := by
  cases stepped with
  | call started =>
      refine ⟨?_, ?_, ?_⟩
      · intro id task aspect found stage
        simp only [setTask_tasks, update_apply] at found
        split at found
        · cases found
          cases stage
        · exact discipline.holder found stage
      · intro id aspect taken
        obtain ⟨task, found, held⟩ := discipline.held taken
        refine ⟨task, ?_, held⟩
        simp only [setTask_tasks]
        rw [update_of_ne (Nat.ne_of_lt (discipline.live found))]
        exact found
      · intro id task found
        simp only [setTask_tasks, update_apply] at found
        split at found
        · rename_i same
          rw [same]
          exact Nat.lt_succ_self _
        · exact Nat.lt_succ_of_lt (discipline.live found)
  | checkPoisoned found poisoned => exact discipline.reply _ _ _
  | checkRefused found admission => exact discipline.reply _ _ _
  | checkReplayed found admission => exact discipline.reply _ _ _
  | checkAdmitted found admission chunked => exact discipline.advance found rfl
  | writeSeal found counted =>
      have tasks := (allocateGens_frame counted).2.1
      exact ((discipline.allocateGens counted).advance (tasks ▸ found)
        rfl).congr rfl rfl fun _ => rfl
  | writeIngest found counted =>
      have tasks := (allocateGens_frame counted).2.1
      exact ((discipline.allocateGens counted).advance (tasks ▸ found)
        rfl).congr rfl rfl fun _ => rfl
  | planWithout found names => exact discipline.advance found rfl
  | planNamed found counted names =>
      have tasks := (allocateGens_frame counted).2.1
      exact (discipline.allocateGens counted).advance (tasks ▸ found) rfl
  | writeOutput found =>
      exact (discipline.advance found rfl).congr rfl rfl fun _ => rfl
  | @enter id own work found wanted free =>
      refine ⟨?_, ?_, ?_⟩
      · intro other task aspect other_found stage
        simp only [setTask_tasks, setLock_frame, update_apply] at other_found
        simp only [setTask_frame, setLock_locks]
        split at other_found
        · rename_i same
          cases other_found
          cases stage
          rw [if_pos rfl, same]
        · have held := discipline.holder other_found stage
          rw [if_neg]
          · exact held
          · rintro rfl
            rw [free] at held
            cases held
      · intro other aspect taken
        simp only [setTask_frame, setLock_locks] at taken
        simp only [setTask_tasks, setLock_frame, update_apply]
        split at taken
        · rename_i same
          cases taken
          rw [if_pos rfl, same]
          exact ⟨_, rfl, rfl⟩
        · obtain ⟨task, other_found, held⟩ := discipline.held taken
          rw [if_neg]
          · exact ⟨task, other_found, held⟩
          · rintro rfl
            rw [found] at other_found
            cases other_found
            cases held
      · intro other task other_found
        simp only [setTask_tasks, setLock_frame, update_apply] at other_found
        split at other_found
        · rename_i same
          rw [same]
          exact discipline.live found
        · exact discipline.live other_found
  | allocateNone found seeded none_ready => exact (discipline.setState _ _).leave _
  | allocateReady found seeded =>
      exact (discipline.setState _ _).advance found rfl
  | prepareCommit found seeded built readable healthy =>
      exact (discipline.setState _ _).advance found rfl
  | preparePoisoned found seeded built readable poisoned guarded =>
      exact (discipline.setState _ _).reply _ _ _
  | @prepareAnswer id _ _ work aspect _ next result _ found seeded built readable =>
      have replied := (discipline.setState aspect next).reply id work result
      exact replied.congr rfl rfl fun _ => rfl
  | @land id work aspect publication next db found applied =>
      have advanced : Disciplined (before.setTask id ⟨work, .landed aspect publication next⟩) :=
        discipline.advance found rfl
      exact advanced.congr rfl rfl fun _ => rfl
  | settleReceipt found => exact (discipline.settled _ _).reply _ _ _
  | settleDone found => exact (discipline.settled _ _).leave _
  | settleResume found => exact (discipline.settled _ _).resume found _
  | settleRetain found => exact (discipline.settled _ _).advance found rfl
  | refuseRetry found retry => exact discipline.advance found rfl
  | refuseFail found final => exact discipline.reply _ _ _
  | @ambiguous id work _ _ _ _ found pending =>
      exact (discipline.reply id work _).congr rfl rfl fun _ => rfl
  | fault found uncommitted => exact discipline.reply _ _ _
  | drop found => exact discipline.leave _
  | recover found healthy readable built applied =>
      exact (discipline.advance found rfl).congr rfl rfl fun _ => rfl
  | finishRecovery found => exact discipline.leave _
  | reap healthy free applied => exact discipline.congr rfl rfl fun _ => rfl
  | consume => exact discipline.congr rfl rfl fun _ => rfl
  | acknowledgeNothing nothing => exact discipline.congr rfl rfl fun _ => rfl
  | acknowledge healthy applied => exact discipline.congr rfl rfl fun _ => rfl
  | forget => exact discipline.congr rfl rfl fun _ => rfl
  | crash => exact ⟨by simp [crash, opened], by simp [crash, opened], by simp [crash, opened]⟩

end Disciplined

theorem disciplined_fresh : Disciplined fresh :=
  ⟨by simp [fresh, opened], by simp [fresh, opened], by simp [fresh, opened]⟩

/-- Whatever is interleaved, fails, is dropped or crashes, an aspect's commit lock is held by exactly
the task which is past taking it, of which there is at most one, and by no task which has ended.  No
task holds the locks of two aspects. -/
theorem commitLock_exclusive {db : IndexDb} {frames quarantined : List FrameName}
    {actions : List Action} {store : Store}
    (execution : Execution.run (step catalog) (opened db frames quarantined) actions =
      some store) :
    (∀ aspect other id, (store.locks aspect).holder = some id →
      (store.locks other).holder = some id → aspect = other) ∧
    ∀ aspect,
      (∀ id, (store.locks aspect).holder = some id ↔
        ∃ task, store.tasks id = some task ∧ task.stage.aspect = some aspect) ∧
      (∀ left right one other, store.tasks left = some one → store.tasks right = some other →
        one.stage.aspect = some aspect → other.stage.aspect = some aspect → left = right) ∧
      ((∀ id task, store.tasks id = some task → task.stage.aspect ≠ some aspect) →
        (store.locks aspect).holder = none) := by
  have discipline : Disciplined store :=
    Execution.invariant_of_run Disciplined
      (fun discipline _ taken => discipline.step (stepped_of_step taken))
      ⟨by simp [opened], by simp [opened], by simp [opened]⟩ (Execution.meets_true _ _ _) execution
  refine ⟨fun aspect other id first second => ?_,
    fun aspect => ⟨fun id => ⟨discipline.held, ?_⟩, ?_, fun none_past => ?_⟩⟩
  · obtain ⟨task, found, past⟩ := discipline.held first
    obtain ⟨again, same, also⟩ := discipline.held second
    obtain rfl := Option.some.inj (found.symm.trans same)
    exact Option.some.inj (past.symm.trans also)
  · rintro ⟨task, found, past⟩
    exact discipline.holder found past
  · intro left right one other first second past also
    exact Option.some.inj ((discipline.holder first past).symm.trans (discipline.holder second also))
  · cases held : (store.locks aspect).holder with
    | none => rfl
    | some id =>
        obtain ⟨task, found, past⟩ := discipline.held held
        exact absurd past (none_past id task found)

/-- Of two recovery passes the first is under the lock, and the second is not. -/
theorem commitLock_exclusive_twoPasses :
    ∃ store, Execution.run (step ⟨fun _ => true, fun _ => true, fun _ => none, 1⟩)
      (opened .fresh [] []) [.call .recovery, .call .recovery, .enter 0 "a"] = some store ∧
      ∀ task, store.tasks 1 = some task → task.stage.aspect ≠ some "a" := by
  have runs : (Execution.run (step ⟨fun _ => true, fun _ => true, fun _ => none, 1⟩)
      (opened .fresh [] []) [.call .recovery, .call .recovery, .enter 0 "a"]).any
        (fun store => (store.locks "a").holder = some 0) = true := by
    decide +kernel
  obtain ⟨store, execution, held⟩ := (Option.any_eq_true _ _).mp runs
  refine ⟨store, execution, fun task found past => ?_⟩
  have second := ((commitLock_exclusive execution).2 "a").1 1 |>.mpr ⟨task, found, past⟩
  rw [of_decide_eq_true held] at second
  cases second

end Store

end WeftDb
