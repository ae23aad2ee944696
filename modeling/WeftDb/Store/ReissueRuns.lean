import WeftDb.Store.ExactlyOnce
import WeftDb.Store.Reissue

/-!
# Runs hand out new ids and generations

Every step keeps the marks in use below the counters, so what a step hands out is new, through
failures, crashes and restarts.  What a crash leaves uncommitted is forgotten, and a restart hands
it out again.
-/

namespace WeftDb

namespace Store

/-- A recovery does not move a row to an aspect whose counters are behind it, and no frame is
unlinked while a commit which adopts it is pending. -/
def Tidy (store : Store) : Action → Prop
  | .prepare _ step _ => step.Counted store
  | .reap unlinked _ => ∀ name ∈ unlinked, ¬Adopting store name
  | .recover _ (.purge record) => ¬Adopting store record.name
  | _ => True

section Steps

variable {store next : Store}
variable {work : Work} {aspect : AspectName} {plans : List PreparedPlan}
  {result : Except StoreError IngestReceipt} {catalog : Catalog} {unlinked : List WrittenSegment}
  {state : AspectState} {db : IndexDb} {id : TaskId} {middle : Store} {action : Action}
  {marks : List Mark}

theorem mem_fileMarks_of_moved {step : RecoveryStep} {mark : Mark}
    (frames : next.frames = (moveFrames store.frames store.quarantined step).1)
    (quarantined : next.quarantined = (moveFrames store.frames store.quarantined step).2)
    (held : mark ∈ next.fileMarks) :
    mark ∈ store.fileMarks ∨ mark.counter = .id ∧
      ∃ record, step = .release record ∧ mark ∈ record.name.fileMarks := by
  have quarantine : ∀ name, mark ∈ ((store.frames.filter fun other => decide (other ≠ name)).flatMap
      FrameName.fileMarks ++ ((if name ∈ store.frames then name :: store.quarantined else
        store.quarantined).flatMap FrameName.fileMarks).filter fun mark =>
          decide (mark.counter = .gen)) → mark ∈ store.fileMarks := by
    intro name moved
    rcases List.mem_append.mp moved with moved | moved
    · obtain ⟨other, member, carried⟩ := List.mem_flatMap.mp moved
      exact List.mem_append_left _
        (List.mem_flatMap.mpr ⟨other, (List.mem_filter.mp member).1, carried⟩)
    · obtain ⟨moved, gen⟩ := List.mem_filter.mp moved
      obtain ⟨other, member, carried⟩ := List.mem_flatMap.mp moved
      have onDisk : other ∈ store.frames ++ store.quarantined := by
        split at member
        · rename_i inFrames
          rcases List.mem_cons.mp member with rfl | member
          · exact List.mem_append_left _ inFrames
          · exact List.mem_append_right _ member
        · exact List.mem_append_right _ member
      exact mem_fileMarks onDisk carried (of_decide_eq_true gen)
  have fewer : ∀ name, mark ∈ (store.frames.flatMap FrameName.fileMarks ++
      ((store.quarantined.filter fun other => decide (other ≠ name)).flatMap
        FrameName.fileMarks).filter fun mark => decide (mark.counter = .gen)) →
      mark ∈ store.fileMarks := by
    intro name moved
    refine (List.mem_append.mp moved).elim (List.mem_append_left _) fun moved => ?_
    obtain ⟨moved, gen⟩ := List.mem_filter.mp moved
    obtain ⟨other, member, carried⟩ := List.mem_flatMap.mp moved
    exact mem_fileMarks (List.mem_append_right _ (List.mem_filter.mp member).1) carried
      (of_decide_eq_true gen)
  rw [fileMarks, frames, quarantined] at held
  cases step with
  | quarantineRow aspect row quarantineClass reason now =>
      simp only [moveFrames] at held
      cases named : retiredName row with
      | none =>
          rw [named] at held
          exact .inl held
      | some name =>
          rw [named] at held
          exact .inl (quarantine name held)
  | quarantineOrphan name quarantineClass reason now clear => exact .inl (quarantine name held)
  | purge record => exact .inl (fewer record.name held)
  | release record =>
      simp only [moveFrames] at held
      rcases List.mem_append.mp held with moved | moved
      · split at moved
        · rename_i present
          rw [List.flatMap_cons, List.mem_append] at moved
          rcases moved with carried | old
          · cases counter : mark.counter with
            | id => exact .inr ⟨rfl, record, rfl, carried⟩
            | gen => exact .inl (mem_fileMarks (List.mem_append_right _ present) carried counter)
          · exact .inl (List.mem_append_left _ old)
        · exact .inl (List.mem_append_left _ moved)
      · exact .inl (fewer record.name (List.mem_append_right _ moved))
  | rebind aspect row name crc key => exact .inl held
  | journalHeld aspect name now => exact .inl held
  | seedSeries aspect nextSeriesId => exact .inl held

/-- A recovery step unlinks no file, unless it purges a record. -/
theorem mem_moved (step : RecoveryStep) {name : FrameName}
    (onDisk : name ∈ store.frames ++ store.quarantined) :
    name ∈ (moveFrames store.frames store.quarantined step).1 ++
        (moveFrames store.frames store.quarantined step).2 ∨
      ∃ record, step = .purge record ∧ name = record.name := by
  have quarantine : ∀ moved, name ∈ (store.frames.filter fun other => decide (other ≠ moved)) ++
      (if moved ∈ store.frames then moved :: store.quarantined else store.quarantined) := by
    intro moved
    rcases List.mem_append.mp onDisk with inFrames | inQuarantine
    · by_cases same : name = moved
      · subst same
        rw [if_pos inFrames]
        exact List.mem_append_right _ List.mem_cons_self
      · exact List.mem_append_left _ (List.mem_filter.mpr ⟨inFrames, decide_eq_true same⟩)
    · refine List.mem_append_right _ ?_
      split
      · exact List.mem_cons_of_mem _ inQuarantine
      · exact inQuarantine
  cases step with
  | quarantineRow aspect row quarantineClass reason now =>
      refine .inl ?_
      simp only [moveFrames]
      cases retiredName row with
      | none => exact onDisk
      | some moved => exact quarantine moved
  | quarantineOrphan moved quarantineClass reason now clear => exact .inl (quarantine moved)
  | release record =>
      refine .inl ?_
      simp only [moveFrames]
      rcases List.mem_append.mp onDisk with inFrames | inQuarantine
      · refine List.mem_append_left _ ?_
        split
        · exact List.mem_cons_of_mem _ inFrames
        · exact inFrames
      · by_cases same : name = record.name
        · subst same
          rw [if_pos inQuarantine]
          exact List.mem_append_left _ List.mem_cons_self
        · exact List.mem_append_right _
            (List.mem_filter.mpr ⟨inQuarantine, decide_eq_true same⟩)
  | purge record =>
      by_cases same : name = record.name
      · exact .inr ⟨record, rfl, same⟩
      · refine .inl ((List.mem_append.mp onDisk).elim (List.mem_append_left _) fun found => ?_)
        exact List.mem_append_right _ (List.mem_filter.mpr ⟨found, decide_eq_true same⟩)
  | rebind aspect row name crc key => exact .inl onDisk
  | journalHeld aspect name now => exact .inl onDisk
  | seedSeries aspect nextSeriesId => exact .inl onDisk

theorem taskMarked_running (marked : ∀ {own}, work.aspect = some own → WorkMarked store own work) :
    TaskMarked store ⟨work, .running⟩ :=
  taskMarked_outside (.inl rfl) (by simp [Stage.aspect]) marked

theorem planMarked_of_preparePlan (marking : Marking store) {members : List IndexRow} {keep : Bool}
    {plan : PreparedPlan} (rows : ∀ member ∈ members, member ∈ store.db.rows aspect)
    (prepared : preparePlan members keep = some plan) : PlanMarked store aspect plan := by
  obtain ⟨members_eq, -, outputs, retired⟩ := preparePlan_spec prepared
  have fresh : plan.fresh = [] := by
    unfold preparePlan at prepared
    cases members with
    | nil => cases prepared
    | cons first members =>
        simp only at prepared
        split at prepared
        · obtain ⟨names, -, rfl⟩ := Option.map_eq_some_iff.mp prepared
          rfl
        · cases prepared
  have held : ∀ member ∈ members, ∀ mark ∈ member.marks aspect, Spent store mark :=
    fun member mem mark own =>
      have stored := IndexDb.mem_stored.mpr (IndexDb.mem_rows.mp (rows member mem))
      marking.held mark (IndexDb.mem_marks_of_row stored own)
  refine ⟨by rw [members_eq]; exact held, fun name mem mark own => ?_, by simp [fresh],
    by simp [outputs]⟩
  have named : some name ∈ (members.drop keep.toNat).map retiredName := by
    rw [retired]
    exact List.mem_map_of_mem mem
  obtain ⟨member, member_mem, same⟩ := List.mem_map.mp named
  exact held member (List.mem_of_mem_drop member_mem) mark (mem_marks_of_retiredName same own)

theorem workMarked_start (marking : Marking store) {request : Request}
    (started : start store.db request = some work) {own : AspectName}
    (named : work.aspect = some own) : WorkMarked store own work := by
  rcases request with ⟨aspect, chunk⟩ | ⟨aspect, batch⟩ | ⟨aspect, plans⟩ | _
  · cases started
    exact ⟨by simp [Work.written], by simp [Work.plans], by simp [Work.unwritten]⟩
  · cases started
    exact ⟨by simp [Work.written], by simp [Work.plans], by simp [Work.unwritten]⟩
  · simp only [start] at started
    split at started
    · rename_i guard
      obtain ⟨prepared, all, rfl⟩ := Option.map_eq_some_iff.mp started
      cases named
      refine ⟨by simp [Work.written], fun plan plan_mem => ?_, by simp [Work.unwritten]⟩
      obtain ⟨⟨members, keep⟩, asked, built⟩ :=
        List.mem_map.mp (mem_of_allSome all plan plan_mem)
      have found := List.all_eq_true.mp guard.2 _ asked
      simp only [Bool.and_eq_true, List.all_eq_true, decide_eq_true_eq] at found
      exact planMarked_of_preparePlan marking found.1 built
    · cases started
  · cases started
    cases named

theorem mem_nameOutputs {prec first : Nat} {chunks : List Chunk} {output : WrittenOutput}
    (member : output ∈ nameOutputs aspect prec first chunks) :
    first ≤ output.gen ∧ output.gen < first + chunks.length ∧
      output.name = frameName aspect output.gen output.prec ∧
        output.descriptor.path = .segments output.name := by
  induction chunks generalizing first with
  | nil => cases member
  | cons chunk chunks ih =>
      rcases List.mem_cons.mp member with rfl | member
      · exact ⟨Nat.le_refl _, by simp, rfl, rfl⟩
      · obtain ⟨low, high, named⟩ := ih member
        rw [List.length_cons]
        exact ⟨by omega, by omega, named⟩

theorem planMarked_of_namePlans {gen : Nat} {named : List PreparedPlan}
    {outputs : List (List Chunk)} (names : namePlans aspect gen plans outputs = some named)
    (passed : ∀ value, gen ≤ value → value < gen + (outputs.map List.length).sum →
      Passed store ⟨aspect, .gen, value⟩) (marked : ∀ plan ∈ plans, PlanMarked store aspect plan) :
    ∀ plan ∈ named, PlanMarked store aspect plan := by
  induction plans generalizing gen outputs named with
  | nil =>
      cases outputs with
      | nil =>
          cases names
          simp
      | cons chunks later => cases names
  | cons plan plans ih =>
      cases outputs with
      | nil => cases names
      | cons chunks later =>
          unfold namePlans at names
          rw [List.map_cons, List.sum_cons] at passed
          split at names
          · obtain ⟨rest, later_names, rfl⟩ := Option.map_eq_some_iff.mp names
            intro found member
            rcases List.mem_cons.mp member with rfl | member
            · obtain ⟨members, retired, fresh, -⟩ := marked plan List.mem_cons_self
              refine ⟨members, retired, fresh, fun output output_mem => ?_⟩
              obtain ⟨low, high, named⟩ := mem_nameOutputs output_mem
              exact ⟨passed _ low (by omega), named⟩
            · refine ih later_names (fun value low high => passed value (by omega) (by omega))
                (fun other mem => marked other (List.mem_cons_of_mem _ mem)) found member
          · cases names

theorem retried_carries {kind : TxnErrorKind} {again : Work}
    (retry : retried kind work = some again) : again.written = [] ∧ again.unwritten = [] := by
  unfold retried at retry
  split at retry
  · split at retry
    · cases retry
      exact ⟨rfl, rfl⟩
    · cases retry
  · cases retry
    exact ⟨rfl, rfl⟩
  · cases retry

theorem prepared_unlinked {last : AspectState} {step : Repair} {createdMs : Int}
    (built : prepared catalog db aspect state step createdMs work =
      some (last, .answer result unlinked)) : unlinked = [] ∨ unlinked = work.written := by
  unfold prepared at built
  split at built
  · split at built <;> cases built
    exact .inl rfl
  · split at built <;> cases built
    · exact .inl rfl
    · exact .inr rfl
    · exact .inl rfl
  · cases built
  · cases built
  · split at built <;> cases built
  · cases built

theorem taskMarked_recovery (changed : List AspectName) :
    TaskMarked store ⟨.recovery changed, .running⟩ :=
  taskMarked_outside (.inl rfl) (fun own => by cases own) (fun own => by cases own)

theorem marking_recover {step : RecoveryStep} {changed : List AspectName} {ops : List IndexOp}
    {changedAspect : Option AspectName} (marking : Marking store)
    (tidy : Tidy store (.recover id step)) (readable : step.readable store.frames = true)
    (built : recoveryOps store.db step = some (ops, changedAspect))
    (applied : store.db.applyAll ops = .ok db) :
    Marking { store.setTask id ⟨.recovery changed, .running⟩ with
      db
      frames := (moveFrames store.frames store.quarantined step).1
      quarantined := (moveFrames store.frames store.quarantined step).2
      log := store.log ++ [⟨some id, changedAspect.getD "", none, false, ⟨none, ops⟩⟩] } := by
  have held := recoveryOps_marks readable built
  have onward : Onward store { store.setTask id ⟨.recovery changed, .running⟩ with
      db
      frames := (moveFrames store.frames store.quarantined step).1
      quarantined := (moveFrames store.frames store.quarantined step).2
      log := store.log ++ [⟨some id, changedAspect.getD "", none, false, ⟨none, ops⟩⟩] } :=
    .of_memory (IndexDb.counterOf_le_of_applyAll applied) fun _ => rfl
  refine marking.write applied ?_ (fun _ => rfl) rfl rfl ?_
    (fun counter => by cases counter <;> rfl) ?_ ?_
  · exact fun op member mark brought =>
      brings_of_spent (marking.held mark (held op member mark brought))
  · intro mark file
    refine (mem_fileMarks_of_moved rfl rfl file).imp_right ?_
    rintro ⟨counter, record, rfl, carried⟩
    refine Spent.mono (marking.held mark ?_) onward
    simp only [recoveryOps] at built
    split at built
    · rename_i quarantined
      refine IndexDb.mem_marks_of_record quarantined ?_
      unfold quarantineRelease at built
      cases row : record.row with
      | none =>
          rw [row] at built
          cases built
      | some back =>
          simp only [QuarantineRecord.marks, row]
          refine List.mem_cons_of_mem _ (List.mem_cons_of_mem _ (List.mem_append_left _ ?_))
          cases named : record.name with
          | writeOnce stem gen prec =>
              rw [named] at carried
              obtain ⟨aspect, -, rfl⟩ := List.mem_map.mp carried
              cases counter
          | legacy own file =>
              rw [named] at carried
              exact carried
          | other text =>
              rw [named] at carried
              cases carried
    · cases built
  · intro name adopting onDisk
    rcases mem_moved step onDisk with stays | ⟨record, rfl, rfl⟩
    · exact .inl stays
    · exact absurd adopting tidy
  · intro other task found
    simp only [setTask_tasks, Function.update_apply] at found
    split at found
    · cases found
      exact .inr (taskMarked_recovery changed)
    · exact .inl found

theorem Marking.settled (marking : Marking store) (aspect : AspectName)
    (publication : Publication) : Marking (store.settled aspect publication) :=
  marking.congr rfl (memory_settled store aspect publication) rfl rfl rfl rfl rfl rfl

theorem Marking.unlock (marking : Marking store) (id : TaskId) : Marking (store.unlock id) :=
  marking.congr rfl (memory_unlock store id) rfl rfl rfl rfl rfl rfl

/-- The lock of an aspect which a task takes. -/
def enteredLock (store : Store) (id : TaskId) (aspect : AspectName) : AspectLock :=
  { store.locks aspect with
    holder := some id
    state := some ((store.locks aspect).state.getD
      (seedAllocator store.db (store.legacyNames.getD store.frames) aspect)) }

/-- The store once a task has taken a lock, before the task goes on. -/
def entered (store : Store) (id : TaskId) (aspect : AspectName) : Store :=
  { store.setLock aspect (enteredLock store id aspect) with
    legacyNames := if (store.locks aspect).state.isSome then store.legacyNames
      else some (store.legacyNames.getD store.frames) }

theorem enteredLock_state (store : Store) (id : TaskId) (aspect : AspectName) :
    (enteredLock store id aspect).state = some ((store.locks aspect).state.getD
      (seedAllocator store.db (store.legacyNames.getD store.frames) aspect)) := by
  rfl

theorem onward_entered (known : FilesKnown store) : Onward store (entered store id aspect) :=
  onward_enter known (enteredLock_state store id aspect) rfl rfl rfl

theorem Marking.crash (marking : Marking store) (frames quarantined : List FrameName) :
    Marking (store.crash frames quarantined) where
  held mark member := by
    refine ⟨(marking.held mark member).1, fun limit found => ?_⟩
    rcases mark with ⟨aspect, _ | _, value⟩ <;> cases found
  logged commit member op op_mem mark brought := by
    refine ⟨(marking.logged commit member op op_mem mark brought).1, fun limit found => ?_⟩
    rcases mark with ⟨aspect, _ | _, value⟩ <;> cases found
  files := by
    rintro ⟨aspect, counter, value⟩ _
    refine ⟨fun limit found => ?_, fun _ names found => ?_⟩ <;> cases counter <;> cases found
  positive found := by cases found
  tasks found := by cases found

theorem workMarked_append {again : Work} {frame : WrittenSegment}
    (marked : WorkMarked store aspect work) (onward : Onward store middle)
    (frame_marked : FrameMarked middle aspect frame)
    (written : again.written = work.written ++ [frame]) (plans : again.plans = work.plans)
    (unwritten : again.unwritten = work.unwritten) : WorkMarked middle aspect again := by
  obtain ⟨old, planned, named⟩ := marked.mono onward
  refine ⟨?_, plans ▸ planned, unwritten ▸ named⟩
  rw [written, List.forall_mem_append]
  exact ⟨old, by simpa using frame_marked⟩

/-- The plans which are ready take only ids which the counter now lies past. -/
theorem Marking.allocateReady (marking : Marking store) {held : AspectName}
    (found : store.tasks id = some ⟨.swap aspect plans .written, .locked held⟩)
    (seeded : (store.locks held).state = some state) :
    Marking ((store.setState held (allocatePlans (store.db.rows aspect) state plans).1).setTask id
      ⟨.swap aspect plans (.attempts [(allocatePlans (store.db.rows aspect) state plans).2]),
        .locked held⟩) := by
  obtain ⟨-, ids, ready⟩ := allocatePlans_spec (store.db.rows aspect) state plans
  have same := (marking.tasks found).own rfl rfl
  refine (marking.setState seeded ids).setTask (taskMarked_outside (.inr ⟨held, rfl⟩)
    (marking.tasks found).own fun own => ?_)
  cases own
  subst same
  have marked := ((marking.tasks found).work rfl).mono (onward_setState seeded ids)
  refine ⟨by simp [Work.written], fun plan member => ?_, by simp [Work.unwritten]⟩
  simp only [Work.plans, List.flatten_cons, List.flatten_nil, List.append_nil,
    List.mem_append] at member
  rcases member with member | member
  · exact marked.plans plan member
  · obtain ⟨⟨old, old_mem, rebuilt⟩, fresh⟩ := ready plan member
    obtain ⟨members, retired, -, outputs⟩ := marked.plans old old_mem
    rw [rebuilt]
    refine ⟨members, retired, fun id id_mem => ⟨_, ?_, fresh id id_mem⟩, outputs⟩
    rw [memory_id, setState_locks, if_pos rfl]
    rfl

section Prepare

variable {catalog : Catalog} {id : TaskId} {step : Repair} {createdMs : Int} {work : Work}
  {aspect : AspectName} {state last : AspectState}

/-- A prepared commit brings only marks which the counters lie past. -/
theorem Marking.prepareCommit (marking : Marking store)
    (tidy : Tidy store (.prepare id step createdMs)) {publication : Publication}
    {continuation : Continuation} (found : store.tasks id = some ⟨work, .locked aspect⟩)
    (seeded : (store.locks aspect).state = some state)
    (built : prepared catalog store.db aspect state step createdMs work =
      some (last, .commit publication continuation))
    (readable : step.readable store.frames aspect = true) :
    Marking ((store.setState aspect last).setTask id
      ⟨work, .committing aspect publication continuation⟩) := by
  have ids := (prepared_state built).2
  have middle := marking.setState seeded ids
  have onward := onward_setState seeded ids
  have marked := marking.tasks found
  have counted : step.Counted (store.setState aspect last) := by
    cases step with
    | rebind source row name crc key =>
        exact fun target moved mark own => (tidy target moved mark own).mono onward
    | _ => trivial
  obtain ⟨brings, later⟩ := prepared_bringsAll middle.files
    (fun limit found => middle.positive found) middle.held
    (fun own => ⟨(marked.own own rfl).symm, (marked.work own).mono onward⟩) counted readable
    (by rw [setState_locks, if_pos rfl]) built
  refine middle.setTask ⟨fun own held => marked.own own held, fun own =>
    (marked.work own).mono onward, ?_, ?_, ?_⟩
  · rintro _ _ _ ⟨⟩
    exact fun op member mark brought => (brings op member mark brought).1
  · rintro _ _ _ ⟨⟩
    exact fun op member mark brought => (brings op member mark brought).2
  · rintro _ _ _ _ _ (⟨⟨⟩⟩ | ⟨⟨⟩⟩)
    exact later

/-- An answer unlinks only frames which the counters lie past. -/
theorem Marking.prepareAnswer (marking : Marking store)
    (found : store.tasks id = some ⟨work, .locked aspect⟩)
    (seeded : (store.locks aspect).state = some state)
    (built : prepared catalog store.db aspect state step createdMs work =
      some (last, .answer result unlinked)) :
    Marking
      { (store.setState aspect last).reply id work result with
        frames := store.frames.filter fun name =>
          decide (FramePath.segments name ∉ unlinked.map (·.desc.path)) } := by
  have ids := (prepared_state built).2
  suffices wrote : ∀ frame ∈ unlinked,
      FrameMarked (store.setState aspect last) (work.aspect.getD "") frame from
    (marking.setState seeded ids).unlink wrote
  intro frame member
  rcases prepared_unlinked built with rfl | rfl
  · cases member
  · have marked := marking.tasks found
    cases own : work.aspect with
    | none =>
        cases work with
        | recovery changed => cases member
        | _ => cases own
    | some aspect =>
        obtain ⟨passed, named⟩ := (marked.work own).written frame member
        exact ⟨passed.mono (onward_setState seeded ids), named⟩

end Prepare

/-- A reap takes frames off the disk and brings no mark. -/
theorem Marking.reap (marking : Marking store) {unlinked cleared : List FrameName}
    (tidy : Tidy store (.reap unlinked cleared))
    (applied : store.db.applyAll (cleared.map .clearJournal) = .ok db) :
    Marking
      { store with
        db
        frames := store.frames.filter fun name => decide (name ∉ unlinked)
        log := store.log ++ [⟨none, "", none, false, ⟨none, cleared.map .clearJournal⟩⟩] } := by
  refine marking.write applied ?_ (fun _ => rfl) rfl rfl (fun mark held => .inl ?_)
    (fun counter => by cases counter <;> rfl) (fun name adopting onDisk => .inl ?_)
    fun found => .inl found
  · intro op member mark brought
    obtain ⟨name, -, rfl⟩ := List.mem_map.mp member
    cases brought
  · refine (List.mem_append.mp held).elim (fun held => List.mem_append_left _ ?_)
      (List.mem_append_right _)
    obtain ⟨name, member, carried⟩ := List.mem_flatMap.mp held
    exact List.mem_flatMap.mpr ⟨name, (List.mem_filter.mp member).1, carried⟩
  · refine (List.mem_append.mp onDisk).elim (fun found => List.mem_append_left _ ?_)
      (List.mem_append_right _)
    exact List.mem_filter.mpr ⟨found, decide_eq_true fun gone => tidy name gone adopting⟩

/-- Every tidy step keeps the marks in use below the counters. -/
theorem Marking.step (marking : Marking store) (tidy : Tidy store action)
    (stepped : Stepped catalog store action next) : Marking next := by
  cases stepped with
  | call started =>
      exact marking.retask store.nextTask (some _)
        (by rintro _ ⟨⟩; exact taskMarked_running (workMarked_start marking started))
        rfl (fun _ => rfl) rfl rfl rfl rfl rfl rfl
  | checkPoisoned found poisoned => exact marking.reply _ _ _
  | checkRefused found admission => exact marking.reply _ _ _
  | checkReplayed found admission => exact marking.reply _ _ _
  | checkAdmitted found admission chunked =>
      refine marking.setTask (taskMarked_running fun _ => ?_)
      exact ⟨by simp [Work.written], by simp [Work.plans], by simp [Work.unwritten]⟩
  | writeSeal found counted =>
      have passed := passed_of_allocateGens counted (Nat.lt_succ_self _)
      refine (marking.allocateGens counted).addFile passed (taskMarked_running fun own => ?_)
      cases own
      exact workMarked_append ((marking.tasks found).work rfl)
        (onward_allocateGens marking.files counted) ⟨passed, rfl⟩ rfl rfl rfl
  | writeIngest found counted =>
      have passed := passed_of_allocateGens counted (Nat.lt_succ_self _)
      refine (marking.allocateGens counted).addFile passed (taskMarked_running fun own => ?_)
      cases own
      exact workMarked_append ((marking.tasks found).work rfl)
        (onward_allocateGens marking.files counted) ⟨passed, rfl⟩ rfl rfl rfl
  | planWithout found names empty =>
      refine marking.setTask (taskMarked_running fun own => ?_)
      cases own
      have marked := (marking.tasks found).work rfl
      refine ⟨by simp [Work.written], planMarked_of_namePlans names ?_ marked.plans,
        by simp [Work.unwritten]⟩
      rw [empty]
      exact fun value low high => absurd high (by omega)
  | planNamed found counted names =>
      refine (marking.allocateGens counted).setTask (taskMarked_running fun own => ?_)
      cases own
      have marked := ((marking.tasks found).work rfl).mono
        (onward_allocateGens marking.files counted)
      exact ⟨by simp [Work.written], planMarked_of_namePlans names
        (fun value _ high => passed_of_allocateGens counted high) marked.plans,
        by simp [Work.unwritten]⟩
  | writeOutput found =>
      have marked := (marking.tasks found).work rfl
      obtain ⟨gen, prec, rfl, passed⟩ := marked.unwritten _ List.mem_cons_self
      refine marking.addFile passed (taskMarked_running fun own => ?_)
      cases own
      refine ⟨by simp [Work.written], ?_, ?_⟩
      · intro plan member
        refine marked.plans plan ?_
        split at member <;> exact member
      · intro name member
        refine marked.unwritten name ?_
        split at member
        · cases member
        · exact List.mem_cons_of_mem _ member
  | @enter id aspect work found wanted free =>
      have middle : Marking (entered store id aspect) :=
        marking.enter (enteredLock_state store id aspect) rfl rfl rfl rfl rfl rfl rfl rfl rfl
      refine middle.setTask (taskMarked_outside (.inr ⟨aspect, rfl⟩) ?_ fun own => ?_)
      · rintro own held named ⟨⟩
        exact (wantsLock_spec wanted named).1.symm
      · exact ((marking.tasks found).work own).mono (onward_entered marking.files)
  | @allocateNone _ aspect _ plans state found seeded none_ready =>
      obtain ⟨-, ids, -⟩ := allocatePlans_spec (store.db.rows aspect) state plans
      exact (marking.setState seeded ids).leave _
  | allocateReady found seeded => exact marking.allocateReady found seeded
  | prepareCommit found seeded built readable healthy =>
      exact marking.prepareCommit tidy found seeded built readable
  | preparePoisoned found seeded built readable poisoned guarded =>
      exact (marking.setState seeded (prepared_state built).2).reply _ _ _
  | prepareAnswer found seeded built readable => exact marking.prepareAnswer found seeded built
  | land found applied => exact marking.land found applied rfl
  | settleReceipt found => exact (marking.settled _ _).reply _ _ _
  | settleDone found => exact (marking.settled _ _).leave _
  | @settleResume id _ aspect publication resumed found =>
      have settled := (marking.settled aspect publication).unlock id
      refine settled.setTask (taskMarked_running fun own => ?_)
      refine ((marking.tasks found).next (.inr rfl) (.inl rfl) own).2.mono
        (.of_memory (fun _ => Nat.le_refl _) fun mark => ?_)
      rw [memory_unlock, memory_settled]
  | @settleRetain _ _ aspect publication retained found =>
      refine (marking.settled aspect publication).setTask
        (taskMarked_outside (.inr ⟨aspect, rfl⟩) ?_ fun own => ?_)
      · rintro own held named ⟨⟩
        exact ((marking.tasks found).next (.inr rfl) (.inr rfl) named).1.symm
      · exact ((marking.tasks found).next (.inr rfl) (.inr rfl) own).2.mono
          (.of_memory (fun _ => Nat.le_refl _) (memory_settled store aspect publication))
  | @refuseRetry _ _ _ _ aspect _ _ found retry =>
      obtain ⟨same, -, -, plans⟩ := retried_spec retry
      obtain ⟨written, unwritten⟩ := retried_carries retry
      refine marking.setTask (taskMarked_outside (.inr ⟨aspect, rfl⟩) ?_ fun own => ?_)
      · rintro own held named ⟨⟩
        exact (marking.tasks found).own (same ▸ named) rfl
      · have marked := (marking.tasks found).work (same ▸ own)
        exact ⟨by simp [written], fun plan member => marked.plans plan (plans plan member),
          by simp [unwritten]⟩
  | refuseFail found final => exact marking.reply _ _ _
  | ambiguous found pending =>
      exact (marking.reply _ _ _).congr rfl (fun _ => rfl) rfl rfl rfl rfl rfl rfl
  | fault found uncommitted => exact marking.reply _ _ _
  | drop found => exact marking.leave _
  | recover found healthy readable built applied =>
      exact marking_recover marking tidy readable built applied
  | finishRecovery found => exact marking.leave _
  | reap healthy free applied => exact marking.reap tidy applied
  | consume => exact marking.congr rfl (fun _ => rfl) rfl rfl rfl rfl rfl rfl
  | acknowledgeNothing nothing => exact marking.congr rfl (fun _ => rfl) rfl rfl rfl rfl rfl rfl
  | acknowledge healthy applied =>
      refine marking.write applied ?_ (fun _ => rfl) rfl rfl (fun mark held => .inl held)
        (fun counter => by cases counter <;> rfl) (fun name _ onDisk => .inl onDisk)
        fun found => .inl found
      intro op member mark brought
      rw [List.mem_singleton.mp member] at brought
      cases brought
  | forget => exact marking.congr rfl (fun _ => rfl) rfl rfl rfl rfl rfl rfl
  | crash => exact marking.crash _ _

/-- The counter in memory has not reached the mark, nor would it start past it. -/
def Unissued (store : Store) (mark : Mark) : Prop :=
  (∀ limit ∈ store.memory mark, limit ≤ mark.value) ∧
    (store.memory mark = none → store.db.counterOf mark ≤ mark.value ∧ mark ∉ store.fileMarks)

/-- From one state to the next the process hands out marks which the counters had not reached. -/
structure HandsOut (store next : Store) (marks : List Mark) : Prop where
  perm : next.issued.Perm (store.issued ++ marks)
  distinct : marks.Nodup
  passed : ∀ mark ∈ marks, Passed next mark
  unissued : ∀ mark ∈ marks, Unissued store mark
  kept : ∀ {mark limit}, store.memory mark = some limit →
    ∃ later, next.memory mark = some later ∧ limit ≤ later

theorem handsOut_nothing (ids : next.issuedIds = store.issuedIds)
    (gens : next.issuedGens = store.issuedGens)
    (kept : ∀ {mark limit}, store.memory mark = some limit →
      ∃ later, next.memory mark = some later ∧ limit ≤ later) : HandsOut store next [] where
  perm := by
    rw [issued, ids, gens, List.append_nil]
    exact .refl _
  distinct := .nil
  passed := by simp
  unissued := by simp
  kept := kept

theorem handsOut_same (ids : next.issuedIds = store.issuedIds)
    (gens : next.issuedGens = store.issuedGens)
    (memory : ∀ mark, next.memory mark = store.memory mark) : HandsOut store next [] :=
  handsOut_nothing ids gens fun found => ⟨_, (memory _).trans found, Nat.le_refl _⟩

theorem HandsOut.congr (handed : HandsOut store middle marks)
    (ids : next.issuedIds = middle.issuedIds) (gens : next.issuedGens = middle.issuedGens)
    (memory : ∀ mark, next.memory mark = middle.memory mark) : HandsOut store next marks where
  perm := by
    rw [issued, ids, gens]
    exact handed.perm
  distinct := handed.distinct
  passed mark member := by
    obtain ⟨limit, found, low⟩ := handed.passed mark member
    exact ⟨limit, (memory mark).symm ▸ found, low⟩
  unissued := handed.unissued
  kept found := by
    rw [memory]
    exact handed.kept found

theorem HandsOut.reply (handed : HandsOut store middle marks) (id : TaskId) (work : Work)
    (result : Except StoreError IngestReceipt) :
    HandsOut store (middle.reply id work result) marks := by
  rw [reply_eq]
  exact handed.congr rfl rfl (memory_unlock _ _)

theorem handsOut_setState {later : AspectState} (seeded : (store.locks aspect).state = some state)
    (le : state.nextId ≤ later.nextId) :
    HandsOut store (store.setState aspect later)
      ((List.range' state.nextId (later.nextId - state.nextId)).map fun id =>
        ⟨aspect, .id, id⟩) where
  perm := by
    simp only [issued, setState, seeded, List.map_append, List.map_map, Function.comp_def]
    simp only [List.append_assoc]
    exact (List.perm_append_comm).append_left _
  distinct := (List.nodup_range' 1).map fun one two same => by simpa using same
  passed mark member := by
    obtain ⟨id, id_mem, rfl⟩ := List.mem_map.mp member
    rw [List.mem_range'_1] at id_mem
    refine ⟨later.nextId, ?_, by simp only; omega⟩
    rw [memory_id, setState_locks, if_pos rfl]
    rfl
  unissued mark member := by
    obtain ⟨id, id_mem, rfl⟩ := List.mem_map.mp member
    rw [List.mem_range'_1] at id_mem
    refine ⟨fun limit found => ?_, fun missing => ?_⟩
    · rw [memory_id, seeded] at found
      cases found
      exact id_mem.1
    · rw [memory_id, seeded] at missing
      cases missing
  kept := (onward_setState seeded le).kept

theorem handsOut_allocateGens (known : FilesKnown store) {count gen : Nat}
    (counted : store.allocateGens aspect count = some (next, gen)) :
    HandsOut store next ((List.range' gen count).map fun gen => ⟨aspect, .gen, gen⟩) where
  perm := by
    obtain ⟨-, -, gens, ids, -⟩ := allocateGens_spec counted
    rw [issued, issued, gens, ids, List.map_append, List.map_map, List.append_assoc]
    exact .refl _
  distinct := (List.nodup_range' 1).map fun one two same => by simpa using same
  passed mark member := by
    obtain ⟨value, value_mem, rfl⟩ := List.mem_map.mp member
    rw [List.mem_range'_1] at value_mem
    exact passed_of_allocateGens counted value_mem.2
  unissued mark member := by
    obtain ⟨value, value_mem, rfl⟩ := List.mem_map.mp member
    rw [List.mem_range'_1] at value_mem
    obtain ⟨gen_eq, -⟩ := allocateGens_spec counted
    rcases firstGen_spec known aspect with seeded | ⟨missing, positive, persisted, files⟩
    · refine ⟨fun limit found => ?_, fun missing => ?_⟩
      · rw [memory_gen, seeded] at found
        cases found
        exact gen_eq ▸ value_mem.1
      · rw [memory_gen, seeded] at missing
        cases missing
    · refine ⟨fun limit found => ?_, fun _ => ⟨?_, fun held => ?_⟩⟩
      · rw [memory_gen, missing] at found
        cases found
      · exact (max_le persisted positive).trans (gen_eq ▸ value_mem.1)
      · have low := files value held
        omega
  kept := (onward_allocateGens known counted).kept

/-- What every step but a crash hands out. -/
theorem handsOut_of_stepped (known : FilesKnown store)
    (stepped : Stepped catalog store action next) :
    (∃ frames quarantined, next = store.crash frames quarantined) ∨
      ∃ marks, HandsOut store next marks := by
  have handed : HandsOut store store [] := handsOut_same rfl rfl fun _ => rfl
  cases stepped with
  | call started => exact .inr ⟨[], handsOut_same rfl rfl fun _ => rfl⟩
  | checkPoisoned found poisoned => exact .inr ⟨[], handed.reply _ _ _⟩
  | checkRefused found admission => exact .inr ⟨[], handed.reply _ _ _⟩
  | checkReplayed found admission => exact .inr ⟨[], handed.reply _ _ _⟩
  | checkAdmitted found admission chunked => exact .inr ⟨[], handsOut_same rfl rfl fun _ => rfl⟩
  | writeSeal found counted =>
      exact .inr ⟨_, (handsOut_allocateGens known counted).congr rfl rfl fun _ => rfl⟩
  | writeIngest found counted =>
      exact .inr ⟨_, (handsOut_allocateGens known counted).congr rfl rfl fun _ => rfl⟩
  | planWithout found names empty => exact .inr ⟨[], handsOut_same rfl rfl fun _ => rfl⟩
  | planNamed found counted names =>
      exact .inr ⟨_, (handsOut_allocateGens known counted).congr rfl rfl fun _ => rfl⟩
  | writeOutput found => exact .inr ⟨[], handsOut_same rfl rfl fun _ => rfl⟩
  | enter found wanted free =>
      exact .inr ⟨[], handsOut_nothing rfl rfl (onward_entered known).kept⟩
  | @allocateNone _ aspect _ plans state found seeded none_ready =>
      obtain ⟨-, ids, -⟩ := allocatePlans_spec (store.db.rows aspect) state plans
      exact .inr ⟨_, (handsOut_setState seeded ids).congr rfl rfl (memory_unlock _ _)⟩
  | @allocateReady _ aspect held plans state found seeded =>
      obtain ⟨-, ids, -⟩ := allocatePlans_spec (store.db.rows aspect) state plans
      exact .inr ⟨_, (handsOut_setState seeded ids).congr rfl rfl fun _ => rfl⟩
  | prepareCommit found seeded built readable healthy =>
      exact .inr ⟨_, (handsOut_setState seeded (prepared_state built).2).congr rfl rfl fun _ => rfl⟩
  | preparePoisoned found seeded built readable poisoned guarded =>
      exact .inr ⟨_, (handsOut_setState seeded (prepared_state built).2).reply _ _ _⟩
  | prepareAnswer found seeded built readable =>
      exact .inr ⟨_, ((handsOut_setState seeded (prepared_state built).2).reply _ _ _).congr rfl rfl
        fun _ => rfl⟩
  | land found applied => exact .inr ⟨[], handsOut_same rfl rfl fun _ => rfl⟩
  | @settleReceipt _ _ aspect publication _ found =>
      have settled : HandsOut store (store.settled aspect publication) [] :=
        handsOut_same rfl rfl (memory_settled store aspect publication)
      exact .inr ⟨[], settled.reply _ _ _⟩
  | settleDone found =>
      exact .inr ⟨[], handsOut_same rfl rfl fun mark =>
        (memory_unlock _ _ mark).trans (memory_settled _ _ _ mark)⟩
  | settleResume found =>
      exact .inr ⟨[], handsOut_same rfl rfl fun mark =>
        (memory_unlock _ _ mark).trans (memory_settled _ _ _ mark)⟩
  | settleRetain found => exact .inr ⟨[], handsOut_same rfl rfl (memory_settled _ _ _)⟩
  | refuseRetry found retry => exact .inr ⟨[], handsOut_same rfl rfl fun _ => rfl⟩
  | refuseFail found final => exact .inr ⟨[], handed.reply _ _ _⟩
  | ambiguous found pending =>
      exact .inr ⟨[], (handed.reply _ _ _).congr rfl rfl fun _ => rfl⟩
  | fault found uncommitted => exact .inr ⟨[], handed.reply _ _ _⟩
  | drop found => exact .inr ⟨[], handsOut_same rfl rfl (memory_unlock _ _)⟩
  | recover found healthy readable built applied =>
      exact .inr ⟨[], handsOut_same rfl rfl fun _ => rfl⟩
  | finishRecovery found => exact .inr ⟨[], handsOut_same rfl rfl (memory_unlock _ _)⟩
  | reap healthy free applied => exact .inr ⟨[], handsOut_same rfl rfl fun _ => rfl⟩
  | consume => exact .inr ⟨[], handsOut_same rfl rfl fun _ => rfl⟩
  | acknowledgeNothing nothing => exact .inr ⟨[], handsOut_same rfl rfl fun _ => rfl⟩
  | acknowledge healthy applied => exact .inr ⟨[], handsOut_same rfl rfl fun _ => rfl⟩
  | forget => exact .inr ⟨[], handsOut_same rfl rfl fun _ => rfl⟩
  | crash => exact .inl ⟨_, _, rfl⟩

theorem raised_of_stepped (stepped : Stepped catalog store action next) (aspect : AspectName) :
    store.db.Raised next.db aspect := by
  cases stepped with
  | writeSeal found counted =>
      obtain ⟨-, -, -, -, db, -⟩ := allocateGens_spec counted
      exact db ▸ .refl _ _
  | writeIngest found counted =>
      obtain ⟨-, -, -, -, db, -⟩ := allocateGens_spec counted
      exact db ▸ .refl _ _
  | planNamed found counted names =>
      obtain ⟨-, -, -, -, db, -⟩ := allocateGens_spec counted
      exact db ▸ .refl _ _
  | land found applied => exact IndexDb.raised_of_applyAll applied aspect
  | recover found healthy readable built applied => exact IndexDb.raised_of_applyAll applied aspect
  | reap healthy free applied => exact IndexDb.raised_of_applyAll applied aspect
  | acknowledge healthy applied => exact IndexDb.raised_of_applyAll applied aspect
  | _ => first | exact .refl _ _ | exact reply_eq _ _ _ _ ▸ .refl _ _

/-- What the running process handed out it is past, and it handed nothing out twice. -/
structure Distinct (store : Store) : Prop where
  passed : ∀ mark ∈ store.issued, Passed store mark
  nodup : store.issued.Nodup

theorem Distinct.step (distinct : Distinct store) (known : FilesKnown store)
    (stepped : Stepped catalog store action next) : Distinct next := by
  rcases handsOut_of_stepped known stepped with ⟨frames, quarantined, rfl⟩ | ⟨marks, handed⟩
  · exact ⟨by simp [issued, Store.crash, opened], by simp [issued, Store.crash, opened]⟩
  · constructor
    · intro mark member
      rcases List.mem_append.mp (handed.perm.subset member) with old | new
      · obtain ⟨limit, found, low⟩ := distinct.passed mark old
        obtain ⟨later, same, le⟩ := handed.kept found
        exact ⟨later, same, low.trans_le le⟩
      · exact handed.passed mark new
    · rw [handed.perm.nodup_iff]
      refine distinct.nodup.append handed.distinct fun mark old new => ?_
      obtain ⟨limit, found, low⟩ := distinct.passed mark old
      exact absurd ((handed.unissued mark new).1 limit found) (Nat.not_le.mpr low)

/-- Nothing holds the mark: no row, no journaled and no quarantined frame, no file on disk and no
commit of the past. -/
structure Unused (store : Store) (mark : Mark) : Prop where
  index : mark ∉ store.db.marks
  files : mark ∉ store.fileMarks
  log : ∀ commit ∈ store.log, ∀ op ∈ commit.publication.ops, mark ∉ op.marks

theorem Marking.unused (marking : Marking store) {mark : Mark} (unissued : Unissued store mark) :
    Unused store mark := by
  have spent : ¬Spent store mark := by
    rintro ⟨persisted, below⟩
    cases memory : store.memory mark with
    | none => exact absurd (unissued.2 memory).1 (Nat.not_le.mpr persisted)
    | some limit =>
        exact absurd (unissued.1 limit memory) (Nat.not_le.mpr (below limit memory))
  refine ⟨fun held => spent (marking.held mark held), fun held => ?_,
    fun commit member op op_mem brought =>
      spent (marking.logged commit member op op_mem mark brought)⟩
  cases memory : store.memory mark with
  | none => exact (unissued.2 memory).2 held
  | some limit =>
      exact absurd (unissued.1 limit memory)
        (Nat.not_le.mpr ((marking.files mark held).1 limit memory))

theorem marking_opened (counted : db.Counted) (frames quarantined : List FrameName) :
    Marking (opened db frames quarantined) where
  held mark held := by
    refine ⟨counted mark held, fun limit found => ?_⟩
    rcases mark with ⟨aspect, _ | _, value⟩ <;> cases found
  logged := by simp [opened]
  files := by
    rintro ⟨aspect, counter, value⟩ _
    refine ⟨fun limit found => ?_, fun _ names found => ?_⟩ <;> cases counter <;> cases found
  positive found := by cases found
  tasks found := by cases found

/-- A step hands out only what is new, and lets no persisted counter fall. -/
structure HandsOutNew (store next : Store) : Prop where
  unused : ∀ mark ∈ next.issued, mark ∉ store.issued → Unused store mark
  raised : ∀ aspect, store.db.nextIdOf aspect ≤ next.db.nextIdOf aspect ∧
    store.db.nextGenOf aspect ≤ next.db.nextGenOf aspect ∧
      store.db.epochOf aspect ≤ next.db.epochOf aspect

theorem Marking.handsOutNew (marking : Marking store)
    (stepped : Stepped catalog store action next) : HandsOutNew store next where
  unused mark member new := by
    rcases handsOut_of_stepped marking.files stepped with ⟨frames, quarantined, rfl⟩ |
      ⟨marks, handed⟩
    · simp [issued, Store.crash, opened] at member
    · rcases List.mem_append.mp (handed.perm.subset member) with old | added
      · exact absurd old new
      · exact marking.unused (handed.unissued mark added)
  raised aspect := by
    have raised := raised_of_stepped stepped aspect
    exact ⟨raised.nextId, raised.nextGen, raised.epoch⟩

end Steps

/-- In every state which tidy steps reach, through failures, crashes and restarts, the running
process has handed nothing out twice, and whatever step comes next hands out only what is new. -/
theorem nothing_isReissued {catalog : Catalog} {db : IndexDb} {frames quarantined : List FrameName}
    {actions : List Action} {store : Store} (counted : db.Counted)
    (tidy : Execution.Meets (step catalog) Tidy (opened db frames quarantined) actions)
    (execution : Execution.run (step catalog) (opened db frames quarantined) actions =
      some store) :
    store.issued.Nodup ∧
      ∀ action next, step catalog store action = some next → HandsOutNew store next := by
  obtain ⟨marking, distinct⟩ := Execution.invariant_of_run
    (fun store => Marking store ∧ Distinct store)
    (fun ⟨marking, distinct⟩ tidy taken =>
      have stepped := stepped_of_step taken
      ⟨marking.step tidy stepped, distinct.step marking.files stepped⟩)
    ⟨marking_opened counted frames quarantined, by simp [issued, opened], by simp [issued, opened]⟩
    tidy execution
  exact ⟨distinct.nodup, fun _ _ taken => marking.handsOutNew (stepped_of_step taken)⟩

/-- Seal, restart, and ingest. -/
def restartedWrites : List Action :=
  [ .call (.seal "a" oneRowChunk), .writeFrame 0, .enter 0 "a", .prepare 0 .rebuild 0, .land 0,
    .crash [frameName "a" 1 1] [], .call (.ingest "a" oneRow), .check 1 [oneRowChunk],
    .writeFrame 1, .enter 1 "a" ]

theorem nothing_isReissued_restartedWrites :
    ∃ store, Execution.run (step openCatalog) fresh restartedWrites = some store ∧
      store.issued.Nodup ∧ ∀ action next, step openCatalog store action = some next →
        HandsOutNew store next := by
  have runs : (Execution.run (step openCatalog) fresh restartedWrites).isSome = true := by
    decide +kernel
  have tidy : Execution.Meets (step openCatalog) Tidy fresh restartedWrites := by
    refine Execution.meets_of_forall (fun action member store => ?_) fresh
    simp only [restartedWrites, List.mem_cons, List.not_mem_nil, or_false] at member
    rcases member with rfl | rfl | rfl | rfl | rfl | rfl | rfl | rfl | rfl | rfl <;> trivial
  obtain ⟨store, execution⟩ := Option.isSome_iff_exists.mp runs
  exact ⟨store, execution, nothing_isReissued IndexDb.counted_fresh tidy execution⟩

/-- Whether a step hands out a mark which the process had not handed out. -/
def reissues (mark : Mark) (store : Store) (action : Action) : Bool :=
  decide (mark ∉ store.issued) &&
    (step openCatalog store action).any fun next => decide (mark ∈ next.issued)

/-- A seal on its way to its commit. -/
def sealing (id : TaskId) : List Action :=
  [.call (.seal "a" oneRowChunk), .writeFrame id, .enter id "a"]

/-- The id which a seal was handed before a crash is handed to the seal after it. -/
theorem crash_reissues_id :
    ∃ first second, Execution.run (step openCatalog) fresh (sealing 0) = some first ∧
      Execution.run (step openCatalog) fresh
        (sealing 0 ++ [.prepare 0 .rebuild 0, .crash [frameName "a" 1 1] []] ++ sealing 1) =
          some second ∧
      reissues ⟨"a", .id, 0⟩ first (.prepare 0 .rebuild 0) = true ∧
        reissues ⟨"a", .id, 0⟩ second (.prepare 1 .rebuild 0) = true := by
  have before : (Execution.run (step openCatalog) fresh (sealing 0)).any
      (fun store => reissues ⟨"a", .id, 0⟩ store (.prepare 0 .rebuild 0)) = true := by
    decide +kernel
  have after : (Execution.run (step openCatalog) fresh
      (sealing 0 ++ [.prepare 0 .rebuild 0, .crash [frameName "a" 1 1] []] ++ sealing 1)).any
      (fun store => reissues ⟨"a", .id, 0⟩ store (.prepare 1 .rebuild 0)) = true := by
    decide +kernel
  obtain ⟨first, first_run, handed⟩ := (Option.any_eq_true _ _).mp before
  obtain ⟨second, second_run, again⟩ := (Option.any_eq_true _ _).mp after
  exact ⟨first, second, first_run, second_run, handed, again⟩

end Store

end WeftDb
