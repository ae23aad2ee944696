import WeftDb.Store.Building
import WeftDb.Store.LockDiscipline

/-!
# The allocator stays in step with the index

While no commit is dropped between becoming durable and being noticed, the epoch held in memory
for an aspect is the persisted one whenever a transaction is built, and ids are handed out above
every persisted id.  So commit epochs grow by one with each commit, and neither a seal nor an
ingest is refused by the index.
-/

namespace WeftDb

open Option

/-- The aspect which a seal, an ingest or a swap works on. -/
def Work.aspect : Work → Option AspectName
  | .seal aspect _ _ => some aspect
  | .ingest aspect _ _ _ _ => some aspect
  | .swap aspect _ _ => some aspect
  | .recovery _ => none

/-- The plans of a swap which are not yet attempted. -/
def Work.queued : Work → List PreparedPlan
  | .swap _ _ (.attempts queue) => queue.flatten
  | _ => []

/-- All plans of a swap. -/
def Work.plans : Work → List PreparedPlan
  | .swap _ plans (.attempts queue) => plans ++ queue.flatten
  | .swap _ plans _ => plans
  | _ => []

/-- The aspect whose commit is durable while its caller has not noticed. -/
def Stage.outstanding : Stage → Option AspectName
  | .landed aspect publication _ => if publication.epoch.isSome then some aspect else none
  | _ => none

/-- The task whose future an action drops. -/
def Store.Action.dropped : Store.Action → Option TaskId
  | .drop id => some id
  | _ => none

namespace Store

/-- No future is dropped on a commit which is durable and has advanced the epoch. -/
def Attended (store : Store) (action : Action) : Prop :=
  ∀ id ∈ action.dropped, (store.tasks id).bind (·.stage.outstanding) = none

instance (store : Store) (action : Action) : Decidable (Attended store action) :=
  inferInstanceAs (Decidable (∀ id ∈ action.dropped, _))

/-- Work names its aspect, and its members are rows of the aspect. -/
def Named (db : IndexDb) (work : Work) (aspect : AspectName) : Prop :=
  work.aspect = some aspect ∧
    ∀ plan ∈ work.plans, ∀ member ∈ plan.members, member.desc.id < db.nextIdOf aspect

/-- The ids handed out to the plans of a swap are below the allocator. -/
def HandedOut (work : Work) (state : AspectState) : Prop :=
  ∀ plan ∈ work.queued, ∀ id ∈ plan.fresh, id < state.nextId

/-- What a task does after its commit fits the aspect. -/
def Follows (db : IndexDb) (aspect : AspectName) (state : AspectState) (next : Continuation) :
    Prop :=
  ∀ later, next = .resume later ∨ next = .retain later →
    Named db later aspect ∧ HandedOut later state ∧ later.publishes = false

/-- What holds of a task. -/
structure InStep (db : IndexDb) (locks : AspectName → AspectLock) (task : Task) : Prop where
  named : ∃ own, Named db task.work own ∧ ∀ held, task.stage.aspect = some held → held = own
  fresh : ∀ {held state}, task.stage.aspect = some held → (locks held).state = some state →
    HandedOut task.work state
  framed : ∀ {own batch fingerprint written},
    task.work = .ingest own batch (some fingerprint) [] written → written ≠ []
  committing : ∀ {aspect publication next}, task.stage = .committing aspect publication next →
    ∃ state, (locks aspect).state = some state ∧ state.epoch = db.epochOf aspect ∧
      Builds aspect state publication ∧
      (task.work.publishes = true → Admitted db aspect publication) ∧ Follows db aspect state next
  landed : ∀ {aspect publication next}, task.stage = .landed aspect publication next →
    ∃ state, (locks aspect).state = some state ∧
      (advanced publication state).epoch = db.epochOf aspect ∧ Follows db aspect state next

/-- Whether a commit of the aspect is durable and unnoticed. -/
def Outstanding (tasks : TaskId → Option Task) (aspect : AspectName) : Prop :=
  ∃ id task, tasks id = some task ∧ task.stage.outstanding = some aspect

/-- The memory of the process is in step with the index. -/
structure Sequenced (store : Store) : Prop where
  logged : store.db.hasChangeLog = true
  bounded : ∀ aspect, Bounded store.db aspect
  ids : ∀ {aspect state}, (store.locks aspect).state = some state →
    store.db.nextIdOf aspect ≤ state.nextId
  epochs : ∀ {aspect state}, (store.locks aspect).state = some state →
    store.poisoned = false → ¬Outstanding store.tasks aspect →
    state.epoch = store.db.epochOf aspect
  tasks : ∀ {id task}, store.tasks id = some task → InStep store.db store.locks task

variable {aspect own : AspectName} {db after : IndexDb} {work : Work} {state : AspectState}
  {locks : AspectName → AspectLock} {task : Task} {plans named : List PreparedPlan}
  {outputs : List (List Chunk)} {gen : Nat} {request : Request} {createdMs : Int}

theorem lasts_nextIdOf (lasts : db.Lasts after aspect) :
    after.nextIdOf aspect = db.nextIdOf aspect := by
  simp only [IndexDb.nextIdOf, lasts.sequence]

theorem lasts_epochOf (lasts : db.Lasts after aspect) :
    after.epochOf aspect = db.epochOf aspect := by
  simp only [IndexDb.epochOf, lasts.sequence]

theorem bounded_lasts (bounded : Bounded db aspect) (lasts : db.Lasts after aspect) :
    Bounded after aspect where
  ids row member := by
    rw [lasts_nextIdOf lasts]
    rw [lasts.stored] at member
    exact bounded.ids row member
  epochs change member own := by
    rw [lasts_epochOf lasts]
    exact bounded.epochs change (lasts.changes change member own) own
  series entry member own := by
    have same : after.nextSeriesId aspect = db.nextSeriesId aspect := by
      simp only [IndexDb.nextSeriesId, lasts.sequence]
    rw [same]
    exact bounded.series entry (lasts.series entry member own) own

theorem Named.mono (named : Named db work aspect)
    (raised : db.nextIdOf aspect ≤ after.nextIdOf aspect) : Named after work aspect :=
  ⟨named.1, fun plan plan_mem member mem => (named.2 plan plan_mem member mem).trans_le raised⟩

theorem Follows.mono {next : Continuation} (follows : Follows db aspect state next)
    (raised : db.nextIdOf aspect ≤ after.nextIdOf aspect) : Follows after aspect state next :=
  fun later goes_on => ⟨(follows later goes_on).1.mono raised, (follows later goes_on).2⟩

theorem InStep.lasts {later : AspectName → AspectLock} (inStep : InStep db locks task)
    (raised : ∀ aspect, db.nextIdOf aspect ≤ after.nextIdOf aspect)
    (kept : ∀ held, task.stage.aspect = some held →
      (later held).state = (locks held).state ∧ db.Lasts after held) : InStep after later task where
  named := by
    obtain ⟨own, named, held⟩ := inStep.named
    exact ⟨own, named.mono (raised own), held⟩
  fresh := by
    intro held state stage seeded
    rw [(kept held stage).1] at seeded
    exact inStep.fresh stage seeded
  framed := inStep.framed
  committing := by
    intro aspect publication next stage
    obtain ⟨state, seeded, epoch, builds, admitted, follows⟩ := inStep.committing stage
    obtain ⟨same, lasts⟩ := kept aspect (by rw [stage]; rfl)
    refine ⟨state, same.trans seeded, epoch.trans (lasts_epochOf lasts).symm, builds, ?_,
      follows.mono (raised aspect)⟩
    intro publishes
    obtain ⟨free, independent, recorded⟩ := admitted publishes
    exact ⟨fun op member => IndexDb.free_of_lasts (builds.within op member) (free op member) lasts,
      independent, recorded⟩
  landed := by
    intro aspect publication next stage
    obtain ⟨state, seeded, epoch, follows⟩ := inStep.landed stage
    obtain ⟨same, lasts⟩ := kept aspect (by rw [stage]; rfl)
    exact ⟨state, same.trans seeded, epoch.trans (lasts_epochOf lasts).symm,
      follows.mono (raised aspect)⟩

theorem inStep_outside {stage : Stage} (named : Named db work own)
    (held : ∀ aspect, stage.aspect = some aspect → aspect = own)
    (fresh : ∀ {held state}, stage.aspect = some held → (locks held).state = some state →
      HandedOut work state)
    (framed : ∀ {own batch fingerprint written},
      work = .ingest own batch (some fingerprint) [] written → written ≠ [])
    (outside : stage = .running ∨ ∃ aspect, stage = .locked aspect) :
    InStep db locks ⟨work, stage⟩ where
  named := ⟨own, named, held⟩
  fresh := fresh
  framed := framed
  committing := by
    intro aspect publication next committing
    rcases outside with rfl | ⟨_, rfl⟩ <;> cases committing
  landed := by
    intro aspect publication next landed
    rcases outside with rfl | ⟨_, rfl⟩ <;> cases landed

theorem inStep_running (named : Named db work own)
    (framed : ∀ {own batch fingerprint written},
      work = .ingest own batch (some fingerprint) [] written → written ≠ []) :
    InStep db locks ⟨work, .running⟩ :=
  inStep_outside named (by simp [Stage.aspect]) (by simp [Stage.aspect]) framed (.inl rfl)

theorem namePlans_spec (names : namePlans aspect gen plans outputs = some named) :
    ∀ plan ∈ named, ∃ old ∈ plans, ∃ first chunks, old.keep = chunks.isEmpty ∧
      plan = { old with outputs := nameOutputs aspect old.prec first chunks } := by
  induction plans generalizing gen outputs named with
  | nil =>
      cases outputs with
      | nil =>
          cases names
          simp
      | cons chunks later => cases names
  | cons plan plans ih =>
      cases outputs with
      | nil => cases names
      | cons chunks later =>
          unfold namePlans at names
          split at names
          · rename_i kept
            obtain ⟨rest, later_names, rfl⟩ := map_eq_some_iff.mp names
            intro found member
            rcases List.mem_cons.mp member with rfl | member
            · exact ⟨plan, List.mem_cons_self, gen, chunks, kept, rfl⟩
            · obtain ⟨old, old_mem, same⟩ := ih later_names found member
              exact ⟨old, List.mem_cons_of_mem _ old_mem, same⟩
          · cases names

theorem namePlans_members (names : namePlans aspect gen plans outputs = some named) :
    ∀ plan ∈ named, ∃ old ∈ plans, plan.members = old.members := by
  intro plan member
  obtain ⟨old, old_mem, _, _, -, rfl⟩ := namePlans_spec names plan member
  exact ⟨old, old_mem, rfl⟩

theorem named_start (bounded : ∀ aspect, Bounded db aspect) (ordinary : request ≠ .recovery)
    (started : start db request = some work) :
    ∃ own, Named db work own ∧
      ∀ {aspect batch fingerprint written},
        work ≠ .ingest aspect batch (some fingerprint) [] written := by
  rcases request with ⟨aspect, chunk⟩ | ⟨aspect, batch⟩ | ⟨aspect, plans⟩ | _
  · cases started
    exact ⟨aspect, ⟨rfl, by simp [Work.plans]⟩, by simp⟩
  · cases started
    exact ⟨aspect, ⟨rfl, by simp [Work.plans]⟩, by simp⟩
  · simp only [start] at started
    split at started
    · rename_i guard
      obtain ⟨prepared, all, rfl⟩ := map_eq_some_iff.mp started
      refine ⟨aspect, ⟨rfl, fun plan plan_mem member mem => ?_⟩, by simp⟩
      obtain ⟨⟨members, keep⟩, asked, built⟩ :=
        List.mem_map.mp (mem_of_allSome all plan plan_mem)
      rw [(preparePlan_spec built).1] at mem
      have found := List.all_eq_true.mp guard.2 _ asked
      simp only [Bool.and_eq_true, List.all_eq_true, decide_eq_true_eq] at found
      have row := IndexDb.mem_rows.mp (found.1 member mem)
      exact (bounded aspect).ids member (IndexDb.mem_stored.mpr row)
    · cases started
  · exact absurd rfl ordinary

theorem wantsLock_spec (wanted : wantsLock aspect work = true) (named : work.aspect = some own) :
    own = aspect ∧ work.queued = [] := by
  unfold wantsLock at wanted
  split at wanted
  · cases named
    exact ⟨(of_decide_eq_true wanted).1, rfl⟩
  · cases named
    exact ⟨(of_decide_eq_true wanted).1, rfl⟩
  · cases named
    exact ⟨of_decide_eq_true wanted, rfl⟩
  · cases named
    exact ⟨of_decide_eq_true wanted, rfl⟩
  · cases wanted
  · cases named

theorem retried_spec {kind : TxnErrorKind} {again : Work} (retry : retried kind work = some again) :
    again.aspect = work.aspect ∧ again.publishes = false ∧
      (∀ plan ∈ again.queued, plan ∈ work.queued) ∧ ∀ plan ∈ again.plans, plan ∈ work.plans := by
  unfold retried at retry
  split at retry
  · split at retry
    · cases retry
      have singles : ∀ plans : List PreparedPlan, (plans.map ([·])).flatten = plans := by
        intro plans
        rw [← List.flatMap_def, List.flatMap_singleton']
      refine ⟨rfl, rfl, ?_, ?_⟩ <;> simp [Work.queued, Work.plans, singles]
    · cases retry
  · cases retry
    refine ⟨rfl, rfl, ?_, ?_⟩
    · intro plan member
      simp only [Work.queued, List.flatten_cons, List.mem_append] at member ⊢
      exact .inr member
    · intro plan member
      simp only [Work.plans, List.flatten_cons, List.mem_append] at member ⊢
      tauto
  · cases retry

section Building

variable {catalog : Catalog} {db : IndexDb} {aspect : AspectName} {state last : AspectState}
  {publication : Publication} {continuation : Continuation}

theorem allocate_state {id : Nat} (allocated : state.allocate = some (id, last)) :
    last.epoch = state.epoch ∧ state.nextId ≤ last.nextId := by
  obtain ⟨_, next_id, epoch⟩ := AspectState.allocate_eq_some allocated
  exact ⟨epoch, by omega⟩

theorem publishSeal_state (db : IndexDb) (aspect : AspectName) (state : AspectState)
    (frame : WrittenSegment) :
    (publishSeal db aspect state frame).1.epoch = state.epoch ∧
      state.nextId ≤ (publishSeal db aspect state frame).1.nextId := by
  unfold publishSeal
  split
  · exact ⟨rfl, Nat.le_refl _⟩
  · rename_i allocated
    exact allocate_state allocated

theorem publishIngest_state (catalog : Catalog) (db : IndexDb) (aspect : AspectName)
    (state : AspectState) (batch : IngestBatch) (fingerprint : UInt64)
    (written : List WrittenSegment) (createdMs : Int) :
    (publishIngest catalog db aspect state batch fingerprint written createdMs).1.epoch =
        state.epoch ∧
      state.nextId ≤
        (publishIngest catalog db aspect state batch fingerprint written createdMs).1.nextId := by
  unfold publishIngest
  split
  · exact ⟨rfl, Nat.le_refl _⟩
  · exact ⟨rfl, Nat.le_refl _⟩
  · split
    · exact ⟨rfl, Nat.le_refl _⟩
    · have epoch := AspectState.allocateMany_epoch state written.length
      have ids := AspectState.allocateMany_nextId state written.length
      simp only
      split
      · rename_i next allocated
        rw [allocated] at epoch ids
        exact ⟨epoch, ids⟩
      · rename_i next handed allocated
        rw [allocated] at epoch ids
        exact ⟨epoch, ids⟩

theorem repair_state (db : IndexDb) (aspect : AspectName) (state : AspectState)
    (changed : List AspectName) (step : Repair) :
    (repair db aspect state changed step).1.epoch = state.epoch ∧
      state.nextId ≤ (repair db aspect state changed step).1.nextId := by
  cases step with
  | rebuild => exact ⟨rfl, Nat.le_refl _⟩
  | adopt name desc crc seriesKey clear =>
      simp only [repair, adoptOrphan]
      split
      · exact ⟨rfl, Nat.le_refl _⟩
      · rename_i allocated
        exact allocate_state allocated
  | rebind source row name crc seriesKey =>
      simp only [repair]
      split <;> exact ⟨rfl, Nat.le_refl _⟩

theorem prepared_state {step : Repair} {outcome : Prepared}
    (built : prepared catalog db aspect state step createdMs work = some (last, outcome)) :
    last.epoch = state.epoch ∧ state.nextId ≤ last.nextId := by
  unfold prepared at built
  split at built
  · rename_i frame
    have kept := publishSeal_state db aspect state frame
    split at built <;> rename_i published <;> cases built <;> rw [published] at kept <;> exact kept
  · rename_i batch fingerprint written
    have kept := publishIngest_state catalog db aspect state batch fingerprint written createdMs
    split at built <;> rename_i published <;> cases built <;> rw [published] at kept <;> exact kept
  · cases built
    exact ⟨rfl, Nat.le_refl _⟩
  · cases built
    exact ⟨rfl, Nat.le_refl _⟩
  · rename_i changed
    have kept := repair_state db aspect state changed step
    split at built
    · rename_i repaired
      rw [repaired] at kept
      cases built
      exact kept
    · cases built
  · cases built

/-- What is built from an allocator which is in step with the index fits the aspect. -/
theorem prepared_commit {step : Repair} (bounded : Bounded db aspect)
    (ids : db.nextIdOf aspect ≤ state.nextId) (epochs : state.epoch = db.epochOf aspect)
    (named : Named db work aspect) (fresh : HandedOut work state)
    (framed : ∀ {own batch fingerprint written},
      work = .ingest own batch (some fingerprint) [] written → written ≠ [])
    (built : prepared catalog db aspect state step createdMs work =
      some (last, .commit publication continuation)) :
    Builds aspect last publication ∧
      (work.publishes = true → Admitted db aspect publication) ∧
      Follows db aspect last continuation := by
  unfold prepared at built
  split at built
  · split at built
    · rename_i published
      cases built
      refine ⟨publishSeal_builds published,
        fun _ => publishSeal_admitted bounded ids epochs published, ?_⟩
      rintro later (goes_on | goes_on) <;> cases goes_on
    · cases built
  · split at built
    · rename_i published
      cases built
      refine ⟨publishIngest_builds (framed rfl) published,
        fun _ => publishIngest_admitted bounded ids epochs published, ?_⟩
      rintro later (goes_on | goes_on) <;> cases goes_on
    all_goals cases built
  · rename_i own plans
    cases built
    refine ⟨journalOutputs_builds, by simp [Work.publishes], ?_⟩
    rintro later (goes_on | goes_on)
    · cases goes_on
      exact ⟨named, by simp [HandedOut, Work.queued], rfl⟩
    · cases goes_on
  · rename_i own plans attempt later
    cases built
    refine ⟨commitPlans_builds ?_, by simp [Work.publishes], ?_⟩
    · intro plan plan_mem
      refine ⟨fun member mem => ?_, ?_⟩
      · have member_lt := named.2 plan (by simp [Work.plans, plan_mem]) member mem
        exact member_lt.trans_le ids
      · exact fresh plan (by simp [Work.queued, plan_mem])
    · intro work goes_on
      split at goes_on
      · rcases goes_on with goes_on | goes_on <;> cases goes_on
      · rcases goes_on with goes_on | goes_on
        · cases goes_on
        · cases goes_on
          refine ⟨⟨named.1, fun plan plan_mem => named.2 plan ?_⟩, fun plan plan_mem =>
            fresh plan ?_, rfl⟩
          · simp only [Work.plans, List.mem_append, List.flatten_cons] at plan_mem ⊢
            tauto
          · simp only [Work.queued, List.flatten_cons, List.mem_append] at plan_mem ⊢
            exact .inr plan_mem
  · cases named.1
  · cases built

theorem advanced_epoch (builds : Builds aspect state publication) :
    (advanced publication state).epoch = publication.epoch.getD state.epoch := by
  unfold advanced
  rcases builds.epoch with quiet | committed
  · rw [quiet]
    rfl
  · rw [committed]
    simp

@[simp]
theorem advanced_nextId (publication : Publication) (state : AspectState) :
    (advanced publication state).nextId = state.nextId := by
  unfold advanced
  split <;> rfl

end Building

namespace Sequenced

variable {store next : Store}
variable {id : TaskId} {last : AspectState} {held : AspectName} {continuation : Continuation}
  {publication : Publication} {catalog : Catalog}

theorem carry (sequenced : Sequenced store)
    (logged : next.db.hasChangeLog = store.db.hasChangeLog)
    (lasts : ∀ aspect, store.db.Lasts next.db aspect)
    (states : ∀ aspect, (next.locks aspect).state = (store.locks aspect).state)
    (kept : ∀ {other found}, next.tasks other = some found →
      store.tasks other = some found ∨ InStep store.db store.locks found)
    (attended : next.poisoned = false → store.poisoned = false ∧ ∀ aspect,
      ¬Outstanding next.tasks aspect → ¬Outstanding store.tasks aspect) : Sequenced next where
  logged := logged.trans sequenced.logged
  bounded aspect := bounded_lasts (sequenced.bounded aspect) (lasts aspect)
  ids := by
    intro aspect state seeded
    rw [states] at seeded
    rw [lasts_nextIdOf (lasts aspect)]
    exact sequenced.ids seeded
  epochs := by
    intro aspect state seeded healthy unnoticed
    rw [states] at seeded
    obtain ⟨healthy, attended⟩ := attended healthy
    rw [lasts_epochOf (lasts aspect)]
    exact sequenced.epochs seeded healthy (attended aspect unnoticed)
  tasks := by
    intro other task found
    have inStep := (kept found).elim sequenced.tasks fun inStep => inStep
    exact inStep.lasts (fun aspect => (lasts_nextIdOf (lasts aspect)).ge) fun held _ =>
      ⟨states held, lasts held⟩

theorem congr (sequenced : Sequenced store) (db : next.db = store.db)
    (states : ∀ aspect, (next.locks aspect).state = (store.locks aspect).state)
    (poisoned : next.poisoned = store.poisoned) (tasks : next.tasks = store.tasks) :
    Sequenced next :=
  sequenced.carry (db ▸ rfl) (fun _ => db ▸ (IndexDb.SameFor.refl _ _).lasts) states
    (fun found => .inl (tasks ▸ found)) fun healthy => ⟨poisoned ▸ healthy, fun _ => tasks ▸ id⟩

theorem update (sequenced : Sequenced store) (id : TaskId) (task : Option Task)
    (noticed : (store.tasks id).bind (·.stage.outstanding) = none)
    (inStep : ∀ found ∈ task, InStep store.db store.locks found)
    (db : next.db = store.db)
    (states : ∀ aspect, (next.locks aspect).state = (store.locks aspect).state)
    (poisoned : next.poisoned = store.poisoned)
    (tasks : next.tasks = Function.update store.tasks id task) : Sequenced next := by
  refine sequenced.carry (db ▸ rfl) (fun _ => db ▸ (IndexDb.SameFor.refl _ _).lasts) states
    (fun {other found} kept => ?_) fun healthy => ⟨poisoned ▸ healthy, ?_⟩
  · rw [tasks, Function.update_apply] at kept
    split at kept
    · exact .inr (inStep found kept)
    · exact .inl kept
  · rintro aspect unnoticed ⟨other, found_task, found, outstanding⟩
    refine unnoticed ⟨other, found_task, ?_, outstanding⟩
    rw [tasks, Function.update_of_ne]
    · exact found
    · rintro rfl
      rw [found, bind_some, outstanding] at noticed
      cases noticed

theorem setTask (sequenced : Sequenced store) {old : Task} (found : store.tasks id = some old)
    (noticed : old.stage.outstanding = none) (inStep : InStep store.db store.locks task) :
    Sequenced (store.setTask id task) := by
  refine sequenced.update id (some task) ?_ ?_ rfl (fun _ => rfl) rfl rfl
  · rw [found]
    exact noticed
  · rintro _ ⟨⟩
    exact inStep

theorem unlock_state (store : Store) (id : TaskId) (aspect : AspectName) :
    ((store.unlock id).locks aspect).state = (store.locks aspect).state := by
  rw [unlock_locks]
  split <;> rfl

section

variable (sequenced : Sequenced store)

include sequenced

theorem leave (noticed : (store.tasks id).bind (·.stage.outstanding) = none) :
    Sequenced (store.leave id) :=
  sequenced.update id none noticed (by simp) rfl (unlock_state store id) rfl rfl

theorem reply (work : Work) (result : Except StoreError IngestReceipt)
    (noticed : (store.tasks id).bind (·.stage.outstanding) = none) :
    Sequenced (store.reply id work result) := by
  rw [reply_eq]
  exact (sequenced.leave noticed).congr rfl (fun _ => rfl) rfl rfl

theorem poison (db : next.db = store.db)
    (states : ∀ aspect, (next.locks aspect).state = (store.locks aspect).state)
    (poisoned : next.poisoned = true) (tasks : next.tasks = Function.update store.tasks id none) :
    Sequenced next := by
  refine sequenced.carry (db ▸ rfl) (fun _ => db ▸ (IndexDb.SameFor.refl _ _).lasts) states
    (fun kept => .inl ?_) fun healthy => absurd (poisoned ▸ healthy) Bool.true_eq_false.mp
  rw [tasks, Function.update_apply] at kept
  split at kept
  · cases kept
  · exact kept

theorem allocateGens {count : Nat} (counted : store.allocateGens aspect count = some (next, gen)) :
    Sequenced next := by
  obtain ⟨db, tasks, poisoned, _, _, _, _, locks⟩ := allocateGens_frame counted
  exact sequenced.congr db (fun other => (locks other).2) poisoned tasks

theorem write {ops : List IndexOp} (applied : store.db.applyAll ops = .ok next.db)
    (lasts : ∀ aspect, store.db.Lasts next.db aspect)
    (states : ∀ aspect, (next.locks aspect).state = (store.locks aspect).state)
    (poisoned : next.poisoned = store.poisoned) (tasks : next.tasks = store.tasks) :
    Sequenced next :=
  sequenced.carry (IndexDb.applyAll_hasChangeLog applied) lasts states
    (fun found => .inl (tasks ▸ found)) fun healthy => ⟨poisoned ▸ healthy, fun _ => tasks ▸ id⟩

section

variable (discipline : Disciplined store) (found : store.tasks id = some ⟨work, .locked held⟩)
  (seeded : (store.locks held).state = some state)

include discipline found seeded

/-- The holder of a lock hands out ids. -/
theorem setState (epoch : last.epoch = state.epoch) (ids : state.nextId ≤ last.nextId) :
    Sequenced (store.setState held last) where
  logged := sequenced.logged
  bounded := sequenced.bounded
  ids := by
    intro aspect other other_seeded
    rw [setState_locks] at other_seeded
    split at other_seeded
    · rename_i same
      cases other_seeded
      rw [same]
      exact (sequenced.ids seeded).trans ids
    · exact sequenced.ids other_seeded
  epochs := by
    intro aspect other other_seeded healthy noticed
    rw [setState_locks] at other_seeded
    split at other_seeded
    · rename_i same
      cases other_seeded
      rw [epoch, same]
      rw [same] at noticed
      exact sequenced.epochs seeded healthy noticed
    · exact sequenced.epochs other_seeded healthy noticed
  tasks := by
    intro other task other_found
    change store.tasks other = some task at other_found
    have inStep := sequenced.tasks other_found
    by_cases same : task.stage.aspect = some held
    · have holder := discipline.holder found rfl
      rw [discipline.holder other_found same, some.injEq] at holder
      subst holder
      rw [found] at other_found
      cases other_found
      obtain ⟨own, named, own_held⟩ := inStep.named
      refine inStep_outside named own_held ?_ inStep.framed (.inr ⟨held, rfl⟩)
      rintro _ later ⟨⟩ later_seeded
      rw [setState_locks, if_pos rfl] at later_seeded
      cases later_seeded
      intro plan plan_mem fresh fresh_mem
      exact (inStep.fresh rfl seeded plan plan_mem fresh fresh_mem).trans_le ids
    · refine inStep.lasts (fun _ => Nat.le_refl _) fun other_held stage => ⟨?_, ?_⟩
      · rw [setState_locks, if_neg]
        rintro rfl
        exact same stage
      · exact (IndexDb.SameFor.refl _ _).lasts

/-- A task builds its transaction under the lock. -/
theorem prepare {step : Repair} (healthy : store.poisoned = false)
    (built : prepared catalog store.db held state step createdMs work =
      some (last, .commit publication continuation)) :
    Sequenced ((store.setState held last).setTask id
      ⟨work, .committing held publication continuation⟩) := by
  have inStep := sequenced.tasks found
  obtain ⟨own, named, own_held⟩ := inStep.named
  have same := own_held held rfl
  subst same
  have noticed : ¬Outstanding store.tasks held := by
    rintro ⟨other, task, other_found, outstanding⟩
    have stage : task.stage.aspect = some held := by
      unfold Stage.outstanding at outstanding
      split at outstanding
      · rename_i stage_eq
        split at outstanding
        · rw [stage_eq]
          exact outstanding
        · cases outstanding
      · cases outstanding
    have holder := discipline.holder found rfl
    rw [discipline.holder other_found stage, some.injEq] at holder
    subst holder
    rw [found] at other_found
    cases other_found
    cases outstanding
  have epochs := sequenced.epochs seeded healthy noticed
  obtain ⟨epoch, ids⟩ := prepared_state built
  obtain ⟨builds, admitted, follows⟩ := prepared_commit (sequenced.bounded held)
    (sequenced.ids seeded) epochs named (inStep.fresh rfl seeded) inStep.framed built
  have kept := sequenced.setState discipline found seeded epoch ids
  have own_state : ((store.setState held last).locks held).state = some last := by
    rw [setState_locks, if_pos rfl]
  refine kept.setTask found rfl ⟨⟨held, named, ?_⟩, ?_, inStep.framed, ?_, ?_⟩
  · rintro _ ⟨⟩
    rfl
  · rintro _ other ⟨⟩ other_seeded
    rw [own_state] at other_seeded
    cases other_seeded
    intro plan plan_mem fresh fresh_mem
    exact (inStep.fresh rfl seeded plan plan_mem fresh fresh_mem).trans_le ids
  · rintro _ _ _ ⟨⟩
    exact ⟨last, own_state, epoch.trans epochs, builds, admitted, follows⟩
  · rintro _ _ _ ⟨⟩

end

/-- A commit becomes durable. -/
theorem land (discipline : Disciplined store) {log : List Commit}
    (found : store.tasks id = some ⟨work, .committing aspect publication continuation⟩)
    (applied : store.db.applyAll publication.ops = .ok db) :
    Sequenced
      { store.setTask id ⟨work, .landed aspect publication continuation⟩ with db, log } := by
  have inStep := sequenced.tasks found
  obtain ⟨state, seeded, epoch, builds, admitted, follows⟩ := inStep.committing rfl
  obtain ⟨epoch_after, ids_after⟩ := builds.counters epoch applied
  have raised := fun other => IndexDb.raised_of_applyAll applied other
  have isolated : ∀ {other}, other ≠ aspect → store.db.SameFor db other := fun different =>
    IndexDb.sameFor_of_applyAll builds.within (Ne.symm different) applied
  constructor
  · exact (IndexDb.applyAll_hasChangeLog applied).trans sequenced.logged
  · intro other
    by_cases same : other = aspect
    · subst same
      exact builds.bounded (sequenced.bounded other) epoch applied
    · exact bounded_lasts (sequenced.bounded other) (isolated same).lasts
  · intro other other_state other_seeded
    by_cases same : other = aspect
    · subst same
      change (store.locks other).state = some other_state at other_seeded
      rw [seeded] at other_seeded
      cases other_seeded
      exact IndexDb.nextIdOf_le_of_applyAll applied (sequenced.ids seeded) builds.raised
    · simp only [(isolated same).nextIdOf]
      exact sequenced.ids other_seeded
  · intro other other_state other_seeded healthy noticed
    by_cases same : other = aspect
    · subst same
      change (store.locks other).state = some other_state at other_seeded
      rw [seeded] at other_seeded
      cases other_seeded
      have quiet : publication.epoch = none := by
        by_contra some_epoch
        refine noticed ⟨id, _, Function.update_self .., ?_⟩
        simp [Stage.outstanding, isSome_iff_ne_none, some_epoch]
      change state.epoch = db.epochOf other
      rw [epoch_after, quiet, getD_none]
    · change other_state.epoch = db.epochOf other
      rw [(isolated same).epochOf]
      refine sequenced.epochs other_seeded healthy ?_
      rintro ⟨owner, task, task_found, outstanding⟩
      refine noticed ⟨owner, task, ?_, outstanding⟩
      change Function.update store.tasks id _ owner = some task
      rw [Function.update_of_ne, task_found]
      rintro rfl
      rw [found] at task_found
      cases task_found
      cases outstanding
  · intro other task other_found
    change Function.update store.tasks id _ other = some task at other_found
    rw [Function.update_apply] at other_found
    split at other_found
    · cases other_found
      obtain ⟨own, named, own_held⟩ := inStep.named
      refine ⟨⟨own, named.mono (raised own).nextId, own_held⟩, inStep.fresh, inStep.framed,
        by simp, ?_⟩
      rintro _ _ _ ⟨⟩
      refine ⟨state, seeded, ?_, follows.mono (raised aspect).nextId⟩
      rw [advanced_epoch builds]
      exact epoch_after.symm
    · rename_i different
      refine (sequenced.tasks other_found).lasts (fun other => (raised other).nextId)
        fun held stage => ⟨rfl, (isolated ?_).lasts⟩
      rintro rfl
      have holder := discipline.holder found rfl
      rw [discipline.holder other_found stage, some.injEq] at holder
      exact different holder

/-- The caller learns that its commit is durable, and goes on with the task or returns. -/
theorem settle (task : Option Task) (discipline : Disciplined store)
    (found : store.tasks id = some ⟨work, .landed aspect publication continuation⟩)
    (inStep : ∀ later ∈ task, InStep store.db next.locks later) (db : next.db = store.db)
    (states : ∀ other,
      (next.locks other).state = ((store.settled aspect publication).locks other).state)
    (poisoned : next.poisoned = store.poisoned)
    (tasks : next.tasks = Function.update store.tasks id task) : Sequenced next := by
  obtain ⟨state, seeded, epoch, -⟩ := (sequenced.tasks found).landed rfl
  have own_state : (next.locks aspect).state = some (advanced publication state) := by
    rw [states, settled, setLock_locks, if_pos rfl, seeded]
    rfl
  have other_state : ∀ {other}, other ≠ aspect →
      (next.locks other).state = (store.locks other).state := by
    intro other different
    rw [states, settled, setLock_locks, if_neg different]
  constructor
  · rw [db]
    exact sequenced.logged
  · rw [db]
    exact sequenced.bounded
  · intro other last last_seeded
    rw [db]
    by_cases same : other = aspect
    · subst same
      rw [own_state, some.injEq] at last_seeded
      rw [← last_seeded, advanced_nextId]
      exact sequenced.ids seeded
    · rw [other_state same] at last_seeded
      exact sequenced.ids last_seeded
  · intro other last last_seeded healthy noticed
    rw [db]
    by_cases same : other = aspect
    · subst same
      rw [own_state, some.injEq] at last_seeded
      rw [← last_seeded]
      exact epoch
    · rw [other_state same] at last_seeded
      rw [poisoned] at healthy
      refine sequenced.epochs last_seeded healthy ?_
      rintro ⟨owner, owned, owned_found, outstanding⟩
      refine noticed ⟨owner, owned, ?_, outstanding⟩
      rw [tasks, Function.update_of_ne, owned_found]
      rintro rfl
      rw [found] at owned_found
      cases owned_found
      simp only [Stage.outstanding] at outstanding
      split at outstanding
      · exact same (some.inj outstanding).symm
      · cases outstanding
  · intro other owned owned_found
    rw [tasks, Function.update_apply] at owned_found
    rw [db]
    split at owned_found
    · exact inStep owned owned_found
    · rename_i different
      refine (sequenced.tasks owned_found).lasts (fun _ => Nat.le_refl _)
        fun held stage => ⟨other_state ?_, (IndexDb.SameFor.refl _ _).lasts⟩
      rintro rfl
      have holder := discipline.holder found rfl
      rw [discipline.holder owned_found stage, some.injEq] at holder
      exact different holder

/-- A task takes the commit lock of its aspect, and the allocator is seeded. -/
theorem enter (discipline : Disciplined store) {names : List FrameName}
    (found : store.tasks id = some ⟨work, .running⟩) (wanted : wantsLock aspect work = true)
    (free : (store.locks aspect).holder = none) {lock : AspectLock}
    (seeded : lock.state =
      some ((store.locks aspect).state.getD (seedAllocator store.db names aspect))) :
    Sequenced ((store.setLock aspect lock).setTask id ⟨work, .locked aspect⟩) := by
  have inStep := sequenced.tasks found
  obtain ⟨own, named, -⟩ := inStep.named
  obtain ⟨rfl, queued⟩ := wantsLock_spec wanted named.1
  have outside : ∀ {other task}, store.tasks other = some task → task.stage.aspect ≠ some own := by
    intro other task other_found stage
    rw [discipline.holder other_found stage] at free
    cases free
  have locked : Sequenced (store.setLock own lock) := by
    constructor
    · exact sequenced.logged
    · exact sequenced.bounded
    · intro other state other_seeded
      rw [setLock_locks] at other_seeded
      split at other_seeded
      · rename_i same
        subst same
        rw [seeded, some.injEq] at other_seeded
        cases before : (store.locks other).state with
        | none =>
            rw [before] at other_seeded
            rw [← other_seeded]
            exact (Nat.le_max_left _ _).trans (Nat.le_max_left _ _)
        | some state =>
            rw [before] at other_seeded
            rw [← other_seeded]
            exact sequenced.ids before
      · exact sequenced.ids other_seeded
    · intro other state other_seeded healthy noticed
      rw [setLock_locks] at other_seeded
      split at other_seeded
      · rename_i same
        subst same
        rw [seeded, some.injEq] at other_seeded
        cases before : (store.locks other).state with
        | none =>
            rw [before] at other_seeded
            rw [← other_seeded]
            rfl
        | some state =>
            rw [before] at other_seeded
            rw [← other_seeded]
            exact sequenced.epochs before healthy noticed
      · exact sequenced.epochs other_seeded healthy noticed
    · intro other task other_found
      refine (sequenced.tasks other_found).lasts (fun _ => Nat.le_refl _)
        fun held stage => ⟨?_, (IndexDb.SameFor.refl _ _).lasts⟩
      rw [setLock_locks, if_neg]
      rintro rfl
      exact outside other_found stage
  refine locked.setTask found rfl (inStep_outside named ?_ ?_ inStep.framed (.inr ⟨own, rfl⟩))
  · rintro _ ⟨⟩
    rfl
  · intro held state _ _
    simp [HandedOut, queued]

theorem crash (frames quarantined : List FrameName) :
    Sequenced (store.crash frames quarantined) where
  logged := sequenced.logged
  bounded := sequenced.bounded
  ids := by simp [Store.crash, opened]
  epochs := by simp [Store.crash, opened]
  tasks := by simp [Store.crash, opened]

theorem call (discipline : Disciplined store) (ordinary : request ≠ .recovery)
    (started : start store.db request = some work) :
    Sequenced { store.setTask store.nextTask ⟨work, .running⟩ with
      nextTask := store.nextTask + 1 } := by
  obtain ⟨own, named, framed⟩ := named_start sequenced.bounded ordinary started
  refine sequenced.update store.nextTask (some ⟨work, .running⟩) ?_ ?_ rfl
    (fun _ => rfl) rfl rfl
  · cases found : store.tasks store.nextTask with
    | none => rfl
    | some task => exact absurd (discipline.live found) (Nat.lt_irrefl _)
  · rintro _ ⟨⟩
    exact inStep_running named fun ingests => absurd ingests framed

end

theorem noticed_of_found (found : store.tasks id = some task)
    (noticed : task.stage.outstanding = none) :
    (store.tasks id).bind (·.stage.outstanding) = none := by
  rw [found]
  exact noticed

theorem inStep_again (sequenced : Sequenced store) {again : Work}
    (found : store.tasks id = some ⟨work, .running⟩) (aspect : again.aspect = work.aspect)
    (plans : ∀ plan ∈ again.plans, ∃ old ∈ work.plans, plan.members = old.members)
    (framed : ∀ {own batch fingerprint written},
      again = .ingest own batch (some fingerprint) [] written → written ≠ []) :
    InStep store.db store.locks ⟨again, .running⟩ := by
  obtain ⟨own, named, -⟩ := (sequenced.tasks found).named
  refine inStep_running ⟨aspect.trans named.1, fun plan plan_mem member mem => ?_⟩ framed
  obtain ⟨old, old_mem, same⟩ := plans plan plan_mem
  rw [same] at mem
  exact named.2 old old_mem member mem

/-- Every step which drops no durable commit keeps the memory in step. -/
theorem step {before after : Store} {action : Action} (sequenced : Sequenced before)
    (discipline : Disciplined before) (ordinary : action ≠ .call .recovery)
    (attended : Attended before action) (stepped : Stepped catalog before action after) :
    Sequenced after := by
  cases stepped with
  | call started =>
      refine sequenced.call discipline ?_ started
      rintro rfl
      exact ordinary rfl
  | checkPoisoned found poisoned => exact sequenced.reply _ _ (noticed_of_found found rfl)
  | checkRefused found admission => exact sequenced.reply _ _ (noticed_of_found found rfl)
  | checkReplayed found admission => exact sequenced.reply _ _ (noticed_of_found found rfl)
  | checkAdmitted found admission chunked =>
      refine sequenced.setTask found rfl
        (sequenced.inStep_again found rfl (by simp [Work.plans]) ?_)
      rintro _ _ _ _ ⟨⟩
      exact absurd rfl chunked
  | writeSeal found counted =>
      obtain ⟨_, tasks, _⟩ := allocateGens_frame counted
      have counted_sequenced := sequenced.allocateGens counted
      rw [← tasks] at found
      refine counted_sequenced.update _ _ (noticed_of_found found rfl) ?_ rfl (fun _ => rfl) rfl rfl
      rintro _ ⟨⟩
      exact counted_sequenced.inStep_again found rfl (by simp [Work.plans]) (by simp)
  | writeIngest found counted =>
      obtain ⟨_, tasks, _⟩ := allocateGens_frame counted
      have counted_sequenced := sequenced.allocateGens counted
      rw [← tasks] at found
      refine counted_sequenced.update _ _ (noticed_of_found found rfl) ?_ rfl (fun _ => rfl) rfl rfl
      rintro _ ⟨⟩
      refine counted_sequenced.inStep_again found rfl (by simp [Work.plans]) ?_
      rintro _ _ _ _ ⟨⟩
      simp
  | planWithout found names =>
      exact sequenced.setTask found rfl
        (sequenced.inStep_again found rfl (namePlans_members names) (by simp))
  | planNamed found counted names =>
      obtain ⟨_, tasks, _⟩ := allocateGens_frame counted
      have counted_sequenced := sequenced.allocateGens counted
      rw [← tasks] at found
      exact counted_sequenced.setTask found rfl
        (counted_sequenced.inStep_again found rfl (namePlans_members names) (by simp))
  | writeOutput found =>
      refine sequenced.update _ _ (noticed_of_found found rfl) ?_ rfl (fun _ => rfl) rfl rfl
      rintro _ ⟨⟩
      refine sequenced.inStep_again found rfl (fun plan member => ⟨plan, ?_, rfl⟩) (by simp)
      split at member <;> exact member
  | enter found wanted free =>
      exact (sequenced.enter discipline found wanted free rfl).congr rfl (fun _ => rfl) rfl rfl
  | @allocateNone _ aspect _ plans state found seeded none_ready =>
      obtain ⟨epoch, ids, -⟩ := allocatePlans_spec (before.db.rows aspect) state plans
      exact (sequenced.setState discipline found seeded epoch ids).leave
        (noticed_of_found found rfl)
  | @allocateReady _ aspect held plans state found seeded =>
      obtain ⟨epoch, ids, ready⟩ := allocatePlans_spec (before.db.rows aspect) state plans
      obtain ⟨own, named, own_held⟩ := (sequenced.tasks found).named
      refine (sequenced.setState discipline found seeded epoch ids).setTask found rfl
        (inStep_outside ⟨named.1, ?_⟩ own_held ?_ (by simp) (.inr ⟨held, rfl⟩))
      · intro plan plan_mem member mem
        simp only [Work.plans, List.flatten_cons, List.flatten_nil, List.append_nil,
          List.mem_append] at plan_mem
        rcases plan_mem with plan_mem | plan_mem
        · exact named.2 plan plan_mem member mem
        · obtain ⟨⟨old, old_mem, same⟩, -⟩ := ready plan plan_mem
          rw [congrArg PreparedPlan.members same] at mem
          exact named.2 old old_mem member mem
      · rintro _ last ⟨⟩ last_seeded
        rw [setState_locks, if_pos rfl] at last_seeded
        cases last_seeded
        intro plan plan_mem
        simp only [Work.queued, List.flatten_cons, List.flatten_nil, List.append_nil] at plan_mem
        exact (ready plan plan_mem).2
  | @prepareCommit _ _ _ work _ _ _ _ _ found seeded built readable healthy =>
      rcases healthy with healthy | unguarded
      · exact sequenced.prepare discipline found seeded healthy built
      · obtain ⟨own, named, -⟩ := (sequenced.tasks found).named
        cases work with
        | recovery changed => cases named.1
        | _ => cases unguarded
  | preparePoisoned found seeded built readable poisoned guarded =>
      obtain ⟨epoch, ids⟩ := prepared_state built
      exact (sequenced.setState discipline found seeded epoch ids).reply _ _
        (noticed_of_found found rfl)
  | prepareAnswer found seeded built readable =>
      obtain ⟨epoch, ids⟩ := prepared_state built
      exact ((sequenced.setState discipline found seeded epoch ids).reply _ _
        (noticed_of_found found rfl)).congr rfl (fun _ => rfl) rfl rfl
  | land found applied => exact sequenced.land discipline found applied
  | settleReceipt found =>
      rw [reply_eq]
      exact sequenced.settle none discipline found (by simp) rfl (unlock_state _ _) rfl
        rfl
  | settleDone found =>
      exact sequenced.settle none discipline found (by simp) rfl (unlock_state _ _) rfl
        rfl
  | settleResume found =>
      refine sequenced.settle _ discipline found ?_ rfl (unlock_state _ _) rfl rfl
      rintro _ ⟨⟩
      obtain ⟨_, _, _, follows⟩ := (sequenced.tasks found).landed rfl
      obtain ⟨named, -, quiet⟩ := follows _ (.inl rfl)
      refine inStep_running named ?_
      rintro _ _ _ _ rfl
      cases quiet
  | @settleRetain _ _ aspect _ retained found =>
      refine sequenced.settle _ discipline found ?_ rfl (fun _ => rfl) rfl rfl
      rintro _ ⟨⟩
      obtain ⟨state, seeded, -, follows⟩ := (sequenced.tasks found).landed rfl
      obtain ⟨named, handed, quiet⟩ := follows _ (.inr rfl)
      refine inStep_outside named (by rintro _ ⟨⟩; rfl) ?_ ?_ (.inr ⟨aspect, rfl⟩)
      · rintro _ last ⟨⟩ last_seeded
        simp only [setTask_frame, settled, setLock_locks, if_true, seeded] at last_seeded
        cases last_seeded
        simpa [HandedOut] using handed
      · rintro _ _ _ _ rfl
        cases quiet
  | @refuseRetry _ _ _ _ aspect _ _ found retry =>
      have inStep := sequenced.tasks found
      obtain ⟨own, named, own_held⟩ := inStep.named
      obtain ⟨same, quiet, queued, plans⟩ := retried_spec retry
      refine sequenced.setTask found rfl (inStep_outside
        ⟨same.trans named.1, fun plan mem => named.2 plan (plans plan mem)⟩ own_held ?_ ?_
        (.inr ⟨aspect, rfl⟩))
      · intro held state stage seeded plan mem
        exact inStep.fresh stage seeded plan (queued plan mem)
      · rintro _ _ _ _ rfl
        cases quiet
  | refuseFail found final => exact sequenced.reply _ _ (noticed_of_found found rfl)
  | ambiguous found pending =>
      rw [reply_eq]
      exact sequenced.poison rfl (unlock_state _ _) rfl rfl
  | fault found uncommitted =>
      refine sequenced.reply _ _ (noticed_of_found found ?_)
      unfold Stage.outstanding
      split
      · rename_i landed
        exact absurd landed (uncommitted _ _ _)
      · rfl
  | drop found => exact sequenced.leave (attended _ rfl)
  | recover found healthy readable built applied =>
      obtain ⟨own, named, -⟩ := (sequenced.tasks found).named
      cases named.1
  | finishRecovery found => exact sequenced.leave (noticed_of_found found rfl)
  | reap healthy free applied =>
      refine sequenced.write applied (IndexDb.lasts_of_applyAll applied ?_) (fun _ => rfl) rfl rfl
      intro op member
      obtain ⟨name, -, rfl⟩ := List.mem_map.mp member
      exact .inl ⟨name, rfl⟩
  | consume => exact sequenced.congr rfl (fun _ => rfl) rfl rfl
  | acknowledgeNothing nothing => exact sequenced.congr rfl (fun _ => rfl) rfl rfl
  | acknowledge healthy applied =>
      refine sequenced.write applied (IndexDb.lasts_of_applyAll applied ?_) (fun _ => rfl) rfl rfl
      intro op member
      exact .inr ⟨_, _, List.mem_singleton.mp member⟩
  | forget => exact sequenced.congr rfl (fun _ => rfl) rfl rfl
  | crash => exact sequenced.crash _ _

end Sequenced

end Store

end WeftDb
