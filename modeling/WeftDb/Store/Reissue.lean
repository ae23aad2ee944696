import WeftDb.Store.Marking

/-!
# Ids and generations are not handed out again

While a process runs, its counters only rise, and a restart seeds them past everything which the
index holds and every file on disk.  So whatever a process hands out is new: neither a row nor a
journaled or quarantined frame holds it, no file on disk carries it, no commit of the past brought
it, and the process has not handed it out before.
-/

namespace WeftDb

open Option

section Seeds

variable {names : List FrameName} {mark : Mark}

theorem lt_past_of_fileMarks_id (held : mark ∈ names.flatMap FrameName.fileMarks)
    (counter : mark.counter = .id) : mark.value < past (legacyFileId names mark.aspect) := by
  obtain ⟨name, member, held⟩ := List.mem_flatMap.mp held
  cases name with
  | writeOnce stem gen prec =>
      obtain ⟨aspect, -, rfl⟩ := List.mem_map.mp held
      cases counter
  | legacy own id =>
      rw [FrameName.fileMarks, List.mem_singleton] at held
      subst held
      exact lt_past_legacyFileId member
  | other text => cases held

theorem lt_past_of_fileMarks_gen (held : mark ∈ names.flatMap FrameName.fileMarks)
    (counter : mark.counter = .gen) :
    mark.value < past (frameGenOnDisk names (stem mark.aspect)) := by
  obtain ⟨name, member, held⟩ := List.mem_flatMap.mp held
  cases name with
  | writeOnce own gen prec =>
      obtain ⟨aspect, named, rfl⟩ := List.mem_map.mp held
      obtain ⟨gen', prec', same⟩ := FrameName.eq_frameName (mem_toList.mp named)
      rw [frameName, FrameName.writeOnce.injEq] at same
      rw [same.1] at member
      exact lt_past_frameGenOnDisk member
  | legacy own id =>
      rw [FrameName.fileMarks, List.mem_singleton] at held
      subst held
      cases counter
  | other text => cases held

end Seeds

namespace Store

variable {aspect : AspectName} {lock : AspectLock} {state later : AspectState} {gen : Nat}

section Memory

variable {store next : Store} {mark : Mark}

theorem memory_id (store : Store) (aspect : AspectName) (value : Nat) :
    store.memory ⟨aspect, .id, value⟩ = (store.locks aspect).state.map (·.nextId) := by
  rfl

theorem memory_gen (store : Store) (aspect : AspectName) (value : Nat) :
    store.memory ⟨aspect, .gen, value⟩ = (store.locks aspect).nextGen := by
  rfl

theorem memory_congr
    (states : ∀ aspect, (next.locks aspect).state.map (·.nextId) =
      (store.locks aspect).state.map (·.nextId))
    (gens : ∀ aspect, (next.locks aspect).nextGen = (store.locks aspect).nextGen) (mark : Mark) :
    next.memory mark = store.memory mark := by
  obtain ⟨aspect, counter, value⟩ := mark
  cases counter with
  | id => exact states aspect
  | gen => exact gens aspect

theorem memory_unlock (store : Store) (id : TaskId) (mark : Mark) :
    (store.unlock id).memory mark = store.memory mark := by
  refine memory_congr (fun aspect => ?_) (fun aspect => ?_) mark <;>
    rw [unlock_locks] <;> split <;> rfl

theorem memory_settled (store : Store) (aspect : AspectName) (publication : Publication)
    (mark : Mark) : (store.settled aspect publication).memory mark = store.memory mark := by
  refine memory_congr (fun other => ?_) (fun other => ?_) mark <;>
    rw [settled, setLock_locks] <;> split
  · rename_i same
    subst same
    simp [map_map, Function.comp_def]
  · rfl
  · rename_i same
    subst same
    rfl
  · rfl

theorem mem_listed_of_fileMarks (held : mark ∈ store.fileMarks) :
    (mark.counter = .id → mark ∈ store.frames.flatMap FrameName.fileMarks) ∧
      mark ∈ (store.frames ++ store.quarantined).flatMap FrameName.fileMarks := by
  rw [List.flatMap_append, List.mem_append]
  rcases List.mem_append.mp held with held | held
  · exact ⟨fun _ => held, .inl held⟩
  · obtain ⟨held, gen⟩ := List.mem_filter.mp held
    refine ⟨fun id => ?_, .inr held⟩
    rw [of_decide_eq_true gen] at id
    cases id

/-- A counter may stay, rise, or be seeded past what is persisted and past the files. -/
structure Moves (store : Store) (mark : Mark) (later : Option Nat) : Prop where
  kept : ∀ {limit}, store.memory mark = some limit → ∃ raised, later = some raised ∧ limit ≤ raised
  seeded : ∀ {limit}, store.memory mark = none → later = some limit →
    store.db.counterOf mark ≤ limit ∧ (mark ∈ store.fileMarks → mark.value < limit)

theorem Moves.refl (store : Store) (mark : Mark) : Moves store mark (store.memory mark) :=
  ⟨fun found => ⟨_, found, Nat.le_refl _⟩, fun missing found => by simp [missing] at found⟩

theorem onward_of_lock (db : next.db = store.db)
    (locks : next.locks = Function.update store.locks aspect lock)
    (ids : ∀ value, Moves store ⟨aspect, .id, value⟩ (lock.state.map (·.nextId)))
    (gens : ∀ value, Moves store ⟨aspect, .gen, value⟩ lock.nextGen) : Onward store next := by
  have moves : ∀ mark, Moves store mark (next.memory mark) := by
    rintro ⟨other, counter, value⟩
    by_cases same : other = aspect
    · subst same
      cases counter with
      | id =>
          rw [memory_id, locks, Function.update_self]
          exact ids value
      | gen =>
          rw [memory_gen, locks, Function.update_self]
          exact gens value
    · have kept : next.locks other = store.locks other := by rw [locks, Function.update_of_ne same]
      have memory : next.memory ⟨other, counter, value⟩ = store.memory ⟨other, counter, value⟩ := by
        cases counter <;> simp only [memory_id, memory_gen, kept]
      rw [memory]
      exact .refl store _
  exact ⟨fun mark => db ▸ Nat.le_refl _, (moves _).kept, (moves _).seeded⟩

theorem onward_enter (known : FilesKnown store)
    (seeded : lock.state = some ((store.locks aspect).state.getD
      (seedAllocator store.db (store.legacyNames.getD store.frames) aspect)))
    (gens : lock.nextGen = (store.locks aspect).nextGen) (db : next.db = store.db)
    (locks : next.locks = Function.update store.locks aspect lock) : Onward store next := by
  refine onward_of_lock db locks (fun value => ?_) fun value => gens ▸ .refl store _
  cases memory : (store.locks aspect).state with
  | some state =>
      have same : lock.state.map (·.nextId) = store.memory ⟨aspect, .id, value⟩ := by
        rw [memory_id, seeded, memory]
        rfl
      rw [same]
      exact .refl store _
  | none =>
      have unseeded : store.memory ⟨aspect, .id, value⟩ = none := by
        rw [memory_id, memory]
        rfl
      refine ⟨fun found => ?_, fun _ found => ?_⟩
      · rw [unseeded] at found
        cases found
      rw [seeded, memory] at found
      cases found
      have persisted : store.db.nextIdOf aspect ≤ (seedAllocator store.db
          (store.legacyNames.getD store.frames) aspect).nextId :=
        (Nat.le_max_left _ _).trans (Nat.le_max_left _ _)
      have named : past (legacyFileId (store.legacyNames.getD store.frames) aspect) ≤
          (seedAllocator store.db (store.legacyNames.getD store.frames) aspect).nextId :=
        Nat.le_max_right _ _
      refine ⟨persisted, fun held => ?_⟩
      obtain ⟨inFrames, -⟩ := mem_listed_of_fileMarks held
      cases listed : store.legacyNames with
      | none =>
          rw [listed] at named
          exact (lt_past_of_fileMarks_id (inFrames rfl) rfl).trans_le named
      | some names =>
          rw [listed] at named persisted
          rcases (known _ held).2 unseeded names listed with file | low
          · exact (lt_past_of_fileMarks_id file rfl).trans_le named
          · exact Nat.lt_of_lt_of_le low persisted

/-- Where an aspect hands out its next generation. -/
def firstGen (store : Store) (aspect : AspectName) : Nat :=
  ((store.locks aspect).nextGen).getD
    (seedGen store.db (store.frameNames.getD (store.frames ++ store.quarantined)) aspect)

theorem allocateGens_spec {count : Nat}
    (counted : store.allocateGens aspect count = some (next, gen)) :
    gen = store.firstGen aspect ∧
      next.locks = Function.update store.locks aspect
        { store.locks aspect with nextGen := some (gen + count) } ∧
      next.issuedGens = store.issuedGens ++ (List.range' gen count).map (fun gen => (aspect, gen)) ∧
      next.issuedIds = store.issuedIds ∧ next.db = store.db ∧ next.frames = store.frames ∧
      next.quarantined = store.quarantined ∧ next.legacyNames = store.legacyNames ∧
      next.frameNames = (if ((store.locks aspect).nextGen).isSome then store.frameNames
        else some (store.frameNames.getD (store.frames ++ store.quarantined))) ∧
      next.log = store.log ∧ next.tasks = store.tasks := by
  unfold allocateGens at counted
  simp only at counted
  split at counted
  · cases counted
    exact ⟨rfl, rfl, rfl, rfl, rfl, rfl, rfl, rfl, rfl, rfl, rfl⟩
  · cases counted

theorem firstGen_spec (known : FilesKnown store) (aspect : AspectName) :
    ((store.locks aspect).nextGen = some (store.firstGen aspect)) ∨
      (store.locks aspect).nextGen = none ∧ 0 < store.firstGen aspect ∧
        store.db.nextGenOf aspect ≤ store.firstGen aspect ∧
        ∀ value, ⟨aspect, .gen, value⟩ ∈ store.fileMarks → value < store.firstGen aspect := by
  cases memory : (store.locks aspect).nextGen with
  | some gen =>
      refine .inl ?_
      simp [firstGen, memory]
  | none =>
      have seed : store.firstGen aspect = seedGen store.db
          (store.frameNames.getD (store.frames ++ store.quarantined)) aspect := by
        simp [firstGen, memory]
      have persisted : store.db.nextGenOf aspect ≤ store.firstGen aspect := by
        rw [seed]
        exact (Nat.le_max_left _ _).trans ((Nat.le_max_left _ _).trans (Nat.le_max_left _ _))
      have positive : 0 < store.firstGen aspect := by
        rw [seed]
        exact Nat.lt_of_lt_of_le Nat.zero_lt_one (Nat.le_max_right _ _)
      have named : past (frameGenOnDisk (store.frameNames.getD (store.frames ++ store.quarantined))
          (stem aspect)) ≤ store.firstGen aspect := by
        rw [seed]
        exact (Nat.le_max_right _ _).trans (Nat.le_max_left _ _)
      refine .inr ⟨rfl, positive, persisted, fun value held => ?_⟩
      cases listed : store.frameNames with
      | none =>
          rw [listed] at named
          exact (lt_past_of_fileMarks_gen (mem_listed_of_fileMarks held).2 rfl).trans_le named
      | some names =>
          rw [listed] at named
          rcases (known _ held).2 memory names listed with file | low
          · exact (lt_past_of_fileMarks_gen file rfl).trans_le named
          · refine Nat.lt_of_lt_of_le low (max_le persisted positive)

theorem onward_allocateGens (known : FilesKnown store) {count : Nat}
    (counted : store.allocateGens aspect count = some (next, gen)) : Onward store next := by
  obtain ⟨gen_eq, locks, -, -, db, -⟩ := allocateGens_spec counted
  refine onward_of_lock db locks (fun value => .refl store _) fun value => ?_
  rcases firstGen_spec known aspect with seeded | ⟨missing, positive, persisted, files⟩
  · refine ⟨fun found => ⟨_, rfl, ?_⟩, fun unseeded => ?_⟩
    · rw [memory_gen, seeded, some.injEq] at found
      omega
    · rw [memory_gen, seeded] at unseeded
      cases unseeded
  · refine ⟨fun found => ?_, fun _ found => ?_⟩
    · rw [memory_gen, missing] at found
      cases found
    · cases found
      rw [gen_eq]
      refine ⟨(max_le persisted positive).trans (Nat.le_add_right _ _), fun held => ?_⟩
      exact (files value held).trans_le (Nat.le_add_right _ _)

theorem onward_setState (seeded : (store.locks aspect).state = some state)
    (le : state.nextId ≤ later.nextId) : Onward store (store.setState aspect later) := by
  refine onward_of_lock rfl rfl (fun value => ?_) fun value => .refl store _
  refine ⟨fun found => ⟨_, rfl, ?_⟩, fun unseeded => ?_⟩
  · rw [memory_id, seeded] at found
    cases found
    exact le
  · rw [memory_id, seeded] at unseeded
    cases unseeded

end Memory

/-- Everything which holds a mark holds one that is not handed out again, and every task's marks
were handed out. -/
structure Marking (store : Store) : Prop where
  held : ∀ mark ∈ store.db.marks, Spent store mark
  logged : ∀ commit ∈ store.log, ∀ op ∈ commit.publication.ops, ∀ mark ∈ op.marks,
    Spent store mark
  files : FilesKnown store
  positive : ∀ {aspect limit}, (store.locks aspect).nextGen = some limit → 0 < limit
  tasks : ∀ {id task}, store.tasks id = some task → TaskMarked store task

/-- A frame which a pending commit adopts stays on disk, unless the counters are past it. -/
def KeepsAdopted (store next : Store) : Prop :=
  ∀ name, Adopting store name → name ∈ store.frames ++ store.quarantined →
    name ∈ next.frames ++ next.quarantined ∨ ∀ mark ∈ name.fileMarks, store.memory mark ≠ none

section Marking

variable {store next : Store}
variable {id : TaskId} {ops : List IndexOp} {commit : Commit} {continuation : Continuation}
  {publication : Publication} {work : Work}

theorem FilesKnown.mono (known : FilesKnown store) (onward : Onward store next)
    (files : ∀ mark ∈ next.fileMarks,
      mark ∈ store.fileMarks ∨ Passed next mark ∨ Spent next mark)
    (listed : ∀ mark ∈ next.fileMarks, next.memory mark = none →
      ∀ names ∈ next.listed mark.counter,
        names ∈ store.listed mark.counter ∨ mark ∈ names.flatMap FrameName.fileMarks) :
    FilesKnown next := by
  intro mark held
  rcases files mark held with old | ⟨limit, found, low⟩ | spent
  · obtain ⟨below, seedable⟩ := known mark old
    constructor
    · intro limit found
      cases earlier : store.memory mark with
      | none => exact (onward.seeded earlier found).2 old
      | some low =>
          obtain ⟨later, same, le⟩ := onward.kept earlier
          rw [mem_def, same] at found
          cases found
          exact (below low earlier).trans_le le
    · intro unseeded names found
      have earlier : store.memory mark = none := by
        cases earlier : store.memory mark with
        | none => rfl
        | some low =>
            obtain ⟨later, same, -⟩ := onward.kept earlier
            rw [unseeded] at same
            cases same
      rcases listed mark held unseeded names found with same | file
      · exact (seedable earlier names same).imp_right fun low => low.trans_le (onward.raised mark)
      · exact .inl file
  · refine ⟨fun other same => ?_, fun unseeded => ?_⟩
    · rw [mem_def, mem_def.mp found] at same
      cases same
      exact low
    · rw [mem_def.mp found] at unseeded
      cases unseeded
  · exact ⟨spent.2, fun _ _ _ => .inr spent.1⟩

theorem Marking.goesOn (marking : Marking store) (onward : Onward store next)
    (held : ∀ mark ∈ next.db.marks, mark ∈ store.db.marks ∨ Spent next mark)
    (logged : ∀ commit ∈ next.log, commit ∈ store.log ∨
      ∀ op ∈ commit.publication.ops, ∀ mark ∈ op.marks, Spent next mark)
    (files : FilesKnown next)
    (positive : ∀ {aspect limit}, (next.locks aspect).nextGen = some limit → 0 < limit)
    (kept : KeepsAdopted store next)
    (tasks : ∀ {id task}, next.tasks id = some task →
      store.tasks id = some task ∨ TaskMarked next task) : Marking next where
  held mark member := (held mark member).elim
    (fun old => (marking.held mark old).mono onward) fun spent => spent
  logged commit member op op_mem mark brought := (logged commit member).elim
    (fun old => (marking.logged commit old op op_mem mark brought).mono onward)
    fun spent => spent op op_mem mark brought
  files := files
  positive := positive
  tasks := by
    intro id task found
    rcases tasks found with old | marked
    · refine (marking.tasks old).mono onward fun stage name adopted onDisk => kept name ?_ onDisk
      obtain ⟨work, stage'⟩ := task
      simp only at stage
      subst stage
      exact ⟨id, work, _, _, _, old, adopted⟩
    · exact marked

theorem positive_of_memory (marking : Marking store)
    (memory : ∀ mark, next.memory mark = store.memory mark) {limit : Nat}
    (found : (next.locks aspect).nextGen = some limit) : 0 < limit := by
  have same := memory ⟨aspect, .gen, 0⟩
  rw [memory_gen, memory_gen, found] at same
  exact marking.positive same.symm

/-- Neither the index nor the counters change, and no file appears but one whose marks are
passed. -/
structure Unmoved (store next : Store) : Prop where
  db : next.db = store.db
  memory : ∀ mark, next.memory mark = store.memory mark
  files : ∀ mark ∈ next.fileMarks, mark ∈ store.fileMarks ∨ Passed store mark
  listed : ∀ counter, next.listed counter = store.listed counter
  log : next.log = store.log

theorem Unmoved.onward (unmoved : Unmoved store next) : Onward store next :=
  .of_memory (fun _ => unmoved.db ▸ Nat.le_refl _) unmoved.memory

theorem unmoved_of_same (db : next.db = store.db)
    (memory : ∀ mark, next.memory mark = store.memory mark) (frames : next.frames = store.frames)
    (quarantined : next.quarantined = store.quarantined)
    (legacyNames : next.legacyNames = store.legacyNames)
    (frameNames : next.frameNames = store.frameNames) (log : next.log = store.log) :
    Unmoved store next where
  db := db
  memory := memory
  files mark held := by
    simp only [Store.fileMarks, frames, quarantined] at held ⊢
    exact .inl held
  listed counter := by
    cases counter with
    | id => exact legacyNames
    | gen => exact frameNames
  log := log

section

variable (marking : Marking store)

include marking

theorem Marking.update (unmoved : Unmoved store next) (kept : KeepsAdopted store next) (id : TaskId)
    (task : Option Task) (marked : ∀ found ∈ task, TaskMarked next found)
    (tasks : next.tasks = Function.update store.tasks id task) : Marking next := by
  refine marking.goesOn unmoved.onward (fun mark held => .inl (unmoved.db ▸ held))
    (fun commit member => .inl (unmoved.log ▸ member)) ?_ (positive_of_memory marking unmoved.memory)
    kept ?_
  · refine marking.files.mono unmoved.onward (fun mark held => ?_) fun mark _ _ names found => ?_
    · exact (unmoved.files mark held).imp_right fun passed => .inl (passed.mono unmoved.onward)
    · rw [unmoved.listed] at found
      exact .inl found
  · intro other found_task found
    rw [tasks, Function.update_apply] at found
    split at found
    · exact .inr (marked found_task found)
    · exact .inl found

theorem Marking.retask (id : TaskId) (task : Option Task)
    (marked : ∀ found ∈ task, TaskMarked store found) (db : next.db = store.db)
    (memory : ∀ mark, next.memory mark = store.memory mark) (frames : next.frames = store.frames)
    (quarantined : next.quarantined = store.quarantined)
    (legacyNames : next.legacyNames = store.legacyNames)
    (frameNames : next.frameNames = store.frameNames) (log : next.log = store.log)
    (tasks : next.tasks = Function.update store.tasks id task) : Marking next := by
  have unmoved : Unmoved store next :=
    unmoved_of_same db memory frames quarantined legacyNames frameNames log
  have kept : ∀ name ∈ store.frames ++ store.quarantined,
      name ∈ next.frames ++ next.quarantined := by
    rw [frames, quarantined]
    exact fun _ onDisk => onDisk
  refine marking.update unmoved (fun name _ onDisk => .inl (kept name onDisk)) id task ?_ tasks
  intro found mem
  exact (marked found mem).mono unmoved.onward fun _ name _ onDisk => .inl (kept name onDisk)

theorem Marking.congr (db : next.db = store.db)
    (memory : ∀ mark, next.memory mark = store.memory mark) (frames : next.frames = store.frames)
    (quarantined : next.quarantined = store.quarantined)
    (legacyNames : next.legacyNames = store.legacyNames)
    (frameNames : next.frameNames = store.frameNames) (log : next.log = store.log)
    (tasks : next.tasks = store.tasks) : Marking next :=
  marking.retask 0 (store.tasks 0) (fun _ found => marking.tasks found) db memory frames quarantined
    legacyNames frameNames log (tasks.trans (Function.update_eq_self 0 store.tasks).symm)

theorem Marking.setTask {task : Task} (marked : TaskMarked store task) :
    Marking (store.setTask id task) := by
  refine marking.retask id (some task) ?_ rfl (fun _ => rfl) rfl rfl rfl rfl rfl rfl
  rintro _ ⟨⟩
  exact marked

theorem Marking.leave (id : TaskId) : Marking (store.leave id) :=
  marking.retask id none (by simp) rfl (memory_unlock store id) rfl rfl rfl rfl rfl rfl

theorem Marking.reply (id : TaskId) (work : Work) (result : Except StoreError IngestReceipt) :
    Marking (store.reply id work result) := by
  rw [reply_eq]
  exact (marking.leave id).congr rfl (fun _ => rfl) rfl rfl rfl rfl rfl rfl

theorem Marking.count (onward : Onward store next) (db : next.db = store.db)
    (frames : next.frames = store.frames) (quarantined : next.quarantined = store.quarantined)
    (log : next.log = store.log) (tasks : next.tasks = store.tasks)
    (positive : ∀ {aspect limit}, (next.locks aspect).nextGen = some limit → 0 < limit)
    (listed : ∀ mark ∈ store.fileMarks, ∀ names ∈ next.listed mark.counter,
      names ∈ store.listed mark.counter ∨ mark ∈ names.flatMap FrameName.fileMarks) :
    Marking next := by
  have files : next.fileMarks = store.fileMarks := by
    simp only [Store.fileMarks, frames, quarantined]
  refine marking.goesOn onward (fun mark held => .inl (db ▸ held))
    (fun commit member => .inl (log ▸ member)) ?_ positive ?_ (fun found => .inl (tasks ▸ found))
  · rw [← files] at listed
    exact marking.files.mono onward (fun mark held => .inl (files ▸ held))
      fun mark held _ => listed mark held
  · intro name _ onDisk
    rw [frames, quarantined]
    exact .inl onDisk

theorem Marking.setState (seeded : (store.locks aspect).state = some state)
    (le : state.nextId ≤ later.nextId) : Marking (store.setState aspect later) := by
  refine marking.count (onward_setState seeded le) rfl rfl rfl rfl rfl ?_ ?_
  · intro other limit found
    rw [setState_locks] at found
    split at found
    · rename_i same
      exact marking.positive (same ▸ found)
    · exact marking.positive found
  · intro mark _ names found
    cases counter : mark.counter <;> rw [counter] at found <;> exact .inl found

theorem Marking.allocateGens {count : Nat}
    (counted : store.allocateGens aspect count = some (next, gen)) : Marking next := by
  have onward := onward_allocateGens marking.files counted
  obtain ⟨gen_eq, locks, -, -, db, frames, quarantined, legacyNames, frameNames, log, tasks⟩ :=
    allocateGens_spec counted
  refine marking.count onward db frames quarantined log tasks ?_ ?_
  · intro other limit found
    rw [locks, Function.update_apply] at found
    split at found
    · cases found
      rcases firstGen_spec marking.files aspect with seeded | ⟨-, positive, -⟩
      · have := marking.positive seeded
        omega
      · omega
    · exact marking.positive found
  · intro mark held names found
    cases counter : mark.counter with
    | id =>
        rw [counter, Store.listed, legacyNames] at found
        exact .inl found
    | gen =>
        rw [counter, Store.listed, frameNames] at found
        split at found
        · exact .inl found
        · cases found
          cases listed : store.frameNames with
          | none => exact .inr (mem_listed_of_fileMarks held).2
          | some names => exact .inl listed

end

theorem passed_of_allocateGens {count value : Nat}
    (counted : store.allocateGens aspect count = some (next, gen)) (low : value < gen + count) :
    Passed next ⟨aspect, .gen, value⟩ := by
  obtain ⟨-, locks, -⟩ := allocateGens_spec counted
  refine ⟨gen + count, ?_, low⟩
  rw [memory_gen, locks, Function.update_self]
  rfl

theorem Marking.enter (marking : Marking store)
    (seeded : lock.state = some ((store.locks aspect).state.getD
      (seedAllocator store.db (store.legacyNames.getD store.frames) aspect)))
    (gens : lock.nextGen = (store.locks aspect).nextGen) (db : next.db = store.db)
    (locks : next.locks = Function.update store.locks aspect lock)
    (frames : next.frames = store.frames) (quarantined : next.quarantined = store.quarantined)
    (legacyNames : next.legacyNames = if (store.locks aspect).state.isSome then store.legacyNames
      else some (store.legacyNames.getD store.frames))
    (frameNames : next.frameNames = store.frameNames) (log : next.log = store.log)
    (tasks : next.tasks = store.tasks) : Marking next := by
  refine marking.count (onward_enter marking.files seeded gens db locks) db frames quarantined log
    tasks ?_ ?_
  · intro other limit found
    rw [locks, Function.update_apply] at found
    split at found
    · rw [gens] at found
      exact marking.positive found
    · exact marking.positive found
  · intro mark held names found
    cases counter : mark.counter with
    | gen =>
        rw [counter, Store.listed, frameNames] at found
        exact .inl found
    | id =>
        rw [counter, Store.listed, legacyNames] at found
        split at found
        · exact .inl found
        · cases found
          cases listed : store.legacyNames with
          | none => exact .inr ((mem_listed_of_fileMarks held).1 counter)
          | some names => exact .inl listed

theorem spent_of_brings {op : IndexOp} {mark : Mark} (brings : BringsAll store ops)
    (applied : store.db.applyAll ops = .ok next.db)
    (memory : ∀ mark, next.memory mark = store.memory mark) (member : op ∈ ops)
    (brought : mark ∈ op.marks) : Spent next mark := by
  refine ⟨IndexDb.lt_counterOf_of_counts (fun op member mark brought =>
    (brings op member mark brought).1) applied member brought, fun limit found => ?_⟩
  rw [memory] at found
  rcases (brings op member mark brought).2 with ⟨other, same, low⟩ | ⟨unseeded, -⟩
  · rw [mem_def, mem_def.mp found] at same
    cases same
    exact low
  · rw [unseeded] at found
    cases found

theorem Marking.write (marking : Marking store) (applied : store.db.applyAll ops = .ok next.db)
    (brings : BringsAll store ops) (memory : ∀ mark, next.memory mark = store.memory mark)
    (log : next.log = store.log ++ [commit]) (own : commit.publication.ops = ops)
    (files : ∀ mark ∈ next.fileMarks, mark ∈ store.fileMarks ∨ Spent next mark)
    (listed : ∀ counter, next.listed counter = store.listed counter)
    (kept : KeepsAdopted store next)
    (tasks : ∀ {id task}, next.tasks id = some task →
      store.tasks id = some task ∨ TaskMarked next task) : Marking next := by
  have onward : Onward store next := .of_memory (IndexDb.counterOf_le_of_applyAll applied) memory
  refine marking.goesOn onward ?_ ?_ ?_ (positive_of_memory marking memory) kept tasks
  · intro mark held
    refine (IndexDb.mem_marks_of_applyAll applied held).imp_right ?_
    rintro ⟨op, member, brought⟩
    exact spent_of_brings brings applied memory member brought
  · intro other member
    rw [log] at member
    refine (List.mem_append.mp member).imp_right fun added => ?_
    rw [List.mem_singleton.mp added, own]
    exact fun op op_mem mark brought => spent_of_brings brings applied memory op_mem brought
  · refine marking.files.mono onward (fun mark held => (files mark held).imp_right .inr) ?_
    intro mark _ _ names found
    rw [listed] at found
    exact .inl found

theorem TaskMarked.landed
    (marked : TaskMarked store ⟨work, .committing aspect publication continuation⟩) :
    TaskMarked store ⟨work, .landed aspect publication continuation⟩ where
  own := fun own held => marked.own own held
  work := marked.work
  counts := by
    intro _ _ _ stage
    cases stage
  covered := by
    intro _ _ _ stage
    cases stage
  next := by
    intro _ _ _ _ _ stage
    rcases stage with stage | stage <;> cases stage
    exact marked.next (.inl rfl)

variable (marking : Marking store)

include marking

theorem Marking.land {db : IndexDb}
    (found : store.tasks id = some ⟨work, .committing aspect publication continuation⟩)
    (applied : store.db.applyAll publication.ops = .ok db)
    (own : commit.publication = publication) :
    Marking { store.setTask id ⟨work, .landed aspect publication continuation⟩ with
      db, log := store.log ++ [commit] } := by
  have marked := marking.tasks found
  have onward : Onward store { store.setTask id ⟨work, .landed aspect publication continuation⟩ with
      db, log := store.log ++ [commit] } :=
    .of_memory (IndexDb.counterOf_le_of_applyAll applied) fun _ => rfl
  refine marking.write applied ?_ (fun _ => rfl) rfl (congrArg _ own) (fun mark held => .inl held)
    (fun counter => by cases counter <;> rfl) (fun name _ onDisk => .inl onDisk) ?_
  · exact fun op member mark brought => ⟨marked.counts rfl op member mark brought,
      marked.covered rfl op member mark brought⟩
  · intro other task task_found
    simp only [setTask_tasks, Function.update_apply] at task_found
    split at task_found
    · cases task_found
      exact .inr (marked.landed.mono onward fun _ _ _ onDisk => .inl onDisk)
    · exact .inl task_found

theorem Marking.addFile {task : Task} {prec : Nat} (passed : Passed store ⟨aspect, .gen, gen⟩)
    (marked : TaskMarked store task) :
    Marking { store.setTask id task with
      frames := store.frames ++ [frameName aspect gen prec] } := by
  have unmoved : Unmoved store { store.setTask id task with
      frames := store.frames ++ [frameName aspect gen prec] } := by
    refine ⟨rfl, fun _ => rfl, fun mark held => ?_, fun counter => by cases counter <;> rfl, rfl⟩
    simp only [Store.fileMarks, List.flatMap_append, List.mem_append, List.flatMap_singleton]
      at held ⊢
    rcases held with (old | added) | quarantined
    · exact .inl (.inl old)
    · refine .inr ?_
      obtain ⟨other, named, rfl⟩ := List.mem_map.mp added
      rw [aspect_of_frameName (mem_toList.mp named)]
      exact passed
    · exact .inl (.inr quarantined)
  have kept : ∀ name ∈ store.frames ++ store.quarantined,
      name ∈ (store.frames ++ [frameName aspect gen prec]) ++ store.quarantined := by
    intro name onDisk
    simp only [List.mem_append] at onDisk ⊢
    tauto
  refine marking.update unmoved (fun name _ onDisk => .inl (kept name onDisk)) id (some task) ?_ rfl
  rintro _ ⟨⟩
  exact marked.mono unmoved.onward fun _ name _ onDisk => .inl (kept name onDisk)

theorem Marking.unlink {own : AspectName} {unlinked : List WrittenSegment}
    {result : Except StoreError IngestReceipt}
    (marked : ∀ frame ∈ unlinked, FrameMarked store own frame) :
    Marking { store.reply id work result with
      frames := store.frames.filter fun name =>
        decide (FramePath.segments name ∉ unlinked.map (·.desc.path)) } := by
  rw [reply_eq]
  refine marking.update ⟨rfl, memory_unlock store id, fun mark held => ?_,
    fun counter => by cases counter <;> rfl, rfl⟩ ?_ id none (by simp) rfl
  · simp only [Store.fileMarks, List.mem_append] at held ⊢
    refine .inl (held.imp_left fun old => ?_)
    obtain ⟨name, member, carried⟩ := List.mem_flatMap.mp old
    exact List.mem_flatMap.mpr ⟨name, (List.mem_filter.mp member).1, carried⟩
  · intro name _ onDisk
    rcases List.mem_append.mp onDisk with inFrames | inQuarantine
    · by_cases gone : FramePath.segments name ∈ unlinked.map (·.desc.path)
      · refine .inr fun mark carried => ?_
        obtain ⟨frame, frame_mem, path⟩ := List.mem_map.mp gone
        obtain ⟨⟨limit, found, -⟩, named⟩ := marked frame frame_mem
        rw [named] at path
        cases path
        obtain ⟨other, named, rfl⟩ := List.mem_map.mp carried
        rw [aspect_of_frameName (mem_toList.mp named), memory_gen]
        rw [memory_gen] at found
        rw [mem_def.mp found]
        simp
      · exact .inl (List.mem_append_left _ (List.mem_filter.mpr ⟨inFrames, decide_eq_true gone⟩))
    · exact .inl (List.mem_append_right _ inQuarantine)

end Marking

end Store

end WeftDb
