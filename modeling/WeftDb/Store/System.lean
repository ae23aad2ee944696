import Mathlib.Logic.Function.Basic
import WeftDb.Foundation.Execution
import WeftDb.Store.Recovery
import WeftDb.Store.Swap

/-!
# The store as a transition system

A store is its index, the frame names in its two directories, and the memory of the process that
has it open.  Each running operation is a task which advances from one suspension point to the
next, so a run interleaves any number of seals, ingests, maintenance swaps, recovery passes and
change-log consumers.  A task may fail or be dropped wherever it is suspended, the process may
crash between any two actions, and a commit is split into the moment it becomes durable (`land`)
and the moment its caller learns of it (`settle`).
-/

namespace WeftDb

abbrev TaskId := Nat

/-- The locks and counters which the process keeps for one aspect. -/
structure AspectLock where
  /-- The task which holds the commit lock. -/
  holder : Option TaskId := none
  /-- The allocator behind the commit lock, once seeded. -/
  state : Option AspectState := none
  /-- The next frame generation, once seeded. -/
  nextGen : Option Nat := none
  deriving DecidableEq

/-- An encoded frame which is still to be written. -/
structure Chunk where
  desc : SegmentDescriptor
  frameCrc : Nat
  deriving DecidableEq

/-- How far a swap has come. -/
inductive SwapPhase
  /-- The members are read. -/
  | planned
  /-- The outputs have generations, and names. -/
  | named
  /-- The outputs are journaled; these are still to be written. -/
  | writing (unwritten : List FrameName)
  /-- Every output is written and synced. -/
  | written
  /-- The commits still to be attempted: all plans jointly, or after a conflict one by one. -/
  | attempts (queue : List (List PreparedPlan))
  deriving DecidableEq

/-- What a task is doing. -/
inductive Work
  | seal (aspect : AspectName) (chunks : List Chunk) (written : List WrittenSegment)
  | ingest (aspect : AspectName) (batch : IngestBatch) (checked : Option UInt64)
      (chunks : List Chunk) (written : List WrittenSegment)
  | swap (aspect : AspectName) (plans : List PreparedPlan) (phase : SwapPhase)
  /-- A recovery pass, or an operator's quarantine command, with the aspects whose rollup it
  still has to rebuild. -/
  | recovery (changed : List AspectName)
  deriving DecidableEq

/-- The batch which an ingest commits. -/
def Work.batch : Work → Option IngestBatch
  | .ingest _ batch _ _ _ => some batch
  | _ => none

/-- Whether the work publishes new rows: a seal or an ingest. -/
def Work.publishes : Work → Bool
  | .seal _ _ _ => true
  | .ingest _ _ _ _ _ => true
  | _ => false

/-- What a task does once its commit has returned. -/
inductive Continuation
  | finish (receipt : Option IngestReceipt)
  /-- Go on without the lock. -/
  | resume (work : Work)
  /-- Go on under the lock. -/
  | retain (work : Work)
  deriving DecidableEq

/-- Where a task is suspended. -/
inductive Stage
  | running
  /-- Under an aspect's commit lock. -/
  | locked (aspect : AspectName)
  /-- Waiting for a commit which has not become durable. -/
  | committing (aspect : AspectName) (publication : Publication) (next : Continuation)
  /-- Waiting for a commit which is durable. -/
  | landed (aspect : AspectName) (publication : Publication) (next : Continuation)
  deriving DecidableEq

/-- The aspect whose commit lock a stage holds. -/
def Stage.aspect : Stage → Option AspectName
  | .running => none
  | .locked aspect => some aspect
  | .committing aspect _ _ => some aspect
  | .landed aspect _ _ => some aspect

structure Task where
  work : Work
  stage : Stage
  deriving DecidableEq

/-- A durable commit. -/
structure Commit where
  task : Option TaskId
  aspect : AspectName
  /-- The batch committed, when the commit is an ingest's. -/
  batch : Option IngestBatch
  /-- Whether the commit is a seal's or an ingest's. -/
  publishes : Bool
  publication : Publication
  deriving DecidableEq

/-- What a call of `ingest` returned. -/
structure IngestReturn where
  task : TaskId
  aspect : AspectName
  batch : IngestBatch
  /-- How many commits had landed when it returned. -/
  landed : Nat
  result : Except StoreError IngestReceipt

/-- A consumer of one aspect's change log. -/
structure Consumer where
  /-- The last epoch it acknowledged. -/
  acknowledged : Nat := 0
  /-- What it read and has not acknowledged. -/
  reading : List SegmentChange := []
  /-- Everything it ever read. -/
  seen : List SegmentChange := []
  deriving DecidableEq

/-- A store and the process which has it open.  The last four fields are the history of the run
and take no part in it. -/
structure Store where
  db : IndexDb
  /-- The names in `segments/`. -/
  frames : List FrameName
  /-- The names in `segments/quarantine/`. -/
  quarantined : List FrameName
  locks : AspectName → AspectLock
  /-- The names in `segments/` when legacy ids were first counted. -/
  legacyNames : Option (List FrameName)
  /-- The names in both directories when generations were first counted. -/
  frameNames : Option (List FrameName)
  poisoned : Bool
  tasks : TaskId → Option Task
  nextTask : TaskId
  consumers : AspectName → Consumer
  /-- Every durable commit, in order. -/
  log : List Commit
  /-- Every answer of an ingest. -/
  returned : List IngestReturn
  /-- Segment ids handed out by the running process. -/
  issuedIds : List (AspectName × Nat)
  /-- Frame generations handed out by the running process. -/
  issuedGens : List (AspectName × Nat)

namespace Store

/-- A store over an index, opened by a new process. -/
def opened (db : IndexDb) (frames quarantined : List FrameName) : Store where
  db := db
  frames := frames
  quarantined := quarantined
  locks := fun _ => {}
  legacyNames := none
  frameNames := none
  poisoned := false
  tasks := fun _ => none
  nextTask := 0
  consumers := fun _ => {}
  log := []
  returned := []
  issuedIds := []
  issuedGens := []

/-- A freshly created store. -/
def fresh : Store :=
  opened .fresh [] []

def setTask (store : Store) (id : TaskId) (task : Task) : Store :=
  { store with tasks := Function.update store.tasks id (some task) }

def setLock (store : Store) (aspect : AspectName) (lock : AspectLock) : Store :=
  { store with locks := Function.update store.locks aspect lock }

/-- Release every lock which a task holds. -/
def unlock (store : Store) (id : TaskId) : Store :=
  { store with
    locks := fun aspect =>
      if (store.locks aspect).holder = some id then
        { store.locks aspect with holder := none }
      else
        store.locks aspect }

/-- End a task, whatever it was doing. -/
def leave (store : Store) (id : TaskId) : Store :=
  { store.unlock id with tasks := Function.update store.tasks id none }

/-- End a task with an answer to its caller. -/
def reply (store : Store) (id : TaskId) (work : Work)
    (result : Except StoreError IngestReceipt) : Store :=
  match work with
  | .ingest aspect batch _ _ _ =>
      { store.leave id with
        returned := store.returned ++ [⟨id, aspect, batch, store.log.length, result⟩] }
  | _ => store.leave id

/-- Store the allocator of an aspect, recording the ids it handed out. -/
def setState (store : Store) (aspect : AspectName) (state : AspectState) : Store :=
  { store.setLock aspect { store.locks aspect with state := some state } with
    issuedIds := store.issuedIds ++
      match (store.locks aspect).state with
      | some before =>
          (List.range' before.nextId (state.nextId - before.nextId)).map fun id => (aspect, id)
      | none => [] }

/-- Hand out consecutive generations of an aspect, returning the first. -/
def allocateGens (store : Store) (aspect : AspectName) (count : Nat) : Option (Store × Nat) :=
  let names := store.frameNames.getD (store.frames ++ store.quarantined)
  let next := ((store.locks aspect).nextGen).getD (seedGen store.db names aspect)
  if next + count ≤ u64Max then
    some
      ({ store.setLock aspect { store.locks aspect with nextGen := some (next + count) } with
          frameNames := if ((store.locks aspect).nextGen).isSome then store.frameNames
            else some names
          issuedGens := store.issuedGens ++
            (List.range' next count).map fun gen => (aspect, gen) },
        next)
  else
    none

section Frame

variable (store : Store) (id : TaskId) (task : Task) (work : Work) (aspect : AspectName)
  (lock : AspectLock) (state : AspectState) (result : Except StoreError IngestReceipt)

@[simp]
theorem setTask_frame :
    (store.setTask id task).db = store.db ∧
      (store.setTask id task).locks = store.locks ∧
      (store.setTask id task).poisoned = store.poisoned ∧
      (store.setTask id task).nextTask = store.nextTask ∧
      (store.setTask id task).consumers = store.consumers ∧
      (store.setTask id task).log = store.log ∧
      (store.setTask id task).returned = store.returned :=
  ⟨rfl, rfl, rfl, rfl, rfl, rfl, rfl⟩

@[simp]
theorem setLock_frame :
    (store.setLock aspect lock).db = store.db ∧
      (store.setLock aspect lock).tasks = store.tasks ∧
      (store.setLock aspect lock).poisoned = store.poisoned ∧
      (store.setLock aspect lock).nextTask = store.nextTask ∧
      (store.setLock aspect lock).consumers = store.consumers ∧
      (store.setLock aspect lock).log = store.log ∧
      (store.setLock aspect lock).returned = store.returned :=
  ⟨rfl, rfl, rfl, rfl, rfl, rfl, rfl⟩

@[simp]
theorem setState_frame :
    (store.setState aspect state).db = store.db ∧
      (store.setState aspect state).tasks = store.tasks ∧
      (store.setState aspect state).poisoned = store.poisoned ∧
      (store.setState aspect state).nextTask = store.nextTask ∧
      (store.setState aspect state).consumers = store.consumers ∧
      (store.setState aspect state).log = store.log ∧
      (store.setState aspect state).returned = store.returned :=
  ⟨rfl, rfl, rfl, rfl, rfl, rfl, rfl⟩

@[simp]
theorem unlock_frame :
    (store.unlock id).db = store.db ∧
      (store.unlock id).tasks = store.tasks ∧
      (store.unlock id).poisoned = store.poisoned ∧
      (store.unlock id).nextTask = store.nextTask ∧
      (store.unlock id).consumers = store.consumers ∧
      (store.unlock id).log = store.log ∧
      (store.unlock id).returned = store.returned :=
  ⟨rfl, rfl, rfl, rfl, rfl, rfl, rfl⟩

@[simp]
theorem leave_frame :
    (store.leave id).db = store.db ∧
      (store.leave id).locks = (store.unlock id).locks ∧
      (store.leave id).poisoned = store.poisoned ∧
      (store.leave id).nextTask = store.nextTask ∧
      (store.leave id).consumers = store.consumers ∧
      (store.leave id).log = store.log ∧
      (store.leave id).returned = store.returned :=
  ⟨rfl, rfl, rfl, rfl, rfl, rfl, rfl⟩

theorem reply_eq :
    store.reply id work result =
      { store.leave id with
        returned := store.returned ++
          match work with
          | .ingest aspect batch _ _ _ => [⟨id, aspect, batch, store.log.length, result⟩]
          | _ => [] } := by
  cases work <;> simp only [reply, List.append_nil] <;> rfl

@[simp]
theorem reply_frame :
    (store.reply id work result).db = store.db ∧
      (store.reply id work result).locks = (store.unlock id).locks ∧
      (store.reply id work result).poisoned = store.poisoned ∧
      (store.reply id work result).nextTask = store.nextTask ∧
      (store.reply id work result).consumers = store.consumers ∧
      (store.reply id work result).log = store.log := by
  rw [reply_eq]
  exact ⟨rfl, rfl, rfl, rfl, rfl, rfl⟩

@[simp]
theorem setTask_tasks :
    (store.setTask id task).tasks = Function.update store.tasks id (some task) := by
  rfl

@[simp]
theorem leave_tasks : (store.leave id).tasks = Function.update store.tasks id none := by
  rfl

@[simp]
theorem reply_tasks : (store.reply id work result).tasks = Function.update store.tasks id none := by
  rw [reply_eq]
  rfl

theorem unlock_locks :
    (store.unlock id).locks aspect =
      if (store.locks aspect).holder = some id then
        { store.locks aspect with holder := none }
      else
        store.locks aspect := by
  rfl

theorem setLock_locks (other : AspectName) :
    (store.setLock aspect lock).locks other =
      if other = aspect then lock else store.locks other := by
  simp only [setLock, Function.update_apply]

theorem setState_locks (other : AspectName) :
    (store.setState aspect state).locks other =
      if other = aspect then { store.locks aspect with state := some state }
      else store.locks other := by
  simp only [setState, setLock, Function.update_apply]

end Frame

theorem allocateGens_frame {store next : Store} {aspect : AspectName} {count gen : Nat}
    (counted : store.allocateGens aspect count = some (next, gen)) :
    next.db = store.db ∧ next.tasks = store.tasks ∧ next.poisoned = store.poisoned ∧
      next.nextTask = store.nextTask ∧ next.consumers = store.consumers ∧
      next.log = store.log ∧ next.returned = store.returned ∧
      ∀ other, (next.locks other).holder = (store.locks other).holder ∧
        (next.locks other).state = (store.locks other).state := by
  unfold allocateGens at counted
  simp only at counted
  split at counted
  · cases counted
    refine ⟨rfl, rfl, rfl, rfl, rfl, rfl, rfl, fun other => ?_⟩
    simp only [setLock_locks]
    split
    · rename_i same
      subst same
      exact ⟨rfl, rfl⟩
    · exact ⟨rfl, rfl⟩
  · cases counted

/-- A request to start an operation. -/
inductive Request
  | seal (aspect : AspectName) (chunk : Chunk)
  | ingest (aspect : AspectName) (batch : IngestBatch)
  /-- Swap plans, each given by its members and whether it keeps the first of them. -/
  | swap (aspect : AspectName) (plans : List (List IndexRow × Bool))
  | recovery
  deriving DecidableEq

/-- How many plans one swap may carry. -/
def maxPlansPerTxn : Nat := 32

/-- The work an operation starts with.  The members of a swap are rows of the index, ascending by
id. -/
def start (db : IndexDb) : Request → Option Work
  | .seal aspect chunk => some (.seal aspect [chunk] [])
  | .ingest aspect batch => some (.ingest aspect batch none [] [])
  | .swap aspect plans =>
      if plans.length ≤ maxPlansPerTxn ∧ plans.all (fun plan =>
          plan.1.all (fun member => decide (member ∈ db.rows aspect)) &&
            decide ((plan.1.map (·.desc.id)).Pairwise (· < ·))) then
        (allSome (plans.map fun plan => preparePlan plan.1 plan.2)).map fun prepared =>
          .swap aspect prepared .planned
      else
        none
  | .recovery => some (.recovery [])

/-- Start an operation as a new task. -/
def call (store : Store) (request : Request) : Option Store :=
  (start store.db request).map fun work =>
    { store.setTask store.nextTask ⟨work, .running⟩ with
      nextTask := store.nextTask + 1 }

/-- The checks of an ingest before anything is written: the request itself, the ledger, and the
series cap.  They give the fingerprint, and the receipt of a replay. -/
def admitBatch (catalog : Catalog) (db : IndexDb) (aspect : AspectName) (batch : IngestBatch) :
    Except StoreError (UInt64 × Option IngestReceipt) :=
  match validateIngest catalog aspect batch with
  | .error refused => .error refused
  | .ok fingerprint =>
      match checkLedger db aspect batch.key fingerprint with
      | .error refused => .error refused
      | .ok (some receipt) => .ok (fingerprint, some receipt)
      | .ok none =>
          match commitSeriesId catalog db aspect batch.groups with
          | .error refused => .error refused
          | .ok _ => .ok (fingerprint, none)

/-- Check an ingest.  A batch which is new is encoded into at least one chunk. -/
def check (catalog : Catalog) (store : Store) (id : TaskId) (chunks : List Chunk) :
    Option Store :=
  match store.tasks id with
  | some ⟨.ingest aspect batch none queued written, .running⟩ =>
      let work : Work := .ingest aspect batch none queued written
      if store.poisoned then
        some (store.reply id work (.error .poisoned))
      else
        match admitBatch catalog store.db aspect batch with
        | .error refused => some (store.reply id work (.error refused))
        | .ok (_, some receipt) => some (store.reply id work (.ok receipt))
        | .ok (fingerprint, none) =>
            if chunks = [] then
              none
            else
              some (store.setTask id
                ⟨.ingest aspect batch (some fingerprint) chunks [], .running⟩)
  | _ => none

/-- Write the next frame of a seal or an ingest, under a fresh generation. -/
def writeFrame (store : Store) (id : TaskId) : Option Store :=
  match store.tasks id with
  | some ⟨.seal aspect (chunk :: chunks) written, .running⟩ =>
      (store.allocateGens aspect 1).map fun (store, gen) =>
        let name := frameName aspect gen gen
        { store.setTask id
            ⟨.seal aspect chunks
              (written ++ [⟨{ chunk.desc with path := .segments name }, gen, chunk.frameCrc⟩]),
              .running⟩ with
          frames := store.frames ++ [name] }
  | some ⟨.ingest aspect batch (some fingerprint) (chunk :: chunks) written, .running⟩ =>
      (store.allocateGens aspect 1).map fun (store, gen) =>
        let name := frameName aspect gen gen
        { store.setTask id
            ⟨.ingest aspect batch (some fingerprint) chunks
              (written ++ [⟨{ chunk.desc with path := .segments name }, gen, chunk.frameCrc⟩]),
              .running⟩ with
          frames := store.frames ++ [name] }
  | _ => none

/-- The outputs of one plan, under consecutive generations from `gen`. -/
def nameOutputs (aspect : AspectName) (prec : Nat) : Nat → List Chunk → List WrittenOutput
  | _, [] => []
  | gen, chunk :: later =>
      { name := frameName aspect gen prec, gen, prec, frameCrc := chunk.frameCrc
        descriptor := { chunk.desc with path := .segments (frameName aspect gen prec) } } ::
        nameOutputs aspect prec (gen + 1) later

/-- Give every plan its outputs; a plan which keeps its first member has none. -/
def namePlans (aspect : AspectName) : Nat → List PreparedPlan → List (List Chunk) →
    Option (List PreparedPlan)
  | _, [], [] => some []
  | gen, plan :: plans, chunks :: later =>
      if plan.keep = chunks.isEmpty then
        (namePlans aspect (gen + chunks.length) plans later).map
          ({ plan with outputs := nameOutputs aspect plan.prec gen chunks } :: ·)
      else
        none
  | _, _, _ => none

/-- Step M2 of a swap: a fresh generation for every output.  A swap without outputs goes straight
to its commit. -/
def planOutputs (store : Store) (id : TaskId) (outputs : List (List Chunk)) : Option Store :=
  match store.tasks id with
  | some ⟨.swap aspect plans .planned, .running⟩ =>
      let count := (outputs.map List.length).sum
      if count = 0 then
        (namePlans aspect 0 plans outputs).map fun plans =>
          store.setTask id ⟨.swap aspect plans .written, .running⟩
      else
        (store.allocateGens aspect count).bind fun (store, gen) =>
          (namePlans aspect gen plans outputs).map fun plans =>
            store.setTask id ⟨.swap aspect plans .named, .running⟩
  | _ => none

/-- Step M4 of a swap, for one output. -/
def writeOutput (store : Store) (id : TaskId) : Option Store :=
  match store.tasks id with
  | some ⟨.swap aspect plans (.writing (name :: unwritten)), .running⟩ =>
      some
        { store.setTask id
            ⟨.swap aspect plans (if unwritten = [] then .written else .writing unwritten),
              .running⟩ with
          frames := store.frames ++ [name] }
  | _ => none

/-- Whether a task's next step is under the commit lock of an aspect. -/
def wantsLock (aspect : AspectName) : Work → Bool
  | .seal own chunks _ => decide (own = aspect ∧ chunks = [])
  | .ingest own _ checked chunks _ => decide (own = aspect ∧ checked.isSome ∧ chunks = [])
  | .swap own _ .named => decide (own = aspect)
  | .swap own _ .written => decide (own = aspect)
  | .swap _ _ _ => false
  | .recovery _ => true

/-- Take the commit lock of an aspect, seeding its allocator the first time. -/
def enter (store : Store) (id : TaskId) (aspect : AspectName) : Option Store :=
  match store.tasks id with
  | some ⟨work, .running⟩ =>
      if wantsLock aspect work ∧ (store.locks aspect).holder = none then
        let names := store.legacyNames.getD store.frames
        let lock := store.locks aspect
        let state := lock.state.getD (seedAllocator store.db names aspect)
        some
          { (store.setLock aspect { lock with holder := some id, state := some state }).setTask id
              ⟨work, .locked aspect⟩ with
            legacyNames := if lock.state.isSome then store.legacyNames else some names }
      else
        none
  | _ => none

/-- The first part of step M5: fresh ids for the outputs that need them.  The plans which are
refused fail alone. -/
def allocate (store : Store) (id : TaskId) : Option Store :=
  match store.tasks id with
  | some ⟨.swap aspect plans .written, .locked held⟩ =>
      (store.locks held).state.map fun state =>
        let (state, ready) := allocatePlans (store.db.rows aspect) state plans
        let store := store.setState held state
        if ready = [] then
          store.leave id
        else
          store.setTask id ⟨.swap aspect plans (.attempts [ready]), .locked held⟩
  | _ => none

/-- What a recovery pass does under a commit lock. -/
inductive Repair
  | rebuild
  | adopt (name : FrameName) (desc : SegmentDescriptor) (crc : Option Nat)
      (seriesKey : Option SeriesKey) (clear : Bool)
  /-- Rebind a row of `source` to its frame. -/
  | rebind (source : AspectName) (row : IndexRow) (name : FrameName) (crc : Option Nat)
      (seriesKey : SeriesKey)
  deriving DecidableEq

/-- Whether a recovery pass finds the frame it is about: an orphan which names the aspect, or the
frame under a row's own path. -/
def Repair.readable (frames : List FrameName) (aspect : AspectName) : Repair → Bool
  | .rebuild => true
  | .adopt name _ _ _ _ =>
      decide (name ∈ frames ∧ (orphanIdentity name).map Prod.fst = some aspect)
  | .rebind _ row name _ _ => decide (retiredName row = some name ∧ name ∈ frames)

/-- Whether a poisoned store refuses the commit; a rebuild of a rollup is let through. -/
def Repair.guarded (step : Repair) : Work → Bool
  | .recovery _ => decide (step ≠ .rebuild)
  | _ => true

/-- Build the transaction of a recovery step under the lock of `aspect`. -/
def repair (db : IndexDb) (aspect : AspectName) (state : AspectState)
    (changed : List AspectName) : Repair → AspectState × Option (Publication × Continuation)
  | .rebuild =>
      (state, some (⟨none, rebuildRollup db aspect⟩,
        .resume (.recovery (changed.filter fun other => decide (other ≠ aspect)))))
  | .adopt name desc crc seriesKey clear =>
      let (state, ops) := adoptOrphan db aspect state name desc crc seriesKey clear
      (state, ops.map fun ops => (⟨none, ops⟩, .resume (.recovery (aspect :: changed))))
  | .rebind source row name crc seriesKey =>
      if row ∈ db.rows source ∧
          ((reboundFromFrame source row name crc).2.2).getD source = aspect then
        (state, (rebindRow db source row name crc seriesKey).map fun ops =>
          (⟨none, ops⟩, .resume (.recovery (source :: changed))))
      else
        (state, none)

/-- What a task does with the transaction it was to build. -/
inductive Prepared
  | commit (publication : Publication) (next : Continuation)
  /-- Return without a commit, unlinking some of the frames it wrote. -/
  | answer (result : Except StoreError IngestReceipt) (unlinked : List WrittenSegment)

/-- Build the transaction of a task from the index and the allocator of the aspect it has
locked.  The repair is the step which a recovery pass takes. -/
def prepared (catalog : Catalog) (db : IndexDb) (aspect : AspectName) (state : AspectState)
    (step : Repair) (createdMs : Int) : Work → Option (AspectState × Prepared)
  | .seal _ _ [frame] =>
      match publishSeal db aspect state frame with
      | (state, some publication) => some (state, .commit publication (.finish none))
      | (state, none) => some (state, .answer (.error .fault) [])
  | .ingest _ batch (some fingerprint) [] written =>
      match publishIngest catalog db aspect state batch fingerprint written createdMs with
      | (state, .ok (.publish publication receipt)) =>
          some (state, .commit publication (.finish (some receipt)))
      | (state, .ok (.replay receipt)) => some (state, .answer (.ok receipt) [])
      -- A refusal by the series cap unlinks the frames it leaves behind.
      | (state, .error (.seriesLimit aspect limit)) =>
          some (state, .answer (.error (.seriesLimit aspect limit)) written)
      | (state, .error refused) => some (state, .answer (.error refused) [])
  | .swap own plans .named =>
      let outputs := plans.flatMap (·.outputs)
      some (state, .commit (journalOutputs aspect state outputs createdMs)
        (.resume (.swap own plans (.writing (outputs.map (·.name))))))
  | .swap own plans (.attempts (attempt :: later)) =>
      some (state, .commit (commitPlans db aspect state attempt createdMs)
        (if later = [] then .finish none else .retain (.swap own plans (.attempts later))))
  | .recovery changed =>
      match repair db aspect state changed step with
      | (state, some (publication, next)) => some (state, .commit publication next)
      | (_, none) => none
  | _ => none

/-- Build the transaction of the task which holds an aspect's commit lock, and start its commit,
unless the store is poisoned. -/
def prepare (catalog : Catalog) (store : Store) (id : TaskId) (step : Repair)
    (createdMs : Int) : Option Store :=
  match store.tasks id with
  | some ⟨work, .locked aspect⟩ =>
      match (store.locks aspect).state with
      | some state =>
          if step.readable store.frames aspect then
            (prepared catalog store.db aspect state step createdMs work).map
              fun (state, outcome) =>
                let store := store.setState aspect state
                match outcome with
                | .commit publication next =>
                    if store.poisoned ∧ step.guarded work then
                      store.reply id work (.error .poisoned)
                    else
                      store.setTask id ⟨work, .committing aspect publication next⟩
                | .answer result unlinked =>
                    { store.reply id work result with
                      frames := store.frames.filter fun name =>
                        decide (FramePath.segments name ∉ unlinked.map (·.desc.path)) }
          else
            none
      | none => none
  | _ => none

/-- The commit becomes durable. -/
def land (store : Store) (id : TaskId) : Option Store :=
  match store.tasks id with
  | some ⟨work, .committing aspect publication next⟩ =>
      match store.db.applyAll publication.ops with
      | .ok db =>
          some
            { store.setTask id ⟨work, .landed aspect publication next⟩ with
              db
              log := store.log ++ [⟨some id, aspect, work.batch, work.publishes, publication⟩] }
      | .error _ => none
  | _ => none

/-- The allocator of an aspect after a commit returned. -/
def advanced (publication : Publication) (state : AspectState) : AspectState :=
  match publication.epoch with
  | some epoch => state.setEpoch epoch
  | none => state

/-- The store once a commit of the aspect has returned. -/
def settled (store : Store) (aspect : AspectName) (publication : Publication) : Store :=
  store.setLock aspect
    { store.locks aspect with state := (store.locks aspect).state.map (advanced publication) }

/-- The caller learns that its commit is durable: the aspect's epoch advances, and the task goes
on or returns. -/
def settle (store : Store) (id : TaskId) : Option Store :=
  match store.tasks id with
  | some ⟨work, .landed aspect publication next⟩ =>
      let store := store.settled aspect publication
      match next with
      | .finish (some receipt) => some (store.reply id work (.ok receipt))
      | .finish none => some (store.leave id)
      | .resume work => some ((store.unlock id).setTask id ⟨work, .running⟩)
      | .retain work => some (store.setTask id ⟨work, .locked aspect⟩)
  | _ => none

/-- What is left to attempt after a commit failed: after a conflict the plans of a joint swap one
by one, and after a plan attempted alone failed the plans behind it. -/
def retried (kind : TxnErrorKind) : Work → Option Work
  | .swap aspect plans (.attempts [attempt]) =>
      if kind = .conflict ∧ 1 < attempt.length then
        some (.swap aspect plans (.attempts (attempt.map ([·]))))
      else
        none
  | .swap aspect plans (.attempts (_ :: later)) => some (.swap aspect plans (.attempts later))
  | _ => none

/-- The commit fails and is certain not to be durable. -/
def refuse (store : Store) (id : TaskId) (kind : TxnErrorKind) : Option Store :=
  if kind = .ambiguous then
    none
  else
    match store.tasks id with
    | some ⟨work, .committing aspect _ _⟩ =>
        match retried kind work with
        | some work => some (store.setTask id ⟨work, .locked aspect⟩)
        | none => some (store.reply id work (.error (.index kind)))
    | _ => none

/-- The commit fails although it may be durable, which poisons the store. -/
def ambiguous (store : Store) (id : TaskId) : Option Store :=
  match store.tasks id with
  | some ⟨work, .committing _ _ _⟩ =>
      some { store.reply id work (.error (.index .ambiguous)) with poisoned := true }
  | some ⟨work, .landed _ _ _⟩ =>
      some { store.reply id work (.error (.index .ambiguous)) with poisoned := true }
  | _ => none

/-- Encoding, file I/O or a read fails: the operation returns an error. -/
def fault (store : Store) (id : TaskId) : Option Store :=
  match store.tasks id with
  | some ⟨_, .landed _ _ _⟩ => none
  | some ⟨work, _⟩ => some (store.reply id work (.error .fault))
  | none => none

/-- The caller drops the operation's future, wherever it is suspended. -/
def drop (store : Store) (id : TaskId) : Option Store :=
  (store.tasks id).map fun _ => store.leave id

/-- One step of a recovery pass, or of an operator's command, outside the commit lock. -/
inductive RecoveryStep
  | quarantineRow (aspect : AspectName) (row : IndexRow) (quarantineClass : QuarantineClass)
      (reason : String) (now : Int)
  | quarantineOrphan (name : FrameName) (quarantineClass : QuarantineClass) (reason : String)
      (now : Int) (clear : Bool)
  | release (record : QuarantineRecord)
  | purge (record : QuarantineRecord)
  /-- Rebind a row which stays in its aspect and its series. -/
  | rebind (aspect : AspectName) (row : IndexRow) (name : FrameName) (crc : Option Nat)
      (seriesKey : SeriesKey)
  | journalHeld (aspect : AspectName) (name : FrameName) (now : Int)
  | seedSeries (aspect : AspectName) (nextSeriesId : Nat)
  deriving DecidableEq

/-- Whether a recovery step finds the frame it is about in `segments/`. -/
def RecoveryStep.readable (frames : List FrameName) : RecoveryStep → Bool
  | .quarantineOrphan name _ _ _ _ => decide (name ∈ frames)
  | .rebind _ row name _ _ => decide (retiredName row = some name ∧ name ∈ frames)
  | .journalHeld aspect name _ =>
      decide (name ∈ frames ∧ (orphanIdentity name).map Prod.fst = some aspect)
  | _ => true

/-- The transaction of a recovery step, and the aspect whose rows it changes. -/
def recoveryOps (db : IndexDb) : RecoveryStep → Option (List IndexOp × Option AspectName)
  | .quarantineRow aspect row quarantineClass reason now =>
      if row ∈ db.rows aspect then
        (retiredName row).map fun name =>
          (quarantineRow aspect row name quarantineClass reason now, some aspect)
      else
        none
  | .quarantineOrphan name quarantineClass reason now clear =>
      (quarantineOrphan name quarantineClass reason now clear).map (·, none)
  | .release record =>
      if record ∈ db.quarantine then
        (quarantineRelease record).map (·, some record.aspect)
      else
        none
  | .purge record => if record ∈ db.quarantine then some (quarantinePurge record, none) else none
  | .rebind aspect row name crc seriesKey =>
      if row ∈ db.rows aspect ∧ (reboundFromFrame aspect row name crc).2.2 = none ∧
          (resolveSeriesKey db aspect seriesKey) = (row.seriesId, []) then
        (rebindRow db aspect row name crc seriesKey).map (·, some aspect)
      else
        none
  | .journalHeld aspect name now => some ([.journalHeld aspect name now], none)
  | .seedSeries aspect nextSeriesId => some ([.seedSeries aspect nextSeriesId], none)

/-- The directories after the file moves which follow a recovery step. -/
def moveFrames (frames quarantined : List FrameName) :
    RecoveryStep → List FrameName × List FrameName
  | .quarantineRow _ row _ _ _ =>
      match retiredName row with
      | some name =>
          (frames.filter fun other => decide (other ≠ name),
            if name ∈ frames then name :: quarantined else quarantined)
      | none => (frames, quarantined)
  | .quarantineOrphan name _ _ _ _ =>
      (frames.filter fun other => decide (other ≠ name),
        if name ∈ frames then name :: quarantined else quarantined)
  | .release record =>
      (if record.name ∈ quarantined then record.name :: frames else frames,
        quarantined.filter fun other => decide (other ≠ record.name))
  | .purge record => (frames, quarantined.filter fun other => decide (other ≠ record.name))
  | _ => (frames, quarantined)

/-- Take a recovery step; the aspect it changed still has to have its rollup rebuilt. -/
def recover (store : Store) (id : TaskId) (step : RecoveryStep) : Option Store :=
  match store.tasks id with
  | some ⟨.recovery changed, .running⟩ =>
      if store.poisoned ∨ ¬step.readable store.frames then
        none
      else
        match recoveryOps store.db step with
        | some (ops, changedAspect) =>
            match store.db.applyAll ops with
            | .ok db =>
                let moved := moveFrames store.frames store.quarantined step
                some
                  { store.setTask id
                      ⟨.recovery (changedAspect.toList ++ changed), .running⟩ with
                    db
                    frames := moved.1
                    quarantined := moved.2
                    log := store.log ++
                      [⟨some id, changedAspect.getD "", none, false, ⟨none, ops⟩⟩] }
            | .error _ => none
        | none => none
  | _ => none

/-- A recovery pass which has rebuilt every rollup it changed returns. -/
def finishRecovery (store : Store) (id : TaskId) : Option Store :=
  match store.tasks id with
  | some ⟨.recovery [], .running⟩ => some (store.leave id)
  | _ => none

/-- Whether the journal holds a frame which no row references. -/
def reclaimable (db : IndexDb) (name : FrameName) : Bool :=
  db.journal.rows.any (fun entry => decide (entry.name = name)) &&
    db.segments.rows.all fun stored => decide (stored.2.desc.path ≠ .segments name)

/-- Unlink journaled frames which no row references, and clear journal rows. -/
def reap (store : Store) (unlinked cleared : List FrameName) : Option Store :=
  if store.poisoned ∨ ¬unlinked.all (reclaimable store.db) then
    none
  else
    match store.db.applyAll (cleared.map .clearJournal) with
    | .ok db =>
        some
          { store with
            db
            frames := store.frames.filter fun name => decide (name ∉ unlinked)
            log := store.log ++ [⟨none, "", none, false, ⟨none, cleared.map .clearJournal⟩⟩] }
    | .error _ => none

/-- Read the changes since the last acknowledged epoch. -/
def consume (store : Store) (aspect : AspectName) : Store :=
  let consumer := store.consumers aspect
  let reading := store.db.changesAfter aspect consumer.acknowledged
  { store with
    consumers := Function.update store.consumers aspect
      { consumer with reading, seen := consumer.seen ++ reading } }

/-- The highest epoch of the changes read. -/
def throughEpoch (changes : List SegmentChange) : Nat :=
  changes.foldl (fun epoch change => max epoch change.epoch) 0

/-- Acknowledge the changes read.  The commit may land without its caller learning of it. -/
def acknowledge (store : Store) (aspect : AspectName) (returned : Bool) : Option Store :=
  let consumer := store.consumers aspect
  let through := throughEpoch consumer.reading
  if through = 0 then
    some { store with
      consumers := Function.update store.consumers aspect { consumer with reading := [] } }
  else if store.poisoned then
    none
  else
    match store.db.applyAll [.deleteChanges aspect through] with
    | .ok db =>
        some
          { store with
            db
            log := store.log ++
              [⟨none, aspect, none, false, ⟨none, [.deleteChanges aspect through]⟩⟩]
            consumers :=
              if returned then
                Function.update store.consumers aspect
                  { consumer with acknowledged := through, reading := [] }
              else
                store.consumers }
    | .error _ => none

/-- A consumer which restarts has acknowledged nothing that it remembers. -/
def forget (store : Store) (aspect : AspectName) : Store :=
  { store with
    consumers := Function.update store.consumers aspect
      { store.consumers aspect with acknowledged := 0, reading := [] } }

/-- Crash and restart: the process memory is lost, the index is as it was committed, and the
directories are as the restart finds them. -/
def crash (store : Store) (frames quarantined : List FrameName) : Store :=
  { opened store.db frames quarantined with
    nextTask := store.nextTask
    consumers := fun aspect =>
      { store.consumers aspect with acknowledged := 0, reading := [] }
    log := store.log
    returned := store.returned }

/-- One step of the system. -/
inductive Action
  | call (request : Request)
  | check (id : TaskId) (chunks : List Chunk)
  | writeFrame (id : TaskId)
  | planOutputs (id : TaskId) (outputs : List (List Chunk))
  | writeOutput (id : TaskId)
  | enter (id : TaskId) (aspect : AspectName)
  | allocate (id : TaskId)
  | prepare (id : TaskId) (step : Repair) (createdMs : Int)
  | land (id : TaskId)
  | settle (id : TaskId)
  | refuse (id : TaskId) (kind : TxnErrorKind)
  | ambiguous (id : TaskId)
  | fault (id : TaskId)
  | drop (id : TaskId)
  | recover (id : TaskId) (step : RecoveryStep)
  | finishRecovery (id : TaskId)
  | reap (unlinked cleared : List FrameName)
  | consume (aspect : AspectName)
  | acknowledge (aspect : AspectName) (returned : Bool)
  | forget (aspect : AspectName)
  | crash (frames quarantined : List FrameName)
  deriving DecidableEq

/-- The effect of an action, unless the store is not in a state to take it. -/
def step (catalog : Catalog) (store : Store) : Action → Option Store
  | .call request => store.call request
  | .check id chunks => store.check catalog id chunks
  | .writeFrame id => store.writeFrame id
  | .planOutputs id outputs => store.planOutputs id outputs
  | .writeOutput id => store.writeOutput id
  | .enter id aspect => store.enter id aspect
  | .allocate id => store.allocate id
  | .prepare id step createdMs => store.prepare catalog id step createdMs
  | .land id => store.land id
  | .settle id => store.settle id
  | .refuse id kind => store.refuse id kind
  | .ambiguous id => store.ambiguous id
  | .fault id => store.fault id
  | .drop id => store.drop id
  | .recover id step => store.recover id step
  | .finishRecovery id => store.finishRecovery id
  | .reap unlinked cleared => store.reap unlinked cleared
  | .consume aspect => some (store.consume aspect)
  | .acknowledge aspect returned => store.acknowledge aspect returned
  | .forget aspect => some (store.forget aspect)
  | .crash frames quarantined => some (store.crash frames quarantined)

end Store

end WeftDb
