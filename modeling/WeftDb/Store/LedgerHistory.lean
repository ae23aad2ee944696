import WeftDb.Store.LockDiscipline
import WeftDb.Store.Recording

/-!
# The ledger is the history of ingests

The ledger lists the batches which committed, in order, and every task carries what it knows of
its batch from the first check to the commit.  Both are invariants of the system.
-/

namespace WeftDb

namespace Store

open Function

/-- Whether a task's work is the ingest of a batch. -/
def Ingests (work : Work) (aspect : AspectName) (batch : IngestBatch) : Prop :=
  ∃ checked queued written, work = .ingest aspect batch checked queued written

variable {aspect : AspectName} {work : Work}

theorem Ingests.batch {batch : IngestBatch} (ingests : Ingests work aspect batch) :
    work.batch = some batch := by
  obtain ⟨checked, queued, written, rfl⟩ := ingests
  rfl

/-- A transaction, and what follows it, fit the work which built them. -/
def Fits (work : Work) (aspect : AspectName) (publication : Publication)
    (next : Continuation) : Prop :=
  match work.batch with
  | some batch => ∃ receipt, next = .finish (some receipt) ∧
      Publishes publication aspect batch receipt
  | none => publication.ingested = [] ∧ Quiet next

/-- What holds of a task. -/
structure TaskOk (db : IndexDb) (log : List Commit) (id : TaskId) (task : Task) : Prop where
  hashed : ∀ {own batch checked queued written},
    task.work = .ingest own batch checked queued written →
    ∀ fingerprint ∈ checked, batch.fingerprint = some fingerprint
  own : ∀ {aspect batch held}, Ingests task.work aspect batch →
    task.stage.aspect = some held → held = aspect
  committing : ∀ {aspect publication next}, task.stage = .committing aspect publication next →
    Fits task.work aspect publication next ∧
      ∀ batch ∈ task.work.batch, db.ledgerEntry aspect batch.key = none
  landed : ∀ {aspect publication next}, task.stage = .landed aspect publication next →
    Fits task.work aspect publication next ∧
      ⟨some id, aspect, task.work.batch, task.work.publishes, publication⟩ ∈ log

/-- What holds of a commit. -/
def CommitOk (commit : Commit) : Prop :=
  match commit.batch with
  | some batch => ∃ receipt, Publishes commit.publication commit.aspect batch receipt
  | none => commit.publication.ingested = []

/-- A commit published the batch which a receipt names. -/
def Backs (commit : Commit) (aspect : AspectName) (batch : IngestBatch)
    (receipt : IngestReceipt) : Prop :=
  ∃ committed, commit.batch = some committed ∧ commit.aspect = aspect ∧
    committed.key = batch.key ∧ committed.fingerprint = batch.fingerprint ∧
    Publishes commit.publication aspect committed { receipt with duplicate := false }

/-- An answer turned a batch away because another one is recorded, or before the ledger was
consulted. -/
def TurnedAway (catalog : Catalog) (answer : IngestReturn) (recorded : UInt64) : Prop :=
  (∃ offered, answer.batch.fingerprint = some offered ∧
      answer.result =
        .error (.idempotencyConflict answer.aspect answer.batch.key recorded offered)) ∨
    (∃ refused, validateIngest catalog answer.aspect answer.batch = .error refused ∧
      answer.result = .error refused) ∨
    answer.result = .error .poisoned ∨ answer.result = .error .fault

/-- What holds of an answer. -/
structure AnswerOk (catalog : Catalog) (log : List Commit) (answer : IngestReturn) : Prop where
  past : answer.landed ≤ log.length
  backed : ∀ {receipt}, answer.result = .ok receipt →
    ∃ commit ∈ log, Backs commit answer.aspect answer.batch receipt
  mismatch : ∀ commit ∈ log.take answer.landed, ∀ {batch recorded}, commit.batch = some batch →
    commit.aspect = answer.aspect → batch.key = answer.batch.key →
    batch.fingerprint = some recorded → answer.batch.fingerprint ≠ some recorded →
    TurnedAway catalog answer recorded

/-- The ledger, the history and the tasks agree. -/
structure Recorded (catalog : Catalog) (store : Store) : Prop where
  ledger : store.db.ledger.rows = store.log.flatMap (·.publication.ingested)
  commits : ∀ commit ∈ store.log, CommitOk commit
  tasks : ∀ {id task}, store.tasks id = some task → TaskOk store.db store.log id task
  owners : ∀ commit ∈ store.log, ∀ id ∈ commit.task, id < store.nextTask ∧
    ∀ task ∈ store.tasks id, ∀ {aspect batch}, Ingests task.work aspect batch →
      commit.aspect = aspect ∧ commit.batch = some batch
  answers : ∀ answer ∈ store.returned, AnswerOk catalog store.log answer
  ended : ∀ answer ∈ store.returned, answer.task < store.nextTask ∧
    store.tasks answer.task = none ∧
    ∀ commit ∈ store.log, commit.task = some answer.task →
      commit.aspect = answer.aspect ∧ commit.batch = some answer.batch

namespace Recorded

variable {catalog : Catalog} {store next : Store}
variable {commit : Commit} {entry : LedgerEntry} {result : Except StoreError IngestReceipt}
  {id : TaskId} {refused : StoreError} {stage : Stage} {publication : Publication}
  {log : List Commit} {continuation : Continuation} {db : IndexDb} {held : AspectName}
  {state last : AspectState} {createdMs : Int}

section

variable (recorded : Recorded catalog store)

include recorded

theorem recorded_of_commit (member : commit ∈ store.log) {batch : IngestBatch}
    (own : commit.batch = some batch) :
    ∃ entry ∈ commit.publication.ingested,
      (entry.aspect, entry.key) = (commit.aspect, batch.key) ∧
        batch.fingerprint = some entry.fingerprint := by
  have publishes := recorded.commits commit member
  simp only [CommitOk, own] at publishes
  obtain ⟨receipt, publishes⟩ := publishes
  obtain ⟨createdMs, rows⟩ := publishes.recorded
  refine ⟨ledgerEntryOf receipt createdMs, ?_, Prod.ext publishes.aspect_eq publishes.key_eq,
    publishes.fingerprint_eq⟩
  rw [rows]
  exact List.mem_cons_self

theorem entry_of_commit (member : commit ∈ store.log) {batch : IngestBatch}
    (own : commit.batch = some batch) :
    ∃ entry, store.db.ledgerEntry commit.aspect batch.key = some entry ∧
      batch.fingerprint = some entry.fingerprint := by
  obtain ⟨entry, entry_mem, keyed, hashed⟩ := recorded.recorded_of_commit member own
  refine ⟨entry, IndexDb.ledgerEntry_eq_some.mpr ⟨?_, keyed⟩, hashed⟩
  rw [recorded.ledger, List.mem_flatMap]
  exact ⟨commit, member, entry_mem⟩

theorem commit_of_entry {key : String} (found : store.db.ledgerEntry aspect key = some entry) :
    ∃ commit ∈ store.log, ∃ batch receipt createdMs, commit.batch = some batch ∧
      commit.aspect = aspect ∧ batch.key = key ∧ entry = ledgerEntryOf receipt createdMs ∧
      Publishes commit.publication commit.aspect batch receipt := by
  obtain ⟨member, keyed⟩ := IndexDb.ledgerEntry_eq_some.mp found
  rw [recorded.ledger, List.mem_flatMap] at member
  obtain ⟨commit, commit_mem, entry_mem⟩ := member
  have publishes := recorded.commits commit commit_mem
  unfold CommitOk at publishes
  split at publishes
  · rename_i batch own
    obtain ⟨receipt, publishes⟩ := publishes
    obtain ⟨createdMs, rows⟩ := publishes.recorded
    rw [rows, List.mem_singleton] at entry_mem
    subst entry_mem
    obtain ⟨aspect_eq, key_eq⟩ := Prod.mk.inj keyed
    exact ⟨commit, commit_mem, batch, receipt, createdMs, own,
      publishes.aspect_eq.symm.trans aspect_eq, publishes.key_eq.symm.trans key_eq, rfl,
      publishes⟩
  · rw [publishes] at entry_mem
    cases entry_mem

theorem same_fingerprint {first second : Commit} (first_mem : first ∈ store.log)
    (second_mem : second ∈ store.log) {one two : IngestBatch} (first_own : first.batch = some one)
    (second_own : second.batch = some two) (aspect_eq : first.aspect = second.aspect)
    (key_eq : one.key = two.key) : one.fingerprint = two.fingerprint := by
  obtain ⟨entry, found, hashed⟩ := recorded.entry_of_commit first_mem first_own
  obtain ⟨other, other_found, other_hashed⟩ := recorded.entry_of_commit second_mem second_own
  rw [aspect_eq, key_eq, other_found] at found
  cases found
  rw [hashed, other_hashed]

theorem answer_of_entry {batch : IngestBatch}
    (found : store.db.ledgerEntry aspect batch.key = some entry)
    (answer : LedgerAnswer catalog aspect batch entry result) :
    AnswerOk catalog store.log ⟨id, aspect, batch, store.log.length, result⟩ where
  past := Nat.le_refl _
  backed := by
    rintro receipt rfl
    cases answer with
    | replay same =>
        obtain ⟨commit, member, committed, first, createdMs, own, aspect_eq, key_eq, rfl,
          publishes⟩ := recorded.commit_of_entry found
        refine ⟨commit, member, committed, own, aspect_eq, key_eq, ?_, ?_⟩
        · rw [publishes.fingerprint_eq, same]
          rfl
        · have first_eq : { first with duplicate := false } = first := by
            rw [← publishes.first]
          rw [← aspect_eq]
          change Publishes _ _ _ { first with duplicate := false }
          rw [first_eq]
          exact publishes
  mismatch := by
    intro commit member committed fingerprint own aspect_eq key_eq hashed different
    obtain ⟨other, other_found, other_hashed⟩ :=
      recorded.entry_of_commit (List.mem_of_mem_take member) own
    simp only at aspect_eq key_eq different
    rw [aspect_eq, key_eq, found] at other_found
    cases other_found
    rw [hashed] at other_hashed
    cases other_hashed
    cases answer with
    | invalid validation => exact .inr (.inl ⟨_, validation, rfl⟩)
    | replay same => exact absurd same different
    | conflict offered _ => exact .inl ⟨_, offered, rfl⟩
    | poisoned => exact .inr (.inr (.inl rfl))
    | fault => exact .inr (.inr (.inr rfl))

theorem answer_of_free {batch : IngestBatch} (free : store.db.ledgerEntry aspect batch.key = none) :
    AnswerOk catalog store.log ⟨id, aspect, batch, store.log.length, .error refused⟩ where
  past := Nat.le_refl _
  backed := by
    intro receipt answered
    cases answered
  mismatch := by
    intro commit member committed fingerprint own aspect_eq key_eq
    obtain ⟨entry, found, _⟩ := recorded.entry_of_commit (List.mem_of_mem_take member) own
    simp only at aspect_eq key_eq
    rw [aspect_eq, key_eq, free] at found
    cases found

end

theorem answer_of_failure (log : List Commit) {batch : IngestBatch}
    (failed : refused = .poisoned ∨ refused = .fault) :
    AnswerOk catalog log ⟨id, aspect, batch, log.length, .error refused⟩ where
  past := Nat.le_refl _
  backed := by
    intro receipt answered
    cases answered
  mismatch := by
    intro commit member committed fingerprint own aspect_eq key_eq hashed different
    rcases failed with rfl | rfl
    · exact .inr (.inr (.inl rfl))
    · exact .inr (.inr (.inr rfl))

section

variable (recorded : Recorded catalog store)

include recorded

theorem answer_of_own {batch : IngestBatch} (member : commit ∈ store.log)
    (own : commit.batch = some batch) (aspect_eq : commit.aspect = aspect)
    (answer : ∀ receipt, result = .ok receipt → Publishes commit.publication aspect batch
      { receipt with duplicate := false }) :
    AnswerOk catalog store.log ⟨id, aspect, batch, store.log.length, result⟩ where
  past := Nat.le_refl _
  backed := by
    intro receipt answered
    exact ⟨commit, member, batch, own, aspect_eq, rfl, rfl, answer receipt answered⟩
  mismatch := by
    intro other other_mem committed fingerprint other_own other_aspect key_eq hashed different
    have same := recorded.same_fingerprint (List.mem_of_mem_take other_mem) member other_own own
      (other_aspect.trans aspect_eq.symm) key_eq
    rw [hashed] at same
    exact absurd same.symm different

theorem congr (db : next.db = store.db) (log : next.log = store.log)
    (tasks : next.tasks = store.tasks) (nextTask : next.nextTask = store.nextTask)
    (returned : next.returned = store.returned) : Recorded catalog next := by
  obtain ⟨one, two, three, four, five, six⟩ := recorded
  constructor
  · rw [db, log]
    exact one
  · rw [log]
    exact two
  · rw [db, log, tasks]
    exact three
  · rw [log, tasks, nextTask]
    exact four
  · rw [returned, log]
    exact five
  · rw [returned, log, tasks, nextTask]
    exact six

theorem retask {tasks : TaskId → Option Task} {locks : AspectName → AspectLock}
    (kept : ∀ {other task}, tasks other = some task → store.tasks other = some task ∨
      TaskOk store.db store.log other task ∧ ∃ old, store.tasks other = some old ∧
        ∀ {aspect batch}, Ingests task.work aspect batch → Ingests old.work aspect batch)
    (gone : ∀ {other}, store.tasks other = none → tasks other = none) :
    Recorded catalog { store with tasks, locks } where
  ledger := recorded.ledger
  commits := recorded.commits
  tasks found := (kept found).elim recorded.tasks And.left
  owners := by
    intro commit member other owner
    obtain ⟨live, ingests⟩ := recorded.owners commit member other owner
    refine ⟨live, fun task found aspect batch ingest => ?_⟩
    rcases kept found with same | ⟨-, old, found, same⟩
    · exact ingests task same ingest
    · exact ingests old found (same ingest)
  answers := recorded.answers
  ended answer member := (recorded.ended answer member).imp_right (.imp_left gone)

theorem setTask {old task : Task} (found : store.tasks id = some old)
    (ok : TaskOk store.db store.log id task)
    (same : ∀ {aspect batch}, Ingests task.work aspect batch → Ingests old.work aspect batch) :
    Recorded catalog (store.setTask id task) := by
  refine recorded.retask (fun {other _} other_found => ?_) fun {other} gone => ?_
  · rw [update_apply] at other_found
    split at other_found
    · rename_i same_id
      cases other_found
      exact .inr (same_id ▸ ⟨ok, old, found, same⟩)
    · exact .inl other_found
  · rw [update_of_ne, gone]
    rintro rfl
    rw [gone] at found
    cases found

theorem leave (id : TaskId) : Recorded catalog (store.leave id) := by
  refine recorded.retask (fun found => .inl ?_) fun gone => ?_
  · rw [update_apply] at found
    split at found
    · cases found
    · exact found
  · rw [update_apply, gone, ite_self]

theorem reply (discipline : Disciplined store) (found : store.tasks id = some ⟨work, stage⟩)
    (answer : ∀ aspect batch, Ingests work aspect batch →
      AnswerOk catalog store.log ⟨id, aspect, batch, store.log.length, result⟩) :
    Recorded catalog (store.reply id work result) := by
  have left := recorded.leave id
  rw [reply_eq]
  cases work with
  | ingest aspect batch checked queued written =>
      have ingests : Ingests (.ingest aspect batch checked queued written) aspect batch :=
        ⟨checked, queued, written, rfl⟩
      refine ⟨left.ledger, left.commits, left.tasks, left.owners, ?_, ?_⟩
      · intro answered member
        rcases List.mem_append.mp member with earlier | latest
        · exact left.answers answered earlier
        · rw [List.mem_singleton.mp latest]
          exact answer aspect batch ingests
      · intro answered member
        rcases List.mem_append.mp member with earlier | latest
        · exact left.ended answered earlier
        · rw [List.mem_singleton.mp latest]
          refine ⟨discipline.live found, by simp, fun commit commit_mem owner => ?_⟩
          exact (recorded.owners commit commit_mem id owner).2 _ found ingests
  | _ => exact left.congr rfl rfl rfl rfl (List.append_nil _)

end

theorem commitOk_of_fits {next : Continuation} (fits : Fits work aspect publication next)
    (id : TaskId) : CommitOk ⟨some id, aspect, work.batch, work.publishes, publication⟩ := by
  unfold Fits at fits
  unfold CommitOk
  cases own : work.batch with
  | none =>
      rw [own] at fits
      exact fits.1
  | some batch =>
      rw [own] at fits
      obtain ⟨receipt, _, publishes⟩ := fits
      exact ⟨receipt, publishes⟩

theorem aspect_of_ingested {next : Continuation} (fits : Fits work aspect publication next)
    (member : entry ∈ publication.ingested) : entry.aspect = aspect := by
  unfold Fits at fits
  split at fits
  · obtain ⟨receipt, _, publishes⟩ := fits
    obtain ⟨createdMs, rows⟩ := publishes.recorded
    rw [rows, List.mem_singleton] at member
    rw [member]
    exact publishes.aspect_eq
  · rw [fits.1] at member
    cases member

theorem answer_extend {answer : IngestReturn} (commit : Commit) (ok : AnswerOk catalog log answer) :
    AnswerOk catalog (log ++ [commit]) answer where
  past := by
    have past := ok.past
    rw [List.length_append]
    omega
  backed := by
    intro receipt answered
    obtain ⟨backing, member, backs⟩ := ok.backed answered
    exact ⟨backing, List.mem_append_left _ member, backs⟩
  mismatch := by
    intro other member
    rw [List.take_append_of_le_length ok.past] at member
    exact ok.mismatch other member

/-- A task's commit becomes durable. -/
theorem land (recorded : Recorded catalog store) (discipline : Disciplined store)
    (found : store.tasks id = some ⟨work, .committing aspect publication continuation⟩)
    (applied : store.db.applyAll publication.ops = .ok db) :
    Recorded catalog
      { store.setTask id ⟨work, .landed aspect publication continuation⟩ with
        db
        log := store.log ++ [⟨some id, aspect, work.batch, work.publishes, publication⟩] } := by
  have ok := recorded.tasks found
  obtain ⟨fits, _⟩ := ok.committing rfl
  have rows : db.ledger.rows = store.db.ledger.rows ++ publication.ingested :=
    IndexDb.applyAll_ledger applied
  constructor
  · simp only [List.flatMap_append, List.flatMap_cons, List.flatMap_nil, List.append_nil]
    rw [rows, recorded.ledger]
  · intro commit member
    rcases List.mem_append.mp member with earlier | latest
    · exact recorded.commits commit earlier
    · rw [List.mem_singleton.mp latest]
      exact commitOk_of_fits fits id
  · intro other task other_found
    simp only [setTask_tasks, update_apply] at other_found
    split at other_found
    · rename_i same
      cases other_found
      subst same
      refine ⟨ok.hashed, ?_, by simp, ?_⟩
      · intro own batch held ingests stage
        exact ok.own ingests stage
      · rintro _ _ _ ⟨⟩
        exact ⟨fits, by simp⟩
    · rename_i different
      have other_ok := recorded.tasks other_found
      refine ⟨other_ok.hashed, other_ok.own, ?_, ?_⟩
      · intro own other_publication next stage
        obtain ⟨other_fits, free⟩ := other_ok.committing stage
        refine ⟨other_fits, fun batch own_batch => IndexDb.ledgerEntry_eq_none.mpr ?_⟩
        intro entry member
        rw [rows] at member
        rcases List.mem_append.mp member with earlier | added
        · exact IndexDb.ledgerEntry_eq_none.mp (free batch own_batch) entry earlier
        · rintro keyed
          have held := discipline.holder found rfl
          have other_held := discipline.holder other_found (by rw [stage]; rfl)
          rw [← (Prod.mk.inj keyed).1, aspect_of_ingested fits added, held] at other_held
          exact different (Option.some.inj other_held).symm
      · intro own other_publication next stage
        obtain ⟨other_fits, member⟩ := other_ok.landed stage
        exact ⟨other_fits, List.mem_append_left _ member⟩
  · intro commit member other owner
    rcases List.mem_append.mp member with earlier | latest
    · obtain ⟨live, ingests⟩ := recorded.owners commit earlier other owner
      refine ⟨live, fun task other_found own batch ingest => ?_⟩
      simp only [setTask_tasks, update_apply, Option.mem_def] at other_found
      split at other_found
      · rename_i same
        cases other_found
        subst same
        exact ingests _ found ingest
      · exact ingests task other_found ingest
    · rw [List.mem_singleton.mp latest] at owner ⊢
      cases owner
      refine ⟨discipline.live found, fun task other_found own batch ingest => ?_⟩
      simp only [setTask_tasks, update_self, Option.mem_def, Option.some.injEq]
        at other_found
      subst other_found
      exact ⟨ok.own ingest rfl, ingest.batch⟩
  · intro answer member
    exact answer_extend _ (recorded.answers answer member)
  · intro answer member
    obtain ⟨live, gone, commits⟩ := recorded.ended answer member
    refine ⟨live, ?_, ?_⟩
    · simp only [setTask_tasks, update_apply]
      rw [if_neg]
      · exact gone
      · rintro rfl
        rw [gone] at found
        cases found
    · intro commit commit_mem owner
      rcases List.mem_append.mp commit_mem with earlier | latest
      · exact commits commit earlier owner
      · rw [List.mem_singleton.mp latest] at owner
        cases owner
        rw [gone] at found
        cases found

/-- A transaction outside the commit lock becomes durable. -/
theorem write (recorded : Recorded catalog store)
    (applied : store.db.applyAll commit.publication.ops = .ok db) (plain : commit.batch = none)
    (silent : commit.publication.ingested = [])
    (owner : ∀ id ∈ commit.task, id < store.nextTask ∧
      ∃ task ∈ store.tasks id, task.work.batch = none) (db_eq : next.db = db)
    (log : next.log = store.log ++ [commit]) (tasks : next.tasks = store.tasks)
    (nextTask : next.nextTask = store.nextTask) (returned : next.returned = store.returned) :
    Recorded catalog next := by
  have rows : db.ledger.rows = store.db.ledger.rows := by
    have appended := IndexDb.applyAll_ledger applied
    change _ = _ ++ commit.publication.ingested at appended
    rw [appended, silent, List.append_nil]
  constructor
  · rw [db_eq, log, rows, recorded.ledger, List.flatMap_append]
    simp [silent]
  · intro other member
    rw [log] at member
    rcases List.mem_append.mp member with earlier | latest
    · exact recorded.commits other earlier
    · rw [List.mem_singleton.mp latest]
      simp only [CommitOk, plain]
      exact silent
  · intro id task found
    rw [tasks] at found
    have ok := recorded.tasks found
    refine ⟨ok.hashed, ok.own, ?_, ?_⟩
    · intro aspect publication continuation stage
      obtain ⟨fits, free⟩ := ok.committing stage
      refine ⟨fits, fun batch own => IndexDb.ledgerEntry_eq_none.mpr ?_⟩
      rw [db_eq, rows]
      exact IndexDb.ledgerEntry_eq_none.mp (free batch own)
    · intro aspect publication continuation stage
      obtain ⟨fits, member⟩ := ok.landed stage
      rw [log]
      exact ⟨fits, List.mem_append_left _ member⟩
  · intro other member id own
    rw [log] at member
    rw [tasks, nextTask]
    rcases List.mem_append.mp member with earlier | latest
    · exact recorded.owners other earlier id own
    · rw [List.mem_singleton.mp latest] at own
      obtain ⟨live, task, found, other_work⟩ := owner id own
      refine ⟨live, fun other_task other_found aspect batch ingests => ?_⟩
      rw [Option.mem_def] at found other_found
      rw [found] at other_found
      cases other_found
      rw [ingests.batch] at other_work
      cases other_work
  · intro answer member
    rw [returned] at member
    rw [log]
    exact answer_extend commit (recorded.answers answer member)
  · intro answer member
    rw [returned] at member
    rw [log, tasks, nextTask]
    obtain ⟨live, gone, commits⟩ := recorded.ended answer member
    refine ⟨live, gone, fun other other_mem own => ?_⟩
    rcases List.mem_append.mp other_mem with earlier | latest
    · exact commits other earlier own
    · rw [List.mem_singleton.mp latest] at own
      obtain ⟨_, task, found, _⟩ := owner _ own
      rw [Option.mem_def, gone] at found
      cases found

section

variable
  (hashed : ∀ {own batch checked queued written}, work = .ingest own batch checked queued written →
    ∀ fingerprint ∈ checked, batch.fingerprint = some fingerprint)

include hashed

theorem taskOk_running : TaskOk db log id ⟨work, .running⟩ where
  hashed := hashed
  own := by simp [Stage.aspect]
  committing := by simp
  landed := by simp

theorem taskOk_locked (own : ∀ {own batch}, Ingests work own batch → aspect = own) :
    TaskOk db log id ⟨work, .locked aspect⟩ where
  hashed := hashed
  own := by
    rintro other batch held ingests ⟨⟩
    exact own ingests
  committing := by simp
  landed := by simp

end

theorem not_ingests (other : work.batch = none) {batch : IngestBatch} :
    ¬Ingests work aspect batch := by
  rintro ingests
  rw [ingests.batch] at other
  cases other

theorem hashed_of_other (other : work.batch = none) {own : AspectName} {batch : IngestBatch}
    {checked : Option UInt64} {queued : List Chunk} {written : List WrittenSegment}
    (is_ingest : work = .ingest own batch checked queued written) :
    ∀ fingerprint ∈ checked, batch.fingerprint = some fingerprint := by
  rw [is_ingest] at other
  cases other

section

variable (recorded : Recorded catalog store)

include recorded

theorem answer_of_uncommitted
    (found : store.tasks id = some ⟨work, .committing held publication continuation⟩)
    (aspect : AspectName) (batch : IngestBatch) (ingests : Ingests work aspect batch) :
    AnswerOk catalog store.log ⟨id, aspect, batch, store.log.length, .error refused⟩ := by
  have ok := recorded.tasks found
  have free := (ok.committing rfl).2 batch ingests.batch
  rw [ok.own ingests rfl] at free
  exact recorded.answer_of_free free

theorem answer_of_landed
    (found : store.tasks id = some ⟨work, .landed held publication continuation⟩)
    (answer : ∀ receipt, result = .ok receipt → continuation = .finish (some receipt))
    (aspect : AspectName) (batch : IngestBatch) (ingests : Ingests work aspect batch) :
    AnswerOk catalog store.log ⟨id, aspect, batch, store.log.length, result⟩ := by
  have ok := recorded.tasks found
  obtain ⟨fits, member⟩ := ok.landed rfl
  have own := ok.own ingests rfl
  subst own
  refine recorded.answer_of_own member ingests.batch rfl ?_
  intro receipt answered
  unfold Fits at fits
  simp only [ingests.batch] at fits
  obtain ⟨committed, finish, publishes⟩ := fits
  rw [answer receipt answered] at finish
  cases finish
  have same : { receipt with duplicate := false } = receipt := by rw [← publishes.first]
  rw [same]
  exact publishes

theorem taskOk_committing {step : Repair} (found : store.tasks id = some ⟨work, .locked held⟩)
    (built : prepared catalog store.db held state step createdMs work =
      some (last, .commit publication continuation)) :
    TaskOk store.db store.log id ⟨work, .committing held publication continuation⟩ := by
  have ok := recorded.tasks found
  refine ⟨ok.hashed, ?_, ?_, by simp⟩
  · intro aspect batch own ingests stage
    exact ok.own ingests stage
  · rintro _ _ _ ⟨⟩
    cases own : work.batch with
    | none =>
        refine ⟨?_, by simp⟩
        simp only [Fits, own]
        exact prepared_quiet own built
    | some batch =>
        cases work with
        | ingest aspect committed checked queued written =>
            cases own
            have aspect_eq : held = aspect := ok.own ⟨_, _, _, rfl⟩ rfl
            rcases prepared_ingest built (ok.hashed rfl) with
              ⟨free, ⟨_, receipt, outcome, publishes⟩ | ⟨_, _, outcome⟩⟩ | ⟨_, _, _, _, outcome, _⟩
            · cases outcome
              refine ⟨⟨receipt, rfl, publishes⟩, ?_⟩
              rintro batch ⟨⟩
              exact free
            · cases outcome
            · cases outcome
        | _ => cases own

theorem answer_of_prepared {step : Repair} {unlinked : List WrittenSegment}
    (found : store.tasks id = some ⟨work, .locked held⟩)
    (built : prepared catalog store.db held state step createdMs work =
      some (last, .answer result unlinked)) (aspect : AspectName) (batch : IngestBatch)
    (ingests : Ingests work aspect batch) :
    AnswerOk catalog store.log ⟨id, aspect, batch, store.log.length, result⟩ := by
  have ok := recorded.tasks found
  have own := ok.own ingests rfl
  subst own
  obtain ⟨checked, queued, written, rfl⟩ := ingests
  rcases prepared_ingest built (ok.hashed rfl) with
    ⟨free, ⟨_, _, outcome, _⟩ | ⟨_, _, outcome⟩⟩ | ⟨entry, _, _, entry_found, outcome, answer⟩
  · cases outcome
  · cases outcome
    exact recorded.answer_of_free free
  · cases outcome
    exact recorded.answer_of_entry entry_found answer

theorem answer_of_refusal {batch : IngestBatch}
    (admission : admitBatch catalog store.db aspect batch = .error refused) :
    AnswerOk catalog store.log ⟨id, aspect, batch, store.log.length, .error refused⟩ := by
  cases found : store.db.ledgerEntry aspect batch.key with
  | none => exact recorded.answer_of_free found
  | some entry => exact recorded.answer_of_entry found (admitBatch_refused admission found)

end

theorem batch_of_resume {later : Work} (fits : Fits work aspect publication continuation)
    (goes_on : continuation = .resume later ∨ continuation = .retain later) :
    later.batch = none := by
  unfold Fits at fits
  split at fits
  · obtain ⟨receipt, finish, _⟩ := fits
    rcases goes_on with rfl | rfl <;> cases finish
  · rcases goes_on with rfl | rfl <;> exact fits.2

section

variable (recorded : Recorded catalog store)

include recorded

theorem setState (aspect : AspectName) (state : AspectState) :
    Recorded catalog (store.setState aspect state) :=
  recorded.congr rfl rfl rfl rfl rfl

theorem settled (aspect : AspectName) (publication : Publication) :
    Recorded catalog (store.settled aspect publication) :=
  recorded.congr rfl rfl rfl rfl rfl

theorem unlock (id : TaskId) : Recorded catalog (store.unlock id) :=
  recorded.congr rfl rfl rfl rfl rfl

theorem allocateGens {count gen : Nat}
    (counted : store.allocateGens aspect count = some (next, gen)) : Recorded catalog next := by
  obtain ⟨db, tasks, _, nextTask, _, log, returned, _⟩ := allocateGens_frame counted
  exact recorded.congr db log tasks nextTask returned

theorem setOther {old : Task} (found : store.tasks id = some old) (other : work.batch = none)
    (outside : stage = .running ∨ ∃ aspect, stage = .locked aspect) :
    Recorded catalog (store.setTask id ⟨work, stage⟩) := by
  refine recorded.setTask found ?_ fun ingests => absurd ingests (not_ingests other)
  rcases outside with rfl | ⟨aspect, rfl⟩
  · exact taskOk_running (hashed_of_other other)
  · exact taskOk_locked (hashed_of_other other) fun ingests => absurd ingests (not_ingests other)

theorem call {request : Request} (started : start store.db request = some work) :
    Recorded catalog
      { store.setTask store.nextTask ⟨work, .running⟩ with nextTask := store.nextTask + 1 } := by
  have absent : ∀ {id}, id < store.nextTask → id ≠ store.nextTask := fun live => Nat.ne_of_lt live
  constructor
  · exact recorded.ledger
  · exact recorded.commits
  · intro id task found
    simp only [setTask_tasks, update_apply] at found
    split at found
    · cases found
      refine taskOk_running ?_
      rintro own batch checked queued written rfl fingerprint checked_eq
      cases request with
      | ingest aspect offered =>
          cases started
          cases checked_eq
      | swap aspect plans =>
          simp only [start] at started
          split at started
          · obtain ⟨prepared, _, wrong⟩ := Option.map_eq_some_iff.mp started
            cases wrong
          · cases started
      | _ => cases started
    · exact recorded.tasks found
  · intro commit member id owner
    obtain ⟨live, ingests⟩ := recorded.owners commit member id owner
    refine ⟨Nat.lt_succ_of_lt live, ?_⟩
    simp only [setTask_tasks, update_of_ne (absent live)]
    exact ingests
  · exact recorded.answers
  · intro answer member
    obtain ⟨live, gone, commits⟩ := recorded.ended answer member
    refine ⟨Nat.lt_succ_of_lt live, ?_, commits⟩
    simp only [setTask_tasks, update_of_ne (absent live)]
    exact gone

theorem crash (frames quarantined : List FrameName) :
    Recorded catalog (store.crash frames quarantined) where
  ledger := recorded.ledger
  commits := recorded.commits
  tasks := by simp [Store.crash, opened]
  owners commit member id owner :=
    ⟨(recorded.owners commit member id owner).1, by simp [Store.crash, opened]⟩
  answers := recorded.answers
  ended answer member :=
    ⟨(recorded.ended answer member).1, rfl, (recorded.ended answer member).2.2⟩

end

/-- Every step keeps the ledger, the history and the tasks in agreement. -/
theorem step {before after : Store} {action : Action} (recorded : Recorded catalog before)
    (discipline : Disciplined before) (stepped : Stepped catalog before action after) :
    Recorded catalog after := by
  cases stepped with
  | call started => exact recorded.call started
  | checkPoisoned found poisoned =>
      exact recorded.reply discipline found fun _ _ _ => answer_of_failure _ (.inl rfl)
  | checkRefused found admission =>
      refine recorded.reply discipline found ?_
      rintro _ _ ⟨_, _, _, ⟨⟩⟩
      exact recorded.answer_of_refusal admission
  | checkReplayed found admission =>
      refine recorded.reply discipline found ?_
      rintro _ _ ⟨_, _, _, ⟨⟩⟩
      obtain ⟨entry, entry_found, answer⟩ := admitBatch_replay admission
      exact recorded.answer_of_entry entry_found answer
  | checkAdmitted found admission chunked =>
      refine recorded.setTask found (taskOk_running ?_) ?_
      · rintro _ _ _ _ _ ⟨⟩ fingerprint ⟨⟩
        exact (admitBatch_new admission).1
      · rintro _ _ ⟨_, _, _, ⟨⟩⟩
        exact ⟨_, _, _, rfl⟩
  | writeSeal found counted =>
      have tasks := (allocateGens_frame counted).2.1
      exact ((recorded.allocateGens counted).setOther (tasks ▸ found) (by rfl)
        (.inl rfl)).congr rfl rfl rfl rfl rfl
  | writeIngest found counted =>
      have tasks := (allocateGens_frame counted).2.1
      have ok := recorded.tasks found
      refine ((recorded.allocateGens counted).setTask (tasks ▸ found) (taskOk_running ?_)
        ?_).congr rfl rfl rfl rfl rfl
      · rintro _ _ _ _ _ ⟨⟩
        exact ok.hashed rfl
      · rintro _ _ ⟨_, _, _, ⟨⟩⟩
        exact ⟨_, _, _, rfl⟩
  | planWithout found names => exact recorded.setOther found rfl (.inl rfl)
  | planNamed found counted names =>
      have tasks := (allocateGens_frame counted).2.1
      exact (recorded.allocateGens counted).setOther (tasks ▸ found) rfl (.inl rfl)
  | writeOutput found =>
      exact (recorded.setOther found (by rfl) (.inl rfl)).congr rfl rfl rfl rfl rfl
  | @enter id own work found wanted free =>
      have ok := recorded.tasks found
      have kept : Recorded catalog (before.setTask id ⟨work, .locked own⟩) := recorded.setTask found
        (taskOk_locked ok.hashed fun ingests => by
          obtain ⟨checked, queued, written, rfl⟩ := ingests
          simp only [wantsLock, decide_eq_true_eq] at wanted
          exact wanted.1.symm) (fun ingests => ingests)
      exact kept.congr rfl rfl rfl rfl rfl
  | allocateNone found seeded none_ready => exact (recorded.setState _ _).leave _
  | allocateReady found seeded =>
      exact (recorded.setState _ _).setOther found rfl (.inr ⟨_, rfl⟩)
  | prepareCommit found seeded built readable healthy =>
      exact (recorded.setState _ _).setTask found (recorded.taskOk_committing found built)
        fun ingests => ingests
  | preparePoisoned found seeded built readable poisoned guarded =>
      exact (recorded.setState _ _).reply (discipline.setState _ _) found
        fun _ _ _ => answer_of_failure _ (.inl rfl)
  | @prepareAnswer _ _ _ _ aspect _ next _ _ found seeded built readable =>
      have kept := (recorded.setState aspect next).reply (discipline.setState aspect next) found
        (recorded.answer_of_prepared found built)
      exact kept.congr rfl rfl rfl rfl rfl
  | land found applied => exact recorded.land discipline found applied
  | settleReceipt found =>
      refine (recorded.settled _ _).reply (discipline.settled _ _) found ?_
      refine recorded.answer_of_landed found ?_
      rintro receipt ⟨⟩
      rfl
  | settleDone found => exact (recorded.settled _ _).leave _
  | settleResume found =>
      have fits := ((recorded.tasks found).landed rfl).1
      exact ((recorded.settled _ _).unlock _).setOther found
        (batch_of_resume fits (.inl rfl)) (.inl rfl)
  | settleRetain found =>
      have fits := ((recorded.tasks found).landed rfl).1
      exact (recorded.settled _ _).setOther found
        (batch_of_resume fits (.inr rfl)) (.inr ⟨_, rfl⟩)
  | refuseRetry found retry =>
      exact recorded.setOther found (retried_batch retry).2 (.inr ⟨_, rfl⟩)
  | refuseFail found final =>
      exact recorded.reply discipline found (recorded.answer_of_uncommitted found)
  | ambiguous found pending =>
      rcases pending with rfl | rfl
      · exact (recorded.reply discipline found (recorded.answer_of_uncommitted found)).congr
          rfl rfl rfl rfl rfl
      · exact (recorded.reply discipline found (recorded.answer_of_landed found
          (by rintro _ ⟨⟩))).congr rfl rfl rfl rfl rfl
  | fault found uncommitted =>
      exact recorded.reply discipline found fun _ _ _ => answer_of_failure _ (.inr rfl)
  | drop found => exact recorded.leave _
  | @recover id step changed ops changedAspect db found healthy readable built applied =>
      have written : Recorded catalog
          { before with
            db
            log := before.log ++
              [⟨some id, changedAspect.getD "", none, false, ⟨none, ops⟩⟩] } := recorded.write
        applied rfl (recoveryOps_ingested built)
        (by rintro _ ⟨⟩; exact ⟨discipline.live found, _, found, rfl⟩) rfl rfl rfl rfl rfl
      have quiet : (Work.recovery (changedAspect.toList ++ changed)).batch = none := rfl
      exact (written.setOther found quiet (.inl rfl)).congr rfl rfl rfl rfl rfl
  | finishRecovery found => exact recorded.leave _
  | reap healthy free applied =>
      refine recorded.write applied rfl ?_ (by rintro _ ⟨⟩) rfl rfl rfl rfl rfl
      simp [Publication.ingested, IndexOp.ingested]
  | consume => exact recorded.congr rfl rfl rfl rfl rfl
  | acknowledgeNothing nothing => exact recorded.congr rfl rfl rfl rfl rfl
  | acknowledge healthy applied =>
      exact recorded.write applied rfl rfl (by rintro _ ⟨⟩) rfl rfl rfl rfl rfl
  | forget => exact recorded.congr rfl rfl rfl rfl rfl
  | crash => exact recorded.crash _ _

end Recorded

theorem recorded_fresh (catalog : Catalog) : Recorded catalog fresh where
  ledger := rfl
  commits := by simp [fresh, opened]
  tasks := by simp [fresh, opened]
  owners := by simp [fresh, opened]
  answers := by simp [fresh, opened]
  ended := by simp [fresh, opened]

end Store

end WeftDb
