import Mathlib.Data.List.Pairwise
import WeftDb.Store.LedgerHistory

/-!
# Ingest is exactly-once

Over every interleaving, failure and restart at most one batch is committed under a key, every
receipt is that of this commit, and a different batch under the key is turned away.
-/

namespace WeftDb

namespace Store

/-- Two commits do not publish batches under one key of one aspect. -/
def Apart (one two : Commit) : Prop :=
  ∀ first ∈ one.batch, ∀ second ∈ two.batch, one.aspect = two.aspect → first.key ≠ second.key

instance : Std.Symm Apart where
  symm _ _ apart first first_mem second second_mem aspects keys :=
    apart second second_mem first first_mem aspects.symm keys.symm

/-- What an ingest promises its callers, over the commits and the answers of a run. -/
structure ExactlyOnce (catalog : Catalog) (store : Store) : Prop where
  /-- At most one batch is committed under a key of an aspect. -/
  single : store.log.Pairwise Apart
  /-- A receipt is that of a commit of the same key and fingerprint, and names the segments which
  this commit inserted. -/
  receipts : ∀ answer ∈ store.returned, ∀ receipt, answer.result = .ok receipt →
    ∃ commit ∈ store.log, ∃ batch ∈ commit.batch, commit.aspect = answer.aspect ∧
      batch.key = answer.batch.key ∧ batch.fingerprint = answer.batch.fingerprint ∧
      receipt.segmentIds = commit.publication.insertedIds commit.aspect ∧
      commit.publication.ingested.map (·.receipt) = [{ receipt with duplicate := false }]
  /-- The receipts of one key agree up to their duplicate flag. -/
  agree : ∀ one ∈ store.returned, ∀ two ∈ store.returned, one.aspect = two.aspect →
    one.batch.key = two.batch.key → ∀ first second, one.result = .ok first →
    two.result = .ok second → { first with duplicate := second.duplicate } = second
  /-- A call whose batch is not the recorded one commits nothing and gets no receipt. -/
  mismatched : ∀ answer ∈ store.returned, ∀ commit ∈ store.log, ∀ batch ∈ commit.batch,
    commit.aspect = answer.aspect → batch.key = answer.batch.key →
    batch.fingerprint ≠ answer.batch.fingerprint →
    (∀ receipt, answer.result ≠ .ok receipt) ∧
      ∀ other ∈ store.log, other.task ≠ some answer.task
  /-- Once the batch is recorded such a call returns the conflict, unless it is refused before the
  ledger is consulted or fails. -/
  conflict : ∀ answer ∈ store.returned, ∀ commit ∈ store.log.take answer.landed,
    ∀ batch ∈ commit.batch, ∀ recorded, commit.aspect = answer.aspect →
    batch.key = answer.batch.key → batch.fingerprint = some recorded →
    answer.batch.fingerprint ≠ some recorded → TurnedAway catalog answer recorded

namespace Recorded

variable {catalog : Catalog} {store : Store}
variable {one two : IngestBatch}

theorem single (recorded : Recorded catalog store) : store.log.Pairwise Apart := by
  have unique := store.db.ledger.nodup
  rw [recorded.ledger, List.map_flatMap, List.nodup_flatMap] at unique
  refine unique.2.imp_of_mem ?_
  intro earlier later earlier_mem later_mem apart first first_own second second_own same_aspect
    same_key
  obtain ⟨first_entry, first_mem, first_key, _⟩ :=
    recorded.recorded_of_commit earlier_mem first_own
  obtain ⟨second_entry, second_mem, second_key, _⟩ :=
    recorded.recorded_of_commit later_mem second_own
  have taken := List.mem_map_of_mem (f := fun entry : LedgerEntry =>
    (entry.aspect, entry.key)) first_mem
  have again := List.mem_map_of_mem (f := fun entry : LedgerEntry =>
    (entry.aspect, entry.key)) second_mem
  rw [first_key] at taken
  rw [second_key, ← same_aspect, ← same_key] at again
  exact apart taken again

theorem commit_unique (recorded : Recorded catalog store) {first second : Commit}
    (first_mem : first ∈ store.log) (second_mem : second ∈ store.log)
    (first_own : first.batch = some one) (second_own : second.batch = some two)
    (aspect_eq : first.aspect = second.aspect) (key_eq : one.key = two.key) : first = second := by
  by_contra different
  exact recorded.single.forall first_mem second_mem different one first_own two second_own
    aspect_eq key_eq

theorem receipt_unique {publication : Publication} {aspect : AspectName}
    {first second : IngestReceipt} (first_published : Publishes publication aspect one first)
    (second_published : Publishes publication aspect two second) : first = second := by
  obtain ⟨_, first_rows⟩ := first_published.recorded
  obtain ⟨_, second_rows⟩ := second_published.recorded
  rw [first_rows, List.singleton_inj] at second_rows
  exact congrArg LedgerEntry.receipt second_rows

theorem exactlyOnce (recorded : Recorded catalog store) : ExactlyOnce catalog store where
  single := recorded.single
  receipts := by
    intro answer member receipt answered
    obtain ⟨commit, commit_mem, batch, own, aspect_eq, key_eq, same, publishes⟩ :=
      (recorded.answers answer member).backed answered
    obtain ⟨createdMs, rows⟩ := publishes.recorded
    refine ⟨commit, commit_mem, batch, own, aspect_eq, key_eq, same, ?_, ?_⟩
    · rw [aspect_eq]
      exact publishes.segmentIds_eq
    · rw [rows]
      rfl
  agree := by
    intro one one_mem two two_mem aspect_eq key_eq first second first_answered second_answered
    obtain ⟨commit, commit_mem, batch, own, commit_aspect, batch_key, _, publishes⟩ :=
      (recorded.answers one one_mem).backed first_answered
    obtain ⟨other, other_mem, other_batch, other_own, other_aspect, other_key, _,
      other_publishes⟩ := (recorded.answers two two_mem).backed second_answered
    have same := recorded.commit_unique commit_mem other_mem own other_own
      (by rw [commit_aspect, other_aspect, aspect_eq]) (by rw [batch_key, other_key, key_eq])
    subst same
    rw [← aspect_eq] at other_publishes
    have receipts := receipt_unique publishes other_publishes
    cases first
    cases second
    cases receipts
    rfl
  mismatched := by
    intro answer member commit commit_mem batch own aspect_eq key_eq different
    refine ⟨?_, ?_⟩
    · intro receipt answered
      obtain ⟨other, other_mem, other_batch, other_own, other_aspect, other_key, same, _⟩ :=
        (recorded.answers answer member).backed answered
      have equal := recorded.same_fingerprint commit_mem other_mem own other_own
        (aspect_eq.trans other_aspect.symm) (key_eq.trans other_key.symm)
      exact different (equal.trans same)
    · intro other other_mem owner
      obtain ⟨other_aspect, other_own⟩ := (recorded.ended answer member).2.2 other other_mem owner
      exact different (recorded.same_fingerprint commit_mem other_mem own other_own
        (aspect_eq.trans other_aspect.symm) key_eq)
  conflict := by
    intro answer member commit commit_mem batch own fingerprint aspect_eq key_eq hashed different
    exact (recorded.answers answer member).mismatch commit commit_mem own aspect_eq key_eq hashed
      different

end Recorded

theorem recorded_of_run {catalog : Catalog} {actions : List Action} {store : Store}
    (execution : Execution.run (step catalog) fresh actions = some store) :
    Recorded catalog store ∧ Disciplined store :=
  Execution.invariant_of_run (fun store => Recorded catalog store ∧ Disciplined store)
    (fun kept _ taken =>
      ⟨kept.1.step kept.2 (stepped_of_step taken), kept.2.step (stepped_of_step taken)⟩)
    ⟨recorded_fresh catalog, disciplined_fresh⟩ (Execution.meets_true _ _ _) execution

/-- Ingest is exactly-once over every interleaving, failure and crash. -/
theorem ingest_exactlyOnce {catalog : Catalog} {actions : List Action} {store : Store}
    (execution : Execution.run (step catalog) fresh actions = some store) :
    ExactlyOnce catalog store :=
  (recorded_of_run execution).1.exactlyOnce

/-- A catalog which accepts every aspect. -/
def openCatalog : Catalog where
  validName := fun _ => true
  hasSchema := fun _ => true
  upsertKeys := fun _ => none
  maxSeriesPerAspect := 8

/-- A batch of one row under the key `k`. -/
def oneRow : IngestBatch where
  key := "k"
  groups := ⟨[]⟩
  rowsPerPage := none
  timestamps := [7]
  values := [some ⟨5, 0⟩]

/-- The encoded frame of the one row. -/
def oneRowChunk : Chunk where
  desc :=
    { id := 0, path := .elsewhere "", formatVersion := 1
      physicalType := some .bigDecimalText, timeUnit := some .seconds
      rowCount := 1, nullCount := 0, timeSorted := true
      minTs := some 7, maxTs := some 7, minValue := some 5, maxValue := some 5, byteLen := 64 }
  frameCrc := 1

/-- Commit the one row, and then offer a batch without rows under its key. -/
def emptyRetry : List Action :=
  [ .call (.ingest "a" oneRow), .check 0 [oneRowChunk], .writeFrame 0, .enter 0 "a",
    .prepare 0 .rebuild 0, .land 0, .settle 0,
    .call (.ingest "a" { oneRow with timestamps := [], values := [] }), .check 1 [] ]

/-- Whether every mismatched call returned the conflict once the batch was recorded. -/
def ConflictAlways (store : Store) : Prop :=
  ∀ answer ∈ store.returned, ∀ commit ∈ store.log.take answer.landed, ∀ batch ∈ commit.batch,
    commit.aspect = answer.aspect → batch.key = answer.batch.key →
    batch.fingerprint ≠ answer.batch.fingerprint →
    ∃ recorded offered, answer.result =
      .error (.idempotencyConflict answer.aspect answer.batch.key recorded offered)

/-- A batch without rows is refused as such although another one is committed under its key. -/
theorem emptyRetry_not_conflict :
    ∃ store, Execution.run (step openCatalog) fresh emptyRetry = some store ∧
      ¬ConflictAlways store := by
  have refused : (Execution.run (step openCatalog) fresh emptyRetry).any (fun store =>
      store.returned.any fun answer => (store.log.take answer.landed).any fun commit =>
        commit.batch.any fun batch => decide
          (commit.aspect = answer.aspect ∧ batch.key = answer.batch.key ∧
            batch.fingerprint ≠ answer.batch.fingerprint ∧
            answer.result = .error (.emptyIngestBatch "a"))) = true := by
    decide +kernel
  obtain ⟨store, execution, found⟩ := (Option.any_eq_true _ _).mp refused
  refine ⟨store, execution, fun claimed => ?_⟩
  obtain ⟨answer, answer_mem, found⟩ := List.any_eq_true.mp found
  obtain ⟨commit, commit_mem, found⟩ := List.any_eq_true.mp found
  obtain ⟨batch, own, found⟩ := (Option.any_eq_true _ _).mp found
  obtain ⟨aspect_eq, key_eq, different, result⟩ := of_decide_eq_true found
  obtain ⟨recorded, offered, conflict⟩ :=
    claimed answer answer_mem commit commit_mem batch own aspect_eq key_eq different
  rw [result] at conflict
  cases conflict

/-- The promise holds of the run which commits a row and offers an empty batch. -/
theorem ingest_exactlyOnce_emptyRetry :
    ∃ store, Execution.run (step openCatalog) fresh emptyRetry = some store ∧
      ExactlyOnce openCatalog store := by
  have runs : (Execution.run (step openCatalog) fresh emptyRetry).isSome = true := by
    decide +kernel
  obtain ⟨store, execution⟩ := Option.isSome_iff_exists.mp runs
  exact ⟨store, execution, ingest_exactlyOnce execution⟩

end Store

end WeftDb
