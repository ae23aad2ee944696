import WeftDb.Batching.BatchTablesSound

/-!
# What the identifier of a batch names

Whatever is queued, moved, removed or crashed, every row of the tables and every batch in memory is
the one which its identifier names.  So the rows of one identifier are the same, however often the
mover inserted it.
-/

namespace WeftDb.BatchTables

variable {Hash Measurements : Type} {codec : BatchCodec Measurements Hash}
  {retentionMillis : Int}

/-- The row of a processed batch. -/
def BatchCodec.rowOf (codec : BatchCodec Measurements Hash) (id : BatchId) :
    BatchRow Measurements Hash :=
  codec.processedRow (codec.queuedRow id).parse

/-- The rows which a consumer has inserted and not committed. -/
def Consumer.inserted : Consumer Measurements Hash → List (BatchRow Measurements Hash)
  | .idle => []
  | .checking _ inserted _ | .notQueued _ inserted _ _ | .notProcessed _ inserted _ _ => inserted

/-- Every row and every batch in memory is the one which its identifier names. -/
structure Tables.Coded (codec : BatchCodec Measurements Hash)
    (tables : Tables Measurements Hash) : Prop where
  queued : ∀ row ∈ tables.queued, row = codec.queuedRow row.id
  processed : ∀ row ∈ tables.processed, row = codec.rowOf row.id
  inserted : ∀ row ∈ tables.consumer.inserted, row = codec.queuedRow row.id
  pending : ∀ batch ∈ tables.mover.pending, batch = (codec.queuedRow batch.batchId).parse
  cached : ∀ batch ∈ tables.cached, batch = (codec.queuedRow batch.batchId).parse

namespace Tables

theorem coded_fresh (codec : BatchCodec Measurements Hash) :
    (fresh Measurements Hash).Coded codec where
  queued := fun _ member => absurd member List.not_mem_nil
  processed := fun _ member => absurd member List.not_mem_nil
  inserted := fun _ member => absurd member List.not_mem_nil
  pending := fun _ member => absurd member List.not_mem_nil
  cached := fun _ member => absurd member List.not_mem_nil

variable {action : Action}

namespace Coded

variable {before after : Tables Measurements Hash}

theorem consume (coded : before.Coded codec) {next : Consumer Measurements Hash}
    (inserted : ∀ row ∈ next.inserted, row = codec.queuedRow row.id) :
    Tables.Coded codec { before with consumer := next } :=
  { coded with inserted := inserted }

theorem listed (coded : before.Coded codec) :
    ∀ batch ∈ before.queued.map BatchRow.parse,
      batch = (codec.queuedRow batch.batchId).parse := by
  intro batch member
  obtain ⟨row, row_mem, rfl⟩ := List.mem_map.mp member
  exact congrArg BatchRow.parse (coded.queued row row_mem)

theorem insertProcessed (coded : before.Coded codec)
    (taken : before.insertProcessed codec = some after) : after.Coded codec := by
  unfold Tables.insertProcessed at taken
  split at taken
  · cases taken
    exact { coded with pending := fun _ member => absurd member List.not_mem_nil }
  · rename_i left _ phase
    cases taken
    have pending : ∀ batch ∈ left, batch = (codec.queuedRow batch.batchId).parse := by
      have pending := coded.pending
      rw [phase] at pending
      exact pending
    refine { coded with processed := ?_, pending := ?_ }
    · intro row member
      rcases List.mem_append.mp member with old | new
      · exact coded.processed row old
      · obtain ⟨batch, batch_mem, rfl⟩ := List.mem_map.mp new
        exact congrArg codec.processedRow (pending batch (List.mem_of_mem_take batch_mem))
    · intro batch member
      rw [Mover.pending, List.take_append_drop] at member
      exact pending batch member
  · cases taken

theorem step [DecidableEq Hash] (coded : before.Coded codec)
    (taken : BatchTables.step codec retentionMillis before action = some after) :
    after.Coded codec := by
  cases action with
  | beginQueue batches =>
      simp only [BatchTables.step, Tables.beginQueue] at taken
      split at taken
      · cases taken
        exact coded.consume fun _ member => absurd member List.not_mem_nil
      · cases taken
  | checkQueued =>
      simp only [BatchTables.step, Tables.checkQueued] at taken
      split at taken
      · rename_i phase
        have inserted := coded.inserted
        rw [phase] at inserted
        split at taken
        · cases taken
          exact coded.consume inserted
        · cases taken
          exact coded.consume inserted
      · cases taken
  | checkProcessed =>
      simp only [BatchTables.step, Tables.checkProcessed] at taken
      split at taken
      · rename_i phase
        have inserted := coded.inserted
        rw [phase] at inserted
        split at taken
        · cases taken
          exact coded.consume inserted
        · cases taken
          exact coded.consume inserted
      · cases taken
  | checkExtracted =>
      simp only [BatchTables.step, Tables.checkExtracted] at taken
      split at taken
      · rename_i batch left phase
        have inserted := coded.inserted
        rw [phase] at inserted
        split at taken
        · cases taken
          exact coded.consume inserted
        · cases taken
          refine coded.consume fun row member => ?_
          rcases List.mem_append.mp member with old | new
          · exact inserted row old
          · rw [List.mem_singleton.mp new]
            rfl
      · cases taken
  | commitQueue =>
      simp only [BatchTables.step, Tables.commitQueue] at taken
      split at taken
      · rename_i phase
        have inserted := coded.inserted
        rw [phase] at inserted
        cases taken
        refine { coded with queued := ?_, inserted := ?_ }
        · intro row member
          rcases List.mem_append.mp member with old | new
          · exact coded.queued row old
          · exact inserted row new
        · exact fun _ member => absurd member List.not_mem_nil
      · cases taken
  | listQueued expired =>
      simp only [BatchTables.step, Tables.listQueued] at taken
      split at taken
      · have listed := coded.listed
        cases taken
        split
        · exact { coded with cached := listed, pending := listed }
        · exact { coded with pending := coded.cached }
      · cases taken
  | insertProcessed => exact coded.insertProcessed taken
  | removeUnprocessed =>
      simp only [BatchTables.step, Tables.removeUnprocessed] at taken
      split at taken
      · rename_i chunk left phase
        have pending := coded.pending
        rw [phase] at pending
        cases taken
        refine { coded with queued := ?_, pending := ?_ }
        · exact fun row member => coded.queued row (List.mem_filter.mp member).1
        · exact fun batch member => pending batch (List.mem_append_right _ member)
      · cases taken
  | removeExtracted batches now =>
      cases taken
      exact
        { coded with
          processed := fun row member => coded.processed row (List.mem_filter.mp member).1 }
  | stopConsumer =>
      cases taken
      exact coded.consume fun _ member => absurd member List.not_mem_nil
  | stopMover =>
      cases taken
      exact { coded with pending := fun _ member => absurd member List.not_mem_nil }
  | restart =>
      cases taken
      exact
        { coded with
          inserted := fun _ member => absurd member List.not_mem_nil
          pending := fun _ member => absurd member List.not_mem_nil
          cached := fun _ member => absurd member List.not_mem_nil }

end Coded

theorem processed_subset_of_step [DecidableEq Hash] {before after : Tables Measurements Hash}
    (taken : BatchTables.step codec retentionMillis before action = some after)
    (others : ∀ batches now, action ≠ .removeExtracted batches now) :
    before.processed ⊆ after.processed := by
  cases action with
  | removeExtracted batches now => exact absurd rfl (others batches now)
  | insertProcessed =>
      simp only [BatchTables.step, Tables.insertProcessed] at taken
      split at taken <;> cases taken
      · exact List.Subset.refl _
      · exact List.subset_append_left _ _
  | stopConsumer | stopMover | restart =>
      cases taken
      exact List.Subset.refl _
  | beginQueue | checkQueued | checkProcessed | checkExtracted | commitQueue | listQueued
  | removeUnprocessed =>
      simp only [BatchTables.step, Tables.beginQueue, Tables.checkQueued, Tables.checkProcessed,
        Tables.checkExtracted, Tables.commitQueue, Tables.listQueued,
        Tables.removeUnprocessed] at taken
      repeat' split at taken
      all_goals
        cases taken
        try exact List.Subset.refl _

end Tables

end WeftDb.BatchTables
