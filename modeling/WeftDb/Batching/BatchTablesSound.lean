import WeftDb.Batching.BatchTables

/-!
# A batch is handed on once

Between two steps each hash was queued once, and is queued, processed or extracted.  The queue and
the processed batches share only the chunk which the mover has inserted and not deleted, so a batch
is processed once, as long as no mover is stopped there and none takes up a list which an earlier
one moved.
-/

namespace WeftDb.BatchTables

variable {Measurements Hash : Type}
variable {batches : List (Batch Measurements Hash)} {codec : BatchCodec Measurements Hash}
  {action : Action}

/-- The hash which a batch is queued under. -/
def BatchCodec.hashOf (codec : BatchCodec Measurements Hash) (id : BatchId) : Hash :=
  (codec.queuedRow id).batchHash

/-- The chunk which is inserted and not deleted. -/
def Mover.chunk : Mover Measurements Hash → List (Batch Measurements Hash)
  | .inserted chunk _ => chunk
  | _ => []

/-- The batches which the mover has still to delete from the queue. -/
def Mover.pending : Mover Measurements Hash → List (Batch Measurements Hash)
  | .idle => []
  | .moving left => left
  | .inserted chunk left => chunk ++ left

/-- No record of an extracted batch is past its retention. -/
def WithinRetention (retentionMillis : Int) (tables : Tables Measurements Hash) : Action → Prop
  | .removeExtracted _ now =>
      ∀ record ∈ tables.extracted, now - retentionMillis ≤ record.extractedAt
  | _ => True

instance (retentionMillis : Int) (tables : Tables Measurements Hash) :
    ∀ action, Decidable (WithinRetention retentionMillis tables action)
  | .removeExtracted _ now =>
      inferInstanceAs (Decidable (∀ record ∈ tables.extracted,
        now - retentionMillis ≤ record.extractedAt))
  | .beginQueue _ | .checkQueued | .checkProcessed | .checkExtracted | .commitQueue
  | .listQueued _ | .insertProcessed | .removeUnprocessed | .stopConsumer | .stopMover
  | .restart => inferInstanceAs (Decidable True)

/-- No mover is stopped between its two transactions. -/
def MovesWhole (tables : Tables Measurements Hash) : Action → Prop
  | .stopMover => tables.mover.chunk.isEmpty
  | .restart => tables.mover.chunk.isEmpty
  | _ => True

instance (tables : Tables Measurements Hash) : ∀ action, Decidable (MovesWhole tables action)
  | .stopMover => inferInstanceAs (Decidable (tables.mover.chunk.isEmpty = true))
  | .restart => inferInstanceAs (Decidable (tables.mover.chunk.isEmpty = true))
  | .beginQueue _ | .checkQueued | .checkProcessed | .checkExtracted | .commitQueue
  | .listQueued _ | .insertProcessed | .removeUnprocessed | .removeExtracted _ _
  | .stopConsumer => inferInstanceAs (Decidable True)

/-- No mover takes up a cached list whose batches were moved since. -/
def ListsQueued (tables : Tables Measurements Hash) : Action → Prop
  | .listQueued expired =>
      expired = true ∨ ∀ batch ∈ tables.cached, batch.batchId ∈ tables.queued.map BatchRow.id
  | _ => True

instance (tables : Tables Measurements Hash) : ∀ action, Decidable (ListsQueued tables action)
  | .listQueued expired =>
      inferInstanceAs (Decidable (expired = true ∨
        ∀ batch ∈ tables.cached, batch.batchId ∈ tables.queued.map BatchRow.id))
  | .beginQueue _ | .checkQueued | .checkProcessed | .checkExtracted | .commitQueue
  | .insertProcessed | .removeUnprocessed | .removeExtracted _ _ | .stopConsumer | .stopMover
  | .restart => inferInstanceAs (Decidable True)

/-- Batches which were listed from rows of the queue, each hash once. -/
structure Listed (codec : BatchCodec Measurements Hash) (batches : List (Batch Measurements Hash)) :
    Prop where
  rows : ∀ batch ∈ batches, batch = (codec.queuedRow batch.batchId).parse
  once : (batches.map fun batch => codec.hashOf batch.batchId).Nodup

theorem Listed.processed (listed : Listed codec batches) :
    (batches.map codec.processedRow).map BatchRow.batchHash =
      batches.map fun batch => codec.hashOf batch.batchId := by
  rw [List.map_map]
  refine List.map_congr_left fun batch member => ?_
  rw [listed.rows batch member]
  rfl

theorem Listed.sublist {fewer : List (Batch Measurements Hash)} (listed : Listed codec batches)
    (sublist : fewer.Sublist batches) : Listed codec fewer where
  rows := fun batch member => listed.rows batch (sublist.subset member)
  once := listed.once.sublist (sublist.map _)

namespace Tables

variable (codec : BatchCodec Measurements Hash) (tables : Tables Measurements Hash)

/-- A processed batch, or one whose extraction is recorded. -/
def Recorded (hash : Hash) : Prop :=
  hash ∈ tables.processed.map BatchRow.batchHash ∨
    hash ∈ tables.extracted.map ExtractedBatch.batchHash

/-- A batch which one of the three lookups finds. -/
def Known (hash : Hash) : Prop :=
  hash ∈ tables.queued.map BatchRow.batchHash ∨ tables.Recorded hash

/-- What a transaction on the queue keeps to. -/
structure Inserting (snapshot inserted : List (BatchRow Measurements Hash)) : Prop where
  rows : ∀ row ∈ inserted, row = codec.queuedRow row.id
  unqueued : ∀ row ∈ inserted, row.batchHash ∉ tables.everQueued
  once : (inserted.map BatchRow.batchHash).Nodup
  covers : ∀ hash ∈ tables.everQueued,
    hash ∈ snapshot.map BatchRow.batchHash ∨ tables.Recorded hash

end Tables

/-- What the consumer keeps to, by where it is. -/
def Consumer.Holds (codec : BatchCodec Measurements Hash) (tables : Tables Measurements Hash) :
    Consumer Measurements Hash → Prop
  | .idle => True
  | .checking snapshot inserted _ => tables.Inserting codec snapshot inserted
  | .notQueued snapshot inserted batch _ =>
      tables.Inserting codec snapshot inserted ∧
        codec.hashOf batch ∉ (snapshot ++ inserted).map BatchRow.batchHash
  | .notProcessed snapshot inserted batch _ =>
      tables.Inserting codec snapshot inserted ∧
        codec.hashOf batch ∉ inserted.map BatchRow.batchHash ∧
          (codec.hashOf batch ∈ tables.everQueued →
            codec.hashOf batch ∈ tables.extracted.map ExtractedBatch.batchHash)

/-- The invariant between two steps. -/
structure Tables.HandsOn (codec : BatchCodec Measurements Hash)
    (tables : Tables Measurements Hash) : Prop where
  rows : ∀ row ∈ tables.queued, row = codec.queuedRow row.id
  queuedOnce : (tables.queued.map BatchRow.batchHash).Nodup
  everQueuedOnce : tables.everQueued.Nodup
  queued : ∀ row ∈ tables.queued, row.batchHash ∈ tables.everQueued
  known : ∀ hash ∈ tables.everQueued, tables.Known hash
  processedOnce : (tables.processed.map BatchRow.batchHash).Nodup
  everProcessedOnce : tables.everProcessed.Nodup
  processed : ∀ row ∈ tables.processed, row.batchHash ∈ tables.everProcessed
  moved : ∀ hash ∈ tables.everProcessed, hash ∈ tables.everQueued
  recorded : ∀ hash ∈ tables.everProcessed, tables.Recorded hash
  removedOnce : tables.removals.flatten.Nodup
  removed : ∀ hash ∈ tables.removals.flatten,
    hash ∈ tables.everProcessed ∧ hash ∉ tables.processed.map BatchRow.batchHash
  cached : Listed codec tables.cached
  pending : Listed codec tables.mover.pending
  waiting : ∀ batch ∈ tables.mover.pending, codec.queuedRow batch.batchId ∈ tables.queued
  inserted : ∀ batch ∈ tables.mover.chunk, codec.hashOf batch.batchId ∈ tables.everProcessed
  /-- The queue and the processed batches share only the mover's chunk. -/
  shared : ∀ row ∈ tables.queued, row.batchHash ∈ tables.everProcessed →
    ∃ batch ∈ tables.mover.chunk, codec.hashOf batch.batchId = row.batchHash
  consumer : tables.consumer.Holds codec tables

namespace Tables

variable {codec : BatchCodec Measurements Hash} {before after : Tables Measurements Hash}
variable {retentionMillis : Int}

/-- What every step but the commit of an insertion keeps for the consumer. -/
structure Records (before after : Tables Measurements Hash) : Prop where
  everQueued : after.everQueued = before.everQueued
  recorded : ∀ hash, before.Recorded hash → after.Recorded hash
  extracted : ∀ hash ∈ before.extracted.map ExtractedBatch.batchHash,
    hash ∈ after.extracted.map ExtractedBatch.batchHash

theorem Records.inserting (records : before.Records after)
    {snapshot inserted : List (BatchRow Measurements Hash)}
    (inserting : before.Inserting codec snapshot inserted) :
    after.Inserting codec snapshot inserted where
  rows := inserting.rows
  unqueued := records.everQueued ▸ inserting.unqueued
  once := inserting.once
  covers := by
    intro hash member
    rw [records.everQueued] at member
    exact (inserting.covers hash member).imp id (records.recorded hash)

theorem Records.holds (records : before.Records after) {consumer : Consumer Measurements Hash}
    (holds : consumer.Holds codec before) : consumer.Holds codec after := by
  cases consumer with
  | idle => trivial
  | checking snapshot inserted left => exact records.inserting holds
  | notQueued snapshot inserted batch left => exact ⟨records.inserting holds.1, holds.2⟩
  | notProcessed snapshot inserted batch left =>
      obtain ⟨inserting, unqueued, extracted⟩ := holds
      refine ⟨records.inserting inserting, unqueued, fun member => ?_⟩
      rw [records.everQueued] at member
      exact records.extracted _ (extracted member)

theorem HandsOn.consume (handsOn : before.HandsOn codec) (next : Consumer Measurements Hash)
    (holds : next.Holds codec before) : HandsOn codec { before with consumer := next } where
  rows := handsOn.rows
  queuedOnce := handsOn.queuedOnce
  everQueuedOnce := handsOn.everQueuedOnce
  queued := handsOn.queued
  known := handsOn.known
  processedOnce := handsOn.processedOnce
  everProcessedOnce := handsOn.everProcessedOnce
  processed := handsOn.processed
  moved := handsOn.moved
  recorded := handsOn.recorded
  removedOnce := handsOn.removedOnce
  removed := handsOn.removed
  cached := handsOn.cached
  pending := handsOn.pending
  waiting := handsOn.waiting
  inserted := handsOn.inserted
  shared := handsOn.shared
  consumer := by
    have records : before.Records { before with consumer := next } :=
      ⟨rfl, fun _ recorded => recorded, fun _ member => member⟩
    exact records.holds holds

theorem HandsOn.beginQueue (handsOn : before.HandsOn codec) {batches : List BatchId}
    (taken : before.beginQueue batches = some after) : after.HandsOn codec := by
  unfold Tables.beginQueue at taken
  split at taken
  · cases taken
    refine handsOn.consume (.checking before.queued [] batches) ?_
    exact ⟨fun _ member => absurd member List.not_mem_nil,
      fun _ member => absurd member List.not_mem_nil, List.nodup_nil, handsOn.known⟩
  · cases taken

section Lookups

variable [DecidableEq Hash]

variable (handsOn : before.HandsOn codec)

include handsOn

theorem HandsOn.checkQueued (taken : before.checkQueued codec = some after) :
    after.HandsOn codec := by
  unfold Tables.checkQueued at taken
  split at taken
  · next snapshot inserted batch left phase =>
      have holds := handsOn.consumer
      rw [phase] at holds
      split at taken
      · cases taken
        exact handsOn.consume (.checking snapshot inserted left) holds
      · next unqueued =>
          cases taken
          exact handsOn.consume (.notQueued snapshot inserted batch left)
            ⟨holds, unqueued⟩
  · cases taken

theorem HandsOn.checkProcessed (taken : before.checkProcessed codec = some after) :
    after.HandsOn codec := by
  unfold Tables.checkProcessed at taken
  split at taken
  · next snapshot inserted batch left phase =>
      have holds := handsOn.consumer
      rw [phase] at holds
      obtain ⟨inserting, unqueued⟩ := holds
      rw [List.map_append, List.mem_append, not_or] at unqueued
      split at taken
      · cases taken
        exact handsOn.consume (.checking snapshot inserted left) inserting
      · next unprocessed =>
          cases taken
          refine handsOn.consume (.notProcessed snapshot inserted batch left)
            ⟨inserting, unqueued.2, fun queued => ?_⟩
          rcases inserting.covers _ queued with seen | processed | extracted
          · exact absurd seen unqueued.1
          · exact absurd processed unprocessed
          · exact extracted
  · cases taken

theorem HandsOn.checkExtracted (taken : before.checkExtracted codec = some after) :
    after.HandsOn codec := by
  unfold Tables.checkExtracted at taken
  split at taken
  · next snapshot inserted batch left phase =>
      have holds := handsOn.consumer
      rw [phase] at holds
      obtain ⟨inserting, unqueued, extracted⟩ := holds
      simp only at taken
      split at taken
      · cases taken
        exact handsOn.consume (.checking snapshot inserted left) inserting
      · next unextracted =>
          cases taken
          refine handsOn.consume
            (.checking snapshot (inserted ++ [codec.queuedRow batch]) left) ?_
          refine ⟨fun row member => ?_, fun row member => ?_, ?_, inserting.covers⟩
          · rcases List.mem_append.mp member with member | member
            · exact inserting.rows row member
            · obtain rfl := List.mem_singleton.mp member
              rfl
          · rcases List.mem_append.mp member with member | member
            · exact inserting.unqueued row member
            · obtain rfl := List.mem_singleton.mp member
              exact fun queued => unextracted (extracted queued)
          · rw [List.map_append]
            exact inserting.once.append (List.nodup_singleton _)
              (List.disjoint_singleton.mpr unqueued)
  · cases taken

end Lookups

section

variable (handsOn : before.HandsOn codec)

include handsOn

theorem HandsOn.commitQueue (taken : before.commitQueue = some after) : after.HandsOn codec := by
  unfold Tables.commitQueue at taken
  split at taken
  · next snapshot inserted phase =>
      have inserting := handsOn.consumer
      rw [phase] at inserting
      have unqueued : ∀ hash ∈ inserted.map BatchRow.batchHash, hash ∉ before.everQueued := by
        intro hash member
        obtain ⟨row, row_mem, rfl⟩ := List.mem_map.mp member
        exact inserting.unqueued row row_mem
      cases taken
      exact
        { handsOn with
          rows := fun row member => (List.mem_append.mp member).elim (handsOn.rows row)
            (inserting.rows row)
          queuedOnce := by
            rw [List.map_append]
            refine handsOn.queuedOnce.append inserting.once fun hash queued new => ?_
            obtain ⟨row, row_mem, rfl⟩ := List.mem_map.mp queued
            exact unqueued _ new (handsOn.queued row row_mem)
          everQueuedOnce := handsOn.everQueuedOnce.append inserting.once
            fun hash queued new => unqueued hash new queued
          queued := fun row member => (List.mem_append.mp member).elim
            (fun member => List.mem_append_left _ (handsOn.queued row member))
            (fun member => List.mem_append_right _ (List.mem_map_of_mem member))
          known := by
            intro hash member
            simp only [Known, List.map_append, List.mem_append]
            rcases List.mem_append.mp member with member | member
            · exact (handsOn.known hash member).imp .inl id
            · exact .inl (.inr member)
          moved := fun hash member => List.mem_append_left _ (handsOn.moved hash member)
          waiting := fun batch member => List.mem_append_left _ (handsOn.waiting batch member)
          shared := by
            intro row member processed
            rcases List.mem_append.mp member with member | member
            · exact handsOn.shared row member processed
            · exact absurd (handsOn.moved _ processed) (inserting.unqueued row member)
          consumer := trivial }
  · cases taken

theorem HandsOn.stopMover (whole : before.mover.chunk = []) :
    HandsOn codec { before with mover := .idle } :=
  { handsOn with
    pending := ⟨fun _ member => absurd member List.not_mem_nil, List.nodup_nil⟩
    waiting := fun _ member => absurd member List.not_mem_nil
    inserted := fun _ member => absurd member List.not_mem_nil
    shared := by
      intro row member processed
      obtain ⟨batch, batch_mem, -⟩ := handsOn.shared row member processed
      rw [whole] at batch_mem
      cases batch_mem
    consumer := by
      have records : before.Records { before with mover := .idle } :=
        ⟨rfl, fun _ recorded => recorded, fun _ member => member⟩
      exact records.holds handsOn.consumer }

theorem HandsOn.listed : Listed codec (before.queued.map BatchRow.parse) where
  rows := by
    intro batch member
    obtain ⟨row, row_mem, rfl⟩ := List.mem_map.mp member
    exact congrArg BatchRow.parse (handsOn.rows row row_mem)
  once := by
    rw [List.map_map]
    have same : before.queued.map ((fun batch => codec.hashOf batch.batchId) ∘ BatchRow.parse) =
        before.queued.map BatchRow.batchHash :=
      List.map_congr_left fun row member =>
        (congrArg BatchRow.batchHash (handsOn.rows row member)).symm
    rw [same]
    exact handsOn.queuedOnce

theorem HandsOn.list (whole : before.mover.chunk = []) (listed : Listed codec batches)
    (waiting : ∀ batch ∈ batches, codec.queuedRow batch.batchId ∈ before.queued) :
    HandsOn codec { before with cached := batches, mover := .moving batches } :=
  { handsOn.stopMover whole with
    cached := listed
    pending := listed
    waiting := waiting
    consumer := by
      have records : before.Records { before with cached := batches, mover := .moving batches } :=
        ⟨rfl, fun _ recorded => recorded, fun _ member => member⟩
      exact records.holds handsOn.consumer }

theorem HandsOn.listQueued {expired : Bool} (lists : ListsQueued before (.listQueued expired))
    (taken : before.listQueued expired = some after) : after.HandsOn codec := by
  unfold Tables.listQueued at taken
  split at taken
  · next phase =>
      have whole : before.mover.chunk = [] := by
        rw [phase]
        rfl
      cases taken
      split
      · refine handsOn.list whole handsOn.listed fun batch member => ?_
        obtain ⟨row, row_mem, rfl⟩ := List.mem_map.mp member
        exact handsOn.rows row row_mem ▸ row_mem
      · next fromCache =>
          refine handsOn.list whole handsOn.cached fun batch member => ?_
          rcases lists with rfl | queued
          · exact absurd (.inl rfl) fromCache
          · obtain ⟨row, row_mem, same⟩ := List.mem_map.mp (queued batch member)
            exact same ▸ handsOn.rows row row_mem ▸ row_mem
  · cases taken

theorem HandsOn.insertProcessed (taken : before.insertProcessed codec = some after) :
    after.HandsOn codec := by
  unfold Tables.insertProcessed at taken
  split at taken
  · next phase =>
      cases taken
      exact handsOn.stopMover (by rw [phase]; rfl)
  · next left _ phase =>
      have listed := handsOn.pending
      have waiting := handsOn.waiting
      have shared := handsOn.shared
      rw [phase] at listed waiting shared
      have chunk_listed := listed.sublist (List.take_sublist moveChunk left)
      have new : ∀ hash ∈ (left.take moveChunk).map fun batch => codec.hashOf batch.batchId,
          hash ∉ before.everProcessed := by
        intro hash member processed
        obtain ⟨batch, batch_mem, rfl⟩ := List.mem_map.mp member
        obtain ⟨other, other_mem, -⟩ :=
          shared _ (waiting batch (List.mem_of_mem_take batch_mem)) processed
        cases other_mem
      cases taken
      rw [chunk_listed.processed]
      have records : before.Records
          { before with
            processed := before.processed ++ (left.take moveChunk).map codec.processedRow
            mover := .inserted (left.take moveChunk) (left.drop moveChunk)
            everProcessed := before.everProcessed ++
              (left.take moveChunk).map fun batch => codec.hashOf batch.batchId } := by
        refine ⟨rfl, fun hash recorded => ?_, fun _ member => member⟩
        simp only [Recorded, List.map_append, List.mem_append]
        exact recorded.imp .inl id
      exact
        { handsOn with
          known := fun hash member => (handsOn.known hash member).imp id (records.recorded hash)
          processedOnce := by
            rw [List.map_append, chunk_listed.processed]
            refine handsOn.processedOnce.append chunk_listed.once fun hash processed member => ?_
            obtain ⟨row, row_mem, rfl⟩ := List.mem_map.mp processed
            exact new _ member (handsOn.processed row row_mem)
          everProcessedOnce := handsOn.everProcessedOnce.append chunk_listed.once
            fun hash processed member => new hash member processed
          processed := by
            intro row member
            rcases List.mem_append.mp member with member | member
            · exact List.mem_append_left _ (handsOn.processed row member)
            · rw [← chunk_listed.processed]
              exact List.mem_append_right _ (List.mem_map_of_mem member)
          moved := by
            intro hash member
            rcases List.mem_append.mp member with member | member
            · exact handsOn.moved hash member
            · obtain ⟨batch, batch_mem, rfl⟩ := List.mem_map.mp member
              exact handsOn.queued _ (waiting batch (List.mem_of_mem_take batch_mem))
          recorded := by
            intro hash member
            rcases List.mem_append.mp member with member | member
            · exact records.recorded hash (handsOn.recorded hash member)
            · rw [← chunk_listed.processed] at member
              simp only [Recorded, List.map_append, List.mem_append]
              exact .inl (.inr member)
          removed := by
            intro hash member
            obtain ⟨processed, gone⟩ := handsOn.removed hash member
            refine ⟨List.mem_append_left _ processed, ?_⟩
            rw [List.map_append, chunk_listed.processed, List.mem_append, not_or]
            exact ⟨gone, fun member => new hash member processed⟩
          pending := by
            simp only [Mover.pending, List.take_append_drop]
            exact listed
          waiting := by
            simp only [Mover.pending, List.take_append_drop]
            exact waiting
          inserted := fun batch member => List.mem_append_right _ (List.mem_map.mpr
            ⟨batch, member, rfl⟩)
          shared := by
            intro row row_mem processed
            rcases List.mem_append.mp processed with processed | member
            · obtain ⟨other, other_mem, -⟩ := shared row row_mem processed
              cases other_mem
            · exact List.mem_map.mp member
          consumer := records.holds handsOn.consumer }
  · cases taken

theorem HandsOn.removeUnprocessed (taken : before.removeUnprocessed = some after) :
    after.HandsOn codec := by
  unfold Tables.removeUnprocessed at taken
  split at taken
  · next chunk left phase =>
      have listed := handsOn.pending
      have waiting := handsOn.waiting
      have inserted := handsOn.inserted
      have shared := handsOn.shared
      rw [phase] at listed waiting inserted shared
      simp only [Mover.pending, Mover.chunk] at listed waiting inserted shared
      have kept {row : BatchRow Measurements Hash} (member : row ∈ before.queued.filter fun row =>
          decide (row.id ∉ chunk.map Batch.batchId)) :
          row ∈ before.queued ∧ row.id ∉ chunk.map Batch.batchId :=
        ⟨(List.mem_filter.mp member).1, of_decide_eq_true (List.mem_filter.mp member).2⟩
      cases taken
      exact
        { handsOn with
          rows := fun row member => handsOn.rows row (kept member).1
          queuedOnce := handsOn.queuedOnce.sublist (List.filter_sublist.map _)
          queued := fun row member => handsOn.queued row (kept member).1
          known := by
            intro hash member
            rcases handsOn.known hash member with queued | recorded
            · obtain ⟨row, row_mem, rfl⟩ := List.mem_map.mp queued
              by_cases removed : row.id ∈ chunk.map Batch.batchId
              · obtain ⟨batch, batch_mem, same⟩ := List.mem_map.mp removed
                have processed := inserted batch batch_mem
                rw [same, BatchCodec.hashOf, ← handsOn.rows row row_mem] at processed
                exact .inr (handsOn.recorded _ processed)
              · exact .inl (List.mem_map_of_mem
                  (List.mem_filter.mpr ⟨row_mem, decide_eq_true removed⟩))
            · exact .inr recorded
          pending := listed.sublist (List.sublist_append_right _ _)
          waiting := by
            intro batch member
            refine List.mem_filter.mpr
              ⟨waiting batch (List.mem_append_right _ member), decide_eq_true fun removed => ?_⟩
            obtain ⟨other, other_mem, same⟩ := List.mem_map.mp removed
            have once := listed.once
            rw [List.map_append] at once
            refine List.disjoint_of_nodup_append once
              (List.mem_map_of_mem (f := fun batch => codec.hashOf batch.batchId) other_mem) ?_
            exact List.mem_map.mpr ⟨batch, member, congrArg codec.hashOf same.symm⟩
          inserted := fun _ member => absurd member List.not_mem_nil
          shared := by
            intro row member processed
            obtain ⟨row_mem, unmoved⟩ := kept member
            obtain ⟨batch, batch_mem, same⟩ := shared row row_mem processed
            have queued := waiting batch (List.mem_append_left _ batch_mem)
            have row_eq := List.inj_on_of_nodup_map handsOn.queuedOnce queued row_mem same
            exact absurd (List.mem_map.mpr ⟨batch, batch_mem, congrArg BatchRow.id row_eq⟩) unmoved
          consumer := by
            have records : before.Records
                { before with
                  queued := before.queued.filter fun row =>
                    decide (row.id ∉ chunk.map Batch.batchId)
                  mover := .moving left } :=
              ⟨rfl, fun _ recorded => recorded, fun _ member => member⟩
            exact records.holds handsOn.consumer }
  · cases taken

theorem HandsOn.removeExtracted {batches : List BatchId} {now : Int}
    (within : WithinRetention retentionMillis before (.removeExtracted batches now)) :
    (before.removeExtracted retentionMillis batches now).HandsOn codec := by
  have all_kept : (before.extracted.filter fun record =>
      decide (now - retentionMillis ≤ record.extractedAt)) = before.extracted :=
    List.filter_eq_self.mpr fun record member => decide_eq_true (within record member)
  have sublist : (before.processed.filter fun row => decide (row.id ∈ batches)).Sublist
      before.processed := List.filter_sublist
  have extracted (hash : Hash) : hash ∈ (before.removeExtracted retentionMillis batches
      now).extracted.map ExtractedBatch.batchHash ↔
        hash ∈ before.extracted.map ExtractedBatch.batchHash ∨
          ∃ row ∈ before.processed, row.id ∈ batches ∧ row.batchHash = hash := by
    simp only [Tables.removeExtracted, all_kept]
    simp [and_assoc]
  have records : before.Records (before.removeExtracted retentionMillis batches now) := by
    refine ⟨rfl, fun hash recorded => ?_, fun hash member => (extracted hash).mpr (.inl member)⟩
    rcases recorded with processed | member
    · obtain ⟨row, row_mem, rfl⟩ := List.mem_map.mp processed
      by_cases removed : row.id ∈ batches
      · exact .inr ((extracted _).mpr (.inr ⟨row, row_mem, removed, rfl⟩))
      · exact .inl (List.mem_map_of_mem (List.mem_filter.mpr ⟨row_mem, decide_eq_true removed⟩))
    · exact .inr ((extracted hash).mpr (.inl member))
  -- A hash is in one processed row, so a removed one is in none that is left.
  have gone {row left : BatchRow Measurements Hash} (row_mem : row ∈ before.processed)
      (removed : row.id ∈ batches) (left_mem : left ∈ before.processed)
      (kept : left.id ∉ batches) : left.batchHash ≠ row.batchHash := by
    intro same
    obtain rfl := List.inj_on_of_nodup_map handsOn.processedOnce left_mem row_mem same
    exact kept removed
  exact
    { handsOn with
      known := fun hash member => (handsOn.known hash member).imp id (records.recorded hash)
      processedOnce := handsOn.processedOnce.sublist (List.filter_sublist.map _)
      processed := fun row member => handsOn.processed row (List.mem_filter.mp member).1
      recorded := fun hash member => records.recorded hash (handsOn.recorded hash member)
      removedOnce := by
        simp only [Tables.removeExtracted, List.flatten_append, List.flatten_singleton]
        refine handsOn.removedOnce.append (handsOn.processedOnce.sublist (sublist.map _))
          fun hash earlier member => ?_
        exact (handsOn.removed hash earlier).2 ((sublist.map _).subset member)
      removed := by
        intro hash member
        simp only [Tables.removeExtracted, List.flatten_append, List.flatten_singleton] at member
        rcases List.mem_append.mp member with member | member
        · obtain ⟨processed, absent⟩ := handsOn.removed hash member
          exact ⟨processed, fun left => absent ((List.filter_sublist.map _).subset left)⟩
        · obtain ⟨row, row_mem, rfl⟩ := List.mem_map.mp member
          obtain ⟨row_mem, removed⟩ := List.mem_filter.mp row_mem
          refine ⟨handsOn.processed row row_mem, fun left => ?_⟩
          obtain ⟨other, other_mem, same⟩ := List.mem_map.mp left
          obtain ⟨other_mem, kept⟩ := List.mem_filter.mp other_mem
          exact gone row_mem (of_decide_eq_true removed) other_mem (of_decide_eq_true kept) same
      consumer := records.holds handsOn.consumer }

theorem HandsOn.restart (whole : before.mover.chunk = []) : before.restart.HandsOn codec :=
  { (handsOn.consume (.idle) trivial).stopMover whole with
    cached := ⟨fun _ member => absurd member List.not_mem_nil, List.nodup_nil⟩
    consumer := trivial }

end

theorem HandsOn.step [DecidableEq Hash] (handsOn : before.HandsOn codec)
    (within : WithinRetention retentionMillis before action) (whole : MovesWhole before action)
    (lists : ListsQueued before action)
    (taken : BatchTables.step codec retentionMillis before action = some after) :
    after.HandsOn codec := by
  cases action with
  | beginQueue batches => exact handsOn.beginQueue taken
  | checkQueued => exact handsOn.checkQueued taken
  | checkProcessed => exact handsOn.checkProcessed taken
  | checkExtracted => exact handsOn.checkExtracted taken
  | commitQueue => exact handsOn.commitQueue taken
  | listQueued expired => exact handsOn.listQueued lists taken
  | insertProcessed => exact handsOn.insertProcessed taken
  | removeUnprocessed => exact handsOn.removeUnprocessed taken
  | removeExtracted batches now =>
      cases taken
      exact handsOn.removeExtracted within
  | stopConsumer =>
      cases taken
      exact handsOn.consume (.idle) trivial
  | stopMover =>
      cases taken
      exact handsOn.stopMover (List.isEmpty_iff.mp whole)
  | restart =>
      cases taken
      exact handsOn.restart (List.isEmpty_iff.mp whole)

theorem fresh_handsOn : (fresh Measurements Hash).HandsOn codec where
  rows := fun _ member => absurd member List.not_mem_nil
  queuedOnce := List.nodup_nil
  everQueuedOnce := List.nodup_nil
  queued := fun _ member => absurd member List.not_mem_nil
  known := fun _ member => absurd member List.not_mem_nil
  processedOnce := List.nodup_nil
  everProcessedOnce := List.nodup_nil
  processed := fun _ member => absurd member List.not_mem_nil
  moved := fun _ member => absurd member List.not_mem_nil
  recorded := fun _ member => absurd member List.not_mem_nil
  removedOnce := List.nodup_nil
  removed := fun _ member => absurd member List.not_mem_nil
  cached := ⟨fun _ member => absurd member List.not_mem_nil, List.nodup_nil⟩
  pending := ⟨fun _ member => absurd member List.not_mem_nil, List.nodup_nil⟩
  waiting := fun _ member => absurd member List.not_mem_nil
  inserted := fun _ member => absurd member List.not_mem_nil
  shared := fun _ member => absurd member List.not_mem_nil
  consumer := trivial

end Tables

/-- How many of its steps the mover has before it at most. -/
def Mover.work : Mover Measurements Hash → Nat
  | .idle => 0
  | .moving left => 2 * left.length + 1
  | .inserted _ left => 2 * left.length + 2

/-- The next step of a mover. -/
def Mover.next : Mover Measurements Hash → Action
  | .idle => .listQueued true
  | .moving _ => .insertProcessed
  | .inserted _ _ => .removeUnprocessed

/-- A step of the mover, or one which stops it. -/
def Action.OfMover : Action → Prop
  | .listQueued _ | .insertProcessed | .removeUnprocessed | .stopMover | .restart => True
  | _ => False

namespace Tables

variable [DecidableEq Hash] {codec : BatchCodec Measurements Hash} {retentionMillis : Int}
  {before after : Tables Measurements Hash}

theorem mover_advances (begun : 0 < before.mover.work) :
    ∃ after, step codec retentionMillis before before.mover.next = some after ∧
      after.mover.work < before.mover.work := by
  cases phase : before.mover with
  | idle =>
      rw [phase] at begun
      cases begun
  | moving left =>
      cases left with
      | nil =>
          refine ⟨{ before with mover := .idle }, ?_, Nat.zero_lt_one⟩
          simp only [Mover.next, step, insertProcessed, phase]
      | cons batch left =>
          simp only [Mover.next, step, insertProcessed, phase]
          refine ⟨_, rfl, ?_⟩
          simp only [Mover.work, List.length_drop, moveChunk, List.length_cons]
          omega
  | inserted chunk left =>
      simp only [Mover.next, step, removeUnprocessed, phase]
      exact ⟨_, rfl, Nat.lt_succ_self _⟩

theorem mover_undisturbed (other : ¬action.OfMover)
    (taken : step codec retentionMillis before action = some after) :
    after.mover = before.mover := by
  cases action with
  | beginQueue batches =>
      simp only [step, beginQueue] at taken
      split at taken <;> cases taken
      rfl
  | checkQueued =>
      simp only [step, checkQueued] at taken
      repeat' split at taken
      all_goals cases taken
      all_goals rfl
  | checkProcessed =>
      simp only [step, checkProcessed] at taken
      repeat' split at taken
      all_goals cases taken
      all_goals rfl
  | checkExtracted =>
      simp only [step, checkExtracted] at taken
      repeat' split at taken
      all_goals cases taken
      all_goals rfl
  | commitQueue =>
      simp only [step, commitQueue] at taken
      split at taken <;> cases taken
      rfl
  | listQueued expired => exact absurd trivial other
  | insertProcessed => exact absurd trivial other
  | removeUnprocessed => exact absurd trivial other
  | removeExtracted batches now =>
      cases taken
      rfl
  | stopConsumer =>
      cases taken
      rfl
  | stopMover => exact absurd trivial other
  | restart => exact absurd trivial other

variable (codec retentionMillis) in
/-- What the tables and the mover promise. -/
structure HandsOnOnce (tables : Tables Measurements Hash) : Prop where
  /-- A hash has one row in the processed batches over its whole life. -/
  processed : tables.everProcessed.Nodup
  /-- One completed removal hands it on. -/
  handedOn : tables.removals.flatten.Nodup
  /-- Each hash is queued once, and afterwards one of the lookups finds it. -/
  queued : tables.everQueued.Nodup
  known : ∀ hash ∈ tables.everQueued, tables.Known hash
  /-- A mover can start, and the steps it has left are accepted whatever happens in between. -/
  starts : tables.mover.work = 0 → ∀ expired, ∃ after,
    step codec retentionMillis tables (.listQueued expired) = some after
  advances : 0 < tables.mover.work → ∃ after,
    step codec retentionMillis tables tables.mover.next = some after ∧
      after.mover.work < tables.mover.work
  undisturbed : ∀ action after, ¬action.OfMover →
    step codec retentionMillis tables action = some after → after.mover = tables.mover

theorem HandsOn.once {tables : Tables Measurements Hash} (handsOn : tables.HandsOn codec) :
    tables.HandsOnOnce codec retentionMillis where
  processed := handsOn.everProcessedOnce
  handedOn := handsOn.removedOnce
  queued := handsOn.everQueuedOnce
  known := handsOn.known
  starts := by
    intro none expired
    cases phase : tables.mover with
    | idle =>
        simp only [BatchTables.step, Tables.listQueued, phase]
        exact ⟨_, rfl⟩
    | moving left =>
        rw [phase] at none
        cases none
    | inserted chunk left =>
        rw [phase] at none
        cases none
  advances := mover_advances
  undisturbed := fun _ _ other taken => mover_undisturbed other taken

end Tables

/-- In every run within the retention in which no mover is stopped between its transactions, and
none takes up batches which were moved, each batch is handed on once. -/
theorem batches_handedOnOnce [DecidableEq Hash] {codec : BatchCodec Measurements Hash}
    {retentionMillis : Int} {actions : List Action} {tables : Tables Measurements Hash}
    (meets : Execution.Meets (step codec retentionMillis) (fun tables action =>
      WithinRetention retentionMillis tables action ∧ MovesWhole tables action ∧
        ListsQueued tables action) (fresh Measurements Hash) actions)
    (execution : Execution.run (step codec retentionMillis) (fresh Measurements Hash) actions =
      some tables) :
    tables.HandsOnOnce codec retentionMillis :=
  (Execution.invariant_of_run (Tables.HandsOn codec)
    (fun handsOn stays taken => handsOn.step stays.1 stays.2.1 stays.2.2 taken)
    Tables.fresh_handsOn meets execution).once

/-- Batches whose measurements are their number. -/
def numbered : BatchCodec Nat Nat where
  measurementsOf := id
  batchIdentity := id
  process := fun measurements => measurements + 1

/-- Queue a batch. -/
def queueOne (batch : BatchId) : List Action :=
  [.beginQueue [batch], .checkQueued, .checkProcessed, .checkExtracted, .commitQueue]

/-- Move the queued batches, when they are no more than a chunk. -/
def moveAll (expired : Bool) : List Action :=
  [.listQueued expired, .insertProcessed, .removeUnprocessed, .insertProcessed]

/-- A crash after the move, another batch of each kind, and the extraction of both. -/
def queuedTwice : List Action :=
  queueOne 7 ++ moveAll false ++ [.restart, .beginQueue [7, 8], .checkQueued, .checkProcessed,
    .checkQueued, .checkProcessed, .checkExtracted, .commitQueue] ++ moveAll false ++
      [.removeExtracted [7, 8] 100]

theorem batches_handedOnOnce_queuedTwice :
    ∃ tables, Execution.run (step numbered 1000) (fresh Nat Nat) queuedTwice = some tables ∧
      tables.HandsOnOnce numbered 1000 := by
  have runs : (Execution.run (step numbered 1000) (fresh Nat Nat) queuedTwice).isSome = true := by
    decide +kernel
  have meets : Execution.Meets (step numbered 1000) (fun tables action =>
      WithinRetention 1000 tables action ∧ MovesWhole tables action ∧ ListsQueued tables action)
        (fresh Nat Nat) queuedTwice := by
    decide +kernel
  obtain ⟨tables, execution⟩ := Option.isSome_iff_exists.mp runs
  exact ⟨tables, execution, batches_handedOnOnce meets execution⟩

/-- The mover crashes after it inserted a batch; extraction removes the batch, and the next mover
and the next extraction do all of it again. -/
def crashedMove : List Action :=
  queueOne 7 ++ [.listQueued false, .insertProcessed, .restart, .removeExtracted [7] 100] ++
    moveAll false ++ [.removeExtracted [7] 200]

/-- Without the condition on movers which stop, a batch is processed and handed on twice. -/
theorem crashedMove_handsOnOnce_false :
    ¬∀ (codec : BatchCodec Nat Nat) (retentionMillis : Int) (actions : List Action)
      (tables : Tables Nat Nat),
      Execution.Meets (step codec retentionMillis) (fun tables action =>
        WithinRetention retentionMillis tables action ∧ ListsQueued tables action)
          (fresh Nat Nat) actions →
        Execution.run (step codec retentionMillis) (fresh Nat Nat) actions = some tables →
          tables.HandsOnOnce codec retentionMillis := by
  intro promise
  have twice : (Execution.run (step numbered 1000) (fresh Nat Nat) crashedMove).any (fun tables =>
      decide (¬tables.everProcessed.Nodup ∧ ¬tables.removals.flatten.Nodup)) = true := by
    decide +kernel
  have meets : Execution.Meets (step numbered 1000) (fun tables action =>
      WithinRetention 1000 tables action ∧ ListsQueued tables action) (fresh Nat Nat)
        crashedMove := by
    decide +kernel
  obtain ⟨tables, execution, twice⟩ := (Option.any_eq_true _ _).mp twice
  have keeps := promise numbered 1000 crashedMove tables meets execution
  exact (of_decide_eq_true twice).1 keeps.processed

end WeftDb.BatchTables
