import WeftDb.Batching.QueueCaptures

/-!
# The queue loses no committed row

Every step keeps the invariant of `QueueCoverage`, as long as no row is committed before the
earliest stored one and no run reads an entry at the edge of the first window.  So after a capture
has returned, each complete window of its rows contains a queued timestamp or was built from a read
which began behind their commit.
-/

namespace WeftDb.QueueConsumer

open Outputs

/-- The base of a run which builds, and the next run of overlapping windows. -/
def Consumer.nextRun : Consumer → Option (Int × BatchWindow × List BatchWindow)
  | .building _ base _ (window :: windows) _ =>
      some (base, window, (overlapRun window.finish windows).1)
  | _ => none

/-- Every window which a step interpolates reaches its points. -/
def WindowsReach (grid : WindowGrid) (method : Interpolator Unit) (aspect : Aspect) : Action → Prop
  | .buildWindows => ∀ next ∈ aspect.consumer.nextRun, ∀ window ∈ next.2.1 :: next.2.2,
      window ∈ (buildRun method grid (aspect.commits.flatten.map fun timestamp => (timestamp, ()))
        next.1 next.2.1 next.2.2).map Prod.fst
  | _ => True

instance (grid : WindowGrid) (method : Interpolator Unit) (aspect : Aspect) :
    ∀ action, Decidable (WindowsReach grid method aspect action)
  | .buildWindows => inferInstanceAs (Decidable (∀ next ∈ _, _))
  | .capture _ | .enqueueAhead .. | .commitChunk _ | .requeue .. | .finish _ | .abandon _
  | .readEntries | .readEarliest | .clearEntries | .readLatest | .storeBatches | .dequeueCovered
  | .stopConsumer => inferInstanceAs (Decidable True)

namespace Aspect

variable {grid : WindowGrid} {before after : Aspect}
variable {next : Consumer} {left removed : List UnbatchedEntry} {run : ConsumerRun}

theorem Covers.consume (covers : before.Covers grid) (stored : List BuiltBatch)
    (more : ∀ batch ∈ before.stored, batch ∈ stored)
    (holds : next.Holds grid { before with consumer := next, stored := stored }) :
    Covers grid { before with consumer := next, stored := stored } where
  waits := covers.waits
  rows := covers.rows
  captures := fun id capture found =>
    ⟨(covers.captures id capture found).whole, (covers.captures id capture found).ahead,
      (covers.captures id capture found).numbered, (covers.captures id capture found).current⟩
  settled := by
    intro timestamp number settled base aligned window isWindow contains
    refine (covers.settled timestamp number settled base aligned window isWindow contains).imp id ?_
    rintro ⟨batch, batch_mem, rest⟩
    exact ⟨batch, more batch batch_mem, rest⟩
  consumer := holds

theorem reads_of_eq (reads : run.Reads before left) (queue : after.queue = before.queue)
    (commits : after.commits = before.commits) (captures : after.captures = before.captures) :
    run.Reads after left where
  distinct := reads.distinct
  begun_le := commits ▸ reads.begun_le
  held := queue ▸ reads.held
  since := by
    rintro timestamp number ⟨id, capture, commit, found, rest⟩ past
    rw [queue]
    exact reads.since timestamp number ⟨id, capture, commit, captures ▸ found, rest⟩ past

section

variable (covers : before.Covers grid)

include covers

theorem Covers.idle : Covers grid { before with consumer := .idle } :=
  covers.consume before.stored (fun _ member => member) trivial

theorem Covers.readEntries (taken : before.readEntries = some after) : after.Covers grid := by
  unfold Aspect.readEntries at taken
  split at taken
  · simp only at taken
    split at taken
    · cases taken
      exact covers
    · cases taken
      have sorted := List.perm_insertionSort
        (fun left right : UnbatchedEntry => left.queuedAt ≤ right.queuedAt) before.queue.rows
      refine covers.consume before.stored (fun _ member => member) ?_
      exact
        { distinct := (sorted.map UnbatchedEntry.dataTimestamp).nodup_iff.mpr before.queue.nodup
          begun_le := le_rfl
          held := fun entry member => ⟨entry, sorted.mem_iff.mp member, rfl, le_rfl⟩
          since := fun timestamp number settled past =>
            absurd (covers.aligned settled).1 (Nat.not_le_of_lt past) }
  · cases taken

theorem Covers.readEarliest (stays : AwayFromEdge grid before .readEarliest)
    (taken : before.readEarliest grid = some after) : after.Covers grid := by
  unfold Aspect.readEarliest at taken
  split at taken
  · next run listed =>
      have reads : run.Reads before run.entries := by
        have holds := covers.consumer
        rw [listed] at holds
        exact holds
      split at taken
      · cases taken
        exact covers.idle
      · next base aligned =>
          have affected : ∀ entry ∈ run.entries, ∀ window, grid.IsWindow base window →
              window.Contains entry.dataTimestamp →
                window ∈ grid.calculateAffectedWindows
                  (run.entries.map UnbatchedEntry.dataTimestamp) base :=
            fun entry member window isWindow contains =>
              isWindow.affected (List.mem_map_of_mem member) contains
                (stays entry (listed ▸ member) base aligned)
          simp only at taken
          split at taken
          · next none_affected =>
              cases taken
              refine covers.consume before.stored (fun _ member => member)
                ⟨reads_of_eq reads rfl rfl rfl, aligned, ?_⟩
              intro entry member window isWindow contains
              have found := affected entry member window isWindow contains
              rw [none_affected] at found
              cases found
          · cases taken
            exact covers.consume before.stored (fun _ member => member)
              ⟨reads_of_eq reads rfl rfl rfl, aligned, affected⟩
  · cases taken

theorem Covers.readLatest_step (taken : before.readLatest = some after) : after.Covers grid := by
  unfold Aspect.readLatest at taken
  split at taken
  · next run base windows phase =>
      have holds := covers.consumer
      rw [phase] at holds
      obtain ⟨reads, aligned, affected⟩ := holds
      split at taken
      · cases taken
        exact covers.idle
      · next latest last =>
          cases taken
          have read := covers.readLatest aligned last
          refine covers.consume before.stored (fun _ member => member)
            ⟨reads_of_eq reads rfl rfl rfl, aligned, ⟨read.stored, read.queued⟩, ?_, ?_, ?_⟩
          · intro window member
            rw [List.mem_insertionSort, List.mem_filter] at member
            exact of_decide_eq_true member.2
          · intro batch member
            cases member
          · intro entry member window isWindow contains ends
            refine .inl ?_
            rw [List.mem_insertionSort, List.mem_filter]
            exact ⟨affected entry member window isWindow contains, decide_eq_true ends⟩
  · cases taken

end

variable {method : Interpolator Unit}

theorem Covers.buildWindows (covers : before.Covers grid)
    (reach : WindowsReach grid method before .buildWindows)
    (taken : before.buildWindows grid method = some after) : after.Covers grid := by
  unfold Aspect.buildWindows at taken
  split at taken
  · next run base latest built phase =>
      have holds := covers.consumer
      rw [phase] at holds
      obtain ⟨reads, aligned, read, -, batches, affected⟩ := holds
      cases taken
      refine covers.consume before.stored (fun _ member => member)
        ⟨reads_of_eq reads rfl rfl rfl, aligned, ⟨read.stored, read.queued⟩,
          fun batch member => ⟨(batches batch member).1, (batches batch member).2, .inl member⟩, ?_⟩
      intro entry member window isWindow contains ends
      rcases affected entry member window isWindow contains ends with pending | found
      · cases pending
      · exact found
  · next run base latest window windows built phase =>
      have holds := covers.consumer
      rw [phase] at holds
      obtain ⟨reads, aligned, read, pending, batches, affected⟩ := holds
      cases taken
      refine covers.consume before.stored (fun _ member => member)
        ⟨reads_of_eq reads rfl rfl rfl, aligned, ⟨read.stored, read.queued⟩, ?_, ?_, ?_⟩
      · intro later member
        exact pending later (List.mem_cons_of_mem _ (mem_overlapRun.mpr (.inr member)))
      · intro batch member
        rcases List.mem_append.mp member with member | member
        · exact batches batch member
        · obtain ⟨overlapping, reached, rfl⟩ := List.mem_map.mp member
          refine ⟨pending overlapping.1 ?_, reads.begun_le⟩
          rcases List.mem_cons.mp (mem_of_mem_buildRun reached) with first | later
          · exact first ▸ List.mem_cons_self
          · exact List.mem_cons_of_mem _ (mem_overlapRun.mpr (.inl later))
      · intro entry member other isWindow contains ends
        have built_of (front : other ∈ window :: (overlapRun window.finish windows).1) :
            ∃ batch ∈ built ++ ((buildRun method grid
              (before.commits.flatten.map fun timestamp => (timestamp, ())) base window
                (overlapRun window.finish windows).1).map fun window =>
                  (⟨window.1, before.commits.length⟩ : BuiltBatch)), batch.window = other := by
          obtain ⟨reached, reached_mem, rfl⟩ :=
            List.mem_map.mp (reach _ (by rw [phase]; rfl) other front)
          exact ⟨_, List.mem_append_right _ (List.mem_map_of_mem reached_mem), rfl⟩
        rcases affected entry member other isWindow contains ends with waiting | found
        · rcases List.mem_cons.mp waiting with rfl | later
          · exact .inr (built_of List.mem_cons_self)
          · rcases mem_overlapRun.mp later with front | rest
            · exact .inr (built_of (List.mem_cons_of_mem _ front))
            · exact .inl rest
        · obtain ⟨batch, batch_mem, same⟩ := found
          exact .inr ⟨batch, List.mem_append_left _ batch_mem, same⟩
  · cases taken

theorem Covers.storeBatches (covers : before.Covers grid)
    (taken : before.storeBatches = some after) : after.Covers grid := by
  unfold Aspect.storeBatches at taken
  split at taken
  · next run base latest built phase =>
      have holds := covers.consumer
      rw [phase] at holds
      obtain ⟨reads, aligned, read, batches, affected⟩ := holds
      simp only at taken
      split at taken
      · cases taken
        exact covers.idle
      · cases taken
        have fewer : (coveredEntries run.entries built).Sublist run.entries := List.filter_sublist
        refine covers.consume before.stored (fun _ member => member)
          ⟨?_, aligned, ⟨read.stored, read.queued⟩, fun entry member => ?_⟩
        · exact
            { distinct := reads.distinct.sublist (fewer.map _)
              begun_le := reads.begun_le
              held := fun entry member => reads.held entry (fewer.subset member)
              since := by
                intro timestamp number settled past
                obtain ⟨current, current_mem, same, later⟩ :=
                  reads.since timestamp number settled past
                exact ⟨current, current_mem, same,
                  fun entry member => later entry (fewer.subset member)⟩ }
        · obtain ⟨entry_mem, covered⟩ := List.mem_filter.mp member
          obtain ⟨batch, batch_mem, contains⟩ := List.any_eq_true.mp covered
          have contains := of_decide_eq_true contains
          refine ⟨contains.2.trans_le (batches batch batch_mem).1, ?_⟩
          intro window isWindow inside ends
          obtain ⟨other, other_mem, same⟩ := affected entry entry_mem window isWindow inside ends
          obtain ⟨-, behind, place⟩ := batches other other_mem
          rcases place with left | stored
          · cases left
          · exact ⟨other, stored, same, behind⟩
  · next run base latest left built _ phase =>
      have holds := covers.consumer
      rw [phase] at holds
      obtain ⟨reads, aligned, read, batches, affected⟩ := holds
      cases taken
      refine covers.consume _ (fun _ member => List.mem_append_left _ member)
        ⟨reads_of_eq reads rfl rfl rfl, aligned, ⟨read.stored, read.queued⟩,
          fun batch member => ?_, affected⟩
      obtain ⟨ends, behind, place⟩ := batches batch member
      refine ⟨ends, behind, ?_⟩
      rcases place with left_mem | stored
      · rw [← List.take_append_drop queueBatchChunk left] at left_mem
        rcases List.mem_append.mp left_mem with taken | rest
        · exact .inr (List.mem_append_right _ taken)
        · exact .inl rest
      · exact .inr (List.mem_append_left _ stored)
  · cases taken

/-- The aspect after these entries were deleted. -/
def dequeue (aspect : Aspect) (removed : List UnbatchedEntry) (next : Consumer) : Aspect :=
  { aspect with queue := aspect.queue.dequeueUnbatchedEntries removed, consumer := next }

theorem queued_dequeue {timestamp : Int} (queued : before.queue.Queued timestamp)
    (others : ∀ entry ∈ removed, entry ∈ before.queue → entry.dataTimestamp ≠ timestamp) :
    (before.dequeue removed next).queue.Queued timestamp := by
  obtain ⟨entry, entry_mem, rfl⟩ := queued
  exact ⟨entry, UnbatchedQueue.mem_dequeue.mpr
    ⟨entry_mem, fun member => others entry member entry_mem rfl⟩, rfl⟩

theorem Covers.dequeue (covers : before.Covers grid)
    (waits : ∀ entry ∈ removed, (∃ later ∈ before.commits.flatten, entry.dataTimestamp < later) ∨
      ∃ base, before.earliest = some base ∧ Windowless grid base entry.dataTimestamp)
    (settled : ∀ timestamp number, before.Settled timestamp number → ∀ base,
      before.earliest = some base → ∀ window, grid.IsWindow base window →
        window.Contains timestamp → ∀ entry ∈ removed, window.Contains entry.dataTimestamp →
          (before.dequeue removed next).Covered window number)
    (holds : next.Holds grid (before.dequeue removed next)) :
    (before.dequeue removed next).Covers grid where
  waits := by
    intro timestamp member
    by_cases deleted : ∃ entry ∈ removed, entry.dataTimestamp = timestamp
    · obtain ⟨entry, entry_mem, rfl⟩ := deleted
      exact .inr (waits entry entry_mem)
    · refine (covers.waits timestamp member).imp (fun queued => ?_) id
      exact queued_dequeue queued fun entry entry_mem _ same => deleted ⟨entry, entry_mem, same⟩
  rows := covers.rows
  captures := fun id capture found =>
    ⟨(covers.captures id capture found).whole, (covers.captures id capture found).ahead,
      (covers.captures id capture found).numbered, (covers.captures id capture found).current⟩
  settled := by
    intro timestamp number done base aligned window isWindow contains
    rcases covers.settled timestamp number done base aligned window isWindow contains with
      ⟨waiting, inside, queued⟩ | built
    · by_cases deleted : ∃ entry ∈ removed, entry.dataTimestamp = waiting
      · obtain ⟨entry, entry_mem, rfl⟩ := deleted
        exact settled timestamp number done base aligned window isWindow contains entry entry_mem
          inside
      · exact .inl ⟨waiting, inside, queued_dequeue queued
          fun entry entry_mem _ same => deleted ⟨entry, entry_mem, same⟩⟩
    · exact .inr built
  consumer := holds

theorem reads_drop (reads : run.Reads before left) (count : Nat) (next : Consumer) :
    run.Reads (before.dequeue (left.take count) next) (left.drop count) where
  distinct := reads.distinct.sublist ((List.drop_sublist count left).map _)
  begun_le := reads.begun_le
  held := by
    intro entry member
    obtain ⟨current, current_mem, same, later⟩ := reads.held entry (List.mem_of_mem_drop member)
    refine ⟨current, UnbatchedQueue.mem_dequeue.mpr ⟨current_mem, fun taken => ?_⟩, same, later⟩
    have distinct := reads.distinct
    rw [← List.take_append_drop count left, List.map_append] at distinct
    exact List.disjoint_of_nodup_append distinct (List.mem_map_of_mem taken)
      (same ▸ List.mem_map_of_mem member)
  since := by
    intro timestamp number settled past
    obtain ⟨current, current_mem, same, later⟩ := reads.since timestamp number settled past
    refine ⟨current, UnbatchedQueue.mem_dequeue.mpr ⟨current_mem, fun taken => ?_⟩, same,
      fun entry member => later entry (List.mem_of_mem_drop member)⟩
    exact lt_irrefl _ (later current (List.mem_of_mem_take taken) same)

theorem Covers.clearEntries (covers : before.Covers grid)
    (taken : before.clearEntries = some after) : after.Covers grid := by
  unfold Aspect.clearEntries at taken
  split at taken
  · next run base left phase =>
      have holds := covers.consumer
      rw [phase] at holds
      obtain ⟨reads, aligned, windowless⟩ := holds
      cases taken
      refine covers.dequeue (fun entry member => .inr ⟨base, aligned,
        windowless entry (List.mem_of_mem_take member)⟩) ?_ ?_
      · intro timestamp number settled other aligned' window isWindow contains entry member inside
        rw [aligned] at aligned'
        cases aligned'
        exact absurd inside (windowless entry (List.mem_of_mem_take member) window isWindow)
      · split
        · trivial
        · exact ⟨reads_drop reads _ _, aligned,
            fun entry member => windowless entry (List.mem_of_mem_drop member)⟩
  · cases taken

theorem Covers.dequeueCovered (covers : before.Covers grid)
    (taken : before.dequeueCovered = some after) : after.Covers grid := by
  unfold Aspect.dequeueCovered at taken
  split at taken
  · next run base latest left phase =>
      have holds := covers.consumer
      rw [phase] at holds
      obtain ⟨reads, aligned, read, covered⟩ := holds
      cases taken
      have early : ∀ entry ∈ left.take dequeueChunk, entry.dataTimestamp < latest :=
        fun entry member => (covered entry (List.mem_of_mem_take member)).1
      refine covers.dequeue
        (fun entry member => .inl ⟨latest, read.stored, early entry member⟩) ?_ ?_
      · intro timestamp number settled other aligned' window isWindow contains entry member inside
        rw [aligned] at aligned'
        cases aligned'
        by_cases since : run.begun < number
        · -- The row was settled during this run, so its own entry outlives the deletion.
          obtain ⟨current, current_mem, rfl, later⟩ := reads.since timestamp number settled since
          refine .inl ⟨_, contains, current, UnbatchedQueue.mem_dequeue.mpr
            ⟨current_mem, fun deleted => ?_⟩, rfl⟩
          exact lt_irrefl _ (later current (List.mem_of_mem_take deleted) rfl)
        · by_cases ends : window.finish ≤ latest
          · obtain ⟨batch, batch_mem, same, behind⟩ :=
              (covered entry (List.mem_of_mem_take member)).2 window isWindow inside ends
            exact .inr ⟨batch, batch_mem, same, (not_lt.mp since).trans behind⟩
          · -- The window was not complete, so it contains the latest row which was read.
            have holds : window.Contains latest :=
              ⟨inside.1.trans (early entry member).le, not_le.mp ends⟩
            rcases read.queued with queued | windowless
            · exact .inl ⟨latest, holds, queued_dequeue queued
                fun other deleted _ => (early other deleted).ne⟩
            · exact absurd holds (windowless window isWindow)
      · split
        · trivial
        · refine ⟨reads_drop reads _ _, aligned, ⟨read.stored, read.queued.imp (fun queued =>
            queued_dequeue queued fun other deleted _ => (early other deleted).ne) id⟩,
            fun entry member => covered entry (List.mem_of_mem_drop member)⟩
  · cases taken

theorem Covers.step (covers : before.Covers grid) {action : Action}
    (forwards : NoBackfill before action) (away : AwayFromEdge grid before action)
    (reach : WindowsReach grid method before action)
    (taken : step grid method before action = some after) : after.Covers grid := by
  cases action with
  | capture timestamps =>
      simp only [QueueConsumer.step] at taken
      split at taken
      · cases taken
      · cases taken
        exact covers.capture timestamps
  | enqueueAhead id now => exact covers.enqueueAhead taken
  | commitChunk id => exact covers.commitChunk forwards taken
  | requeue id now => exact covers.requeue taken
  | finish id => exact covers.finish taken
  | abandon id => exact covers.abandon taken
  | readEntries => exact covers.readEntries taken
  | readEarliest => exact covers.readEarliest away taken
  | clearEntries => exact covers.clearEntries taken
  | readLatest => exact covers.readLatest_step taken
  | buildWindows => exact covers.buildWindows reach taken
  | storeBatches => exact covers.storeBatches taken
  | dequeueCovered => exact covers.dequeueCovered taken
  | stopConsumer =>
      cases taken
      exact covers.idle

theorem covers_fresh (grid : WindowGrid) : fresh.Covers grid where
  waits := fun _ member => by cases member
  rows := fun _ member => by cases member
  captures := fun _ _ found => by cases found
  settled := fun _ _ _ _ aligned => by cases aligned
  consumer := trivial

/-- After a call has returned, each of its rows was settled, and every complete window with one of
them contains a queued timestamp or was built from a read behind the row's commit. -/
def KeepsRows (grid : WindowGrid) (aspect : Aspect) : Prop :=
  ∀ id capture, aspect.captures id = some capture → capture.phase = .returned →
    (∀ timestamp ∈ capture.timestamps, ∃ commit ∈ capture.settled,
      timestamp ∈ commit.timestamps) ∧
    ∀ commit ∈ capture.settled, ∀ timestamp ∈ commit.timestamps, ∀ base latest,
      aspect.earliest = some base → aspect.latest = some latest →
        ∀ window, grid.IsWindow base window → window.Contains timestamp →
          window.finish ≤ latest → aspect.Covered window commit.number

theorem Covers.keepsRows {aspect : Aspect} (covers : aspect.Covers grid) :
    aspect.KeepsRows grid := by
  intro id capture found returned
  constructor
  · intro timestamp member
    have ordered := covers.captures id capture found
    rw [ordered.whole, Capture.unsettled, returned, List.append_nil] at member
    exact List.mem_flatMap.mp member
  · intro commit commit_mem timestamp member base latest aligned _ window isWindow contains _
    exact covers.settled timestamp commit.number
      ⟨id, capture, commit, found, commit_mem, member, rfl⟩
      base aligned window isWindow contains

end Aspect

/-- The queue loses no row of a call which has returned, over every run in which no row is
committed before the earliest stored one, every window which is interpolated reaches its points, and
no run of the consumer reads an entry at the edge of the first window. -/
theorem queue_keepsRows {grid : WindowGrid} {method : Interpolator Unit} {actions : List Action}
    {aspect : Aspect}
    (meets : Execution.Meets (step grid method) (fun aspect action =>
      NoBackfill aspect action ∧ WindowsReach grid method aspect action ∧
        AwayFromEdge grid aspect action) fresh actions)
    (execution : Execution.run (step grid method) fresh actions = some aspect) :
    aspect.KeepsRows grid :=
  (Execution.invariant_of_run (Aspect.Covers grid)
    (fun covers allowed taken => covers.step allowed.1 allowed.2.2 allowed.2.1 taken)
    (Aspect.covers_fresh grid) meets execution).keepsRows

/-- Windows of three points, a second apart. -/
def threePoints : WindowGrid := ⟨1000, 3, -1000000, 1000000⟩

/-- Interpolation between rows a second apart. -/
def everySecond : Interpolator Unit := Bracketing.interpolator ⟨(), fun _ _ _ => ()⟩ 1000

/-- A call of one chunk which returns. -/
def captureAll (id : CaptureId) (timestamps : List Int) (now : Int) : List Action :=
  [.capture timestamps, .enqueueAhead id now, .commitChunk id, .requeue id now, .finish id]

/-- A complete run of the consumer over one run of windows. -/
def consumeOnce : List Action :=
  [.readEntries, .readEarliest, .readLatest, .buildWindows, .buildWindows, .storeBatches,
    .storeBatches, .dequeueCovered]

/-- Rows are captured and their windows built, and a second call is overtaken by the consumer. -/
def overtakenCall : List Action :=
  captureAll 0 [0, 1000, 3000, 4000] 100 ++ consumeOnce ++
    [.capture [5000, 6000], .enqueueAhead 1 200, .readEntries, .readEarliest, .commitChunk 1,
      .readLatest, .buildWindows, .buildWindows, .storeBatches, .requeue 1 200, .storeBatches,
      .dequeueCovered, .finish 1]

theorem queue_keepsRows_overtakenCall :
    ∃ aspect, Execution.run (step threePoints everySecond) fresh overtakenCall = some aspect ∧
      aspect.KeepsRows threePoints := by
  have runs : (Execution.run (step threePoints everySecond) fresh overtakenCall).isSome = true := by
    decide +kernel
  have meets : Execution.Meets (step threePoints everySecond) (fun aspect action =>
      NoBackfill aspect action ∧ WindowsReach threePoints everySecond aspect action ∧
        AwayFromEdge threePoints aspect action) fresh overtakenCall := by
    decide +kernel
  obtain ⟨aspect, execution⟩ := Option.isSome_iff_exists.mp runs
  exact ⟨aspect, execution, queue_keepsRows meets execution⟩

/-- A row at the edge of the first window is captured after that window was built. -/
def edgeRow : List Action :=
  captureAll 0 [0, 1000, 3000, 4000] 100 ++ consumeOnce ++ captureAll 1 [1500] 200 ++ consumeOnce

/-- The first window is neither waited for nor built since its row was captured. -/
def Forgotten (aspect : Aspect) : Prop :=
  aspect.captures 1 = some ⟨[1500], .returned, [⟨[1500], 2⟩]⟩ ∧
    aspect.earliest = some 0 ∧ aspect.latest = some 4000 ∧
    (∀ entry ∈ aspect.queue.rows, ¬BatchWindow.Contains ⟨0, 2000⟩ entry.dataTimestamp) ∧
    ∀ batch ∈ aspect.stored, batch.window = ⟨0, 2000⟩ → batch.readAfter < 2

instance (aspect : Aspect) : Decidable (Forgotten aspect) := inferInstanceAs (Decidable (_ ∧ _))

/-- The run at the edge of the first window loses the row for that window. -/
theorem edgeRow_keepsRows_false :
    ¬∀ (grid : WindowGrid) (method : Interpolator Unit) (actions : List Action) (aspect : Aspect),
      Execution.Meets (step grid method) (fun aspect action =>
        NoBackfill aspect action ∧ WindowsReach grid method aspect action) fresh actions →
          Execution.run (step grid method) fresh actions = some aspect →
            aspect.KeepsRows grid := by
  intro promise
  have lost : (Execution.run (step threePoints everySecond) fresh edgeRow).any
      (fun aspect => decide (Forgotten aspect)) = true := by
    decide +kernel
  have meets : Execution.Meets (step threePoints everySecond) (fun aspect action =>
      NoBackfill aspect action ∧ WindowsReach threePoints everySecond aspect action)
        fresh edgeRow := by
    decide +kernel
  obtain ⟨aspect, execution, lost⟩ := (Option.any_eq_true _ _).mp lost
  obtain ⟨found, aligned, last, unqueued, unbuilt⟩ := of_decide_eq_true lost
  have keeps := promise threePoints everySecond edgeRow aspect meets execution
  have first : threePoints.IsWindow 0 ⟨0, 2000⟩ := ⟨by decide, 0, le_rfl, by decide⟩
  rcases (keeps 1 _ found rfl).2 _ List.mem_cons_self 1500 List.mem_cons_self 0 4000 aligned last
      ⟨0, 2000⟩ first (by decide) (by decide) with waiting | built
  · obtain ⟨timestamp, contains, entry, entry_mem, rfl⟩ := waiting
    exact unqueued entry entry_mem contains
  · obtain ⟨batch, batch_mem, same, behind⟩ := built
    exact absurd behind (Nat.not_le_of_lt (unbuilt batch batch_mem same))

end WeftDb.QueueConsumer
