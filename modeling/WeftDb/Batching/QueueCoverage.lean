import WeftDb.Batching.QueueConsumer

/-!
# What the queue still covers

The invariant of an aspect between two steps.  A timestamp which was queued stays queued until a
later row is stored, unless no window of the grid contains it; so a window which is not complete
yet contains the latest stored instant, which is queued.  A window of a settled row therefore
contains a queued timestamp until it is built from a read which began behind the row's commit.
-/

namespace WeftDb.QueueConsumer

/-- Which rows of a call are not settled yet. -/
def Capture.unsettled (capture : Capture) : List Int :=
  match capture.phase with
  | .offered => capture.timestamps
  | .writing chunks => chunks.flatten
  | .requeuing chunk _ chunks => chunk ++ chunks.flatten
  | .returned => []

/-- What a call in progress keeps to. -/
structure Capture.Ordered (aspect : Aspect) (capture : Capture) : Prop where
  /-- Every timestamp is settled or still to be. -/
  whole : capture.timestamps = capture.settled.flatMap ChunkCommit.timestamps ++ capture.unsettled
  /-- Rows are queued ahead of their commit. -/
  ahead : capture.phase ≠ .offered → ∀ timestamp ∈ capture.unsettled, timestamp ∈ aspect.enqueued
  numbered : ∀ commit ∈ capture.settled, commit.number ≤ aspect.commits.length ∧
    ∀ timestamp ∈ commit.timestamps, timestamp ∈ aspect.commits.flatten
  current : ∀ chunk number chunks, capture.phase = .requeuing chunk number chunks →
    number ≤ aspect.commits.length ∧ ∀ timestamp ∈ chunk, timestamp ∈ aspect.commits.flatten

namespace Aspect

variable (grid : WindowGrid) (aspect : Aspect)

/-- A row which was queued again behind the commit of that number. -/
def Settled (timestamp : Int) (number : Nat) : Prop :=
  ∃ id capture commit, aspect.captures id = some capture ∧ commit ∈ capture.settled ∧
    timestamp ∈ commit.timestamps ∧ commit.number = number

/-- No window of the grid aligned on `base` contains the timestamp. -/
def Windowless (base timestamp : Int) : Prop :=
  ∀ window, grid.IsWindow base window → ¬window.Contains timestamp

/-- A queued timestamp waits until a later row is stored, or has no window. -/
def Waits (timestamp : Int) : Prop :=
  aspect.queue.Queued timestamp ∨ (∃ later ∈ aspect.commits.flatten, timestamp < later) ∨
    ∃ base, aspect.earliest = some base ∧ Windowless grid base timestamp

/-- A window still contains a queued timestamp, or was built from a read behind that commit. -/
def Covered (window : BatchWindow) (number : Nat) : Prop :=
  (∃ timestamp, window.Contains timestamp ∧ aspect.queue.Queued timestamp) ∨
    ∃ batch ∈ aspect.stored, batch.window = window ∧ number ≤ batch.readAfter

end Aspect

namespace ConsumerRun

/-- The entries which a run has yet to delete: each is still in the queue, perhaps with a later
stamp, and the entry of a row settled since the run began has a later stamp than was read. -/
structure Reads (aspect : Aspect) (run : ConsumerRun) (left : List UnbatchedEntry) : Prop where
  distinct : (left.map UnbatchedEntry.dataTimestamp).Nodup
  begun_le : run.begun ≤ aspect.commits.length
  held : ∀ entry ∈ left, ∃ current ∈ aspect.queue,
    current.dataTimestamp = entry.dataTimestamp ∧ entry.queuedAt ≤ current.queuedAt
  since : ∀ timestamp number, aspect.Settled timestamp number → run.begun < number →
    ∃ current ∈ aspect.queue, current.dataTimestamp = timestamp ∧
      ∀ entry ∈ left, entry.dataTimestamp = timestamp → entry.queuedAt < current.queuedAt

end ConsumerRun

/-- The latest row a run read is stored, and queued unless it has no window. -/
structure ReadLatest (grid : WindowGrid) (aspect : Aspect) (base latest : Int) : Prop where
  stored : latest ∈ aspect.commits.flatten
  queued : aspect.queue.Queued latest ∨ Aspect.Windowless grid base latest

/-- What a run keeps to, by where it is. -/
def Consumer.Holds (grid : WindowGrid) (aspect : Aspect) : Consumer → Prop
  | .idle => True
  | .listed run => run.Reads aspect run.entries
  | .clearing run base left =>
      run.Reads aspect left ∧ aspect.earliest = some base ∧
        ∀ entry ∈ left, Aspect.Windowless grid base entry.dataTimestamp
  | .aligned run base windows =>
      run.Reads aspect run.entries ∧ aspect.earliest = some base ∧
        ∀ entry ∈ run.entries, ∀ window, grid.IsWindow base window →
          window.Contains entry.dataTimestamp → window ∈ windows
  | .building run base latest pending built =>
      run.Reads aspect run.entries ∧ aspect.earliest = some base ∧
        ReadLatest grid aspect base latest ∧
        (∀ window ∈ pending, window.finish ≤ latest) ∧
        (∀ batch ∈ built, batch.window.finish ≤ latest ∧ run.begun ≤ batch.readAfter) ∧
        ∀ entry ∈ run.entries, ∀ window, grid.IsWindow base window →
          window.Contains entry.dataTimestamp → window.finish ≤ latest →
            window ∈ pending ∨ ∃ batch ∈ built, batch.window = window
  | .storing run base latest left built =>
      run.Reads aspect run.entries ∧ aspect.earliest = some base ∧
        ReadLatest grid aspect base latest ∧
        (∀ batch ∈ built, batch.window.finish ≤ latest ∧ run.begun ≤ batch.readAfter ∧
          (batch ∈ left ∨ batch ∈ aspect.stored)) ∧
        ∀ entry ∈ run.entries, ∀ window, grid.IsWindow base window →
          window.Contains entry.dataTimestamp → window.finish ≤ latest →
            ∃ batch ∈ built, batch.window = window
  | .dequeuing run base latest left =>
      run.Reads aspect left ∧ aspect.earliest = some base ∧
        ReadLatest grid aspect base latest ∧
        ∀ entry ∈ left, entry.dataTimestamp < latest ∧
          ∀ window, grid.IsWindow base window → window.Contains entry.dataTimestamp →
            window.finish ≤ latest →
              ∃ batch ∈ aspect.stored, batch.window = window ∧ run.begun ≤ batch.readAfter

/-- The invariant between two steps. -/
structure Aspect.Covers (grid : WindowGrid) (aspect : Aspect) : Prop where
  waits : ∀ timestamp ∈ aspect.enqueued, aspect.Waits grid timestamp
  rows : ∀ timestamp ∈ aspect.commits.flatten, timestamp ∈ aspect.enqueued
  captures : ∀ id capture, aspect.captures id = some capture → capture.Ordered aspect
  settled : ∀ timestamp number, aspect.Settled timestamp number → ∀ base,
    aspect.earliest = some base → ∀ window, grid.IsWindow base window →
      window.Contains timestamp → aspect.Covered window number
  consumer : aspect.consumer.Holds grid aspect

namespace Aspect

variable {grid : WindowGrid} {aspect : Aspect}
variable {base latest timestamp : Int}

theorem earliest_eq_some :
    aspect.earliest = some base ↔
      base ∈ aspect.commits.flatten ∧ ∀ timestamp ∈ aspect.commits.flatten, base ≤ timestamp :=
  List.min?_eq_some_iff

theorem latest_eq_some :
    aspect.latest = some latest ↔
      latest ∈ aspect.commits.flatten ∧ ∀ timestamp ∈ aspect.commits.flatten, timestamp ≤ latest :=
  List.max?_eq_some_iff

theorem Covers.readLatest (covers : aspect.Covers grid) (aligned : aspect.earliest = some base)
    (last : aspect.latest = some latest) : ReadLatest grid aspect base latest := by
  obtain ⟨stored, greatest⟩ := latest_eq_some.mp last
  refine ⟨stored, ?_⟩
  rcases covers.waits latest (covers.rows latest stored) with queued | later | windowless
  · exact .inl queued
  · obtain ⟨later, later_mem, less⟩ := later
    exact absurd (greatest later later_mem) (not_le_of_gt less)
  · obtain ⟨other, aligned', windowless⟩ := windowless
    rw [aligned] at aligned'
    cases aligned'
    exact .inr windowless

/-- What a step keeps which deletes nothing: entries and their stamps, rows, stored batches and
the alignment. -/
structure Extends (before after : Aspect) : Prop where
  held : ∀ entry ∈ before.queue, ∃ current ∈ after.queue,
    current.dataTimestamp = entry.dataTimestamp ∧ entry.queuedAt ≤ current.queuedAt
  commits : before.commits <+: after.commits
  earliest : ∀ base, before.earliest = some base → after.earliest = some base
  stored : ∀ batch ∈ before.stored, batch ∈ after.stored

variable {before after : Aspect}

variable (extended : before.Extends after)

include extended

theorem Extends.queued (queued : before.queue.Queued timestamp) : after.queue.Queued timestamp := by
  obtain ⟨entry, entry_mem, rfl⟩ := queued
  obtain ⟨current, current_mem, same, -⟩ := extended.held entry entry_mem
  exact ⟨current, current_mem, same⟩

theorem Extends.rows (stored : timestamp ∈ before.commits.flatten) :
    timestamp ∈ after.commits.flatten := by
  obtain ⟨later, commits⟩ := extended.commits
  rw [← commits, List.flatten_append]
  exact List.mem_append_left _ stored

theorem Extends.waits (waits : before.Waits grid timestamp) : after.Waits grid timestamp := by
  rcases waits with queued | ⟨later, later_mem, less⟩ | ⟨base, aligned, windowless⟩
  · exact .inl (extended.queued queued)
  · exact .inr (.inl ⟨later, extended.rows later_mem, less⟩)
  · exact .inr (.inr ⟨base, extended.earliest base aligned, windowless⟩)

theorem Extends.covered {window : BatchWindow} {number : Nat}
    (covered : before.Covered window number) : after.Covered window number := by
  rcases covered with ⟨timestamp, contains, queued⟩ | ⟨batch, batch_mem, same, behind⟩
  · exact .inl ⟨timestamp, contains, extended.queued queued⟩
  · exact .inr ⟨batch, extended.stored batch batch_mem, same, behind⟩

theorem Extends.readLatest (read : ReadLatest grid before base latest) :
    ReadLatest grid after base latest where
  stored := extended.rows read.stored
  queued := read.queued.imp extended.queued id

theorem Extends.reads {run : ConsumerRun} {left : List UnbatchedEntry}
    (reads : run.Reads before left)
    (settled : ∀ timestamp number, after.Settled timestamp number →
      before.Settled timestamp number ∨
        ∃ current ∈ after.queue, current.dataTimestamp = timestamp ∧
          ∀ entry ∈ before.queue, entry.dataTimestamp = timestamp →
            entry.queuedAt < current.queuedAt) : run.Reads after left where
  distinct := reads.distinct
  begun_le := reads.begun_le.trans extended.commits.length_le
  held := by
    intro entry entry_mem
    obtain ⟨middle, middle_mem, middle_key, middle_le⟩ := reads.held entry entry_mem
    obtain ⟨current, current_mem, current_key, current_le⟩ := extended.held middle middle_mem
    exact ⟨current, current_mem, current_key.trans middle_key, middle_le.trans current_le⟩
  since := by
    intro timestamp number done past
    rcases settled timestamp number done with done | ⟨current, current_mem, rfl, moved⟩
    · obtain ⟨middle, middle_mem, rfl, middle_lt⟩ := reads.since timestamp number done past
      obtain ⟨current, current_mem, current_key, current_le⟩ := extended.held middle middle_mem
      exact ⟨current, current_mem, current_key, fun entry entry_mem same =>
        (middle_lt entry entry_mem same).trans_le current_le⟩
    · refine ⟨current, current_mem, rfl, fun entry entry_mem same => ?_⟩
      obtain ⟨middle, middle_mem, middle_key, middle_le⟩ := reads.held entry entry_mem
      exact middle_le.trans_lt (moved middle middle_mem (middle_key.trans same))

theorem Extends.holds
    (reads : ∀ run left, ConsumerRun.Reads before run left → ConsumerRun.Reads after run left)
    {consumer : Consumer} (holds : consumer.Holds grid before) : consumer.Holds grid after := by
  cases consumer with
  | idle => trivial
  | listed run => exact reads _ _ holds
  | clearing run base left =>
      obtain ⟨read, aligned, windowless⟩ := holds
      exact ⟨reads _ _ read, extended.earliest base aligned, windowless⟩
  | aligned run base windows =>
      obtain ⟨read, aligned, affected⟩ := holds
      exact ⟨reads _ _ read, extended.earliest base aligned, affected⟩
  | building run base latest pending built =>
      obtain ⟨read, aligned, last, rest⟩ := holds
      exact ⟨reads _ _ read, extended.earliest base aligned, extended.readLatest last, rest⟩
  | storing run base latest left built =>
      obtain ⟨read, aligned, last, batches, affected⟩ := holds
      refine ⟨reads _ _ read, extended.earliest base aligned, extended.readLatest last,
        fun batch batch_mem => ?_, affected⟩
      obtain ⟨ends, behind, place⟩ := batches batch batch_mem
      exact ⟨ends, behind, place.imp id (extended.stored batch)⟩
  | dequeuing run base latest left =>
      obtain ⟨read, aligned, last, covered⟩ := holds
      refine ⟨reads _ _ read, extended.earliest base aligned, extended.readLatest last,
        fun entry entry_mem => ⟨(covered entry entry_mem).1, ?_⟩⟩
      intro window isWindow contains ends
      obtain ⟨batch, batch_mem, same, behind⟩ :=
        (covered entry entry_mem).2 window isWindow contains ends
      exact ⟨batch, extended.stored batch batch_mem, same, behind⟩

end Aspect

end WeftDb.QueueConsumer
