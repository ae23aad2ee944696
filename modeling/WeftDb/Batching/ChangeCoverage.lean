import WeftDb.Batching.ChangeConsumer

/-!
# What the change log still covers

The invariant of an aspect between two steps.  Epochs rise, so the changes which a run deletes are
among those it read; and before it deletes them, each window with an instant of their spans ends by
a stored instant and was built from a read of their rows.
-/

namespace WeftDb.ChangeConsumer

open Outputs

variable {Value : Type}
variable {commit : Commit Value} {row : Point Value}

/-- An instant from one row of the commit to another. -/
def Commit.Spans (commit : Commit Value) (timestamp : Int) : Prop :=
  ∃ first ∈ commit.rows, ∃ last ∈ commit.rows, first.1 ≤ timestamp ∧ timestamp ≤ last.1

theorem Commit.spans_row (member : row ∈ commit.rows) : commit.Spans row.1 :=
  ⟨row, member, row, member, le_rfl, le_rfl⟩

namespace Aspect

variable (grid : WindowGrid) (aspect : Aspect Value)

/-- The windows of a commit's span are complete, and in a list of windows built behind it. -/
def Built (stored : List BuiltBatch) (base : Int) (epoch : Nat) : Prop :=
  ∀ commit ∈ aspect.commits, commit.epoch = epoch → ∀ timestamp, commit.Spans timestamp →
    ∀ window, grid.IsWindow base window → window.Contains timestamp →
      (∃ later ∈ aspect.timestamps, window.finish ≤ later) ∧
        ∃ batch ∈ stored, batch.window = window ∧ commit ∈ aspect.commits.take batch.readAfter

/-- What a run knows of the changes it read: they are in order, and every earlier change of the log
is among them. -/
structure ReadsLog (changes : List SegmentChange) : Prop where
  sorted : changes.Pairwise fun left right => left.epoch < right.epoch
  earlier : ∀ pending ∈ aspect.log, ∀ change ∈ changes, pending.epoch ≤ change.epoch →
    pending ∈ changes
  known : ∀ change ∈ changes, ∃ commit ∈ aspect.commits, commit.change = change

/-- The changes through an epoch may be deleted once these batches are stored. -/
structure Ready (base : Int) (left : List (CutBatch Value)) (epoch : Nat) : Prop where
  known : ∃ commit ∈ aspect.commits, commit.epoch = epoch
  built : ∀ pending ∈ aspect.log, pending.epoch ≤ epoch →
    aspect.Built grid (aspect.stored ++ left.map CutBatch.built) base pending.epoch

end Aspect

/-- What a run keeps to, by where it is. -/
def Consumer.Holds (grid : WindowGrid) (aspect : Aspect Value) : Consumer Value → Prop
  | .idle => True
  | .listed changes => aspect.ReadsLog changes
  | .firstRun changes => aspect.ReadsLog changes
  | .counted changes => aspect.ReadsLog changes
  | .rebuilding changes base => aspect.ReadsLog changes ∧ base ∈ aspect.timestamps
  | .interpolating changes base latest =>
      aspect.ReadsLog changes ∧ base ∈ aspect.timestamps ∧ latest ∈ aspect.timestamps ∧
        ∀ change ∈ changes, ∀ commit ∈ aspect.commits, commit.epoch = change.epoch →
          ∀ timestamp, commit.Spans timestamp → ∀ window, grid.IsWindow base window →
            window.Contains timestamp → window.finish ≤ latest
  | .aligned changes base =>
      aspect.ReadsLog changes ∧ grid.Representable base ∧
        ∀ change ∈ changes, ∀ minTs ∈ change.minTs, base ≤ minTs ∧ ¬grid.AtEdge base minTs
  | .building changes base latest pending cut =>
      aspect.ReadsLog changes ∧ latest ∈ aspect.timestamps ∧
        (∀ change ∈ changes, ∀ commit ∈ aspect.commits, commit.epoch = change.epoch →
          ∀ timestamp, commit.Spans timestamp → ∀ window, grid.IsWindow base window →
            window.Contains timestamp → window ∈ Aspect.changeWindows grid base change) ∧
        (∀ window ∈ pending, window.finish ≤ latest) ∧
        ∀ batch ∈ cut, batch.built.window.finish ≤ latest ∧
          ∀ change ∈ changes, ∀ commit ∈ aspect.commits, commit.epoch = change.epoch →
            commit ∈ aspect.commits.take batch.built.readAfter
  | .storing base left ackThrough => ∀ epoch ∈ ackThrough, aspect.Ready grid base left epoch
  | .acking base epoch => aspect.Ready grid base [] epoch

/-- The invariant between two steps. -/
structure Aspect.Delivers (grid : WindowGrid) (aspect : Aspect Value) : Prop where
  epochs : aspect.commits.Pairwise fun left right => left.epoch < right.epoch
  sorted : aspect.log.Pairwise fun left right => left.epoch < right.epoch
  known : ∀ change ∈ aspect.log, ∃ commit ∈ aspect.commits, commit.change = change
  logged : ∀ commit ∈ aspect.commits, commit.change ∈ aspect.log ∨
    ∃ done ∈ aspect.acknowledged, done.epoch = commit.epoch
  behind : ∀ done ∈ aspect.acknowledged, ∀ change ∈ aspect.log, done.epoch < change.epoch
  committed : ∀ done ∈ aspect.acknowledged, ∃ commit ∈ aspect.commits, commit.epoch = done.epoch
  built : ∀ done ∈ aspect.acknowledged, aspect.Built grid aspect.stored done.base done.epoch
  once : (aspect.queued ++ aspect.extracted).Nodup
  consumer : aspect.consumer.Holds grid aspect

namespace Aspect

variable {grid : WindowGrid} {aspect before after : Aspect Value}
variable {base timestamp : Int} {epoch : Nat} {changes : List SegmentChange}

theorem mem_timestamps (member : commit ∈ aspect.commits) (row_mem : row ∈ commit.rows) :
    row.1 ∈ aspect.timestamps :=
  List.mem_map_of_mem (List.mem_flatMap.mpr ⟨commit, member, row_mem⟩)

theorem earliest_eq_some (read : aspect.earliest grid = some base) :
    grid.Representable base ∧ base ∈ aspect.timestamps ∧
      ∀ timestamp ∈ aspect.timestamps, base ≤ timestamp := by
  obtain ⟨least, representable⟩ := Option.filter_eq_some_iff.mp read
  exact ⟨of_decide_eq_true representable, List.min?_eq_some_iff.mp least⟩

theorem latest_eq_some {latest : Int} (read : aspect.latest grid = some latest) :
    grid.Representable latest ∧ latest ∈ aspect.timestamps ∧
      ∀ timestamp ∈ aspect.timestamps, timestamp ≤ latest := by
  obtain ⟨greatest, representable⟩ := Option.filter_eq_some_iff.mp read
  exact ⟨of_decide_eq_true representable, List.max?_eq_some_iff.mp greatest⟩

theorem span_of_spans (spans : commit.Spans timestamp) :
    ∃ minTs maxTs, commit.change.minTs = some minTs ∧ commit.change.maxTs = some maxTs ∧
      minTs ≤ timestamp ∧ timestamp ≤ maxTs ∧ maxTs ∈ commit.rows.map Prod.fst := by
  obtain ⟨first, first_mem, last, last_mem, from_first, to_last⟩ := spans
  have first_mem := List.mem_map_of_mem (f := Prod.fst) first_mem
  have last_mem := List.mem_map_of_mem (f := Prod.fst) last_mem
  cases least : (commit.rows.map Prod.fst).min? with
  | none =>
      rw [List.min?_eq_none_iff.mp least] at first_mem
      cases first_mem
  | some minTs =>
      cases greatest : (commit.rows.map Prod.fst).max? with
      | none =>
          rw [List.max?_eq_none_iff.mp greatest] at first_mem
          cases first_mem
      | some maxTs =>
          obtain ⟨-, min_le⟩ := List.min?_eq_some_iff.mp least
          obtain ⟨max_mem, le_max⟩ := List.max?_eq_some_iff.mp greatest
          exact ⟨minTs, maxTs, least, greatest, (min_le _ first_mem).trans from_first,
            to_last.trans (le_max _ last_mem), max_mem⟩

theorem mem_timestamps_of_change (member : commit ∈ aspect.commits)
    (inside : timestamp ∈ commit.rows.map Prod.fst) : timestamp ∈ aspect.timestamps := by
  obtain ⟨row, row_mem, rfl⟩ := List.mem_map.mp inside
  exact mem_timestamps member row_mem

theorem eq_of_epoch_eq
    (epochs : aspect.commits.Pairwise fun left right => left.epoch < right.epoch)
    {left right : Commit Value} (left_mem : left ∈ aspect.commits)
    (right_mem : right ∈ aspect.commits) (same : left.epoch = right.epoch) : left = right := by
  have distinct : (aspect.commits.map Commit.epoch).Nodup :=
    List.pairwise_map.mpr (epochs.imp fun less => less.ne)
  exact List.inj_on_of_nodup_map distinct left_mem right_mem same

/-- What a commit keeps of what was built, read and made ready before it. -/
structure Commits (before after : Aspect Value) : Prop where
  commits : ∃ commit, after.commits = before.commits ++ [commit] ∧
    after.log = before.log ++ [commit.change] ∧
      ∀ earlier ∈ before.commits, earlier.epoch < commit.epoch
  stored : after.stored = before.stored

section

variable (committed : before.Commits after)

include committed

theorem Commits.mem_take {count : Nat} (member : commit ∈ before.commits.take count) :
    commit ∈ after.commits.take count := by
  obtain ⟨more, commits, -⟩ := committed.commits
  rw [commits, List.take_append]
  exact List.mem_append_left _ member

theorem Commits.timestamps (member : timestamp ∈ before.timestamps) :
    timestamp ∈ after.timestamps := by
  obtain ⟨more, commits, -⟩ := committed.commits
  simp only [Aspect.timestamps, rows, commits, List.flatMap_append, List.map_append]
  exact List.mem_append_left _ member

theorem Commits.mem_of_epoch (known : ∃ commit ∈ before.commits, commit.epoch = epoch)
    (member : commit ∈ after.commits) (same : commit.epoch = epoch) : commit ∈ before.commits := by
  obtain ⟨more, commits, -, rising⟩ := committed.commits
  obtain ⟨earlier, earlier_mem, earlier_epoch⟩ := known
  rw [commits] at member
  rcases List.mem_append.mp member with member | member
  · exact member
  · obtain rfl := List.mem_singleton.mp member
    have less := rising earlier earlier_mem
    omega

theorem Commits.built {stored : List BuiltBatch}
    (known : ∃ commit ∈ before.commits, commit.epoch = epoch)
    (built : before.Built grid stored base epoch) : after.Built grid stored base epoch := by
  intro commit member same timestamp spans window isWindow contains
  obtain ⟨⟨later, later_mem, ends⟩, batch, batch_mem, window_eq, behind⟩ :=
    built commit (committed.mem_of_epoch known member same) same timestamp spans window isWindow
      contains
  exact ⟨⟨later, committed.timestamps later_mem, ends⟩, batch, batch_mem, window_eq,
    committed.mem_take behind⟩

theorem Commits.readsLog (reads : before.ReadsLog changes) : after.ReadsLog changes where
  sorted := reads.sorted
  earlier := by
    intro pending pending_mem change change_mem le
    obtain ⟨more, -, log, rising⟩ := committed.commits
    rw [log] at pending_mem
    rcases List.mem_append.mp pending_mem with pending_mem | pending_mem
    · exact reads.earlier pending pending_mem change change_mem le
    · obtain rfl := List.mem_singleton.mp pending_mem
      obtain ⟨commit, commit_mem, rfl⟩ := reads.known change change_mem
      exact absurd (rising commit commit_mem) (not_lt_of_ge le)
  known := by
    intro change change_mem
    obtain ⟨commit, commit_mem, same⟩ := reads.known change change_mem
    obtain ⟨more, commits, -⟩ := committed.commits
    exact ⟨commit, commits ▸ List.mem_append_left _ commit_mem, same⟩

end

theorem ReadsLog.known_epoch (reads : before.ReadsLog changes) {change : SegmentChange}
    (member : change ∈ changes) : ∃ commit ∈ before.commits, commit.epoch = change.epoch := by
  obtain ⟨commit, commit_mem, rfl⟩ := reads.known change member
  exact ⟨commit, commit_mem, rfl⟩

variable (committed : before.Commits after)
  (known : ∀ change ∈ before.log, ∃ commit ∈ before.commits, commit.change = change)

include committed known

theorem Commits.ready {left : List (CutBatch Value)} (ready : before.Ready grid base left epoch) :
    after.Ready grid base left epoch where
  known := by
    obtain ⟨commit, commit_mem, same⟩ := ready.known
    obtain ⟨more, commits, -⟩ := committed.commits
    exact ⟨commit, commits ▸ List.mem_append_left _ commit_mem, same⟩
  built := by
    intro pending pending_mem le
    obtain ⟨more, -, log, rising⟩ := committed.commits
    rw [log] at pending_mem
    rw [committed.stored]
    rcases List.mem_append.mp pending_mem with pending_mem | pending_mem
    · obtain ⟨commit, commit_mem, same⟩ := known pending pending_mem
      exact committed.built ⟨commit, commit_mem, same ▸ rfl⟩ (ready.built pending pending_mem le)
    · obtain rfl := List.mem_singleton.mp pending_mem
      obtain ⟨commit, commit_mem, rfl⟩ := ready.known
      exact absurd (rising commit commit_mem) (not_lt_of_ge le)

theorem Commits.holds {consumer : Consumer Value} (holds : consumer.Holds grid before) :
    consumer.Holds grid after := by
  cases consumer with
  | idle => trivial
  | listed changes => exact committed.readsLog holds
  | firstRun changes => exact committed.readsLog holds
  | counted changes => exact committed.readsLog holds
  | rebuilding changes base => exact ⟨committed.readsLog holds.1, committed.timestamps holds.2⟩
  | interpolating changes base latest =>
      obtain ⟨reads, base_mem, latest_mem, complete⟩ := holds
      refine ⟨committed.readsLog reads, committed.timestamps base_mem,
        committed.timestamps latest_mem, fun change change_mem commit commit_mem same => ?_⟩
      exact complete change change_mem commit
        (committed.mem_of_epoch (reads.known_epoch change_mem) commit_mem same) same
  | aligned changes base => exact ⟨committed.readsLog holds.1, holds.2⟩
  | building changes base latest pending cut =>
      obtain ⟨reads, latest_mem, covers, ends, batches⟩ := holds
      refine ⟨committed.readsLog reads, committed.timestamps latest_mem,
        fun change change_mem commit commit_mem same => ?_, ends, fun batch batch_mem =>
        ⟨(batches batch batch_mem).1, fun change change_mem commit commit_mem same => ?_⟩⟩
      · exact covers change change_mem commit
          (committed.mem_of_epoch (reads.known_epoch change_mem) commit_mem same) same
      · exact committed.mem_take ((batches batch batch_mem).2 change change_mem commit
          (committed.mem_of_epoch (reads.known_epoch change_mem) commit_mem same) same)
  | storing base left ackThrough =>
      exact fun epoch member => committed.ready known (holds epoch member)
  | acking base epoch => exact committed.ready known holds

end Aspect

end WeftDb.ChangeConsumer
