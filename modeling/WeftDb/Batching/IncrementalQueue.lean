import WeftDb.Batching.IncrementalBuild

/-!
# The batches of a queue-backed aspect

Behind each run a window with a stored row is batched, or ends too late and is affected by an entry.
The entry of the latest row affects all of these but the first window, and no window which is batched
contains it.
-/

namespace WeftDb.Rebuild

open ChangeConsumer Outputs

variable {Value : Type} {bracketing : Bracketing Value} {grid : WindowGrid}
  {rows later : List (Point Value)} {base : Int} {window : BatchWindow}

/-- Whether a window contains a stored row. -/
def Holds (rows : List (Point Value)) (window : BatchWindow) : Prop :=
  ∃ row ∈ rows, window.Contains row.1

theorem Holds.append (holds : Holds rows window) : Holds (rows ++ later) window := by
  obtain ⟨row, member, contains⟩ := holds
  exact ⟨row, List.mem_append_left _ member, contains⟩

theorem not_atEdge_base (sized : grid.Sized) : ¬grid.AtEdge base base := by
  rintro ⟨short, long⟩
  rw [WindowGrid.windowDurationMillis] at short long
  have below := (Int.mul_lt_mul_right sized.2.2).mp
    (show ((grid.batchSize : Int) - 1) * grid.stepMillis < 1 * grid.stepMillis by omega)
  have above := (Int.mul_lt_mul_right sized.2.2).mp
    (show 0 * grid.stepMillis < ((grid.batchSize : Int) - 1) * grid.stepMillis by omega)
  omega

theorem finish_le_of_first (isWindow : grid.IsWindow base window) (first : window.start = base)
    {other : BatchWindow} (another : grid.IsWindow base other) : window.finish ≤ other.finish := by
  obtain ⟨-, -, ends⟩ := exists_index isWindow
  obtain ⟨index, starts, other_ends⟩ := exists_index another
  have past : 0 ≤ index * grid.stepMillis :=
    mul_nonneg (Int.natCast_nonneg index) isWindow.1.2.2.le
  omega

/-- Whether an entry affects a window. -/
def Waits (grid : WindowGrid) (base : Int) (queue : UnbatchedQueue) (window : BatchWindow) : Prop :=
  ∃ timestamp, queue.Queued timestamp ∧ window.Contains timestamp ∧
    ¬(window.start = base ∧ grid.AtEdge base timestamp)

theorem mem_affected {queue : UnbatchedQueue}
    (after : ∀ timestamp, queue.Queued timestamp → base ≤ timestamp) :
    window ∈ grid.calculateAffectedWindows (queue.rows.map UnbatchedEntry.dataTimestamp) base ↔
      grid.IsWindow base window ∧ Waits grid base queue window := by
  by_cases sized : grid.Sized
  · rw [WindowGrid.mem_calculateAffectedWindows sized, Waits, ← exists_and_left]
    refine exists_congr fun timestamp => ?_
    rw [show timestamp ∈ queue.rows.map UnbatchedEntry.dataTimestamp ↔ queue.Queued timestamp from
      List.mem_map, and_left_comm]
    refine and_congr_right fun queued => ?_
    rw [WindowGrid.mem_windowsTouched_of_le sized (after timestamp queued), BatchWindow.Contains,
      and_comm (b := timestamp < window.finish), and_assoc]
  · rw [WindowGrid.calculateAffectedWindows, if_neg sized]
    exact ⟨fun member => absurd member List.not_mem_nil, fun found => absurd found.1.1 sized⟩

namespace QueueBacked

/-- What holds of a queue-backed aspect behind each run. -/
structure Keeps (bracketing : Bracketing Value) (grid : WindowGrid) (base : Int)
    (aspect : QueueBacked Value) : Prop where
  queued : ∀ timestamp, aspect.queue.Queued timestamp → ∃ row ∈ aspect.rows, row.1 = timestamp
  batched : Batched bracketing grid base aspect.rows (Holds aspect.rows) aspect.batches
  waits : ∀ window, grid.IsWindow base window → Holds aspect.rows window →
    EndsBy aspect.rows window ∨ Waits grid base aspect.queue window

theorem keeps_empty (bracketing : Bracketing Value) (grid : WindowGrid) (base : Int) :
    (empty Value).Keeps bracketing grid base where
  queued := fun _ ⟨_, member, _⟩ => absurd member (KeyedTable.not_mem_empty _)
  batched := .of_empty
  waits := fun _ _ ⟨_, member, _⟩ => absurd member List.not_mem_nil

variable {aspect : QueueBacked Value} {offered : Capture Value}

theorem queued_of_enqueue {timestamps : List Int} {now timestamp : Int} {queue : UnbatchedQueue}
    (queued : (queue.enqueueUnbatchedMeasurements timestamps now).Queued timestamp) :
    queue.Queued timestamp ∨ timestamp ∈ timestamps := by
  induction timestamps generalizing queue with
  | nil => exact .inl queued
  | cons first timestamps ih =>
      obtain ⟨entry, member, rfl⟩ | later := ih queued
      · rcases KeyedTable.mem_put.mp member with ⟨held, -⟩ | rfl
        · exact .inl ⟨entry, held, rfl⟩
        · exact .inr (UnbatchedQueue.stamped_dataTimestamp .. ▸ List.mem_cons_self)
      · exact .inr (.tail _ later)

theorem queued_capture {timestamp : Int} :
    (aspect.capture offered).queue.Queued timestamp ↔
      aspect.queue.Queued timestamp ∨ timestamp ∈ offered.rows.map Prod.fst := by
  constructor
  · intro queued
    exact (queued_of_enqueue queued).elim queued_of_enqueue .inr
  · rintro (⟨entry, held, rfl⟩ | member)
    · obtain ⟨middle, held, same, -⟩ := UnbatchedQueue.exists_after_enqueue offered.offeredAt
        (offered.rows.map Prod.fst) held
      obtain ⟨after, held, still, -⟩ := UnbatchedQueue.exists_after_enqueue offered.storedAt
        (offered.rows.map Prod.fst) held
      exact ⟨after, held, still.trans same⟩
    · exact UnbatchedQueue.queued_enqueue _ member

theorem mem_covered {entries : List UnbatchedEntry} {built : List (BatchWindow × Batch Value)}
    {entry : UnbatchedEntry} :
    entry ∈ covered entries built ↔
      entry ∈ entries ∧ ∃ window ∈ built, window.1.Contains entry.dataTimestamp := by
  rw [covered, List.mem_filter, List.any_eq_true]
  simp only [decide_eq_true_eq]

section Capture

variable (keeps : aspect.Keeps bracketing grid base)
  (first : earliest (aspect.rows ++ offered.rows) = some base)

include keeps

theorem Keeps.queued_row {timestamp : Int}
    (queued : (aspect.capture offered).queue.Queued timestamp) :
    ∃ row ∈ aspect.rows ++ offered.rows, row.1 = timestamp := by
  rcases queued_capture.mp queued with old | new
  · obtain ⟨row, member, same⟩ := keeps.queued timestamp old
    exact ⟨row, List.mem_append_left _ member, same⟩
  · obtain ⟨row, member, same⟩ := List.mem_map.mp new
    exact ⟨row, List.mem_append_right _ member, same⟩

include first

/-- Behind a commit a window with a stored row was whole before, or an entry affects it. -/
theorem Keeps.waits_capture (isWindow : grid.IsWindow base window)
    (holds : Holds (aspect.rows ++ offered.rows) window) :
    Holds aspect.rows window ∧ EndsBy aspect.rows window ∨
      Waits grid base (aspect.capture offered).queue window := by
  by_cases held : Holds aspect.rows window
  · rcases keeps.waits window isWindow held with ends | ⟨timestamp, queued, waits⟩
    · exact .inl ⟨held, ends⟩
    · exact .inr ⟨timestamp, queued_capture.mpr (.inl queued), waits⟩
  · obtain ⟨row, member, contains⟩ := holds
    have own : row ∈ offered.rows := (List.mem_append.mp member).resolve_left fun old =>
      held ⟨row, old, contains⟩
    by_cases edge : window.start = base ∧ grid.AtEdge base row.1
    · -- The first window has the first row of all.
      obtain ⟨⟨low, low_mem, low_eq⟩, least⟩ := earliest_eq_some.mp first
      have with_base : window.Contains base := ⟨edge.1.le, (least row member).trans_lt contains.2⟩
      have new : low ∈ offered.rows := (List.mem_append.mp low_mem).resolve_left fun old =>
        held ⟨low, old, low_eq ▸ with_base⟩
      exact .inr ⟨base, queued_capture.mpr (.inr (List.mem_map.mpr ⟨low, new, low_eq⟩)), with_base,
        fun both => not_atEdge_base isWindow.1 both.2⟩
    · exact .inr ⟨row.1, queued_capture.mpr (.inr (List.mem_map_of_mem own)), contains, edge⟩

end Capture

section Built

variable (keeps : aspect.Keeps bracketing grid base)
  (past : ∀ row ∈ aspect.rows, ∀ next ∈ offered.rows, row.1 < next.1)
  (first : earliest (aspect.rows ++ offered.rows) = some base)
  {built : List (BatchWindow × Batch Value)}
  (mem_built : ∀ window batch, (window, batch) ∈ built ↔
    (grid.IsWindow base window ∧ Waits grid base (aspect.capture offered).queue window) ∧
      EndsBy (aspect.rows ++ offered.rows) window ∧
        batch = batchAt bracketing grid (aspect.rows ++ offered.rows) window.start)

variable [DecidableEq Value]

include keeps past first mem_built

/-- A run which keeps an entry for each window that is not whole yet keeps the invariant. -/
theorem Keeps.dequeue {entries : List UnbatchedEntry}
    (waits : ∀ window, grid.IsWindow base window →
      Waits grid base (aspect.capture offered).queue window →
        EndsBy (aspect.rows ++ offered.rows) window ∨
          Waits grid base ((aspect.capture offered).queue.dequeueUnbatchedEntries entries) window) :
    Keeps bracketing grid base ⟨aspect.rows ++ offered.rows,
      (aspect.capture offered).queue.dequeueUnbatchedEntries entries,
      insertUnprocessedBatches aspect.batches (built.map Prod.snd)⟩ where
  queued := by
    rintro timestamp ⟨entry, member, same⟩
    exact keeps.queued_row ⟨entry, (UnbatchedQueue.mem_dequeue.mp member).1, same⟩
  batched := by
    refine keeps.batched.build past (fun window => Holds.append) ?_ ?_ mem_built
    · rintro window ⟨isWindow, timestamp, queued, contains, -⟩
      obtain ⟨row, member, rfl⟩ := keeps.queued_row queued
      exact ⟨isWindow, row, member, contains⟩
    · intro window isWindow holds
      exact (keeps.waits_capture first isWindow holds).imp_right fun waits => ⟨isWindow, waits⟩
  waits window isWindow holds := by
    rcases keeps.waits_capture first isWindow holds with ⟨-, ends⟩ | waiting
    · exact .inl ends.append
    · exact waits window isWindow waiting

omit [DecidableEq Value] past first in
/-- The latest row stays queued, and it affects each window which is not whole but whose own entry a
whole window contains. -/
theorem Keeps.waits_covered {last : Int}
    (found : latest (aspect.rows ++ offered.rows) = some last)
    (queued : (aspect.capture offered).queue.Queued last) (isWindow : grid.IsWindow base window)
    (waits : Waits grid base (aspect.capture offered).queue window) :
    EndsBy (aspect.rows ++ offered.rows) window ∨
      Waits grid base ((aspect.capture offered).queue.dequeueUnbatchedEntries
        (covered (aspect.capture offered).queue.rows built)) window := by
  obtain ⟨⟨final, final_mem, rfl⟩, greatest⟩ := latest_eq_some.mp found
  have whole {other : BatchWindow} {batch : Batch Value} (cut : (other, batch) ∈ built) :
      grid.IsWindow base other ∧ other.finish ≤ final.1 := by
    obtain ⟨⟨isWindow, -⟩, ⟨row, row_mem, ends, -⟩, -⟩ := (mem_built other batch).mp cut
    exact ⟨isWindow, ends.trans (greatest row row_mem)⟩
  obtain ⟨timestamp, ⟨entry, entry_mem, rfl⟩, contains, away⟩ := waits
  obtain ⟨row, row_mem, same⟩ := keeps.queued_row ⟨entry, entry_mem, rfl⟩
  rcases lt_or_ge final.1 window.finish with beyond | ends
  · refine .inr ?_
    by_cases taken : entry ∈ covered (aspect.capture offered).queue.rows built
    · obtain ⟨newest, newest_mem, newest_eq⟩ := queued
      obtain ⟨-, ⟨early, other⟩, cut, -⟩ := mem_covered.mp taken
      refine ⟨final.1, ⟨newest, UnbatchedQueue.mem_dequeue.mpr ⟨newest_mem, fun member => ?_⟩,
        newest_eq⟩, ⟨contains.1.trans (same ▸ greatest row row_mem), beyond⟩, fun edge => ?_⟩
      · obtain ⟨-, ⟨later, batch⟩, cut, inside⟩ := mem_covered.mp member
        exact (newest_eq ▸ inside.2).not_ge (whole cut).2
      · exact (finish_le_of_first isWindow edge.1 (whole cut).1).not_gt
          ((whole cut).2.trans_lt beyond)
    · exact ⟨_, ⟨entry, UnbatchedQueue.mem_dequeue.mpr ⟨entry_mem, taken⟩, rfl⟩, contains, away⟩
  · exact .inl ⟨final, final_mem, ends, row, row_mem, same ▸ contains.2.trans_le ends⟩

end Built

variable [DecidableEq Value]

/-- A commit, and the run behind it. -/
theorem Keeps.step (keeps : aspect.Keeps bracketing grid base) (filled : offered.rows ≠ [])
    (past : ∀ row ∈ aspect.rows, ∀ next ∈ offered.rows, row.1 < next.1)
    (first : earliest (aspect.rows ++ offered.rows) = some base)
    (reads : aspect.ReadsBracketed grid offered) :
    ∃ after, aspect.step bracketing grid offered = some after ∧
      after.rows = aspect.rows ++ offered.rows ∧ after.Keeps bracketing grid base := by
  obtain ⟨-, least⟩ := earliest_eq_some.mp first
  obtain ⟨last, found⟩ := exists_latest (List.append_ne_nil_of_right_ne_nil aspect.rows filled)
  obtain ⟨⟨final, final_mem, final_eq⟩, greatest⟩ := latest_eq_some.mp found
  -- The rows before the commit are all earlier than its own, so the latest row is queued.
  have queued : (aspect.capture offered).queue.Queued last := by
    obtain ⟨next, next_mem⟩ := List.exists_mem_of_ne_nil _ filled
    have own : final ∈ offered.rows := (List.mem_append.mp final_mem).resolve_left fun old =>
      ((past final old next next_mem).trans_le
        (greatest next (List.mem_append_right _ next_mem))).ne final_eq
    exact queued_capture.mpr (.inr (List.mem_map.mpr ⟨final, own, final_eq⟩))
  have after_base (timestamp : Int) (queued : (aspect.capture offered).queue.Queued timestamp) :
      base ≤ timestamp := by
    obtain ⟨row, member, rfl⟩ := keeps.queued_row queued
    exact least row member
  have mem_built (window : BatchWindow) (batch : Batch Value) := by
    refine @mem_buildAffected _ bracketing grid _ base window last _ first found
      (fun window member => ?_) (reads base first last found) batch
    obtain ⟨isWindow, timestamp, queued, contains, -⟩ := (mem_affected after_base).mp member
    exact ⟨isWindow, (after_base timestamp queued).trans_lt contains.2⟩
  simp only [mem_affected after_base] at mem_built
  have entries : (aspect.capture offered).queue.rows ≠ [] := by
    obtain ⟨newest, member, -⟩ := queued
    exact List.ne_nil_of_mem member
  unfold QueueBacked.step buildIncrementalUnprocessedQueue
  rw [if_neg fun both => entries both.1, if_neg entries,
    show earliest (aspect.capture offered).rows = some base from first]
  dsimp only
  split
  · next nothing =>
      have kept := @Keeps.dequeue _ _ _ _ _ _ keeps past first _ mem_built _
        (aspect.capture offered).queue.rows fun window isWindow waits =>
          absurd ((mem_affected after_base).mpr ⟨isWindow, waits⟩) (nothing ▸ List.not_mem_nil)
      rw [nothing] at kept
      exact ⟨_, rfl, rfl, kept⟩
  · rw [show latest (aspect.capture offered).rows = some last from found]
    exact ⟨_, rfl, rfl, keeps.dequeue past first mem_built fun window =>
      keeps.waits_covered mem_built found queued⟩

theorem Keeps.run (keeps : aspect.Keeps bracketing grid base) (captures : List (Capture Value))
    (appendOnly : AppendOnly grid aspect.rows (captures.map Capture.rows))
    (first : earliest (aspect.rows ++ (captures.map Capture.rows).flatten) = some base)
    (meets : Execution.Meets (QueueBacked.step bracketing grid) (ReadsBracketed grid) aspect
      captures) :
    ∃ after, Execution.run (QueueBacked.step bracketing grid) aspect captures = some after ∧
      after.rows = aspect.rows ++ (captures.map Capture.rows).flatten ∧
        after.Keeps bracketing grid base := by
  induction captures generalizing aspect with
  | nil => exact ⟨aspect, rfl, (List.append_nil _).symm, keeps⟩
  | cons offered captures ih =>
      rw [List.map_cons, List.flatten_cons, ← List.append_assoc] at first ⊢
      obtain ⟨⟨filled, -, past⟩, rest⟩ := appendOnly
      have first_now := earliest_of_append (List.append_ne_nil_of_right_ne_nil _ filled)
        (fun row member next later => (rest.of_mem_flatten later).2 row member) first
      obtain ⟨middle, done, rows_eq, kept⟩ := keeps.step filled past first_now meets.1
      rw [← rows_eq] at rest first ⊢
      obtain ⟨after, finished, all, kept⟩ := ih kept rest first (meets.cons done).2
      exact ⟨after, Execution.run_cons_eq_some.mpr ⟨middle, done, finished⟩, all, kept⟩

end QueueBacked

end WeftDb.Rebuild
