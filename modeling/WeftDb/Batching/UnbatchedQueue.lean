import Mathlib.Algebra.Order.Ring.Int
import WeftDb.Foundation.KeyedTable

/-!
# The queue of unbatched timestamps

The queue holds one entry for each timestamp, stamped when it was queued.  Queuing a timestamp
again moves its stamp strictly forward, whatever the clock says, and a consumer deletes an entry
only while it carries the stamp it was read with.
-/

namespace WeftDb

/-- A queued timestamp. -/
structure UnbatchedEntry where
  dataTimestamp : Int
  queuedAt : Int
  deriving DecidableEq

/-- The queue of one aspect, with one entry for each timestamp. -/
abbrev UnbatchedQueue := KeyedTable UnbatchedEntry.dataTimestamp

namespace UnbatchedQueue

/-- The entry of a timestamp which is queued now. -/
def stamped (queue : UnbatchedQueue) (now timestamp : Int) : UnbatchedEntry :=
  match queue.find? timestamp with
  | none => ⟨timestamp, now⟩
  | some entry => ⟨timestamp, max now (entry.queuedAt + 1)⟩

/-- Queue timestamps at one reading of the clock. -/
def enqueueUnbatchedMeasurements (queue : UnbatchedQueue) (timestamps : List Int) (now : Int) :
    UnbatchedQueue :=
  timestamps.foldl (fun queue timestamp => queue.put (stamped queue now timestamp)) queue

/-- Delete each of these entries which still has the stamp it was read with. -/
def dequeueUnbatchedEntries (queue : UnbatchedQueue) (entries : List UnbatchedEntry) :
    UnbatchedQueue :=
  queue.filter fun entry => decide (entry ∉ entries)

/-- A timestamp which has an entry. -/
def Queued (queue : UnbatchedQueue) (timestamp : Int) : Prop :=
  ∃ entry ∈ queue, entry.dataTimestamp = timestamp

instance (queue : UnbatchedQueue) (timestamp : Int) : Decidable (queue.Queued timestamp) :=
  inferInstanceAs (Decidable (∃ entry ∈ queue.rows, entry.dataTimestamp = timestamp))

variable {queue : UnbatchedQueue}
variable {entry : UnbatchedEntry}

@[simp]
theorem stamped_dataTimestamp (queue : UnbatchedQueue) (now timestamp : Int) :
    (stamped queue now timestamp).dataTimestamp = timestamp := by
  unfold stamped
  cases queue.find? timestamp <;> rfl

theorem lt_stamped (now : Int) (held : entry ∈ queue) :
    entry.queuedAt < (stamped queue now entry.dataTimestamp).queuedAt := by
  have found : queue.find? entry.dataTimestamp = some entry :=
    KeyedTable.find?_eq_some.mpr ⟨held, rfl⟩
  simp only [stamped, found]
  omega

theorem put_stamped (now timestamp : Int) (held : entry ∈ queue) :
    ∃ after ∈ queue.put (stamped queue now timestamp),
      after.dataTimestamp = entry.dataTimestamp ∧ entry.queuedAt ≤ after.queuedAt ∧
        (entry.dataTimestamp = timestamp → entry.queuedAt < after.queuedAt) := by
  by_cases same : entry.dataTimestamp = timestamp
  · subst same
    have past := lt_stamped now held
    exact ⟨_, KeyedTable.mem_put.mpr (.inr rfl), by simp, past.le, fun _ => past⟩
  · refine ⟨entry, KeyedTable.mem_put.mpr (.inl ⟨held, ?_⟩), rfl, le_rfl, fun equal =>
      absurd equal same⟩
    simpa using same

theorem exists_after_enqueue (now : Int) (timestamps : List Int) (held : entry ∈ queue) :
    ∃ after ∈ queue.enqueueUnbatchedMeasurements timestamps now,
      after.dataTimestamp = entry.dataTimestamp ∧ entry.queuedAt ≤ after.queuedAt ∧
        (entry.dataTimestamp ∈ timestamps → entry.queuedAt < after.queuedAt) := by
  induction timestamps generalizing queue entry with
  | nil => exact ⟨entry, held, rfl, le_rfl, fun member => by cases member⟩
  | cons timestamp timestamps ih =>
      obtain ⟨middle, middle_mem, middle_key, middle_le, middle_lt⟩ :=
        put_stamped now timestamp held
      obtain ⟨after, after_mem, after_key, after_le, after_lt⟩ := ih middle_mem
      refine ⟨after, after_mem, after_key.trans middle_key, middle_le.trans after_le, ?_⟩
      intro member
      rcases List.mem_cons.mp member with first | later
      · exact (middle_lt first).trans_le after_le
      · exact middle_le.trans_lt (after_lt (middle_key ▸ later))

theorem queued_enqueue (now : Int) {timestamps : List Int} {timestamp : Int}
    (member : timestamp ∈ timestamps) :
    (queue.enqueueUnbatchedMeasurements timestamps now).Queued timestamp := by
  induction timestamps generalizing queue with
  | nil => cases member
  | cons first timestamps ih =>
      rcases List.mem_cons.mp member with rfl | later
      · have held : stamped queue now timestamp ∈ queue.put (stamped queue now timestamp) :=
          KeyedTable.mem_put.mpr (.inr rfl)
        obtain ⟨after, after_mem, after_key, -⟩ := exists_after_enqueue now timestamps held
        exact ⟨after, after_mem, after_key.trans (by simp)⟩
      · exact ih later

theorem mem_dequeue {entries : List UnbatchedEntry} :
    entry ∈ queue.dequeueUnbatchedEntries entries ↔ entry ∈ queue ∧ entry ∉ entries := by
  simp [dequeueUnbatchedEntries]

end UnbatchedQueue

end WeftDb
