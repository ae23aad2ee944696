import WeftDb.Batching.QueueCoverage

/-!
# Captures keep the queue covered

A step of a capture deletes nothing.  It keeps the invariant of `QueueCoverage` as long as no row is
committed before the earliest stored one: a row it settles has just been queued again, with a stamp
past every one which a run of the consumer has read.
-/

namespace WeftDb.QueueConsumer

open Function

/-- The rows which a call commits next. -/
def Capture.nextChunk (capture : Capture) : List Int :=
  match capture.phase with
  | .writing (chunk :: _) => chunk
  | _ => []

/-- The entries read by a run which has still to align the grid. -/
def Consumer.unaligned : Consumer → List UnbatchedEntry
  | .listed run => run.entries
  | _ => []

/-- No chunk holds a row before the earliest stored one. -/
def NoBackfill (aspect : Aspect) : Action → Prop
  | .commitChunk id => ∀ capture ∈ aspect.captures id, ∀ timestamp ∈ capture.nextChunk,
      ∀ base ∈ aspect.earliest, base ≤ timestamp
  | _ => True

instance (aspect : Aspect) : ∀ action, Decidable (NoBackfill aspect action)
  | .commitChunk _ => inferInstanceAs (Decidable (∀ capture ∈ _, _))
  | .capture _ | .enqueueAhead .. | .requeue .. | .finish _ | .abandon _ | .readEntries
  | .readEarliest | .clearEntries | .readLatest | .buildWindows | .storeBatches | .dequeueCovered
  | .stopConsumer => inferInstanceAs (Decidable True)

/-- No entry which a run read lies at the edge of the first window when the run aligns the grid. -/
def AwayFromEdge (grid : WindowGrid) (aspect : Aspect) : Action → Prop
  | .readEarliest => ∀ entry ∈ aspect.consumer.unaligned, ∀ base ∈ aspect.earliest,
      ¬grid.AtEdge base entry.dataTimestamp
  | _ => True

instance (grid : WindowGrid) (aspect : Aspect) :
    ∀ action, Decidable (AwayFromEdge grid aspect action)
  | .readEarliest => inferInstanceAs (Decidable (∀ entry ∈ _, _))
  | .capture _ | .enqueueAhead .. | .commitChunk _ | .requeue .. | .finish _ | .abandon _
  | .readEntries | .clearEntries | .readLatest | .buildWindows | .storeBatches | .dequeueCovered
  | .stopConsumer => inferInstanceAs (Decidable True)

theorem Capture.Ordered.extend {before after : Aspect} {capture : Capture}
    (ordered : capture.Ordered before) (extended : before.Extends after)
    (enqueued : ∀ timestamp ∈ before.enqueued, timestamp ∈ after.enqueued) :
    capture.Ordered after where
  whole := ordered.whole
  ahead := fun begun timestamp member => enqueued _ (ordered.ahead begun timestamp member)
  numbered := fun commit commit_mem =>
    ⟨(ordered.numbered commit commit_mem).1.trans extended.commits.length_le,
      fun _ member => extended.rows ((ordered.numbered commit commit_mem).2 _ member)⟩
  current := fun chunk number chunks phase =>
    ⟨(ordered.current chunk number chunks phase).1.trans extended.commits.length_le,
      fun _ member => extended.rows ((ordered.current chunk number chunks phase).2 _ member)⟩

namespace Aspect

variable {grid : WindowGrid} {before after : Aspect}
variable {id : CaptureId} {timestamp : Int}

theorem settled_of_update {capture : Capture}
    (captures : after.captures = update before.captures id (some capture)) {number : Nat}
    (settled : after.Settled timestamp number) :
    before.Settled timestamp number ∨
      ∃ commit ∈ capture.settled, timestamp ∈ commit.timestamps ∧ commit.number = number := by
  obtain ⟨other, held, commit, found, commit_mem, member, same⟩ := settled
  rw [captures, update_apply] at found
  split at found
  · cases found
    exact .inr ⟨commit, commit_mem, member, same⟩
  · exact .inl ⟨other, held, commit, found, commit_mem, member, same⟩

theorem Covers.aligned (covers : before.Covers grid) {number : Nat}
    (settled : before.Settled timestamp number) :
    number ≤ before.commits.length ∧ ∃ base, before.earliest = some base := by
  obtain ⟨id, capture, commit, found, commit_mem, member, rfl⟩ := settled
  obtain ⟨bound, stored⟩ := (covers.captures id capture found).numbered commit commit_mem
  refine ⟨bound, ?_⟩
  cases aligned : before.earliest with
  | some base => exact ⟨base, rfl⟩
  | none =>
      have empty := List.min?_eq_none_iff.mp aligned
      rw [empty] at stored
      cases stored timestamp member

theorem Covers.extend (covers : before.Covers grid) (extended : before.Extends after)
    (consumer : after.consumer = before.consumer)
    (enqueued : ∀ timestamp ∈ after.enqueued, timestamp ∈ before.enqueued ∨
      after.queue.Queued timestamp)
    (rows : ∀ timestamp ∈ after.commits.flatten, timestamp ∈ after.enqueued)
    (captures : ∀ id capture, after.captures id = some capture → capture.Ordered after)
    (settled : ∀ timestamp number, after.Settled timestamp number →
      before.Settled timestamp number ∨
        ∃ current ∈ after.queue, current.dataTimestamp = timestamp ∧
          ∀ entry ∈ before.queue, entry.dataTimestamp = timestamp →
            entry.queuedAt < current.queuedAt) : after.Covers grid where
  waits := by
    intro timestamp member
    rcases enqueued timestamp member with member | queued
    · exact extended.waits (covers.waits timestamp member)
    · exact .inl queued
  rows := rows
  captures := captures
  settled := by
    intro timestamp number done base aligned window isWindow contains
    rcases settled timestamp number done with done | ⟨current, current_mem, rfl, -⟩
    · obtain ⟨-, other, aligned'⟩ := covers.aligned done
      have same := extended.earliest other aligned'
      rw [aligned] at same
      cases same
      exact extended.covered
        (covers.settled timestamp number done base aligned' window isWindow contains)
    · exact .inl ⟨_, contains, current, current_mem, rfl⟩
  consumer := by
    rw [consumer]
    exact extended.holds (fun run left reads => extended.reads reads settled) covers.consumer

theorem extends_refl (aspect : Aspect) : aspect.Extends aspect where
  held := fun entry entry_mem => ⟨entry, entry_mem, rfl, le_rfl⟩
  commits := List.prefix_refl _
  earliest := fun _ aligned => aligned
  stored := fun _ member => member

theorem extends_enqueue (aspect : Aspect) (timestamps : List Int) (now : Int) :
    aspect.Extends (aspect.enqueue timestamps now) where
  held := by
    intro entry entry_mem
    obtain ⟨current, current_mem, same, later, -⟩ :=
      UnbatchedQueue.exists_after_enqueue now timestamps entry_mem
    exact ⟨current, current_mem, same, later⟩
  commits := List.prefix_refl _
  earliest := fun _ aligned => aligned
  stored := fun _ member => member

theorem enqueued_enqueue (aspect : Aspect) (timestamps : List Int) (now : Int) :
    ∀ timestamp ∈ (aspect.enqueue timestamps now).enqueued, timestamp ∈ aspect.enqueued ∨
      (aspect.enqueue timestamps now).queue.Queued timestamp := by
  intro timestamp member
  rcases List.mem_append.mp member with member | member
  · exact .inl member
  · exact .inr (UnbatchedQueue.queued_enqueue now member)

theorem Extends.setCapture (extended : before.Extends after) (id : CaptureId) (capture : Capture) :
    before.Extends (after.setCapture id capture) :=
  ⟨extended.held, extended.commits, extended.earliest, extended.stored⟩

theorem ordered_of_update {capture : Capture}
    (captures : after.captures = update before.captures id (some capture))
    (others : ∀ other held, before.captures other = some held → held.Ordered after)
    (ordered : capture.Ordered after) :
    ∀ other held, after.captures other = some held → held.Ordered after := by
  intro other held found
  rw [captures, update_apply] at found
  split at found
  · cases found
    exact ordered
  · exact others other held found

theorem Covers.capture (covers : before.Covers grid) (timestamps : List Int) :
    Covers grid { before.setCapture before.nextCapture ⟨timestamps, .offered, []⟩ with
      nextCapture := before.nextCapture + 1 } := by
  have extended : before.Extends
      { before.setCapture before.nextCapture ⟨timestamps, .offered, []⟩ with
        nextCapture := before.nextCapture + 1 } :=
    ⟨(extends_refl before).held, List.prefix_refl _, fun _ aligned => aligned,
      fun _ member => member⟩
  refine covers.extend extended rfl (fun _ member => .inl member) covers.rows ?_ ?_
  · refine ordered_of_update rfl
      (fun other held found =>
        (covers.captures other held found).extend extended fun _ member => member) ?_
    exact
      { whole := rfl
        ahead := fun offered => absurd rfl offered
        numbered := fun _ member => by cases member
        current := fun _ _ _ phase => by cases phase }
  · intro timestamp number settled
    rcases settled_of_update rfl settled with settled | ⟨commit, commit_mem, -⟩
    · exact .inl settled
    · cases commit_mem

theorem Covers.enqueueAhead (covers : before.Covers grid) {now : Int}
    (taken : before.enqueueAhead id now = some after) : after.Covers grid := by
  unfold Aspect.enqueueAhead at taken
  split at taken
  · next timestamps settled found =>
      obtain rfl := Option.some.inj taken
      have extended := (extends_enqueue before timestamps now).setCapture id
        ⟨timestamps, .writing (chunks (captureChunkSize timestamps.length) timestamps), settled⟩
      have more : ∀ timestamp ∈ before.enqueued, timestamp ∈ before.enqueued ++ timestamps :=
        fun _ => List.mem_append_left _
      have tall : 0 < captureChunkSize timestamps.length := by
        unfold captureChunkSize
        split <;> decide
      have ordered := covers.captures id _ found
      refine covers.extend extended rfl (enqueued_enqueue before timestamps now)
        (fun timestamp member => more _ (covers.rows timestamp member)) ?_ ?_
      · refine ordered_of_update rfl
          (fun other held found => (covers.captures other held found).extend extended more) ?_
        have writes : Capture.unsettled ⟨timestamps,
            .writing (chunks (captureChunkSize timestamps.length) timestamps), settled⟩ =
              timestamps := flatten_chunks tall timestamps
        exact
          { whole := by rw [writes]; exact ordered.whole
            ahead := fun _ timestamp member => by
              rw [writes] at member
              exact List.mem_append_right _ member
            numbered := ordered.numbered
            current := fun _ _ _ phase => by cases phase }
      · intro timestamp number done
        rcases settled_of_update rfl done with done | ⟨commit, commit_mem, member, same⟩
        · exact .inl done
        · exact .inl ⟨id, _, commit, found, commit_mem, member, same⟩
  · cases taken

theorem flatten_concat (commits : List (List Int)) (chunk : List Int) :
    (commits ++ [chunk]).flatten = commits.flatten ++ chunk := by
  simp

theorem extends_commit {chunk : List Int}
    (later : ∀ base, before.earliest = some base → ∀ timestamp ∈ chunk, base ≤ timestamp) :
    before.Extends { before with commits := before.commits ++ [chunk] } where
  held := (extends_refl before).held
  commits := List.prefix_append _ _
  earliest := by
    intro base aligned
    obtain ⟨stored, least⟩ := earliest_eq_some.mp aligned
    refine earliest_eq_some.mpr ?_
    simp only [flatten_concat, List.mem_append]
    exact ⟨.inl stored, fun timestamp member => member.elim (least timestamp)
      (later base aligned timestamp)⟩
  stored := fun _ member => member

variable (covers : before.Covers grid)

include covers

theorem Covers.commitChunk (stays : NoBackfill before (.commitChunk id))
    (taken : before.commitChunk id = some after) : after.Covers grid := by
  unfold Aspect.commitChunk at taken
  split at taken
  · next timestamps chunk chunks settled found =>
      obtain rfl := Option.some.inj taken
      have ordered := covers.captures id _ found
      have extended := (extends_commit fun base aligned timestamp member =>
        stays _ found timestamp member base aligned).setCapture id
        ⟨timestamps, .requeuing chunk (before.commits.length + 1) chunks, settled⟩
      have kept := ordered.extend extended fun _ member => member
      refine covers.extend extended rfl (fun _ member => .inl member) ?_ ?_ ?_
      · intro timestamp member
        rcases List.mem_append.mp (flatten_concat before.commits chunk ▸ member) with
          member | member
        · exact covers.rows timestamp member
        · exact ordered.ahead (by simp) timestamp (List.mem_append_left _ member)
      · refine ordered_of_update rfl
          (fun other held found =>
            (covers.captures other held found).extend extended fun _ member => member) ?_
        refine ⟨kept.whole, fun _ => kept.ahead (by simp), kept.numbered, fun _ _ _ phase => ?_⟩
        cases phase
        refine ⟨?_, fun timestamp member => ?_⟩
        · change before.commits.length + 1 ≤ (before.commits ++ [chunk]).length
          rw [List.length_append, List.length_singleton]
        · exact flatten_concat before.commits chunk ▸ List.mem_append_right _ member
      · intro timestamp number done
        rcases settled_of_update rfl done with done | ⟨commit, commit_mem, member, same⟩
        · exact .inl done
        · exact .inl ⟨id, _, commit, found, commit_mem, member, same⟩
  · cases taken

theorem Covers.requeue {now : Int} (taken : before.requeue id now = some after) :
    after.Covers grid := by
  unfold Aspect.requeue at taken
  split at taken
  · next timestamps chunk number chunks settled found =>
      obtain rfl := Option.some.inj taken
      have ordered := covers.captures id _ found
      have extended := (extends_enqueue before chunk now).setCapture id
        ⟨timestamps, .writing chunks, settled ++ [⟨chunk, number⟩]⟩
      have more : ∀ timestamp ∈ before.enqueued, timestamp ∈ before.enqueued ++ chunk :=
        fun _ => List.mem_append_left _
      refine covers.extend extended rfl (enqueued_enqueue before chunk now)
        (fun timestamp member => more _ (covers.rows timestamp member)) ?_ ?_
      · refine ordered_of_update rfl
          (fun other held found => (covers.captures other held found).extend extended more) ?_
        refine ⟨?_, fun _ timestamp member => ?_, ?_, fun _ _ _ phase => by cases phase⟩
        · rw [ordered.whole]
          simp [Capture.unsettled]
        · exact more _ (ordered.ahead (by simp) timestamp (List.mem_append_right _ member))
        · intro commit commit_mem
          rcases List.mem_append.mp commit_mem with commit_mem | commit_mem
          · exact ordered.numbered commit commit_mem
          · obtain rfl := List.mem_singleton.mp commit_mem
            exact ordered.current chunk number chunks rfl
      · intro timestamp other done
        rcases settled_of_update rfl done with done | ⟨commit, commit_mem, member, same⟩
        · exact .inl done
        rcases List.mem_append.mp commit_mem with commit_mem | commit_mem
        · exact .inl ⟨id, _, commit, found, commit_mem, member, same⟩
        · obtain rfl := List.mem_singleton.mp commit_mem
          obtain ⟨current, current_mem, current_key⟩ := UnbatchedQueue.queued_enqueue now member
          refine .inr ⟨current, current_mem, current_key, fun entry entry_mem entry_key => ?_⟩
          obtain ⟨moved, moved_mem, moved_key, -, past⟩ :=
            UnbatchedQueue.exists_after_enqueue now chunk entry_mem
          obtain rfl := KeyedTable.eq_of_key_eq _ current_mem moved_mem
            (current_key.trans (entry_key.symm.trans moved_key.symm))
          exact past (entry_key ▸ member)
  · cases taken

theorem Covers.finish (taken : before.finish id = some after) : after.Covers grid := by
  unfold Aspect.finish at taken
  split at taken
  · next timestamps settled found =>
      obtain rfl := Option.some.inj taken
      have ordered := covers.captures id _ found
      have extended := (extends_refl before).setCapture id ⟨timestamps, .returned, settled⟩
      refine covers.extend extended rfl (fun _ member => .inl member) covers.rows ?_ ?_
      · refine ordered_of_update rfl
          (fun other held found =>
            (covers.captures other held found).extend extended fun _ member => member) ?_
        refine ⟨ordered.whole, fun _ _ member => ?_, ordered.numbered, fun _ _ _ phase => ?_⟩
        · cases member
        · cases phase
      · intro timestamp number done
        rcases settled_of_update rfl done with done | ⟨commit, commit_mem, member, same⟩
        · exact .inl done
        · exact .inl ⟨id, _, commit, found, commit_mem, member, same⟩
  · cases taken

theorem Covers.abandon (taken : before.abandon id = some after) : after.Covers grid := by
  unfold Aspect.abandon at taken
  have forgotten : after.Covers grid ∨
      some { before with captures := update before.captures id none } = some after := by
    split at taken
    · cases taken
    · exact .inr taken
    · cases taken
  rcases forgotten with covers | taken
  · exact covers
  obtain rfl := Option.some.inj taken
  have fewer : ∀ other held, update before.captures id none other = some held →
      before.captures other = some held := by
    intro other held found
    rw [update_apply] at found
    split at found
    · cases found
    · exact found
  have extended :
      before.Extends { before with captures := update before.captures id none } :=
    ⟨(extends_refl before).held, List.prefix_refl _, fun _ aligned => aligned,
      fun _ member => member⟩
  refine covers.extend extended rfl (fun _ member => .inl member) covers.rows ?_ ?_
  · exact fun other held found =>
      (covers.captures other held (fewer other held found)).extend extended fun _ member => member
  · rintro timestamp number ⟨other, held, commit, found, rest⟩
    exact .inl ⟨other, held, commit, fewer other held found, rest⟩

end Aspect

end WeftDb.QueueConsumer
