import WeftDb.Foundation.Execution
import WeftDb.Foundation.SortedMap

/-!
# Frames which running reads may open

A swap takes the rows of its inputs out of the index, but a read which found them there before may
still open their frames.  A read pins the epoch it begins in, a committed swap hands its inputs to
the epochs, and the reaper passes over a frame while a read of its epoch or an earlier one runs.
-/

namespace SortedMap

variable {Key Value : Type*} [LinearOrder Key]
variable {map : SortedMap Key Value}

/-- Take out the entry under a key. -/
def erase (map : SortedMap Key Value) (target : Key) : SortedMap Key Value where
  entries := map.entries.filter fun entry => entry.1 ≠ target
  sorted := map.sorted.filter _

theorem find?_erase (map : SortedMap Key Value) (target other : Key) :
    (map.erase target).find? other = if target = other then none else map.find? other := by
  refine Option.ext fun value => ?_
  rw [find?_eq_some, erase, List.mem_filter, ← find?_eq_some]
  by_cases same : target = other
  · simp [same]
  · simp [same, Ne.symm same]

theorem head_le_of_find? {key : Key} {value : Value} (found : map.find? key = some value) :
    ∃ first, map.keys.head? = some first ∧ first ≤ key := by
  have member := find?_eq_some.mp found
  have sorted := map.sorted
  rw [keys]
  cases listed : map.entries with
  | nil => simp [listed] at member
  | cons entry later =>
      rw [listed] at member sorted
      refine ⟨entry.1, rfl, ?_⟩
      rcases List.mem_cons.mp member with rfl | member
      · exact le_rfl
      · exact (List.rel_of_pairwise_cons sorted member).le

theorem find?_of_head {key : Key} (first : map.keys.head? = some key) :
    ∃ value, map.find? key = some value := by
  obtain ⟨⟨_, value⟩, member, rfl⟩ := List.mem_map.mp (List.mem_of_mem_head? first)
  exact ⟨value, find?_eq_some.mpr member⟩

end SortedMap

namespace WeftDb

/-- The reclaim epochs of one store. -/
structure ReclaimEpochs where
  /-- The epoch a read that pins now records. -/
  current : Nat
  /-- How many live pins each epoch has. -/
  pins : SortedMap Nat Nat
  /-- The epoch each name was retired in, until the reaper is done with it. -/
  retired : String → Option Nat
  /-- How many holds of a backup are alive. -/
  gcHold : Nat

namespace ReclaimEpochs

/-- The epochs of a process which has just started. -/
def default : ReclaimEpochs :=
  ⟨0, .empty, fun _ => none, 0⟩

def pin (epochs : ReclaimEpochs) : ReclaimEpochs × Nat :=
  let count := (epochs.pins.find? epochs.current).getD 0
  ({ epochs with pins := epochs.pins.insert epochs.current (count + 1) }, epochs.current)

/-- Drop a pin of an epoch. -/
def unpin (epochs : ReclaimEpochs) (epoch : Nat) : ReclaimEpochs :=
  match epochs.pins.find? epoch with
  | some count =>
      if count - 1 = 0 then { epochs with pins := epochs.pins.erase epoch }
      else { epochs with pins := epochs.pins.insert epoch (count - 1) }
  | none => epochs

theorem unpin_same (epochs : ReclaimEpochs) (epoch : Nat) :
    (epochs.unpin epoch).current = epochs.current ∧
      (epochs.unpin epoch).retired = epochs.retired ∧
      (epochs.unpin epoch).gcHold = epochs.gcHold := by
  rw [unpin]
  split
  · split <;> exact ⟨rfl, rfl, rfl⟩
  · exact ⟨rfl, rfl, rfl⟩

def held (epochs : ReclaimEpochs) : Bool :=
  epochs.gcHold > 0

/-- Record the names under the current epoch, and advance the epoch. -/
def retire (epochs : ReclaimEpochs) (names : List String) : ReclaimEpochs :=
  { epochs with
    current := epochs.current + 1
    retired := fun name => if name ∈ names then some epochs.current else epochs.retired name }

/-- Whether a retired frame may be unlinked now. -/
def reclaimable (epochs : ReclaimEpochs) (name : String) : Bool :=
  if epochs.held then false
  else
    (epochs.retired name).all fun retired =>
      epochs.pins.keys.head?.all fun oldest => oldest > retired

def forget (epochs : ReclaimEpochs) (names : List String) : ReclaimEpochs :=
  { epochs with retired := fun name => if name ∈ names then none else epochs.retired name }

end ReclaimEpochs

namespace Reclaim

/-- A running read: the epoch it pinned, and the frames it found in the index. -/
structure Read where
  epoch : Nat
  view : List String
  deriving DecidableEq

structure State where
  epochs : ReclaimEpochs
  reads : List Read
  /-- The backups which hold the reaper off, with the frames of their snapshots. -/
  holds : List (List String)
  /-- The frames which rows of the index reference. -/
  rows : List String
  /-- The frames journaled as retired. -/
  journal : List String
  /-- What the committed swap of an aspect has still to hand to the epochs. -/
  swapping : String → Option (List String)
  /-- The frames which the reaper has found free. -/
  passed : List String
  written : List String
  unlinked : List String

def opened (rows : List String) : State :=
  ⟨.default, [], [], rows, [], fun _ => none, [], rows, []⟩

inductive Action
  | land (names : List String)
  | pin
  | prune (read : Read) (names : List String)
  | finish (read : Read)
  | hold
  | snapshot (view names : List String)
  | release (view : List String)
  | swap (aspect : String) (inputs outputs : List String)
  | handOver (aspect : String)
  /-- The future of a swap is dropped between its commit and handing its inputs over. -/
  | abandon (aspect : String)
  | sweep (name : String)
  | unlink (name : String)
  | clear (names : List String)
  /-- The process starts again and replays the journal: it unlinks the frames of some rows which no
  row of the index references, and deletes some of these rows. -/
  | reopen (swept cleared : List String)

/-- One step of the reads, the swaps and the reaper.  A frame belongs to one aspect; a swap and a
sweep of one aspect exclude each other by its maintenance lock, and no name is written twice. -/
def step (owner : String → String) (state : State) : Action → Option State
  | .land names =>
      if ∀ name ∈ names, name ∉ state.written then
        some { state with rows := names ++ state.rows, written := names ++ state.written }
      else none
  | .pin =>
      let (epochs, epoch) := state.epochs.pin
      some { state with epochs, reads := ⟨epoch, []⟩ :: state.reads }
  | .prune read names =>
      if read ∈ state.reads ∧ names ⊆ state.rows then
        some { state with
          reads := { read with view := names ++ read.view } :: state.reads.erase read }
      else none
  | .finish read =>
      if read ∈ state.reads then
        some { state with
          epochs := state.epochs.unpin read.epoch
          reads := state.reads.erase read }
      else none
  | .hold =>
      some { state with epochs.gcHold := state.epochs.gcHold + 1, holds := [] :: state.holds }
  | .snapshot view names =>
      if view ∈ state.holds ∧ names ⊆ state.rows then
        some { state with holds := (names ++ view) :: state.holds.erase view }
      else none
  | .release view =>
      if view ∈ state.holds then
        some { state with
          epochs.gcHold := state.epochs.gcHold - 1
          holds := state.holds.erase view }
      else none
  | .swap aspect inputs outputs =>
      if state.swapping aspect = none ∧ inputs ⊆ state.rows ∧
          (∀ name ∈ inputs, owner name = aspect) ∧ ∀ name ∈ outputs, name ∉ state.written then
        some { state with
          rows := outputs ++ state.rows.filter (· ∉ inputs)
          journal := inputs ++ state.journal
          swapping := Function.update state.swapping aspect (some inputs)
          written := outputs ++ state.written }
      else none
  | .handOver aspect =>
      (state.swapping aspect).map fun names =>
        { state with
          epochs := state.epochs.retire names
          swapping := Function.update state.swapping aspect none }
  | .abandon aspect => some { state with swapping := Function.update state.swapping aspect none }
  | .sweep name =>
      if name ∈ state.journal ∧ state.swapping (owner name) = none ∧
          state.epochs.reclaimable name ∧ name ∉ state.rows then
        some { state with passed := name :: state.passed }
      else none
  | .unlink name =>
      if name ∈ state.passed then some { state with unlinked := name :: state.unlinked } else none
  | .clear names =>
      if ∀ name ∈ names, name ∈ state.unlinked ∨ name ∈ state.rows then
        some { state with
          epochs := state.epochs.forget names
          journal := state.journal.filter (· ∉ names) }
      else none
  | .reopen swept cleared =>
      if swept ⊆ state.journal ∧ cleared ⊆ swept then
        let free := swept.filter (· ∉ state.rows)
        some { state with
          epochs := .default
          reads := []
          holds := []
          -- A frame whose unlink fails stays journaled, and so does all of a newer layout's.
          journal := state.journal.filter (· ∉ cleared)
          swapping := fun _ => none
          passed := free ++ state.passed
          unlinked := free ++ state.unlinked }
      else none

/-- The entry of an epoch under which so many reads run. -/
def pinned : Nat → Option Nat
  | 0 => none
  | count + 1 => some (count + 1)

/-- The pins count the running reads of each epoch. -/
def Counts (epochs : ReclaimEpochs) (reads : List Read) : Prop :=
  ∀ epoch, epochs.pins.find? epoch = pinned (reads.countP fun read => read.epoch = epoch)

variable {name : String}

namespace Counts

variable {epochs : ReclaimEpochs} {reads : List Read} {read : Read}

section

variable (counts : Counts epochs reads)

include counts

theorem find?_of_mem (running : read ∈ reads) :
    ∃ count, epochs.pins.find? read.epoch = some count := by
  rw [counts]
  have positive : 0 < reads.countP fun other => other.epoch = read.epoch :=
    List.countP_pos_iff.mpr ⟨read, running, decide_eq_true rfl⟩
  obtain ⟨count, same⟩ := Nat.exists_eq_succ_of_ne_zero positive.ne'
  exact ⟨count + 1, same ▸ rfl⟩

theorem exists_read {epoch count : Nat} (found : epochs.pins.find? epoch = some count) :
    ∃ read ∈ reads, read.epoch = epoch := by
  rw [counts] at found
  by_contra none
  have zero : reads.countP (fun read => read.epoch = epoch) = 0 := by
    refine List.countP_eq_zero.mpr fun read running => ?_
    simpa using fun same => none ⟨read, running, same⟩
  rw [zero] at found
  cases found

theorem reclaimable_iff :
    epochs.reclaimable name ↔ epochs.gcHold = 0 ∧
      ∀ retired, epochs.retired name = some retired → ∀ read ∈ reads, retired < read.epoch := by
  rw [ReclaimEpochs.reclaimable, ReclaimEpochs.held]
  by_cases free : epochs.gcHold = 0
  · simp only [free, gt_iff_lt, lt_irrefl, decide_false, Bool.false_eq_true, if_false, true_and,
      Option.all_eq_true, decide_eq_true_eq]
    constructor
    · intro above retired found read running
      obtain ⟨_, counted⟩ := counts.find?_of_mem running
      obtain ⟨first, head, below⟩ := SortedMap.head_le_of_find? counted
      exact (above retired found first head).trans_le below
    · intro above retired found oldest head
      obtain ⟨_, counted⟩ := SortedMap.find?_of_head head
      obtain ⟨read, running, rfl⟩ := counts.exists_read counted
      exact above retired found read running
  · simp [free, Nat.pos_of_ne_zero free]

theorem pin (view : List String) : Counts epochs.pin.1 (⟨epochs.current, view⟩ :: reads) := by
  intro epoch
  rw [ReclaimEpochs.pin, SortedMap.find?_insert, List.countP_cons, counts, counts]
  by_cases same : epochs.current = epoch
  · subst same
    simp only [if_true, decide_true]
    cases reads.countP fun read => read.epoch = epochs.current <;> rfl
  · simp [same]

end

theorem countP_of_mem (running : read ∈ reads) (epoch : Nat) :
    reads.countP (fun other => other.epoch = epoch) =
      (reads.erase read).countP (fun other => other.epoch = epoch) +
        if read.epoch = epoch then 1 else 0 := by
  rw [(List.perm_cons_erase running).countP_eq, List.countP_cons]
  simp only [decide_eq_true_eq]

theorem unpin (counts : Counts epochs reads) (running : read ∈ reads) :
    Counts (epochs.unpin read.epoch) (reads.erase read) := by
  have own := counts read.epoch
  rw [countP_of_mem running, if_pos rfl, pinned] at own
  intro epoch
  have found := counts epoch
  rw [countP_of_mem running] at found
  rw [ReclaimEpochs.unpin, own]
  by_cases same : read.epoch = epoch
  · subst same
    dsimp only
    split
    · rename_i last
      rw [SortedMap.find?_erase, if_pos rfl]
      rw [Nat.add_sub_cancel] at last
      rw [last]
      rfl
    · rename_i more
      rw [SortedMap.find?_insert, if_pos rfl]
      rw [Nat.add_sub_cancel] at more ⊢
      obtain ⟨count, next⟩ := Nat.exists_eq_succ_of_ne_zero more
      rw [next]
      rfl
  · rw [if_neg same] at found
    dsimp only
    split
    · rw [SortedMap.find?_erase, if_neg same, found]
      rfl
    · rw [SortedMap.find?_insert, if_neg same, found]
      rfl

theorem renew (counts : Counts epochs reads) (running : read ∈ reads) (view : List String) :
    Counts epochs ({ read with view := view } :: reads.erase read) := by
  intro epoch
  rw [counts, countP_of_mem running, List.countP_cons]
  simp only [decide_eq_true_eq]

end Counts

variable {owner : String → String} {state next : State} {action : Action}

theorem taken_of_guard {guard : Prop} [Decidable guard] {after : State}
    (taken : (if guard then some after else none) = some next) : guard ∧ after = next :=
  (Option.ite_none_right_eq_some.mp taken).imp_right Option.some.inj

/-- What keeps the frames which running reads may open. -/
structure Protected (owner : String → String) (state : State) : Prop where
  counts : Counts state.epochs state.reads
  holding : state.epochs.gcHold = state.holds.length
  recent : ∀ read ∈ state.reads, read.epoch ≤ state.epochs.current
  known : ∀ name, name ∈ state.rows ∨ name ∈ state.journal ∨ name ∈ state.passed →
    name ∈ state.written
  live : ∀ name ∈ state.rows, name ∉ state.journal ∧ name ∉ state.passed
  committed : ∀ {aspect names}, state.swapping aspect = some names →
    ∀ name ∈ names, owner name = aspect ∧ name ∉ state.passed
  seen : ∀ read ∈ state.reads, ∀ name ∈ read.view, name ∈ state.written ∧
    (name ∈ state.rows ∨ (∃ names, state.swapping (owner name) = some names ∧ name ∈ names) ∨
      name ∉ state.passed ∧
        ∃ retired, state.epochs.retired name = some retired ∧ read.epoch ≤ retired)
  linked : ∀ view ∈ state.holds, ∀ name ∈ view, name ∈ state.written ∧ name ∉ state.passed
  gone : ∀ name ∈ state.unlinked, name ∈ state.passed

namespace Protected

theorem not_passed (kept : Protected owner state) {read : Read} (running : read ∈ state.reads)
    (found : name ∈ read.view) : name ∉ state.passed := by
  obtain ⟨-, live | ⟨_, committed, member⟩ | ⟨free, -⟩⟩ := kept.seen read running name found
  · exact (kept.live name live).2
  · exact (kept.committed committed name member).2
  · exact free

variable {names : List String} {aspect : String}

variable (kept : Protected owner state)

include kept

theorem land (fresh : ∀ name ∈ names, name ∉ state.written) :
    Protected owner { state with rows := names ++ state.rows, written := names ++ state.written } :=
  { kept with
    known := by
      rintro name (live | other)
      · exact List.mem_append.mpr ((List.mem_append.mp live).imp_right fun old =>
          kept.known name (.inl old))
      · exact List.mem_append_right _ (kept.known name (.inr other))
    live := by
      intro name live
      rcases List.mem_append.mp live with new | old
      · exact ⟨fun other => fresh name new (kept.known name (.inr (.inl other))),
          fun other => fresh name new (kept.known name (.inr (.inr other)))⟩
      · exact kept.live name old
    seen := fun read running name found =>
      have ⟨written, place⟩ := kept.seen read running name found
      ⟨List.mem_append_right _ written, place.imp_left (List.mem_append_right _)⟩
    linked := fun view alive name found =>
      (kept.linked view alive name found).imp_left (List.mem_append_right _) }

theorem swap {inputs outputs : List String} (idle : state.swapping aspect = none)
    (listed : inputs ⊆ state.rows) (own : ∀ name ∈ inputs, owner name = aspect)
    (fresh : ∀ name ∈ outputs, name ∉ state.written) :
    Protected owner { state with
      rows := outputs ++ state.rows.filter (· ∉ inputs)
      journal := inputs ++ state.journal
      swapping := Function.update state.swapping aspect (some inputs)
      written := outputs ++ state.written } :=
  { kept with
    known := by
      rintro name (live | journaled | passed)
      · exact List.mem_append.mpr ((List.mem_append.mp live).imp_right fun old =>
          kept.known name (.inl (List.mem_of_mem_filter old)))
      · refine List.mem_append_right _ ?_
        rcases List.mem_append.mp journaled with new | old
        · exact kept.known name (.inl (listed new))
        · exact kept.known name (.inr (.inl old))
      · exact List.mem_append_right _ (kept.known name (.inr (.inr passed)))
    live := by
      intro name live
      rcases List.mem_append.mp live with new | old
      · refine ⟨fun journaled => fresh name new ?_,
          fun passed => fresh name new (kept.known name (.inr (.inr passed)))⟩
        rcases List.mem_append.mp journaled with input | other
        · exact kept.known name (.inl (listed input))
        · exact kept.known name (.inr (.inl other))
      · obtain ⟨stays, apart⟩ := List.mem_filter.mp old
        have ⟨unjournaled, free⟩ := kept.live name stays
        have outside : name ∉ inputs := by simpa using apart
        exact ⟨fun journaled => (List.mem_append.mp journaled).elim outside unjournaled, free⟩
    committed := by
      intro other names found name member
      simp only [Function.update_apply] at found
      split at found
      · rename_i same
        cases found
        exact ⟨same ▸ own name member, (kept.live name (listed member)).2⟩
      · exact kept.committed found name member
    seen := by
      intro read running name found
      obtain ⟨written, place⟩ := kept.seen read running name found
      refine ⟨List.mem_append_right _ written, ?_⟩
      by_cases input : name ∈ inputs
      · refine .inr (.inl ⟨inputs, ?_, input⟩)
        rw [own name input]
        exact Function.update_self _ _ _
      · rcases place with live | ⟨names, committed, member⟩ | guarded
        · exact .inl (List.mem_append_right _
            (List.mem_filter.mpr ⟨live, by simpa using input⟩))
        · refine .inr (.inl ⟨names, ?_, member⟩)
          refine (Function.update_of_ne (fun same => ?_) _ _).trans committed
          rw [same, idle] at committed
          cases committed
        · exact .inr (.inr guarded)
    linked := fun view alive name found =>
      (kept.linked view alive name found).imp_left (List.mem_append_right _) }

theorem handOver (swapped : state.swapping aspect = some names) :
    Protected owner { state with
      epochs := state.epochs.retire names
      swapping := Function.update state.swapping aspect none } :=
  { kept with
    recent := fun read running => (kept.recent read running).trans (Nat.le_succ _)
    committed := by
      intro other inputs found
      simp only [Function.update_apply] at found
      split at found
      · cases found
      · exact kept.committed found
    seen := by
      intro read running name found
      obtain ⟨written, place⟩ := kept.seen read running name found
      refine ⟨written, ?_⟩
      by_cases own : name ∈ names
      · exact .inr (.inr ⟨(kept.committed swapped name own).2, state.epochs.current, if_pos own,
          kept.recent read running⟩)
      · rcases place with live | ⟨inputs, committed, member⟩ | ⟨free, retired, known, below⟩
        · exact .inl live
        · refine .inr (.inl ⟨inputs, ?_, member⟩)
          refine (Function.update_of_ne (fun same => ?_) _ _).trans committed
          rw [same, swapped] at committed
          cases committed
          exact own member
        · exact .inr (.inr ⟨free, retired, (if_neg own).trans known, below⟩) }

theorem sweep (journaled : name ∈ state.journal) (idle : state.swapping (owner name) = none)
    (free : state.epochs.reclaimable name) (unlisted : name ∉ state.rows) :
    Protected owner { state with passed := name :: state.passed } :=
  { kept with
    known := by
      rintro other (live | journaled | passed)
      · exact kept.known other (.inl live)
      · exact kept.known other (.inr (.inl journaled))
      · rcases List.mem_cons.mp passed with rfl | passed
        · exact kept.known other (.inr (.inl journaled))
        · exact kept.known other (.inr (.inr passed))
    live := fun other live =>
      ⟨(kept.live other live).1, fun passed => (List.mem_cons.mp passed).elim
        (fun same => unlisted (same ▸ live)) (kept.live other live).2⟩
    committed := by
      intro aspect names found other member
      obtain ⟨own, unpassed⟩ := kept.committed found other member
      refine ⟨own, fun passed => (List.mem_cons.mp passed).elim ?_ unpassed⟩
      rintro rfl
      rw [own, found] at idle
      cases idle
    seen := by
      intro read running other found
      obtain ⟨written, place⟩ := kept.seen read running other found
      refine ⟨written, place.imp_right (Or.imp_right ?_)⟩
      rintro ⟨unpassed, retired, known, below⟩
      refine ⟨fun passed => (List.mem_cons.mp passed).elim ?_ unpassed, retired, known, below⟩
      rintro rfl
      exact absurd ((kept.counts.reclaimable_iff.mp free).2 retired known read running)
        (not_lt.mpr below)
    linked := by
      have none := kept.holding.symm.trans (kept.counts.reclaimable_iff.mp free).1
      rw [List.length_eq_zero_iff.mp none]
      exact List.forall_mem_nil _
    gone := fun other unlinked => List.mem_cons_of_mem _ (kept.gone other unlinked) }

theorem clear (done : ∀ name ∈ names, name ∈ state.unlinked ∨ name ∈ state.rows) :
    Protected owner { state with
      epochs := state.epochs.forget names
      journal := state.journal.filter (· ∉ names) } :=
  { kept with
    known := fun name known => kept.known name
      (known.imp_right (Or.imp_left List.mem_of_mem_filter))
    live := fun name live => ⟨fun journaled =>
      (kept.live name live).1 (List.mem_of_mem_filter journaled), (kept.live name live).2⟩
    seen := by
      intro read running name found
      obtain ⟨written, live | committed | ⟨free, retired, known, below⟩⟩ :=
        kept.seen read running name found
      · exact ⟨written, .inl live⟩
      · exact ⟨written, .inr (.inl committed)⟩
      · by_cases own : name ∈ names
        · exact ⟨written, .inl ((done name own).resolve_left fun unlinked =>
            free (kept.gone name unlinked))⟩
        · exact ⟨written, .inr (.inr ⟨free, retired, (if_neg own).trans known, below⟩)⟩ }

theorem reopen {swept cleared : List String} (journaled : swept ⊆ state.journal) :
    Protected owner { state with
      epochs := .default
      reads := []
      holds := []
      journal := state.journal.filter (· ∉ cleared)
      swapping := fun _ => none
      passed := swept.filter (· ∉ state.rows) ++ state.passed
      unlinked := swept.filter (· ∉ state.rows) ++ state.unlinked } where
  counts _ := rfl
  holding := rfl
  recent _ running := absurd running List.not_mem_nil
  known := by
    rintro name (live | left | passed)
    · exact kept.known name (.inl live)
    · exact kept.known name (.inr (.inl (List.mem_of_mem_filter left)))
    · exact (List.mem_append.mp passed).elim
        (fun free => kept.known name (.inr (.inl (journaled (List.mem_of_mem_filter free)))))
        fun old => kept.known name (.inr (.inr old))
  live name live := by
    obtain ⟨unjournaled, unpassed⟩ := kept.live name live
    exact ⟨fun left => unjournaled (List.mem_of_mem_filter left), fun passed =>
      (List.mem_append.mp passed).elim
        (fun free => unjournaled (journaled (List.mem_of_mem_filter free))) unpassed⟩
  committed found := nomatch found
  seen _ running := absurd running List.not_mem_nil
  linked _ alive := absurd alive List.not_mem_nil
  gone name unlinked := List.mem_append.mpr ((List.mem_append.mp unlinked).imp_right
    (kept.gone name))

theorem of_step (handed : ∀ aspect, action ≠ .abandon aspect)
    (taken : step owner state action = some next) : Protected owner next := by
  cases action with
  | land names =>
      obtain ⟨fresh, rfl⟩ := taken_of_guard taken
      exact kept.land fresh
  | pin =>
      cases taken
      refine { kept with
        counts := kept.counts.pin []
        recent := List.forall_mem_cons.mpr ⟨le_rfl, kept.recent⟩
        seen := List.forall_mem_cons.mpr ⟨List.forall_mem_nil _, kept.seen⟩ }
  | prune read names =>
      obtain ⟨⟨running, listed⟩, rfl⟩ := taken_of_guard taken
      refine { kept with
        counts := kept.counts.renew running _
        recent := List.forall_mem_cons.mpr ⟨kept.recent read running,
          fun other later => kept.recent other (List.mem_of_mem_erase later)⟩
        seen := List.forall_mem_cons.mpr ⟨fun name found => ?_,
          fun other later => kept.seen other (List.mem_of_mem_erase later)⟩ }
      rcases List.mem_append.mp found with new | old
      · exact ⟨kept.known name (.inl (listed new)), .inl (listed new)⟩
      · exact kept.seen read running name old
  | finish read =>
      obtain ⟨running, rfl⟩ := taken_of_guard taken
      obtain ⟨current, retired, gcHold⟩ := state.epochs.unpin_same read.epoch
      exact { kept with
        counts := kept.counts.unpin running
        holding := gcHold.trans kept.holding
        recent := fun other later => current ▸ kept.recent other (List.mem_of_mem_erase later)
        seen := fun other later => retired ▸ kept.seen other (List.mem_of_mem_erase later) }
  | hold =>
      cases taken
      exact { kept with
        holding := congrArg (· + 1) kept.holding
        linked := List.forall_mem_cons.mpr ⟨List.forall_mem_nil _, kept.linked⟩ }
  | snapshot view names =>
      obtain ⟨⟨alive, listed⟩, rfl⟩ := taken_of_guard taken
      refine { kept with
        holding := kept.holding.trans (List.perm_cons_erase alive).length_eq
        linked := List.forall_mem_cons.mpr ⟨fun name found => ?_,
          fun other later => kept.linked other (List.mem_of_mem_erase later)⟩ }
      rcases List.mem_append.mp found with new | old
      · exact ⟨kept.known name (.inl (listed new)), (kept.live name (listed new)).2⟩
      · exact kept.linked view alive name old
  | release view =>
      obtain ⟨alive, rfl⟩ := taken_of_guard taken
      exact { kept with
        holding := (congrArg (· - 1) kept.holding).trans (List.length_erase_of_mem alive).symm
        linked := fun other later => kept.linked other (List.mem_of_mem_erase later) }
  | swap aspect inputs outputs =>
      obtain ⟨⟨idle, listed, own, fresh⟩, rfl⟩ := taken_of_guard taken
      exact kept.swap idle listed own fresh
  | handOver aspect =>
      obtain ⟨names, swapped, rfl⟩ := Option.map_eq_some_iff.mp taken
      exact kept.handOver swapped
  | abandon aspect => exact absurd rfl (handed aspect)
  | sweep name =>
      obtain ⟨⟨journaled, idle, free, unlisted⟩, rfl⟩ := taken_of_guard taken
      exact kept.sweep journaled idle free unlisted
  | unlink name =>
      obtain ⟨passed, rfl⟩ := taken_of_guard taken
      exact { kept with gone := List.forall_mem_cons.mpr ⟨passed, kept.gone⟩ }
  | clear names =>
      obtain ⟨done, rfl⟩ := taken_of_guard taken
      exact kept.clear done
  | reopen swept cleared =>
      obtain ⟨⟨journaled, -⟩, rfl⟩ := taken_of_guard taken
      exact kept.reopen journaled

end Protected

theorem protected_opened (owner : String → String) (rows : List String) :
    Protected owner (opened rows) where
  counts _ := rfl
  holding := rfl
  recent _ running := absurd running List.not_mem_nil
  known _ known := known.elim id fun other => other.elim
    (fun absent => absurd absent List.not_mem_nil) fun absent => absurd absent List.not_mem_nil
  live _ _ := ⟨List.not_mem_nil, List.not_mem_nil⟩
  committed found := nomatch found
  seen _ running := absurd running List.not_mem_nil
  linked _ alive := absurd alive List.not_mem_nil
  gone _ absent := absurd absent List.not_mem_nil

/-- While every committed swap comes to hand its inputs over, no frame is unlinked which a running
read found in the index or the snapshot of a running backup references, and the reaper may take
exactly the retired frames which no backup holds and no read of their epoch or an earlier one may
open.  No row references a frame which is journaled as retired. -/
theorem read_frames_stay {rows : List String} {actions : List Action}
    (execution : Execution.run (step owner) (opened rows) actions = some state)
    (handed : Execution.Meets (step owner) (fun _ action => ∀ aspect, action ≠ .abandon aspect)
      (opened rows) actions) :
    (∀ read ∈ state.reads, ∀ name ∈ read.view, name ∈ state.written ∧ name ∉ state.unlinked) ∧
    (∀ view ∈ state.holds, ∀ name ∈ view, name ∈ state.written ∧ name ∉ state.unlinked) ∧
    (∀ name, state.epochs.reclaimable name ↔ state.holds = [] ∧
      ∀ retired, state.epochs.retired name = some retired →
        ∀ read ∈ state.reads, retired < read.epoch) ∧
    ∀ name ∈ state.journal, name ∉ state.rows := by
  have kept : Protected owner state :=
    Execution.invariant_of_run (Protected owner) Protected.of_step (protected_opened owner rows)
      handed execution
  refine ⟨fun read running name found => ⟨(kept.seen read running name found).1, ?_⟩,
    fun view alive name found => ⟨(kept.linked view alive name found).1, ?_⟩,
    fun name => ?_, fun name journaled live => (kept.live name live).1 journaled⟩
  · exact fun unlinked => kept.not_passed running found (kept.gone name unlinked)
  · exact fun unlinked => (kept.linked view alive name found).2 (kept.gone name unlinked)
  · rw [kept.counts.reclaimable_iff, kept.holding, List.length_eq_zero_iff]

/-- A read keeps its frame while a swap replaces it and the reaper takes another one. -/
theorem read_frames_stay_swapped :
    ∃ state, Execution.run (step fun _ => "a") (opened ["f", "g"])
      [.swap "a" ["f"] ["h"], .handOver "a", .pin, .prune ⟨1, []⟩ ["g"], .swap "a" ["g"] [],
        .handOver "a", .sweep "f", .unlink "f"] = some state ∧
      ⟨1, ["g"]⟩ ∈ state.reads ∧ "g" ∉ state.unlinked := by
  refine ⟨_, rfl, List.mem_singleton_self _, ?_⟩
  exact ((@read_frames_stay (fun _ => "a") _ ["f", "g"]
    [.swap "a" ["f"] ["h"], .handOver "a", .pin, .prune ⟨1, []⟩ ["g"], .swap "a" ["g"] [],
      .handOver "a", .sweep "f", .unlink "f"] rfl (Execution.meets_of_forall (by simp) _)).1
    ⟨1, ["g"]⟩ (List.mem_singleton_self _) "g" (List.mem_singleton_self _)).2

end Reclaim

end WeftDb
