import WeftDb.Durable.DirSync

/-!
# Coalesced directory fsyncs are sound

`Coherent` ties the two generation counters to the fsyncs which ran: a flight covers only calls
which registered before it was begun, and the completed generation is only raised past calls for
which such a flight succeeded.  It also ties the in-flight slot to the one flight which occupies
it, and every sleeping call to a flight which has still to notify it.
-/

namespace WeftDb

open Function

variable {phase : CallPhase} {own : Flight}

namespace DirSync

/-- Whether an fsync which began after the call registered has completed successfully. -/
def Syncer.Covers (syncer : Syncer) (call : Call) : Prop :=
  ∃ fsync ∈ syncer.fsyncs, call.registered < fsync.began

/-- Whether the call has not been refused. -/
def Call.Standing (call : Call) : Prop :=
  ∀ error, call.phase ≠ .returned (.error error)

/-- Whether the flight may still sync the directory. -/
def FlightPhase.coming : FlightPhase → Bool
  | .claimed => true
  | .spawned => true
  | .syncing _ => true
  | _ => false

/-- What holds of a flight which occupies the in-flight slot. -/
structure Flight.Airborne (syncer : Syncer) (flight : Flight) : Prop where
  covers_le : flight.covers ≤ syncer.requested
  claimed_lt : flight.claimed < syncer.now
  /-- The calls covered registered before the flight was begun. -/
  after : ∀ id call, syncer.calls id = some call → call.Standing →
    call.generation ≤ flight.covers → call.registered < flight.claimed
  began : ∀ moment, flight.phase = .syncing moment → flight.claimed ≤ moment
  succeeded : flight.phase = .ended (some (.ok ())) →
    ∃ fsync ∈ syncer.fsyncs, flight.claimed ≤ fsync.began
  failing : ∀ outcome, flight.phase = .ended outcome → outcome ≠ some (.ok ()) →
    syncer.failed = true

/-- What holds of a call. -/
structure Call.Sound (syncer : Syncer) (call : Call) : Prop where
  registered_lt : call.registered < syncer.now
  generation_le : call.Standing → call.generation ≤ syncer.requested
  covered : call.Standing → call.generation ≤ syncer.completed → syncer.Covers call
  returned : call.phase = .returned (.ok ()) → syncer.Covers call
  /-- A call which sleeps has a flight which will notify it. -/
  sleeping : call.phase = .waiting false → ∃ id flight, syncer.flights id = some flight

/-- The invariant of the syncer. -/
structure Coherent (syncer : Syncer) : Prop where
  newCall : ∀ id, syncer.nextCall ≤ id → syncer.calls id = none
  newFlight : ∀ id, syncer.nextFlight ≤ id → syncer.flights id = none
  completed_le : syncer.completed ≤ syncer.requested
  calls : ∀ id call, syncer.calls id = some call → call.Sound syncer
  flights : ∀ id flight, syncer.flights id = some flight → flight.phase.occupies = true →
    flight.Airborne syncer
  single : ∀ {id other flight rival}, syncer.flights id = some flight →
    syncer.flights other = some rival → flight.phase.occupies = true →
    rival.phase.occupies = true → id = other
  slot : syncer.inFlight = true ↔
    ∃ id flight, syncer.flights id = some flight ∧ flight.phase.occupies = true
  poisoned : syncer.poisoned.isSome → syncer.failed = true ∧ syncer.inFlight = false
  /-- After a failure no flight is to come, and the failure is published or about to be. -/
  failed : syncer.failed = true →
    (∀ id flight, syncer.flights id = some flight → flight.phase.coming = false) ∧
      (syncer.poisoned.isSome ∨
        ∃ id flight outcome, syncer.flights id = some flight ∧ flight.phase = .ended outcome ∧
          outcome ≠ some (.ok ()))

/-- A flight which is not spawned yet is held by the one call which began it. -/
structure Handed (syncer : Syncer) : Prop where
  holding : ∀ id call flight woken, syncer.calls id = some call →
    call.phase = .holding flight woken →
    ∃ held, syncer.flights flight = some held ∧ held.phase = .claimed
  held : ∀ id flight, syncer.flights id = some flight → flight.phase = .claimed →
    ∃ caller call woken, syncer.calls caller = some call ∧ call.phase = .holding id woken
  sole : ∀ {id rival call other flight woken again}, syncer.calls id = some call →
    syncer.calls rival = some other → call.phase = .holding flight woken →
    other.phase = .holding flight again → id = rival

theorem coherent_fresh (dir : String) : Coherent (fresh dir) where
  newCall := fun _ _ => rfl
  newFlight := fun _ _ => rfl
  completed_le := Nat.le_refl _
  calls := by
    intro id call found
    cases found
  flights := by
    intro id flight found
    cases found
  single := by
    intro id other flight rival found
    cases found
  slot := by
    constructor
    · intro busy
      cases busy
    · rintro ⟨id, flight, found, -⟩
      cases found
  poisoned := by
    intro poisoned
    cases poisoned
  failed := by
    intro failed
    cases failed

variable {syncer next : Syncer} {id : CallId} {flight : FlightId}

/-- The state a moment later. -/
def Syncer.tick (syncer : Syncer) (moment : Nat) : Syncer :=
  { syncer with now := moment + 1 }

section

variable (coherent : Coherent syncer)

include coherent

theorem Coherent.tick : Coherent (syncer.tick syncer.now) where
  newCall := coherent.newCall
  newFlight := coherent.newFlight
  completed_le := coherent.completed_le
  calls := by
    intro id call found
    have old := coherent.calls id call found
    exact { old with registered_lt := Nat.lt_succ_of_lt old.registered_lt }
  flights := by
    intro id flight found occupies
    have old := coherent.flights id flight found occupies
    exact { old with claimed_lt := Nat.lt_succ_of_lt old.claimed_lt }
  single := coherent.single
  slot := coherent.slot
  poisoned := coherent.poisoned
  failed := coherent.failed

theorem Coherent.setCall {call : Call} (found : syncer.calls id = some call)
    (standing : call.Standing) (covered : phase = .returned (.ok ()) → syncer.Covers call)
    (sleeping : phase = .waiting false → ∃ id flight, syncer.flights id = some flight) :
    Coherent (syncer.setCall id call phase) where
  newCall := by
    intro other bound
    have different : other ≠ id := by
      rintro rfl
      rw [coherent.newCall other bound] at found
      cases found
    exact (update_of_ne different _ _).trans (coherent.newCall other bound)
  newFlight := coherent.newFlight
  completed_le := coherent.completed_le
  calls := by
    intro other moved lookup
    simp only [Syncer.setCall, update_apply] at lookup
    split at lookup
    · cases lookup
      have old := coherent.calls id call found
      exact
        { registered_lt := old.registered_lt
          generation_le := fun _ => old.generation_le standing
          covered := fun _ => old.covered standing
          returned := covered
          sleeping := sleeping }
    · exact { coherent.calls other moved lookup with }
  flights := by
    intro own flight lookup occupies
    have old := coherent.flights own flight lookup occupies
    refine { old with after := ?_ }
    intro other moved moved_found moved_standing
    simp only [Syncer.setCall, update_apply] at moved_found
    split at moved_found
    · cases moved_found
      exact old.after id call found standing
    · exact old.after other moved moved_found moved_standing
  single := coherent.single
  slot := coherent.slot
  poisoned := coherent.poisoned
  failed := coherent.failed

/-- A new call joins with a generation which no flight begun before it covers. -/
theorem Coherent.join {call : Call} {requested : Nat} (registered : call.registered = syncer.now)
    (arrived : call.phase = .ready ∨ ∃ error, call.phase = .returned (.error error))
    (raised : syncer.requested ≤ requested) (beyond : syncer.requested < call.generation)
    (within : call.Standing → call.generation ≤ requested) :
    Coherent
      (Syncer.tick
        { syncer with
          requested
          calls := update syncer.calls syncer.nextCall (some call)
          nextCall := syncer.nextCall + 1 }
        syncer.now) where
  newCall := by
    intro other bound
    have different : other ≠ syncer.nextCall := by
      rintro rfl
      exact Nat.not_succ_le_self _ bound
    exact (update_of_ne different _ _).trans
      (coherent.newCall other (Nat.le_of_succ_le bound))
  newFlight := coherent.newFlight
  completed_le := Nat.le_trans coherent.completed_le raised
  calls := by
    intro other moved lookup
    simp only [Syncer.tick, update_apply] at lookup
    split at lookup
    · cases lookup
      exact
        { registered_lt := by
            rw [registered]
            exact Nat.lt_succ_self _
          generation_le := within
          covered := by
            intro _ covered
            exact absurd (Nat.le_trans covered coherent.completed_le) (Nat.not_le.mpr beyond)
          returned := by
            intro returned
            rcases arrived with ready | ⟨error, refused⟩
            · rw [ready] at returned
              cases returned
            · rw [refused] at returned
              cases returned
          sleeping := by
            intro sleeps
            rcases arrived with ready | ⟨error, refused⟩
            · rw [ready] at sleeps
              cases sleeps
            · rw [refused] at sleeps
              cases sleeps }
    · have old := coherent.calls other moved lookup
      exact
        { old with
          registered_lt := Nat.lt_succ_of_lt old.registered_lt
          generation_le := fun standing => Nat.le_trans (old.generation_le standing) raised }
  flights := by
    intro own flight lookup occupies
    have old := coherent.flights own flight lookup occupies
    refine
      { old with
        covers_le := Nat.le_trans old.covers_le raised
        claimed_lt := Nat.lt_succ_of_lt old.claimed_lt
        after := ?_ }
    intro other moved moved_found standing covered
    simp only [Syncer.tick, update_apply] at moved_found
    split at moved_found
    · cases moved_found
      exact absurd (Nat.le_trans covered old.covers_le) (Nat.not_le.mpr beyond)
    · exact old.after other moved moved_found standing covered
  single := coherent.single
  slot := coherent.slot
  poisoned := coherent.poisoned
  failed := coherent.failed

theorem Coherent.call : Coherent (syncer.call.tick syncer.now) := by
  unfold Syncer.call
  split
  · rename_i poison _
    refine coherent.join rfl (.inr ⟨_, rfl⟩) (Nat.le_refl _) (Nat.lt_succ_self _) ?_
    intro standing
    exact absurd rfl (standing (poison.toError syncer.dir))
  · exact coherent.join rfl (.inl rfl) (Nat.le_succ _) (Nat.lt_succ_self _)
      (fun _ => Nat.le_refl _)

theorem Coherent.listen (taken : syncer.listen id = some next) : Coherent next := by
  unfold Syncer.listen at taken
  split at taken
  · rename_i generation registered found
    cases taken
    refine coherent.setCall found ?_ ?_ ?_
    all_goals simp [Call.Standing]
  · cases taken

theorem Coherent.resume (taken : syncer.resume id = some next) : Coherent next := by
  unfold Syncer.resume at taken
  split at taken
  · rename_i generation registered found
    cases taken
    refine coherent.setCall found ?_ ?_ ?_
    all_goals simp [Call.Standing]
  · cases taken

theorem Coherent.cancel (taken : syncer.cancel id = some next) : Coherent next := by
  unfold Syncer.cancel at taken
  split at taken
  · rename_i generation woken registered found
    cases taken
    refine
      { coherent with
        newCall := ?_
        calls := ?_
        flights := ?_ }
    · intro other bound
      simp only [update_apply]
      split
      · rfl
      · exact coherent.newCall other bound
    · intro other moved lookup
      simp only [update_apply] at lookup
      split at lookup
      · cases lookup
      · exact { coherent.calls other moved lookup with }
    · intro own flight lookup occupies
      have old := coherent.flights own flight lookup occupies
      refine { old with after := ?_ }
      intro other moved moved_found
      simp only [update_apply] at moved_found
      split at moved_found
      · cases moved_found
      · exact old.after other moved moved_found
  · cases taken

/-- A call which finds the slot free begins a flight, which covers every call so far. -/
theorem Coherent.begin {generation registered : Nat} {woken : Bool}
    (found : syncer.calls id = some ⟨generation, .listening woken, registered⟩)
    (healthy : syncer.poisoned = none) (free : syncer.inFlight = false) :
    Coherent
      ((syncer.begin.setCall id ⟨generation, .listening woken, registered⟩
        (.holding syncer.nextFlight woken)).tick syncer.now) := by
  have empty : ∀ own flight, syncer.flights own = some flight →
      flight.phase.occupies = false := by
    intro own flight lookup
    by_contra occupies
    have busy := coherent.slot.mpr ⟨own, flight, lookup, by simpa using occupies⟩
    rw [free] at busy
    cases busy
  have standing : ∀ phase : CallPhase, phase = .listening woken ∨
      phase = .holding syncer.nextFlight woken →
      Call.Standing ⟨generation, phase, registered⟩ := by
    rintro phase (rfl | rfl) error same
    · cases same
    · cases same
  have caller := coherent.calls id _ found
  have healed : syncer.failed = false := by
    by_contra failed
    obtain ⟨-, poisoned | ⟨own, flight, outcome, lookup, ended, -⟩⟩ :=
      coherent.failed (by simpa using failed)
    · rw [healthy] at poisoned
      cases poisoned
    · have occupies := empty own flight lookup
      rw [ended] at occupies
      cases occupies
  refine
    { newCall := ?_
      newFlight := ?_
      completed_le := coherent.completed_le
      calls := ?_
      flights := ?_
      single := ?_
      slot := ?_
      poisoned := ?_
      failed := ?_ }
  · intro other bound
    have different : other ≠ id := by
      rintro rfl
      rw [coherent.newCall other bound] at found
      cases found
    exact (update_of_ne different _ _).trans (coherent.newCall other bound)
  · intro other bound
    have different : other ≠ syncer.nextFlight := by
      rintro rfl
      exact Nat.not_succ_le_self _ bound
    exact (update_of_ne different _ _).trans
      (coherent.newFlight other (Nat.le_of_succ_le bound))
  · intro other moved lookup
    simp only [Syncer.tick, Syncer.setCall, Syncer.begin, update_apply] at lookup
    split at lookup
    · cases lookup
      exact
        { registered_lt := Nat.lt_succ_of_lt caller.registered_lt
          generation_le := fun _ => caller.generation_le (standing _ (.inl rfl))
          covered := fun _ => caller.covered (standing _ (.inl rfl))
          returned := by
            intro returned
            cases returned
          sleeping := by
            intro sleeps
            cases sleeps }
    · have old := coherent.calls other moved lookup
      exact
        { old with
          registered_lt := Nat.lt_succ_of_lt old.registered_lt
          sleeping := fun _ => ⟨syncer.nextFlight, _, update_self _ _ _⟩ }
  · intro own flight lookup occupies
    simp only [Syncer.tick, Syncer.setCall, Syncer.begin, update_apply] at lookup
    split at lookup
    · cases lookup
      refine
        { covers_le := Nat.le_refl _
          claimed_lt := Nat.lt_succ_self _
          after := ?_
          began := ?_
          succeeded := ?_
          failing := ?_ }
      · intro other moved moved_found moved_standing _
        simp only [Syncer.tick, Syncer.setCall, Syncer.begin, update_apply] at moved_found
        split at moved_found
        · cases moved_found
          exact caller.registered_lt
        · exact (coherent.calls other moved moved_found).registered_lt
      · intro moment same
        cases same
      · intro same
        cases same
      · intro outcome same
        cases same
    · rw [empty own flight lookup] at occupies
      cases occupies
  · intro own other flight rival flight_found rival_found occupies rival_occupies
    simp only [Syncer.tick, Syncer.setCall, Syncer.begin, update_apply]
      at flight_found rival_found
    split at flight_found
    · rename_i own_eq
      split at rival_found
      · rename_i other_eq
        rw [own_eq, other_eq]
      · rw [empty other rival rival_found] at rival_occupies
        cases rival_occupies
    · rw [empty own flight flight_found] at occupies
      cases occupies
  · constructor
    · intro _
      exact ⟨syncer.nextFlight, _, update_self _ _ _, rfl⟩
    · intro _
      rfl
  · intro poisoned
    simp only [Syncer.tick, Syncer.setCall, Syncer.begin, healthy] at poisoned
    cases poisoned
  · intro failed
    simp only [Syncer.tick, Syncer.setCall, Syncer.begin, healed] at failed
    cases failed

theorem Coherent.inspect (taken : syncer.inspect id = some next) :
    Coherent (next.tick syncer.now) := by
  unfold Syncer.inspect at taken
  split at taken
  · rename_i generation woken registered found
    have standing : Call.Standing ⟨generation, .listening woken, registered⟩ := by
      intro error same
      cases same
    have caller := coherent.calls id _ found
    simp only at taken
    split at taken
    · rename_i reached
      cases taken
      refine Coherent.tick
        (coherent.setCall found standing (fun _ => caller.covered standing reached) ?_)
      simp
    · split at taken
      · cases taken
        refine Coherent.tick (coherent.setCall found standing ?_ ?_)
        all_goals simp
      · rename_i healthy
        split at taken
        · rename_i busy
          cases taken
          obtain ⟨own, flight, lookup, -⟩ := coherent.slot.mp busy
          refine Coherent.tick (coherent.setCall found standing ?_ (fun _ => ⟨own, flight, lookup⟩))
          simp
        · rename_i free
          cases taken
          exact coherent.begin found healthy (by simpa using free)
  · cases taken

/-- A flight may move on while it keeps the slot: to be on its way it must have been so, and to
end well its fsync must have succeeded. -/
theorem Coherent.setFlight (found : syncer.flights flight = some own)
    (coming : own.phase.coming = true) {phase : FlightPhase} {fsyncs : List DirFsync}
    {failed : Bool} (occupies : phase.occupies = true)
    (began : ∀ moment, phase = .syncing moment → own.claimed ≤ moment)
    (kept : ∀ fsync ∈ syncer.fsyncs, fsync ∈ fsyncs)
    (succeeded : phase = .ended (some (.ok ())) → ∃ fsync ∈ fsyncs, own.claimed ≤ fsync.began)
    (failing : ∀ outcome, phase = .ended outcome → outcome ≠ some (.ok ()) → failed = true)
    (fails : failed = true → ∃ outcome, phase = .ended outcome ∧ outcome ≠ some (.ok ())) :
    Coherent { syncer.setFlight flight own phase with fsyncs, failed } := by
  have occupied : own.phase.occupies = true := by
    cases same : own.phase with
    | published =>
        rw [same] at coming
        cases coming
    | _ => rfl
  have airborne := coherent.flights flight own found occupied
  have covers : ∀ call : Call, syncer.Covers call → ∃ fsync ∈ fsyncs,
      call.registered < fsync.began := by
    rintro call ⟨fsync, member, after⟩
    exact ⟨fsync, kept fsync member, after⟩
  refine
    { newCall := coherent.newCall
      newFlight := ?_
      completed_le := coherent.completed_le
      calls := ?_
      flights := ?_
      single := ?_
      slot := ?_
      poisoned := ?_
      failed := ?_ }
  · intro other bound
    have different : other ≠ flight := by
      rintro rfl
      rw [coherent.newFlight other bound] at found
      cases found
    exact (update_of_ne different _ _).trans (coherent.newFlight other bound)
  · intro id call lookup
    have old := coherent.calls id call lookup
    refine
      { registered_lt := old.registered_lt
        generation_le := old.generation_le
        covered := fun standing reached => covers call (old.covered standing reached)
        returned := fun returned => covers call (old.returned returned)
        sleeping := ?_ }
    intro sleeps
    obtain ⟨mine, held, held_found⟩ := old.sleeping sleeps
    by_cases same : mine = flight
    · exact ⟨flight, _, update_self _ _ _⟩
    · exact ⟨mine, held, (update_of_ne same _ _).trans held_found⟩
  · intro id moved lookup moved_occupies
    simp only [Syncer.setFlight, update_apply] at lookup
    split at lookup
    · cases lookup
      exact
        { covers_le := airborne.covers_le
          claimed_lt := airborne.claimed_lt
          after := airborne.after
          began := began
          succeeded := succeeded
          failing := failing }
    · rename_i different
      exact absurd (coherent.single lookup found moved_occupies occupied) different
  · intro id other moved rival moved_found rival_found moved_occupies rival_occupies
    simp only [Syncer.setFlight, update_apply] at moved_found rival_found
    split at moved_found
    · rename_i same
      subst same
      split at rival_found
      · rename_i same
        exact same.symm
      · exact coherent.single found rival_found occupied rival_occupies
    · split at rival_found
      · rename_i same
        subst same
        exact coherent.single moved_found found moved_occupies occupied
      · exact coherent.single moved_found rival_found moved_occupies rival_occupies
  · constructor
    · intro _
      exact ⟨flight, _, update_self _ _ _, occupies⟩
    · intro _
      exact coherent.slot.mpr ⟨flight, own, found, occupied⟩
  · intro poisoned
    have free := (coherent.poisoned poisoned).2
    rw [coherent.slot.mpr ⟨flight, own, found, occupied⟩] at free
    cases free
  · intro has_failed
    obtain ⟨outcome, ended, bad⟩ := fails has_failed
    refine ⟨?_, .inr ⟨flight, _, outcome, update_self _ _ _, ended, bad⟩⟩
    intro id moved lookup
    simp only [Syncer.setFlight, update_apply] at lookup
    split at lookup
    · cases lookup
      simp only [ended, FlightPhase.coming]
    · rename_i different
      by_contra moving
      refine different (coherent.single lookup found ?_ occupied)
      cases same : moved.phase with
      | published =>
          rw [same] at moving
          exact absurd rfl moving
      | _ => rfl

theorem Coherent.not_failed (found : syncer.flights flight = some own)
    (coming : own.phase.coming = true) : syncer.failed = false := by
  by_contra failed
  have stopped := (coherent.failed (by simpa using failed)).1 flight own found
  rw [coming] at stopped
  cases stopped

theorem Coherent.spawn (handed : Handed syncer) (taken : syncer.spawn id = some next) :
    Coherent next := by
  unfold Syncer.spawn at taken
  split at taken
  · rename_i generation flight woken registered found
    obtain ⟨held, held_found, rfl⟩ := Option.map_eq_some_iff.mp taken
    obtain ⟨_, same_found, claimed⟩ := handed.holding id _ flight woken found rfl
    rw [held_found] at same_found
    cases same_found
    have coming : held.phase.coming = true := by
      rw [claimed]
      rfl
    have healthy := coherent.not_failed held_found coming
    have spawned : Coherent (syncer.setFlight flight held .spawned) := by
      refine coherent.setFlight held_found coming rfl ?_ (fun _ kept => kept) ?_ ?_ ?_
      · intro moment same
        cases same
      · intro same
        cases same
      · intro outcome same
        cases same
      · intro failed
        rw [healthy] at failed
        cases failed
    have standing : Call.Standing ⟨generation, .holding flight woken, registered⟩ := by
      intro error same
      cases same
    refine spawned.setCall found standing ?_ ?_
    · intro same
      cases same
    · intro _
      exact ⟨flight, _, update_self _ _ _⟩
  · cases taken

theorem Coherent.startSync (taken : syncer.startSync flight = some next) : Coherent next := by
  unfold Syncer.startSync at taken
  split at taken
  · rename_i covers claimed found
    cases taken
    have healthy := coherent.not_failed found rfl
    have airborne := coherent.flights flight _ found rfl
    refine coherent.setFlight found rfl rfl ?_ (fun _ kept => kept) ?_ ?_ ?_
    · intro moment same
      cases same
      exact Nat.le_of_lt airborne.claimed_lt
    · intro same
      cases same
    · intro outcome same
      cases same
    · intro failed
      rw [healthy] at failed
      cases failed
  · cases taken

theorem Coherent.endSync {result : Except IoError Unit}
    (taken : syncer.endSync flight result = some next) : Coherent next := by
  unfold Syncer.endSync at taken
  split at taken
  · rename_i covers began claimed found
    cases taken
    have healthy := coherent.not_failed found rfl
    have airborne := coherent.flights flight _ found rfl
    cases result with
    | ok done =>
        refine coherent.setFlight found rfl rfl ?_ ?_ ?_ ?_ ?_
        · intro moment same
          cases same
        · intro fsync kept
          exact List.mem_append_left _ kept
        · intro _
          exact ⟨⟨began⟩, List.mem_append_right _ (List.mem_singleton_self _),
            airborne.began began rfl⟩
        · rintro outcome ⟨⟩ bad
          exact absurd rfl bad
        · intro failed
          rw [healthy] at failed
          cases failed
    | error error =>
        refine coherent.setFlight found rfl rfl ?_ (fun _ kept => kept) ?_ ?_ ?_
        · intro moment same
          cases same
        · intro same
          cases same
        · intro _ _ _
          rfl
        · intro _
          refine ⟨_, rfl, ?_⟩
          intro same
          cases same
  · cases taken

theorem Coherent.lose (taken : syncer.lose flight = some next) : Coherent next := by
  have lost : ∀ own, syncer.flights flight = some own → own.phase.coming = true →
      Coherent { syncer.setFlight flight own (.ended none) with failed := true } := by
    intro own found coming
    refine coherent.setFlight found coming rfl ?_ (fun _ kept => kept) ?_ ?_ ?_
    · intro moment same
      cases same
    · intro same
      cases same
    · intro _ _ _
      rfl
    · intro _
      refine ⟨_, rfl, ?_⟩
      intro same
      cases same
  unfold Syncer.lose at taken
  split at taken
  · rename_i found
    cases taken
    exact lost _ found rfl
  · rename_i found
    cases taken
    exact lost _ found rfl
  · cases taken

/-- Publishing releases the slot, which nothing else occupies. -/
theorem Coherent.release {outcome : Option (Except IoError Unit)}
    (found : syncer.flights flight = some own) (ended : own.phase = .ended outcome)
    {completed : Nat} {poisoned : Option Poison}
    (raised : completed = syncer.completed ∨
      outcome = some (.ok ()) ∧ completed = max syncer.completed own.covers)
    (fails : poisoned.isSome → syncer.failed = true)
    (stays : syncer.failed = true → poisoned.isSome) :
    Coherent
      { syncer.setFlight flight own .published with inFlight := false, completed, poisoned } := by
  have occupied : own.phase.occupies = true := by
    rw [ended]
    rfl
  have airborne := coherent.flights flight own found occupied
  have empty : ∀ id moved,
      (syncer.setFlight flight own .published).flights id = some moved →
        moved.phase.occupies = false := by
    intro id moved lookup
    simp only [Syncer.setFlight, update_apply] at lookup
    split at lookup
    · cases lookup
      rfl
    · rename_i different
      by_contra occupies
      exact different (coherent.single lookup found (by simpa using occupies) occupied)
  refine
    { newCall := coherent.newCall
      newFlight := ?_
      completed_le := ?_
      calls := ?_
      flights := ?_
      single := ?_
      slot := ?_
      poisoned := fun poisoned => ⟨fails poisoned, rfl⟩
      failed := ?_ }
  · intro other bound
    have different : other ≠ flight := by
      rintro rfl
      rw [coherent.newFlight other bound] at found
      cases found
    exact (update_of_ne different _ _).trans (coherent.newFlight other bound)
  · have kept := coherent.completed_le
    have covers := airborne.covers_le
    change completed ≤ syncer.requested
    rcases raised with rfl | ⟨-, rfl⟩ <;> omega
  · intro id call lookup
    have old := coherent.calls id call lookup
    refine
      { registered_lt := old.registered_lt
        generation_le := old.generation_le
        covered := ?_
        returned := old.returned
        sleeping := ?_ }
    · intro standing reached
      by_cases before : call.generation ≤ syncer.completed
      · exact old.covered standing before
      · rcases raised with rfl | ⟨rfl, rfl⟩
        · exact absurd reached before
        · -- The flight just published covers the call, so its fsync began after the call.
          have within : call.generation ≤ own.covers := by
            change call.generation ≤ max syncer.completed own.covers at reached
            omega
          obtain ⟨fsync, member, began⟩ := airborne.succeeded ended
          exact ⟨fsync, member,
            Nat.lt_of_lt_of_le (airborne.after id call lookup standing within) began⟩
    · intro sleeps
      obtain ⟨mine, held, held_found⟩ := old.sleeping sleeps
      by_cases same : mine = flight
      · exact ⟨flight, _, update_self _ _ _⟩
      · exact ⟨mine, held, (update_of_ne same _ _).trans held_found⟩
  · intro id moved lookup occupies
    rw [empty id moved lookup] at occupies
    cases occupies
  · intro id other moved rival lookup _ occupies
    rw [empty id moved lookup] at occupies
    cases occupies
  · constructor
    · intro busy
      cases busy
    · rintro ⟨id, moved, lookup, occupies⟩
      rw [empty id moved lookup] at occupies
      cases occupies
  · intro failed
    refine ⟨?_, .inl (stays failed)⟩
    intro id moved lookup
    have idle := empty id moved lookup
    cases same : moved.phase with
    | published => rfl
    | _ =>
        rw [same] at idle
        cases idle

theorem Coherent.publish (taken : syncer.publish flight = some next) : Coherent next := by
  unfold Syncer.publish at taken
  split at taken
  · rename_i covers outcome claimed found
    have sole : ∀ id moved other, syncer.flights id = some moved →
        moved.phase = .ended other → other = outcome := by
      intro id moved other lookup ended
      have same := coherent.single lookup found (by rw [ended]; rfl) rfl
      subst same
      rw [found] at lookup
      cases lookup
      cases ended
      rfl
    simp only at taken
    split at taken
    · rename_i succeeded
      cases taken
      have outcome_eq : outcome = some (.ok ()) := by
        cases outcome with
        | none => cases succeeded
        | some result =>
            cases succeeded
            rfl
      refine coherent.release found rfl (.inr ⟨outcome_eq, rfl⟩) ?_ ?_
      · intro poisoned
        exact (coherent.poisoned poisoned).1
      · intro failed
        obtain ⟨-, poisoned | ⟨id, moved, other, lookup, ended, bad⟩⟩ := coherent.failed failed
        · exact poisoned
        · rw [sole id moved other lookup ended] at bad
          exact absurd outcome_eq bad
    · rename_i error failure
      cases taken
      refine coherent.release found rfl (.inl rfl) ?_ ?_
      · intro _
        refine (coherent.flights flight _ found rfl).failing outcome rfl ?_
        rintro rfl
        cases failure
      · intro _
        rfl
  · cases taken

end

theorem Call.notified_phase {call : Call} (same : call.notified.phase = phase)
    (asleep : phase ≠ .listening true) (free : ∀ flight, phase ≠ .holding flight true)
    (awake : phase ≠ .waiting true) : call.phase = phase := by
  unfold Call.notified at same
  cases found : call.phase with
  | listening woken =>
      rw [found] at same
      exact absurd same.symm asleep
  | holding flight woken =>
      rw [found] at same
      exact absurd same.symm (free flight)
  | waiting woken =>
      rw [found] at same
      exact absurd same.symm awake
  | ready =>
      rw [found] at same
      exact same
  | returned result =>
      rw [found] at same
      exact same

theorem Call.notified_holding {call : Call} {own : FlightId} {woken : Bool}
    (holds : call.notified.phase = .holding own woken) :
    ∃ again, call.phase = .holding own again := by
  unfold Call.notified at holds
  cases found : call.phase with
  | holding flight again =>
      rw [found] at holds
      cases holds
      exact ⟨again, rfl⟩
  | _ =>
      rw [found] at holds
      cases holds

/-- A flight which is gone has woken every call. -/
theorem Coherent.notify (coherent : Coherent syncer)
    (taken : syncer.notify flight = some next) : Coherent next := by
  unfold Syncer.notify at taken
  split at taken
  · rename_i covers claimed found
    cases taken
    have kept : ∀ {id moved}, update syncer.flights flight none id = some moved →
        syncer.flights id = some moved := by
      intro id moved lookup
      rw [update_apply] at lookup
      split at lookup
      · cases lookup
      · exact lookup
    have occupying : ∀ {id moved}, syncer.flights id = some moved →
        moved.phase.occupies = true →
          update syncer.flights flight none id = some moved := by
      intro id moved lookup occupies
      have different : id ≠ flight := by
        rintro rfl
        rw [found] at lookup
        cases lookup
        cases occupies
      rw [update_of_ne different, lookup]
    have standing : ∀ call : Call, call.notified.Standing → call.Standing := by
      intro call notified error same
      refine notified error ?_
      rw [Call.notified, same]
    refine
      { newCall := ?_
        newFlight := ?_
        completed_le := coherent.completed_le
        calls := ?_
        flights := ?_
        single := ?_
        slot := ?_
        poisoned := coherent.poisoned
        failed := ?_ }
    · intro id bound
      exact Option.map_eq_none_iff.mpr (coherent.newCall id bound)
    · intro id bound
      simp only [update_apply]
      split
      · rfl
      · exact coherent.newFlight id bound
    · intro id call lookup
      obtain ⟨old, old_found, rfl⟩ := Option.map_eq_some_iff.mp lookup
      have sound := coherent.calls id old old_found
      refine
        { registered_lt := sound.registered_lt
          generation_le := fun stands => sound.generation_le (standing old stands)
          covered := fun stands => sound.covered (standing old stands)
          returned := ?_
          sleeping := ?_ }
      · intro returned
        refine sound.returned (Call.notified_phase returned ?_ ?_ ?_)
        all_goals simp
      · intro sleeps
        unfold Call.notified at sleeps
        cases same : old.phase with
        | waiting woken =>
            rw [same] at sleeps
            cases sleeps
        | _ =>
            rw [same] at sleeps
            cases sleeps
    · intro id moved lookup occupies
      have old := coherent.flights id moved (kept lookup) occupies
      refine { old with after := ?_ }
      intro caller call call_found stands covered
      obtain ⟨before, before_found, rfl⟩ := Option.map_eq_some_iff.mp call_found
      exact old.after caller before before_found (standing before stands) covered
    · intro id other moved rival moved_found rival_found
      exact coherent.single (kept moved_found) (kept rival_found)
    · refine coherent.slot.trans ⟨?_, ?_⟩
      · rintro ⟨id, moved, lookup, occupies⟩
        exact ⟨id, moved, occupying lookup occupies, occupies⟩
      · rintro ⟨id, moved, lookup, occupies⟩
        exact ⟨id, moved, kept lookup, occupies⟩
    · intro failed
      obtain ⟨stopped, visible⟩ := coherent.failed failed
      refine ⟨fun id moved lookup => stopped id moved (kept lookup), visible.imp_right ?_⟩
      rintro ⟨id, moved, outcome, lookup, ended, bad⟩
      exact ⟨id, moved, outcome, occupying lookup (by rw [ended]; rfl), ended, bad⟩
  · cases taken

end DirSync

end WeftDb
