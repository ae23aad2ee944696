import WeftDb.Durable.DirSyncSound

/-!
# Runs of the directory syncer

Every step keeps the syncer coherent, so what coherence says holds after every interleaving of
calls, cancellations and flights: an answered call is covered, one fsync runs at a time, a failure
stops every later fsync, and no call sleeps without a flight that will wake it.
-/

namespace WeftDb

namespace DirSync

open Function Option

variable {syncer next : Syncer} {id : CallId} {flight : FlightId}
variable {call : Call} {action : Action} {actions : List Action}

section

variable (handed : Handed syncer)

include handed

theorem Handed.setCalls {calls : CallId → Option Call} {requested nextCall : Nat}
    (kept : ∀ id call, calls id = some call → syncer.calls id = some call ∨
      ∀ flight woken, call.phase ≠ .holding flight woken)
    (stays : ∀ id call flight woken, syncer.calls id = some call →
      call.phase = .holding flight woken → calls id = some call) :
    Handed { syncer with calls, requested, nextCall } where
  holding := by
    intro caller moved own woken lookup holds
    rcases kept caller moved lookup with old | free
    · exact handed.holding caller moved own woken old holds
    · exact absurd holds (free own woken)
  held := by
    intro own held lookup claimed
    obtain ⟨caller, holder, woken, holder_found, holds⟩ := handed.held own held lookup claimed
    exact ⟨caller, holder, woken, stays caller holder own woken holder_found holds, holds⟩
  sole := by
    intro caller rival moved other own woken again lookup rival_lookup holds rival_holds
    rcases kept caller moved lookup with old | free
    · rcases kept rival other rival_lookup with rival_old | rival_free
      · exact handed.sole old rival_old holds rival_holds
      · exact absurd rival_holds (rival_free own again)
    · exact absurd holds (free own woken)

theorem Handed.setCall {phase : CallPhase} (found : syncer.calls id = some call)
    (empty : ∀ flight woken, call.phase ≠ .holding flight woken)
    (free : ∀ flight woken, phase ≠ .holding flight woken) :
    Handed (syncer.setCall id call phase) := by
  refine handed.setCalls (fun caller moved lookup => ?_) fun caller moved own woken old holds => ?_
  · rw [update_apply] at lookup
    split at lookup
    · cases lookup
      exact .inr free
    · exact .inl lookup
  · refine (update_of_ne ?_ _ _).trans old
    rintro rfl
    rw [found] at old
    cases old
    exact empty own woken holds

theorem Handed.setFlight {own : Flight} {phase : FlightPhase}
    (found : syncer.flights flight = some own) (spawned : own.phase ≠ .claimed)
    (moves : phase ≠ .claimed) : Handed (syncer.setFlight flight own phase) where
  holding := by
    intro caller call held woken lookup holds
    obtain ⟨mine, mine_found, claimed⟩ := handed.holding caller call held woken lookup holds
    have different : held ≠ flight := by
      rintro rfl
      rw [found] at mine_found
      cases mine_found
      exact spawned claimed
    exact ⟨mine, (update_of_ne different _ _).trans mine_found, claimed⟩
  held := by
    intro id moved lookup claimed
    simp only [Syncer.setFlight, update_apply] at lookup
    split at lookup
    · cases lookup
      exact absurd claimed moves
    · exact handed.held id moved lookup claimed
  sole := handed.sole

theorem Handed.begin (coherent : Coherent syncer) {generation registered : Nat} {woken : Bool}
    (found : syncer.calls id = some ⟨generation, .listening woken, registered⟩) :
    Handed
      (syncer.begin.setCall id ⟨generation, .listening woken, registered⟩
        (.holding syncer.nextFlight woken)) where
  holding := by
    intro caller call held again lookup holds
    simp only [Syncer.setCall, Syncer.begin, update_apply] at lookup
    split at lookup
    · cases lookup
      cases holds
      exact ⟨_, update_self _ _ _, rfl⟩
    · obtain ⟨mine, mine_found, claimed⟩ := handed.holding caller call held again lookup holds
      have different : held ≠ syncer.nextFlight := by
        rintro rfl
        rw [coherent.newFlight _ (Nat.le_refl _)] at mine_found
        cases mine_found
      exact ⟨mine, (update_of_ne different _ _).trans mine_found, claimed⟩
  held := by
    intro own held lookup claimed
    simp only [Syncer.setCall, Syncer.begin, update_apply] at lookup
    split at lookup
    · rename_i own_eq
      exact ⟨id, _, woken, update_self _ _ _, by rw [own_eq]⟩
    · obtain ⟨caller, holder, again, holder_found, holds⟩ := handed.held own held lookup claimed
      have different : caller ≠ id := by
        rintro rfl
        rw [found] at holder_found
        cases holder_found
        cases holds
      exact ⟨caller, holder, again, (update_of_ne different _ _).trans holder_found,
        holds⟩
  sole := by
    intro caller rival call other held again more lookup rival_lookup holds rival_holds
    have fresh : ∀ {someone own still}, syncer.calls someone = some own →
        own.phase ≠ .holding syncer.nextFlight still := by
      intro someone own still own_found holds
      obtain ⟨mine, mine_found, -⟩ := handed.holding someone own _ still own_found holds
      rw [coherent.newFlight _ (Nat.le_refl _)] at mine_found
      cases mine_found
    simp only [Syncer.setCall, Syncer.begin, update_apply] at lookup rival_lookup
    split at lookup
    · rename_i caller_eq
      split at rival_lookup
      · rename_i rival_eq
        rw [caller_eq, rival_eq]
      · cases lookup
        cases holds
        exact absurd rival_holds (fresh rival_lookup)
    · split at rival_lookup
      · cases rival_lookup
        cases rival_holds
        exact absurd holds (fresh lookup)
      · exact handed.sole lookup rival_lookup holds rival_holds

theorem Handed.spawn (taken : syncer.spawn id = some next) : Handed next := by
  unfold Syncer.spawn at taken
  split at taken
  · rename_i generation own woken registered found
    obtain ⟨held, held_found, rfl⟩ := map_eq_some_iff.mp taken
    refine
      { holding := ?_
        held := ?_
        sole := ?_ }
    · intro caller call other again lookup holds
      simp only [Syncer.setCall, Syncer.setFlight, update_apply] at lookup
      split at lookup
      · cases lookup
        cases holds
      · rename_i different
        obtain ⟨mine, mine_found, claimed⟩ := handed.holding caller call other again lookup holds
        have away : other ≠ own := by
          rintro rfl
          exact different (handed.sole lookup found holds rfl)
        exact ⟨mine, (update_of_ne away _ _).trans mine_found, claimed⟩
    · intro other moved lookup claimed
      simp only [Syncer.setCall, Syncer.setFlight, update_apply] at lookup
      split at lookup
      · cases lookup
        cases claimed
      · rename_i away
        obtain ⟨caller, holder, again, holder_found, holds⟩ :=
          handed.held other moved lookup claimed
        have different : caller ≠ id := by
          rintro rfl
          rw [found] at holder_found
          cases holder_found
          cases holds
          exact away rfl
        exact ⟨caller, holder, again, (update_of_ne different _ _).trans holder_found,
          holds⟩
    · intro caller rival call other mine again more lookup rival_lookup holds rival_holds
      simp only [Syncer.setCall, Syncer.setFlight, update_apply] at lookup rival_lookup
      split at lookup
      · cases lookup
        cases holds
      · split at rival_lookup
        · cases rival_lookup
          cases rival_holds
        · exact handed.sole lookup rival_lookup holds rival_holds
  · cases taken

theorem Handed.notify (taken : syncer.notify flight = some next) : Handed next := by
  unfold Syncer.notify at taken
  split at taken
  · rename_i covers claimed found
    cases taken
    refine
      { holding := ?_
        held := ?_
        sole := ?_ }
    · intro caller call own woken lookup holds
      obtain ⟨old, old_found, rfl⟩ := map_eq_some_iff.mp lookup
      obtain ⟨again, held⟩ := Call.notified_holding holds
      obtain ⟨mine, mine_found, waits⟩ := handed.holding caller old own again old_found held
      have different : own ≠ flight := by
        rintro rfl
        rw [found] at mine_found
        cases mine_found
        cases waits
      exact ⟨mine, (update_of_ne different _ _).trans mine_found, waits⟩
    · intro own held lookup waits
      simp only [update_apply] at lookup
      split at lookup
      · cases lookup
      · obtain ⟨caller, holder, woken, holder_found, holds⟩ := handed.held own held lookup waits
        exact ⟨caller, holder.notified, true,
          map_eq_some_iff.mpr ⟨holder, holder_found, rfl⟩, by rw [Call.notified, holds]⟩
    · intro caller rival call other own woken again lookup rival_lookup holds rival_holds
      obtain ⟨old, old_found, rfl⟩ := map_eq_some_iff.mp lookup
      obtain ⟨rival_old, rival_found, rfl⟩ := map_eq_some_iff.mp rival_lookup
      obtain ⟨_, held⟩ := Call.notified_holding holds
      obtain ⟨_, rival_held⟩ := Call.notified_holding rival_holds
      exact handed.sole old_found rival_found held rival_held
  · cases taken

end

/-- The effect of an action keeps the syncer coherent, a moment later. -/
theorem coherent_effect (coherent : Coherent syncer) (handed : Handed syncer)
    (taken : effect syncer action = some next) : Coherent (next.tick syncer.now) := by
  have later : ∀ {after : Syncer}, Coherent after → after.now = syncer.now →
      Coherent (after.tick syncer.now) := by
    intro after sound same
    rw [← same]
    exact sound.tick
  cases action with
  | call =>
      cases taken
      exact coherent.call
  | listen id =>
      refine later (coherent.listen taken) ?_
      simp only [effect, Syncer.listen] at taken
      split at taken <;> cases taken
      rfl
  | inspect id => exact coherent.inspect taken
  | spawn id =>
      refine later (coherent.spawn handed taken) ?_
      simp only [effect, Syncer.spawn] at taken
      split at taken
      · obtain ⟨held, -, rfl⟩ := map_eq_some_iff.mp taken
        rfl
      · cases taken
  | resume id =>
      refine later (coherent.resume taken) ?_
      simp only [effect, Syncer.resume] at taken
      split at taken <;> cases taken
      rfl
  | cancel id =>
      refine later (coherent.cancel taken) ?_
      simp only [effect, Syncer.cancel] at taken
      split at taken <;> cases taken
      rfl
  | startSync id =>
      refine later (coherent.startSync taken) ?_
      simp only [effect, Syncer.startSync] at taken
      split at taken <;> cases taken
      rfl
  | endSync id result =>
      refine later (coherent.endSync taken) ?_
      simp only [effect, Syncer.endSync] at taken
      split at taken <;> cases taken
      rfl
  | lose id =>
      refine later (coherent.lose taken) ?_
      simp only [effect, Syncer.lose] at taken
      split at taken <;> cases taken <;> rfl
  | publish id =>
      refine later (coherent.publish taken) ?_
      simp only [effect, Syncer.publish] at taken
      split at taken
      · split at taken <;> cases taken <;> rfl
      · cases taken
  | notify id =>
      refine later (coherent.notify taken) ?_
      simp only [effect, Syncer.notify] at taken
      split at taken <;> cases taken
      rfl

/-- A new call holds no flight. -/
theorem Handed.newCall (handed : Handed syncer) (coherent : Coherent syncer) {fresh : Call}
    (idle : ∀ flight woken, fresh.phase ≠ .holding flight woken) (requested nextCall : Nat) :
    Handed { syncer with
      calls := update syncer.calls syncer.nextCall (some fresh)
      requested
      nextCall } := by
  refine handed.setCalls ?_ ?_
  · intro caller call lookup
    rw [update_apply] at lookup
    split at lookup
    · cases lookup
      exact .inr idle
    · exact .inl lookup
  · intro caller call flight woken found _
    have absent : caller ≠ syncer.nextCall := by
      rintro rfl
      rw [coherent.newCall _ (Nat.le_refl _)] at found
      cases found
    rw [update_of_ne absent, found]

theorem handed_effect (coherent : Coherent syncer) (handed : Handed syncer)
    (taken : effect syncer action = some next) : Handed next := by
  cases action with
  | call =>
      cases taken
      unfold Syncer.call
      split
      · exact handed.newCall coherent (fun _ _ holds => by cases holds) _ _
      · exact handed.newCall coherent (fun _ _ holds => by cases holds) _ _
  | listen id =>
      simp only [effect, Syncer.listen] at taken
      split at taken
      · rename_i found
        cases taken
        exact handed.setCall found (by simp) (by simp)
      · cases taken
  | inspect id =>
      simp only [effect, Syncer.inspect] at taken
      split at taken
      · rename_i found
        split at taken
        · cases taken
          exact handed.setCall found (by simp) (by simp)
        · split at taken
          · cases taken
            exact handed.setCall found (by simp) (by simp)
          · split at taken
            · cases taken
              exact handed.setCall found (by simp) (by simp)
            · cases taken
              exact handed.begin coherent found
      · cases taken
  | spawn id => exact handed.spawn taken
  | resume id =>
      simp only [effect, Syncer.resume] at taken
      split at taken
      · rename_i found
        cases taken
        exact handed.setCall found (by simp) (by simp)
      · cases taken
  | cancel id =>
      simp only [effect, Syncer.cancel] at taken
      split at taken
      · rename_i generation woken registered found
        cases taken
        refine handed.setCalls ?_ ?_
        · intro caller call lookup
          rw [update_apply] at lookup
          split at lookup
          · cases lookup
          · exact .inl lookup
        · intro caller call flight again lookup holds
          have different : caller ≠ id := by
            rintro rfl
            rw [found] at lookup
            cases lookup
            cases holds
          rw [update_of_ne different, lookup]
      · cases taken
  | startSync id =>
      simp only [effect, Syncer.startSync] at taken
      split at taken
      · rename_i found
        cases taken
        exact handed.setFlight found (by simp) (by simp)
      · cases taken
  | endSync id result =>
      simp only [effect, Syncer.endSync] at taken
      split at taken
      · rename_i found
        cases taken
        have moved : Handed (syncer.setFlight id _ (.ended (some result))) :=
          handed.setFlight found (by simp) (by simp)
        exact ⟨moved.holding, moved.held, moved.sole⟩
      · cases taken
  | lose id =>
      simp only [effect, Syncer.lose] at taken
      split at taken
      · rename_i found
        cases taken
        have moved : Handed (syncer.setFlight id _ (.ended none)) :=
          handed.setFlight found (by simp) (by simp)
        exact ⟨moved.holding, moved.held, moved.sole⟩
      · rename_i found
        cases taken
        have moved : Handed (syncer.setFlight id _ (.ended none)) :=
          handed.setFlight found (by simp) (by simp)
        exact ⟨moved.holding, moved.held, moved.sole⟩
      · cases taken
  | publish id =>
      simp only [effect, Syncer.publish] at taken
      split at taken
      · rename_i found
        have moved : Handed (syncer.setFlight id _ .published) :=
          handed.setFlight found (by simp) (by simp)
        split at taken
        · cases taken
          exact ⟨moved.holding, moved.held, moved.sole⟩
        · cases taken
          exact ⟨moved.holding, moved.held, moved.sole⟩
      · cases taken
  | notify id => exact handed.notify taken

theorem coherent_step (coherent : Coherent syncer ∧ Handed syncer)
    (taken : step syncer action = some next) : Coherent next ∧ Handed next := by
  obtain ⟨after, effected, rfl⟩ := map_eq_some_iff.mp taken
  have handed := handed_effect coherent.1 coherent.2 effected
  exact ⟨coherent_effect coherent.1 coherent.2 effected,
    ⟨handed.holding, handed.held, handed.sole⟩⟩

theorem coherent_run {dir : String}
    (execution : Execution.run step (fresh dir) actions = some syncer) :
    Coherent syncer ∧ Handed syncer := by
  refine Execution.invariant_of_run (fun syncer => Coherent syncer ∧ Handed syncer) ?_ ?_
    (Execution.meets_true step (fresh dir) actions) execution
  · intro before after action coherent _ taken
    exact coherent_step coherent taken
  · refine ⟨coherent_fresh dir, ⟨?_, ?_, ?_⟩⟩
    · intro id call flight woken found
      cases found
    · intro id flight found
      cases found
    · intro id rival call other flight woken again found
      cases found

/-- The call can go on, without any new fsync, until it has returned. -/
def Finishes (syncer : Syncer) (id : CallId) : Prop :=
  ∃ later after call result, Execution.run step syncer later = some after ∧
    after.calls id = some call ∧ call.phase = .returned result ∧ after.fsyncs = syncer.fsyncs

theorem Finishes.cons (taken : step syncer action = some next) (same : next.fsyncs = syncer.fsyncs)
    (finishes : Finishes next id) : Finishes syncer id := by
  obtain ⟨later, after, call, result, execution, found, returned, fsyncs⟩ := finishes
  refine ⟨action :: later, after, call, result, ?_, found, returned, fsyncs.trans same⟩
  exact Execution.run_cons_eq_some.mpr ⟨next, taken, execution⟩

section Poisoned

variable {generation registered : Nat} {poison : Poison}

section

variable (poisoned : syncer.poisoned = some poison)

include poisoned

theorem finishes_of_listening {woken : Bool}
    (found : syncer.calls id = some ⟨generation, .listening woken, registered⟩) :
    Finishes syncer id := by
  have inspects : ∃ result, step syncer (.inspect id) =
      some ((syncer.setCall id ⟨generation, .listening woken, registered⟩
        (.returned result)).tick syncer.now) := by
    simp only [step, effect, Syncer.inspect, found, poisoned]
    split
    · exact ⟨_, rfl⟩
    · exact ⟨_, rfl⟩
  obtain ⟨result, taken⟩ := inspects
  exact Finishes.cons taken rfl ⟨[], _, _, _, rfl, update_self _ _ _, rfl, rfl⟩

theorem finishes_of_ready (found : syncer.calls id = some ⟨generation, .ready, registered⟩) :
    Finishes syncer id := by
  have taken : step syncer (.listen id) =
      some ((syncer.setCall id ⟨generation, .ready, registered⟩ (.listening false)).tick
        syncer.now) := by
    simp only [step, effect, Syncer.listen, found]
    rfl
  exact Finishes.cons taken rfl
    (finishes_of_listening poisoned (update_self _ _ _))

theorem finishes_of_woken (found : syncer.calls id = some ⟨generation, .waiting true, registered⟩) :
    Finishes syncer id := by
  have taken : step syncer (.resume id) =
      some ((syncer.setCall id ⟨generation, .waiting true, registered⟩ .ready).tick
        syncer.now) := by
    simp only [step, effect, Syncer.resume, found]
    rfl
  exact Finishes.cons taken rfl (finishes_of_ready poisoned (update_self _ _ _))

end

theorem finishes_of_sleeping (coherent : Coherent syncer)
    (poisoned : syncer.poisoned = some poison)
    (found : syncer.calls id = some ⟨generation, .waiting false, registered⟩) :
    Finishes syncer id := by
  obtain ⟨flight, ⟨covers, phase, claimed⟩, flight_found⟩ :=
    (coherent.calls id _ found).sleeping rfl
  have landed : phase = .published := by
    by_contra different
    have free := (coherent.poisoned (isSome_iff_exists.mpr ⟨poison, poisoned⟩)).2
    rw [coherent.slot.mpr ⟨flight, _, flight_found, ?_⟩] at free
    · cases free
    · cases phase with
      | published => exact absurd rfl different
      | _ => rfl
  subst landed
  have taken : step syncer (.notify flight) =
      some (Syncer.tick
        { syncer with
          calls := fun call => (syncer.calls call).map Call.notified
          flights := update syncer.flights flight none } syncer.now) := by
    simp only [step, effect, Syncer.notify, flight_found]
    rfl
  have woken : (syncer.calls id).map Call.notified =
      some ⟨generation, .waiting true, registered⟩ := by
    rw [found]
    rfl
  exact Finishes.cons taken rfl (finishes_of_woken poisoned woken)

theorem finishes_of_poisoned (coherent : Coherent syncer) (handed : Handed syncer)
    (poisoned : syncer.poisoned = some poison) (found : syncer.calls id = some call) :
    Finishes syncer id := by
  obtain ⟨generation, phase, registered⟩ := call
  cases phase with
  | ready => exact finishes_of_ready poisoned found
  | listening woken => exact finishes_of_listening poisoned found
  | holding flight woken =>
      obtain ⟨held, held_found, claimed⟩ := handed.holding id _ flight woken found rfl
      have free := (coherent.poisoned (isSome_iff_exists.mpr ⟨poison, poisoned⟩)).2
      rw [coherent.slot.mpr ⟨flight, held, held_found, by rw [claimed]; rfl⟩] at free
      cases free
  | waiting woken =>
      cases woken with
      | true => exact finishes_of_woken poisoned found
      | false => exact finishes_of_sleeping coherent poisoned found
  | returned result => exact ⟨[], syncer, _, result, rfl, found, rfl, rfl⟩

end Poisoned

theorem finishes_of_failed (coherent : Coherent syncer) (handed : Handed syncer)
    (failed : syncer.failed = true) (found : syncer.calls id = some call) : Finishes syncer id := by
  obtain ⟨-, poisoned | ⟨flight, ⟨covers, phase, claimed⟩, outcome, flight_found, ended, bad⟩⟩ :=
    coherent.failed failed
  · obtain ⟨poison, poisoned⟩ := isSome_iff_exists.mp poisoned
    exact finishes_of_poisoned coherent handed poisoned found
  · -- The failure is not published yet, so its flight publishes it first.
    change phase = .ended outcome at ended
    subst ended
    have publishes : ∃ poison, effect syncer (.publish flight) =
        some { syncer.setFlight flight ⟨covers, .ended outcome, claimed⟩ .published with
          inFlight := false
          poisoned := some poison } := by
      simp only [effect, Syncer.publish, flight_found]
      cases outcome with
      | none => exact ⟨_, rfl⟩
      | some result =>
          cases result with
          | error error => exact ⟨_, rfl⟩
          | ok done => exact absurd rfl bad
    obtain ⟨poison, effected⟩ := publishes
    have taken := congrArg (Option.map fun next : Syncer => next.tick syncer.now) effected
    have sound := coherent_step ⟨coherent, handed⟩ taken
    exact Finishes.cons taken rfl (finishes_of_poisoned sound.1 sound.2 rfl found)

theorem startSync_of_failed (coherent : Coherent syncer) (failed : syncer.failed = true) :
    step syncer (.startSync flight) = none := by
  simp only [step, effect, Syncer.startSync]
  split
  · rename_i covers claimed found
    have stopped := (coherent.failed failed).1 flight _ found
    cases stopped
  · rfl

/-- A failure is never forgotten, and no directory fsync follows it. -/
theorem failed_step (coherent : Coherent syncer) (failed : syncer.failed = true)
    (taken : step syncer action = some next) :
    next.failed = true ∧ next.fsyncs = syncer.fsyncs := by
  obtain ⟨after, effected, rfl⟩ := map_eq_some_iff.mp taken
  change after.failed = true ∧ after.fsyncs = syncer.fsyncs
  cases action with
  | call =>
      cases effected
      unfold Syncer.call
      split <;> exact ⟨failed, rfl⟩
  | spawn id =>
      simp only [effect, Syncer.spawn] at effected
      split at effected
      · obtain ⟨held, -, rfl⟩ := map_eq_some_iff.mp effected
        exact ⟨failed, rfl⟩
      · cases effected
  | inspect id =>
      simp only [effect, Syncer.inspect] at effected
      split at effected
      · split at effected
        · cases effected
          exact ⟨failed, rfl⟩
        · split at effected
          · cases effected
            exact ⟨failed, rfl⟩
          · split at effected <;> cases effected <;> exact ⟨failed, rfl⟩
      · cases effected
  | endSync id result =>
      simp only [effect, Syncer.endSync] at effected
      split at effected
      · rename_i covers began claimed found
        have stopped := (coherent.failed failed).1 id _ found
        cases stopped
      · cases effected
  | lose id =>
      simp only [effect, Syncer.lose] at effected
      split at effected <;> cases effected <;> exact ⟨rfl, rfl⟩
  | publish id =>
      simp only [effect, Syncer.publish] at effected
      split at effected
      · split at effected <;> cases effected <;> exact ⟨failed, rfl⟩
      · cases effected
  | _ =>
      simp only [effect, Syncer.listen, Syncer.resume, Syncer.cancel, Syncer.startSync,
        Syncer.notify] at effected
      split at effected <;> cases effected
      exact ⟨failed, rfl⟩

theorem failed_run (sound : Coherent syncer ∧ Handed syncer) (failed : syncer.failed = true)
    (execution : Execution.run step syncer actions = some next) :
    (Coherent next ∧ Handed next) ∧ next.failed = true ∧ next.fsyncs = syncer.fsyncs := by
  refine Execution.invariant_of_run
    (fun after => (Coherent after ∧ Handed after) ∧ after.failed = true ∧
      after.fsyncs = syncer.fsyncs)
    ?_ ⟨sound, failed, rfl⟩ (Execution.meets_true step syncer actions) execution
  rintro before after action ⟨sound, failed, same⟩ _ taken
  exact ⟨coherent_step sound taken, (failed_step sound.1 failed taken).imp_right (·.trans same)⟩

/-- After every interleaving: a call which returned is covered by an fsync that began after it
registered; at most one fsync is in flight; once a flight has failed or was lost no fsync ever
begins again, and every call can still return, with an error unless an fsync which had succeeded
by then covers it; and no call sleeps without a flight which will wake it. -/
theorem sync_sound {dir : String} {actions : List Action}
    (execution : Execution.run step (fresh dir) actions = some syncer) :
    (∀ id call, syncer.calls id = some call → call.phase = .returned (.ok ()) →
      syncer.Covers call) ∧
    (∀ id other flight rival began again, syncer.flights id = some flight →
      syncer.flights other = some rival → flight.phase = .syncing began →
      rival.phase = .syncing again → id = other) ∧
    (syncer.failed = true →
      (∀ later after, Execution.run step syncer later = some after →
        (∀ flight, step after (.startSync flight) = none) ∧
        ∀ id call, after.calls id = some call → call.phase = .returned (.ok ()) →
          syncer.Covers call) ∧
      ∀ id call, syncer.calls id = some call → Finishes syncer id) ∧
    ∀ id call, syncer.calls id = some call → call.phase = .waiting false →
      ∃ flight flown, syncer.flights flight = some flown := by
  obtain ⟨coherent, handed⟩ := coherent_run execution
  refine ⟨fun id call found => (coherent.calls id call found).returned, ?_, ?_,
    fun id call found => (coherent.calls id call found).sleeping⟩
  · intro id other flight rival began again found rival_found syncing rival_syncing
    exact coherent.single found rival_found (by rw [syncing]; rfl) (by rw [rival_syncing]; rfl)
  · intro failed
    refine ⟨?_, fun id call found => finishes_of_failed coherent handed failed found⟩
    intro later after further
    obtain ⟨⟨after_coherent, -⟩, after_failed, same⟩ :=
      failed_run ⟨coherent, handed⟩ failed further
    refine ⟨fun flight => startSync_of_failed after_coherent after_failed, ?_⟩
    intro id call found returned
    obtain ⟨fsync, member, began⟩ := (after_coherent.calls id call found).returned returned
    exact ⟨fsync, same ▸ member, began⟩

/-- The first of two calls begins a flight, and returns once it has succeeded. -/
theorem sync_sound_oneFlight :
    ∃ syncer call,
      Execution.run step (fresh "segments")
        [.call, .listen 0, .inspect 0, .call, .listen 1, .inspect 1, .spawn 0, .startSync 0,
          .endSync 0 (.ok ()), .publish 0, .notify 0, .resume 0, .listen 0, .inspect 0] =
        some syncer ∧
      syncer.calls 0 = some call ∧ call.phase = .returned (.ok ()) ∧ syncer.Covers call := by
  have execution :
      Execution.run step (fresh "segments")
        [.call, .listen 0, .inspect 0, .call, .listen 1, .inspect 1, .spawn 0, .startSync 0,
          .endSync 0 (.ok ()), .publish 0, .notify 0, .resume 0, .listen 0, .inspect 0] =
        some ((Execution.run step (fresh "segments")
          [.call, .listen 0, .inspect 0, .call, .listen 1, .inspect 1, .spawn 0, .startSync 0,
            .endSync 0 (.ok ()), .publish 0, .notify 0, .resume 0, .listen 0, .inspect 0]).getD
          (fresh "segments")) := rfl
  exact ⟨_, ⟨1, .returned (.ok ()), 0⟩, execution, rfl, rfl,
    (sync_sound execution).1 0 ⟨1, .returned (.ok ()), 0⟩ rfl rfl⟩

end DirSync

end WeftDb
