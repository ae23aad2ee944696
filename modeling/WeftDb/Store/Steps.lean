import WeftDb.Index.Effects
import WeftDb.Store.System

/-!
# What one step can do

`Stepped` lists every outcome of a step, with the guards which led to it.  Each invariant of the
system is proved by cases on it, so no invariant looks inside the step function.
-/

namespace WeftDb

namespace Store

open Option

/-- The outcomes of a step. -/
inductive Stepped (catalog : Catalog) (before : Store) : Action → Store → Prop
  | call {request work} (started : start before.db request = some work) :
      Stepped catalog before (.call request)
        { before.setTask before.nextTask ⟨work, .running⟩ with nextTask := before.nextTask + 1 }
  | checkPoisoned {id chunks aspect batch queued written}
      (found : before.tasks id = some ⟨.ingest aspect batch none queued written, .running⟩)
      (poisoned : before.poisoned = true) :
      Stepped catalog before (.check id chunks)
        (before.reply id (.ingest aspect batch none queued written) (.error .poisoned))
  | checkRefused {id chunks aspect batch queued written refused}
      (found : before.tasks id = some ⟨.ingest aspect batch none queued written, .running⟩)
      (admission : admitBatch catalog before.db aspect batch = .error refused) :
      Stepped catalog before (.check id chunks)
        (before.reply id (.ingest aspect batch none queued written) (.error refused))
  | checkReplayed {id chunks aspect batch queued written fingerprint receipt}
      (found : before.tasks id = some ⟨.ingest aspect batch none queued written, .running⟩)
      (admission : admitBatch catalog before.db aspect batch = .ok (fingerprint, some receipt)) :
      Stepped catalog before (.check id chunks)
        (before.reply id (.ingest aspect batch none queued written) (.ok receipt))
  | checkAdmitted {id chunks aspect batch queued written fingerprint}
      (found : before.tasks id = some ⟨.ingest aspect batch none queued written, .running⟩)
      (admission : admitBatch catalog before.db aspect batch = .ok (fingerprint, none))
      (chunked : chunks ≠ []) :
      Stepped catalog before (.check id chunks)
        (before.setTask id ⟨.ingest aspect batch (some fingerprint) chunks [], .running⟩)
  | writeSeal {id aspect chunk chunks written middle gen}
      (found : before.tasks id = some ⟨.seal aspect (chunk :: chunks) written, .running⟩)
      (counted : before.allocateGens aspect 1 = some (middle, gen)) :
      Stepped catalog before (.writeFrame id)
        { middle.setTask id
            ⟨.seal aspect chunks
              (written ++ [⟨{ chunk.desc with path := .segments (frameName aspect gen gen) }, gen,
                chunk.frameCrc⟩]), .running⟩ with
          frames := middle.frames ++ [frameName aspect gen gen] }
  | writeIngest {id aspect batch fingerprint chunk chunks written middle gen}
      (found : before.tasks id =
        some ⟨.ingest aspect batch (some fingerprint) (chunk :: chunks) written, .running⟩)
      (counted : before.allocateGens aspect 1 = some (middle, gen)) :
      Stepped catalog before (.writeFrame id)
        { middle.setTask id
            ⟨.ingest aspect batch (some fingerprint) chunks
              (written ++ [⟨{ chunk.desc with path := .segments (frameName aspect gen gen) }, gen,
                chunk.frameCrc⟩]), .running⟩ with
          frames := middle.frames ++ [frameName aspect gen gen] }
  | planWithout {id outputs aspect plans named}
      (found : before.tasks id = some ⟨.swap aspect plans .planned, .running⟩)
      (names : namePlans aspect 0 plans outputs = some named)
      (empty : (outputs.map List.length).sum = 0) :
      Stepped catalog before (.planOutputs id outputs)
        (before.setTask id ⟨.swap aspect named .written, .running⟩)
  | planNamed {id outputs aspect plans named middle gen}
      (found : before.tasks id = some ⟨.swap aspect plans .planned, .running⟩)
      (counted : before.allocateGens aspect (outputs.map List.length).sum = some (middle, gen))
      (names : namePlans aspect gen plans outputs = some named) :
      Stepped catalog before (.planOutputs id outputs)
        (middle.setTask id ⟨.swap aspect named .named, .running⟩)
  | writeOutput {id aspect plans name unwritten}
      (found : before.tasks id =
        some ⟨.swap aspect plans (.writing (name :: unwritten)), .running⟩) :
      Stepped catalog before (.writeOutput id)
        { before.setTask id
            ⟨.swap aspect plans (if unwritten = [] then .written else .writing unwritten),
              .running⟩ with
          frames := before.frames ++ [name] }
  | enter {id aspect work}
      (found : before.tasks id = some ⟨work, .running⟩)
      (wanted : wantsLock aspect work = true)
      (free : (before.locks aspect).holder = none) :
      Stepped catalog before (.enter id aspect)
        { (before.setLock aspect
              { before.locks aspect with
                holder := some id
                state := some ((before.locks aspect).state.getD (seedAllocator before.db
                  (before.legacyNames.getD before.frames) aspect)) }).setTask
            id ⟨work, .locked aspect⟩ with
          legacyNames := if (before.locks aspect).state.isSome then before.legacyNames
            else some (before.legacyNames.getD before.frames) }
  | allocateNone {id aspect held plans state}
      (found : before.tasks id = some ⟨.swap aspect plans .written, .locked held⟩)
      (seeded : (before.locks held).state = some state)
      (none_ready : (allocatePlans (before.db.rows aspect) state plans).2 = []) :
      Stepped catalog before (.allocate id)
        ((before.setState held (allocatePlans (before.db.rows aspect) state plans).1).leave id)
  | allocateReady {id aspect held plans state}
      (found : before.tasks id = some ⟨.swap aspect plans .written, .locked held⟩)
      (seeded : (before.locks held).state = some state) :
      Stepped catalog before (.allocate id)
        ((before.setState held (allocatePlans (before.db.rows aspect) state plans).1).setTask id
          ⟨.swap aspect plans (.attempts [(allocatePlans (before.db.rows aspect) state plans).2]),
            .locked held⟩)
  | prepareCommit {id step createdMs work aspect state next publication continuation}
      (found : before.tasks id = some ⟨work, .locked aspect⟩)
      (seeded : (before.locks aspect).state = some state)
      (built : prepared catalog before.db aspect state step createdMs work =
        some (next, .commit publication continuation))
      (readable : step.readable before.frames aspect = true)
      (healthy : before.poisoned = false ∨ step.guarded work = false) :
      Stepped catalog before (.prepare id step createdMs)
        ((before.setState aspect next).setTask id
          ⟨work, .committing aspect publication continuation⟩)
  | preparePoisoned {id step createdMs work aspect state next publication continuation}
      (found : before.tasks id = some ⟨work, .locked aspect⟩)
      (seeded : (before.locks aspect).state = some state)
      (built : prepared catalog before.db aspect state step createdMs work =
        some (next, .commit publication continuation))
      (readable : step.readable before.frames aspect = true)
      (poisoned : before.poisoned = true) (guarded : step.guarded work = true) :
      Stepped catalog before (.prepare id step createdMs)
        ((before.setState aspect next).reply id work (.error .poisoned))
  | prepareAnswer {id step createdMs work aspect state next result unlinked}
      (found : before.tasks id = some ⟨work, .locked aspect⟩)
      (seeded : (before.locks aspect).state = some state)
      (built : prepared catalog before.db aspect state step createdMs work =
        some (next, .answer result unlinked))
      (readable : step.readable before.frames aspect = true) :
      Stepped catalog before (.prepare id step createdMs)
        { (before.setState aspect next).reply id work result with
          frames := before.frames.filter fun name =>
            decide (FramePath.segments name ∉ unlinked.map (·.desc.path)) }
  | land {id work aspect publication next db}
      (found : before.tasks id = some ⟨work, .committing aspect publication next⟩)
      (applied : before.db.applyAll publication.ops = .ok db) :
      Stepped catalog before (.land id)
        { before.setTask id ⟨work, .landed aspect publication next⟩ with
          db
          log := before.log ++ [⟨some id, aspect, work.batch, work.publishes, publication⟩] }
  | settleReceipt {id work aspect publication receipt}
      (found : before.tasks id =
        some ⟨work, .landed aspect publication (.finish (some receipt))⟩) :
      Stepped catalog before (.settle id)
        ((before.settled aspect publication).reply id work (.ok receipt))
  | settleDone {id work aspect publication}
      (found : before.tasks id = some ⟨work, .landed aspect publication (.finish none)⟩) :
      Stepped catalog before (.settle id) ((before.settled aspect publication).leave id)
  | settleResume {id work aspect publication resumed}
      (found : before.tasks id = some ⟨work, .landed aspect publication (.resume resumed)⟩) :
      Stepped catalog before (.settle id)
        (((before.settled aspect publication).unlock id).setTask id ⟨resumed, .running⟩)
  | settleRetain {id work aspect publication retained}
      (found : before.tasks id = some ⟨work, .landed aspect publication (.retain retained)⟩) :
      Stepped catalog before (.settle id)
        ((before.settled aspect publication).setTask id ⟨retained, .locked aspect⟩)
  | refuseRetry {id kind work again aspect publication next}
      (found : before.tasks id = some ⟨work, .committing aspect publication next⟩)
      (retry : retried kind work = some again) :
      Stepped catalog before (.refuse id kind) (before.setTask id ⟨again, .locked aspect⟩)
  | refuseFail {id kind work aspect publication next}
      (found : before.tasks id = some ⟨work, .committing aspect publication next⟩)
      (final : retried kind work = none) :
      Stepped catalog before (.refuse id kind) (before.reply id work (.error (.index kind)))
  | ambiguous {id work stage aspect publication next}
      (found : before.tasks id = some ⟨work, stage⟩)
      (pending : stage = .committing aspect publication next ∨
        stage = .landed aspect publication next) :
      Stepped catalog before (.ambiguous id)
        { before.reply id work (.error (.index .ambiguous)) with poisoned := true }
  | fault {id work stage}
      (found : before.tasks id = some ⟨work, stage⟩)
      (uncommitted : ∀ aspect publication next, stage ≠ .landed aspect publication next) :
      Stepped catalog before (.fault id) (before.reply id work (.error .fault))
  | drop {id task} (found : before.tasks id = some task) :
      Stepped catalog before (.drop id) (before.leave id)
  | recover {id step changed ops changedAspect db}
      (found : before.tasks id = some ⟨.recovery changed, .running⟩)
      (healthy : before.poisoned = false) (readable : step.readable before.frames = true)
      (built : recoveryOps before.db step = some (ops, changedAspect))
      (applied : before.db.applyAll ops = .ok db) :
      Stepped catalog before (.recover id step)
        { before.setTask id ⟨.recovery (changedAspect.toList ++ changed), .running⟩ with
          db
          frames := (moveFrames before.frames before.quarantined step).1
          quarantined := (moveFrames before.frames before.quarantined step).2
          log := before.log ++ [⟨some id, changedAspect.getD "", none, false, ⟨none, ops⟩⟩] }
  | finishRecovery {id} (found : before.tasks id = some ⟨.recovery [], .running⟩) :
      Stepped catalog before (.finishRecovery id) (before.leave id)
  | reap {unlinked cleared db}
      (healthy : before.poisoned = false)
      (free : ∀ name ∈ unlinked, reclaimable before.db name = true)
      (applied : before.db.applyAll (cleared.map .clearJournal) = .ok db) :
      Stepped catalog before (.reap unlinked cleared)
        { before with
          db
          frames := before.frames.filter fun name => decide (name ∉ unlinked)
          log := before.log ++ [⟨none, "", none, false, ⟨none, cleared.map .clearJournal⟩⟩] }
  | consume {aspect} : Stepped catalog before (.consume aspect) (before.consume aspect)
  | acknowledgeNothing {aspect returned}
      (nothing : throughEpoch (before.consumers aspect).reading = 0) :
      Stepped catalog before (.acknowledge aspect returned)
        { before with
          consumers := Function.update before.consumers aspect
            { before.consumers aspect with reading := [] } }
  | acknowledge {aspect returned db}
      (healthy : before.poisoned = false)
      (applied : before.db.applyAll
        [.deleteChanges aspect (throughEpoch (before.consumers aspect).reading)] = .ok db) :
      Stepped catalog before (.acknowledge aspect returned)
        { before with
          db
          log := before.log ++ [⟨none, aspect, none, false,
            ⟨none, [.deleteChanges aspect (throughEpoch (before.consumers aspect).reading)]⟩⟩]
          consumers :=
            if returned then
              Function.update before.consumers aspect
                { before.consumers aspect with
                  acknowledged := throughEpoch (before.consumers aspect).reading, reading := [] }
            else
              before.consumers }
  | forget {aspect} : Stepped catalog before (.forget aspect) (before.forget aspect)
  | crash {frames quarantined} :
      Stepped catalog before (.crash frames quarantined) (before.crash frames quarantined)

variable {catalog : Catalog} {before after : Store} {id : TaskId} {aspect : AspectName}

theorem stepped_of_check {chunks : List Chunk}
    (taken : before.check catalog id chunks = some after) :
    Stepped catalog before (.check id chunks) after := by
  unfold check at taken
  split at taken
  · rename_i aspect batch queued written found
    simp only at taken
    split at taken
    · rename_i poisoned
      cases taken
      exact .checkPoisoned found poisoned
    · split at taken
      · rename_i refused admission
        cases taken
        exact .checkRefused found admission
      · rename_i fingerprint receipt admission
        cases taken
        exact .checkReplayed found admission
      · rename_i fingerprint admission
        split at taken
        · cases taken
        · rename_i chunked
          cases taken
          exact .checkAdmitted found admission chunked
  · cases taken

theorem stepped_of_writeFrame (taken : before.writeFrame id = some after) :
    Stepped catalog before (.writeFrame id) after := by
  unfold writeFrame at taken
  split at taken
  · rename_i aspect chunk chunks written found
    obtain ⟨⟨middle, gen⟩, counted, rfl⟩ := map_eq_some_iff.mp taken
    exact .writeSeal found counted
  · rename_i aspect batch fingerprint chunk chunks written found
    obtain ⟨⟨middle, gen⟩, counted, rfl⟩ := map_eq_some_iff.mp taken
    exact .writeIngest found counted
  · cases taken

theorem stepped_of_planOutputs {outputs : List (List Chunk)}
    (taken : before.planOutputs id outputs = some after) :
    Stepped catalog before (.planOutputs id outputs) after := by
  unfold planOutputs at taken
  split at taken
  · rename_i aspect plans found
    simp only at taken
    split at taken
    · rename_i empty
      obtain ⟨named, names, rfl⟩ := map_eq_some_iff.mp taken
      exact .planWithout found names empty
    · obtain ⟨⟨middle, gen⟩, counted, taken⟩ := bind_eq_some_iff.mp taken
      obtain ⟨named, names, rfl⟩ := map_eq_some_iff.mp taken
      exact .planNamed found counted names
  · cases taken

theorem stepped_of_enter (taken : before.enter id aspect = some after) :
    Stepped catalog before (.enter id aspect) after := by
  unfold enter at taken
  split at taken
  · rename_i work found
    split at taken
    · rename_i guard
      cases taken
      exact .enter found guard.1 guard.2
    · cases taken
  · cases taken

theorem stepped_of_allocate (taken : before.allocate id = some after) :
    Stepped catalog before (.allocate id) after := by
  unfold allocate at taken
  split at taken
  · rename_i aspect plans held found
    obtain ⟨state, seeded, rfl⟩ := map_eq_some_iff.mp taken
    simp only
    split
    · rename_i none_ready
      exact .allocateNone found seeded none_ready
    · exact .allocateReady found seeded
  · cases taken

theorem stepped_of_prepare {step : Repair} {createdMs : Int}
    (taken : before.prepare catalog id step createdMs = some after) :
    Stepped catalog before (.prepare id step createdMs) after := by
  unfold prepare at taken
  split at taken
  · rename_i work aspect found
    split at taken
    · rename_i state seeded
      split at taken
      · rename_i readable
        obtain ⟨⟨next, outcome⟩, built, rfl⟩ := map_eq_some_iff.mp taken
        cases outcome with
        | commit publication continuation =>
            simp only [setState_frame]
            split
            · rename_i refused
              exact .preparePoisoned found seeded built readable refused.1 refused.2
            · rename_i allowed
              refine .prepareCommit found seeded built readable ?_
              rw [not_and_or] at allowed
              simpa using allowed
        | answer result unlinked => exact .prepareAnswer found seeded built readable
      · cases taken
    · cases taken
  · cases taken

theorem stepped_of_land (taken : before.land id = some after) :
    Stepped catalog before (.land id) after := by
  unfold land at taken
  split at taken
  · rename_i work aspect publication next found
    split at taken
    · rename_i db applied
      cases taken
      exact .land found applied
    · cases taken
  · cases taken

theorem stepped_of_settle (taken : before.settle id = some after) :
    Stepped catalog before (.settle id) after := by
  unfold settle at taken
  split at taken
  · rename_i work aspect publication next found
    simp only at taken
    split at taken
    · cases taken
      exact .settleReceipt found
    · cases taken
      exact .settleDone found
    · cases taken
      exact .settleResume found
    · cases taken
      exact .settleRetain found
  · cases taken

theorem stepped_of_refuse {kind : TxnErrorKind} (taken : before.refuse id kind = some after) :
    Stepped catalog before (.refuse id kind) after := by
  unfold refuse at taken
  split at taken
  · cases taken
  · split at taken
    · rename_i work aspect publication next found
      split at taken
      · rename_i again retry
        cases taken
        exact .refuseRetry found retry
      · rename_i final
        cases taken
        exact .refuseFail found final
    · cases taken

theorem stepped_of_ambiguous (taken : before.ambiguous id = some after) :
    Stepped catalog before (.ambiguous id) after := by
  unfold ambiguous at taken
  split at taken
  · rename_i found
    cases taken
    exact .ambiguous found (.inl rfl)
  · rename_i found
    cases taken
    exact .ambiguous found (.inr rfl)
  · cases taken

theorem stepped_of_fault (taken : before.fault id = some after) :
    Stepped catalog before (.fault id) after := by
  unfold fault at taken
  split at taken
  · cases taken
  · rename_i work stage uncommitted found
    cases taken
    refine .fault found ?_
    rintro aspect publication next rfl
    exact uncommitted aspect publication next rfl
  · cases taken

theorem stepped_of_recover {step : RecoveryStep} (taken : before.recover id step = some after) :
    Stepped catalog before (.recover id step) after := by
  unfold recover at taken
  split at taken
  · rename_i changed found
    split at taken
    · cases taken
    · rename_i allowed
      rw [not_or, not_not] at allowed
      split at taken
      · rename_i ops changedAspect built
        split at taken
        · rename_i db applied
          cases taken
          exact .recover found (by simpa using allowed.1) allowed.2 built applied
        · cases taken
      · cases taken
  · cases taken

theorem stepped_of_reap {unlinked cleared : List FrameName}
    (taken : before.reap unlinked cleared = some after) :
    Stepped catalog before (.reap unlinked cleared) after := by
  unfold reap at taken
  split at taken
  · cases taken
  · rename_i guard
    split at taken
    · rename_i db applied
      cases taken
      rw [not_or, not_not, List.all_eq_true] at guard
      exact .reap (by simpa using guard.1) guard.2 applied
    · cases taken

theorem stepped_of_acknowledge {returned : Bool}
    (taken : before.acknowledge aspect returned = some after) :
    Stepped catalog before (.acknowledge aspect returned) after := by
  unfold acknowledge at taken
  simp only at taken
  split at taken
  · rename_i nothing
    cases taken
    exact .acknowledgeNothing nothing
  · split at taken
    · cases taken
    · rename_i healthy
      split at taken
      · rename_i db applied
        cases taken
        exact .acknowledge (by simpa using healthy) applied
      · cases taken

theorem stepped_of_step {action : Action} (taken : step catalog before action = some after) :
    Stepped catalog before action after := by
  cases action with
  | call request =>
      obtain ⟨work, started, rfl⟩ := map_eq_some_iff.mp taken
      exact .call started
  | check id chunks => exact stepped_of_check taken
  | writeFrame id => exact stepped_of_writeFrame taken
  | planOutputs id outputs => exact stepped_of_planOutputs taken
  | writeOutput id =>
      simp only [step, writeOutput] at taken
      split at taken
      · rename_i found
        cases taken
        exact .writeOutput found
      · cases taken
  | enter id aspect => exact stepped_of_enter taken
  | allocate id => exact stepped_of_allocate taken
  | prepare id step createdMs => exact stepped_of_prepare taken
  | land id => exact stepped_of_land taken
  | settle id => exact stepped_of_settle taken
  | refuse id kind => exact stepped_of_refuse taken
  | ambiguous id => exact stepped_of_ambiguous taken
  | fault id => exact stepped_of_fault taken
  | drop id =>
      obtain ⟨task, found, rfl⟩ := map_eq_some_iff.mp taken
      exact .drop found
  | recover id step => exact stepped_of_recover taken
  | finishRecovery id =>
      simp only [step, finishRecovery] at taken
      split at taken
      · rename_i found
        cases taken
        exact .finishRecovery found
      · cases taken
  | reap unlinked cleared => exact stepped_of_reap taken
  | consume aspect =>
      cases taken
      exact .consume
  | acknowledge aspect returned => exact stepped_of_acknowledge taken
  | forget aspect =>
      cases taken
      exact .forget
  | crash frames quarantined =>
      cases taken
      exact .crash

end Store

end WeftDb
