import WeftDb.Fsck.PassSafe
import WeftDb.Store.ExactlyOnce

/-!
# The pass harms no writer

A run starts at a store which nothing works on.  As long as every orphan read of a claimed or
owned file finds it whole, no frame which the pass harms is ever named by a live row or owned by
a write under way.
-/

namespace WeftDb.Fsck

open IndexDb Program

variable (reader : FrameReader) (catalog : Catalog)
variable {shared : Shared}

/-- A store which nothing works on: every frame is named once at most and by no held entry, and
the generations to be handed out are new. -/
structure Filed (system : System) : Prop where
  idle : system.pass = none
  unwritten : ∀ id, system.shared.writers id = none
  once : ClaimedOnce reader system.shared.root.db
  named_used : ∀ name, Named reader system.shared.root.db name → ¬Fresh system.shared name
  named_unheld : ∀ name, Named reader system.shared.root.db name →
    ¬Held system.shared.root.db name
  held_used : ∀ name, Held system.shared.root.db name → ¬Fresh system.shared name
  files_used : ∀ file ∈ system.shared.root.files, ¬Fresh system.shared file.1
  unharmed : system.shared.harmed = []

/-- The store is sound, and what is left of the pass keeps it so. -/
structure Guards (system : System) : Prop where
  sound : Sound reader system.shared
  pass : ∀ program, system.pass = some program →
    Guarded reader (fun _ => Sound reader) program system.shared

variable {reader catalog} {before after : System} {action : Action}

theorem Filed.guards (filed : Filed reader before) : Guards reader before where
  sound :=
    { once := filed.once
      named_used := filed.named_used
      named_unheld := filed.named_unheld
      held_used := filed.held_used
      files_used := filed.files_used
      writers := fun id writer found => by rw [filed.unwritten id] at found; cases found
      apart := fun first second left right name found => by
        rw [filed.unwritten first] at found; cases found
      harmed := fun name member => by rw [filed.unharmed] at member; cases member }
  pass program running := by rw [filed.idle] at running; cases running

theorem Sound.start (sound : Sound reader shared) : Sound reader { shared with harmed := [] } where
  once := sound.once
  named_used := sound.named_used
  named_unheld := sound.named_unheld
  held_used := sound.held_used
  files_used := sound.files_used
  writers id writer found :=
    have own := sound.writers id writer found
    ⟨own.nodup, own.used, own.unheld, own.unnamed, own.places, own.lawful, own.keeps⟩
  apart := sound.apart
  harmed name member := by cases member

theorem allowed_of_whole {request : Request} {next : Reply request → Recovery RecoveryReport}
    (whole : Whole reader before .pass) (running : before.pass = some (.ask request next)) :
    Allowed reader request before.shared := by
  constructor
  · rintro name rfl claims bytes found
    exact whole.orphans name (by rw [orphanRead, running]) claims bytes found
  · rintro ops rfl id writer writing member member_mem op op_mem
    exact whole.versions id writer writing member member_mem op
      (by rw [committed, running]; exact op_mem)

theorem Guards.pass_step (guards : Guards reader before) (whole : Whole reader before .pass)
    (taken : step reader catalog before .pass = some after) : Guards reader after := by
  simp only [step] at taken
  split at taken
  · rename_i request next running
    cases taken
    obtain ⟨sound, safe⟩ := guards.pass _ running before.shared Undisturbed.refl
      ⟨guards.sound, allowed_of_whole whole running⟩
    refine ⟨sound, fun program left => ?_⟩
    obtain rfl := Option.some.inj left
    exact safe
  · cases taken
    exact ⟨guards.sound, fun program left => by cases left⟩
  · cases taken

theorem Guards.writer_step (guards : Guards reader before) (whole : Whole reader before action)
    (taken : before.shared.advance catalog action = some shared) :
    Guards reader { before with shared } := by
  have undisturbed : Undisturbed reader before.shared shared := by
    refine advance_undisturbed guards.sound (fun id writer found member member_mem op op_mem => ?_)
      taken
    refine whole.versions id writer found member member_mem op ?_
    cases action with
    | pass => cases taken
    | _ => exact op_mem
  exact ⟨undisturbed.sound, fun program running =>
    (guards.pass program running).rely (fun _ => undisturbed) fun _ _ => undisturbed.sound⟩

theorem Guards.step (guards : Guards reader before) (whole : Whole reader before action)
    (taken : step reader catalog before action = some after) : Guards reader after := by
  cases action with
  | startPass =>
      simp only [Fsck.step] at taken
      split at taken
      · cases taken
      · cases taken
        refine ⟨guards.sound.start, fun program left => ?_⟩
        obtain rfl := Option.some.inj left
        exact fsck_guarded guards.sound.start
  | pass => exact guards.pass_step whole taken
  | failPass =>
      obtain ⟨program, -, rfl⟩ := Option.map_eq_some_iff.mp taken
      exact ⟨guards.sound, fun program left => by cases left⟩
  | tick now =>
      have advanced : before.shared.advance catalog (.tick now) =
        some { before.shared with root := { before.shared.root with now } } := rfl
      cases taken
      exact guards.writer_step whole advanced
  | _ =>
      have mapped : (before.shared.advance catalog _).map (fun shared => { before with shared }) =
        some after := taken
      obtain ⟨shared, advanced, rfl⟩ := Option.map_eq_some_iff.mp mapped
      exact guards.writer_step whole advanced

/-- In every run in which the orphan pass finds the claimed files whole, no frame which the pass
harmed is named by a live row or owned by a write under way. -/
theorem unharmed_of_run {actions : List Action} (filed : Filed reader before)
    (whole : Execution.Meets (step reader catalog) (Whole reader) before actions)
    (execution : Execution.run (step reader catalog) before actions = some after) :
    after.Unharmed reader :=
  (Execution.invariant_of_run (Guards reader)
    (fun guards whole taken => guards.step whole taken) filed.guards whole execution).sound.unharmed

/-- A frame of two bytes; anything else does not decode. -/
def twoByteReader : FrameReader where
  describeFrame := fun _ => .error "no frame"
  readFull := fun _ bytes =>
    if bytes = [1, 1] then .ok Store.oneRowChunk.desc else .error ⟨.integrity, "torn"⟩
  crcVerified := fun _ => false
  fromCanonical := fun _ => .error "no key"
  fileName := fun _ => none

/-- A store without rows and files. -/
def emptySystem : System where
  shared :=
    { root :=
        { db := .fresh, files := .empty, quarantined := .empty, declared := ["a"]
          allocators := fun _ => none, now := 0 }
      nextGen := fun _ => 1
      writers := fun _ => none
      harmed := [] }
  pass := none

theorem emptySystem_filed : Filed twoByteReader emptySystem where
  idle := rfl
  unwritten _ := rfl
  once _ := ⟨("", 0), fun _ member => by cases member⟩
  named_used := by rintro _ ⟨_, member, _⟩; cases member
  named_unheld := by rintro _ ⟨_, member, _⟩; cases member
  held_used := by rintro _ ⟨_, member, _⟩; cases member
  files_used _ member := by cases member
  unharmed := rfl

/-- A seal which has created its frame. -/
def sealing : List Action :=
  [ .beginSeal 0 "a", .nameFrame 0 ⟨Store.oneRowChunk.desc, 1, [1, 1]⟩,
    .createFile 0 (frameName "a" 1 1) ]

/-- What is decided of a step below: the orphan pass finds what it reads whole, and nothing is
committed. -/
def ReadsWhole (reader : FrameReader) (system : System) (action : Action) : Prop :=
  (∀ name ∈ orphanRead system action, ∀ bytes ∈ contents system.shared.root.files name,
    (reader.readFull name bytes).isOk = true) ∧ committed system action = []

instance (reader : FrameReader) (system : System) (action : Action) :
    Decidable (ReadsWhole reader system action) :=
  inferInstanceAs (Decidable (_ ∧ _))

theorem whole_of_readsWhole {system : System} (reads : ReadsWhole reader system action) :
    Whole reader system action := by
  constructor
  · intro name read _ bytes found
    have decodes := reads.1 name read bytes found
    cases decoded : reader.readFull name bytes with
    | ok desc => exact ⟨desc, rfl⟩
    | error fault =>
        rw [decoded] at decodes
        cases decodes
  · intro id writer _ member _ op op_mem
    rw [reads.2] at op_mem
    cases op_mem

/-- The seal writes its frame whole, a pass runs from its start to its end, and the seal builds
its transaction. -/
def wholeSeal : List Action :=
  sealing ++ [.writeFile 0 (frameName "a" 1 1) [1, 1], .startPass] ++ List.replicate 9 .pass ++
    [.prepare 0]

theorem wholeSeal_unharmed : ∃ after,
    Execution.run (step twoByteReader Store.openCatalog) emptySystem wholeSeal = some after ∧
      after.Unharmed twoByteReader := by
  have runs : (Execution.run (step twoByteReader Store.openCatalog) emptySystem wholeSeal).isSome := by
    decide
  obtain ⟨after, execution⟩ := Option.isSome_iff_exists.mp runs
  refine ⟨after, execution, unharmed_of_run emptySystem_filed (Execution.Meets.mono
    (fun _ _ => whole_of_readsWhole) ?_) execution⟩
  decide

/-- The pass reads the frame when half of it is written and moves it to the quarantine, and then
the seal writes the rest and commits its row. -/
def tornSeal : List Action :=
  sealing ++ [.writeFile 0 (frameName "a" 1 1) [1], .startPass] ++ List.replicate 9 .pass ++
    [.writeFile 0 (frameName "a" 1 1) [1, 1], .prepare 0, .land 0]

/-- The row of the seal is live and its frame is gone. -/
theorem tornSeal_harmed : Filed twoByteReader emptySystem ∧ ∃ after,
    Execution.run (step twoByteReader Store.openCatalog) emptySystem tornSeal = some after ∧
      contents after.shared.root.files (frameName "a" 1 1) = none ∧
      Named twoByteReader after.shared.root.db (frameName "a" 1 1) ∧
      ¬after.Unharmed twoByteReader := by
  have runs : (Execution.run (step twoByteReader Store.openCatalog) emptySystem tornSeal).any
      (fun after => decide (contents after.shared.root.files (frameName "a" 1 1) = none ∧
        frameName "a" 1 1 ∈ claimed twoByteReader after.shared.root.db ∧
        frameName "a" 1 1 ∈ after.shared.harmed)) = true := by
    decide
  obtain ⟨after, execution, found⟩ := (Option.any_eq_true _ _).mp runs
  obtain ⟨gone, live, harmed⟩ := of_decide_eq_true found
  have named := mem_claimed.mp live
  exact ⟨emptySystem_filed, after, execution, gone, named, fun unharmed =>
    (unharmed _ harmed).1 named⟩

end WeftDb.Fsck
