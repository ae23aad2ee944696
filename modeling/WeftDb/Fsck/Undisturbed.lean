import WeftDb.Fsck.Lawful

/-!
# What the writers leave alone

`Confined` says of a frame which no writer will ever place that only one row can name it.  The
writers keep the store sound and such frames confined, whatever they do between two accesses of
the pass.
-/

namespace WeftDb.Fsck

open IndexDb

variable (reader : FrameReader)
variable {id : WriterId} {key : AspectName × Nat} {writer : Writer} {stored : AspectName × IndexRow}
  {db : IndexDb} {ops : List IndexOp}

/-- The name of a frame which is still to be handed out. -/
def Fresh (shared : Shared) (name : FrameName) : Prop :=
  ∃ stem gen prec, name = .writeOnce stem gen prec ∧ shared.nextGen stem ≤ gen

/-- No writer places the frame, no adoption brings it in, and only the row under the key can name
it. -/
structure Confined (shared : Shared) (name : FrameName) (key : AspectName × Nat) : Prop where
  used : ¬Fresh shared name
  unowned : ¬Owned shared name
  unheld : ¬Held shared.root.db name
  homed : Homed reader shared.root.db name key

/-- No row names the frame, and none ever will. -/
def Spent (shared : Shared) (name : FrameName) : Prop :=
  ∀ key, Confined reader shared name key

/-- What holds of a write under way. -/
structure WriterSound (shared : Shared) (writer : Writer) : Prop where
  nodup : writer.names.Nodup
  used : ∀ name ∈ writer.names, ¬Fresh shared name
  unheld : ∀ name ∈ writer.names, ¬Held shared.root.db name
  unnamed : ∀ name ∈ writer.names, ¬Named reader shared.root.db name
  places : writer.work.Places writer.names
  lawful : ∀ ops, writer.ops = some ops → Lawful writer.kept writer.names ops
  keeps : ∀ member ∈ writer.kept, KeepsName reader shared.root.db member

/-- The store between two accesses. -/
structure Sound (shared : Shared) : Prop where
  once : ClaimedOnce reader shared.root.db
  named_used : ∀ name, Named reader shared.root.db name → ¬Fresh shared name
  named_unheld : ∀ name, Named reader shared.root.db name → ¬Held shared.root.db name
  held_used : ∀ name, Held shared.root.db name → ¬Fresh shared name
  files_used : ∀ file ∈ shared.root.files, ¬Fresh shared file.1
  writers : ∀ id writer, shared.writers id = some writer → WriterSound reader shared writer
  apart : ∀ first second left right name, shared.writers first = some left →
    shared.writers second = some right → name ∈ left.names → name ∈ right.names → first = second
  harmed : ∀ name ∈ shared.harmed, Spent reader shared name

/-- What the writers do to the store between two accesses of the pass. -/
structure Undisturbed (before after : Shared) : Prop where
  sound : Sound reader after
  confined : ∀ name key, Confined reader before name key → Confined reader after name key
  held : ∀ name, Held before.root.db name ↔ Held after.root.db name
  harmed : after.harmed = before.harmed

variable {reader} {before after : Shared} {name : FrameName}

theorem Undisturbed.refl (sound : Sound reader before) : Undisturbed reader before before :=
  ⟨sound, fun _ _ confined => confined, fun _ => Iff.rfl, rfl⟩

theorem Undisturbed.trans {middle : Shared} (first : Undisturbed reader before middle)
    (second : Undisturbed reader middle after) : Undisturbed reader before after where
  sound := second.sound
  confined name key confined := second.confined name key (first.confined name key confined)
  held name := (first.held name).trans (second.held name)
  harmed := second.harmed.trans first.harmed

section

variable (spent : Spent reader before name)

include spent

theorem Spent.not_named : ¬Named reader before.root.db name :=
  not_named_of_homed fun key => (spent key).homed

theorem Spent.not_owned : ¬Owned before name :=
  (spent ("", 0)).unowned

theorem Spent.not_held : ¬Held before.root.db name :=
  (spent ("", 0)).unheld

end

theorem spent_of (used : ¬Fresh before name) (unowned : ¬Owned before name)
    (unheld : ¬Held before.root.db name) (unnamed : ¬Named reader before.root.db name) :
    Spent reader before name :=
  fun key => ⟨used, unowned, unheld, homed_of_not_named unnamed key⟩

theorem Undisturbed.spent (undisturbed : Undisturbed reader before after)
    (spent : Spent reader before name) : Spent reader after name :=
  fun key => undisturbed.confined name key (spent key)

theorem Sound.unharmed {system : System} (sound : Sound reader system.shared) :
    system.Unharmed reader :=
  fun name member =>
    ⟨(sound.harmed name member).not_named, (sound.harmed name member).not_owned⟩

/-- A step of one writer which changes neither the rows nor the journal.  Whatever the writer owns
afterwards it owned before or was handed out just now. -/
structure Moves (before after : Shared) (id : WriterId) : Prop where
  db : after.root.db = before.root.db
  harmed : after.harmed = before.harmed
  gens : ∀ stem, before.nextGen stem ≤ after.nextGen stem
  files : ∀ file ∈ after.root.files, ¬Fresh after file.1
  others : ∀ other, other ≠ id → after.writers other = before.writers other
  handed : ∀ writer, after.writers id = some writer → ∀ name ∈ writer.names,
    Fresh before name ∨ ∃ old, before.writers id = some old ∧ name ∈ old.names

section

variable (moves : Moves before after id)

include moves

theorem Moves.fresh (fresh : Fresh after name) : Fresh before name := by
  obtain ⟨stem, gen, prec, rfl, reached⟩ := fresh
  exact ⟨stem, gen, prec, rfl, (moves.gens stem).trans reached⟩

theorem Moves.owned (owned : Owned after name) : Owned before name ∨ Fresh before name := by
  obtain ⟨other, writer, found, member⟩ := owned
  by_cases same : other = id
  · subst same
    rcases moves.handed writer found name member with fresh | ⟨old, old_found, old_member⟩
    · exact .inr fresh
    · exact .inl ⟨other, old, old_found, old_member⟩
  · exact .inl ⟨other, writer, (moves.others other same) ▸ found, member⟩

theorem Moves.confined (confined : Confined reader before name key) :
    Confined reader after name key where
  used fresh := confined.used (moves.fresh fresh)
  unowned owned := (moves.owned owned).elim confined.unowned confined.used
  unheld := moves.db ▸ confined.unheld
  homed := moves.db ▸ confined.homed

theorem Moves.writerSound (sound : WriterSound reader before writer) :
    WriterSound reader after writer where
  nodup := sound.nodup
  used name member fresh := sound.used name member (moves.fresh fresh)
  unheld := moves.db ▸ sound.unheld
  unnamed := moves.db ▸ sound.unnamed
  places := sound.places
  lawful := sound.lawful
  keeps := moves.db ▸ sound.keeps

theorem Moves.undisturbed (sound : Sound reader before)
    (own : ∀ writer, after.writers id = some writer → WriterSound reader after writer) :
    Undisturbed reader before after where
  sound := by
    refine ⟨moves.db ▸ sound.once, fun name named fresh => ?_, moves.db ▸ sound.named_unheld,
      fun name held fresh => ?_, moves.files, fun other writer found => ?_, ?_,
      fun name member key => ?_⟩
    · rw [moves.db] at named
      exact sound.named_used name named (moves.fresh fresh)
    · rw [moves.db] at held
      exact sound.held_used name held (moves.fresh fresh)
    · by_cases same : other = id
      · subst same
        exact own writer found
      · rw [moves.others other same] at found
        exact moves.writerSound (sound.writers other writer found)
    · -- Two writers which own one name: one of them was handed it just now.
      have crossed (other : WriterId) (different : other ≠ id) {left right : Writer}
          {name : FrameName} (left_found : after.writers other = some left)
          (right_found : after.writers id = some right) (left_mem : name ∈ left.names)
          (right_mem : name ∈ right.names) : False := by
        rw [moves.others other different] at left_found
        rcases moves.handed right right_found name right_mem with
          fresh | ⟨old, old_found, old_member⟩
        · exact (sound.writers other left left_found).used name left_mem fresh
        · exact different
            (sound.apart other id left old name left_found old_found left_mem old_member)
      intro first second left right name left_found right_found left_mem right_mem
      by_cases first_own : first = id
      · by_cases second_own : second = id
        · rw [first_own, second_own]
        · subst first_own
          exact (crossed second second_own right_found left_found right_mem left_mem).elim
      · by_cases second_own : second = id
        · subst second_own
          exact (crossed first first_own left_found right_found left_mem right_mem).elim
        · rw [moves.others first first_own] at left_found
          rw [moves.others second second_own] at right_found
          exact sound.apart first second left right name left_found right_found left_mem right_mem
    · rw [moves.harmed] at member
      exact moves.confined (sound.harmed name member key)
  confined _ _ confined := moves.confined confined
  held name := by rw [moves.db]
  harmed := moves.harmed

end

/-- What a transaction does to the index: it leaves alone what is not its own, and each of its own
frames is named by one row at most. -/
structure Lands (reader : FrameReader) (db after : IndexDb) (names : List FrameName) : Prop where
  homed : ∀ name key, name ∉ names → Homed reader db name key → Homed reader after name key
  own : ∀ name ∈ names, ∃ key, Homed reader after name key
  held : ∀ name, name ∉ names → (Held db name ↔ Held after name)

theorem Publishes.named (published : Publishes name stored) :
    reader.rowName stored.2 = some name := by
  rw [FrameReader.rowName, published]

theorem Publishes.eq {other : FrameName} (published : Publishes other stored)
    (named : reader.rowName stored.2 = some name) : other = name :=
  Option.some.inj (published.named.symm.trans named)

theorem lands_of_lawful {shared : Shared} (sound : WriterSound reader shared writer)
    (lawful : Lawful writer.kept writer.names ops) (applied : shared.root.db.applyAll ops = .ok db)
    (spares : ∀ op ∈ ops, ∀ member ∈ writer.kept, SparesVersion reader op member) :
    Lands reader shared.root.db db writer.names where
  homed name key foreign homed := by
    refine homed.written applied sound.keeps spares fun op op_mem =>
      (lawful.rows op op_mem).imp_right fun placed stored put named => ?_
    obtain ⟨other, other_mem, published⟩ := placed stored put
    exact absurd (published.eq named ▸ other_mem) foreign
  own name member := by
    obtain ⟨key, once⟩ := lawful.once name
    refine ⟨key, (homed_of_not_named (sound.unnamed name member) key).written applied sound.keeps
      spares fun op op_mem => ?_⟩
    rcases lawful.rows op op_mem with rewrites | placed
    · exact .inl rewrites
    · refine (once op op_mem).imp_right fun keyed stored put named => ?_
      obtain ⟨other, other_mem, published⟩ := placed stored put
      exact keyed stored put (published.eq named ▸ published)
  held name foreign := by
    constructor
    · exact fun held => held_kept_of_applyAll applied held fun cleared =>
        foreign (lawful.journal _ cleared)
    · exact held_of_applyAll applied fun op op_mem => (lawful.journal op op_mem).holdsNone

section Landing

variable {names : List FrameName}

theorem Lands.unnamed (lands : Lands reader before.root.db db names) (foreign : name ∉ names)
    (free : ¬Named reader before.root.db name) : ¬Named reader db name :=
  not_named_of_homed fun key => lands.homed name key foreign (homed_of_not_named free key)

theorem Lands.named_or (lands : Lands reader before.root.db db names)
    (named : Named reader db name) : Named reader before.root.db name ∨ name ∈ names := by
  by_cases member : name ∈ names
  · exact .inr member
  · exact .inl (by_contra fun free => lands.unnamed member free named)

/-- A step which commits a transaction: nobody is handed a frame, and the writers left own none of
the transaction's. -/
structure Commits (before after : Shared) (names : List FrameName) : Prop where
  files : after.root.files = before.root.files
  gens : after.nextGen = before.nextGen
  writers : ∀ id writer, after.writers id = some writer →
    before.writers id = some writer ∧ ∀ name ∈ writer.names, name ∉ names

variable (commits : Commits before after names)

include commits

theorem Commits.fresh : Fresh after name ↔ Fresh before name := by
  unfold Fresh
  rw [commits.gens]

theorem Commits.confined (lands : Lands reader before.root.db after.root.db names)
    (foreign : name ∉ names) (confined : Confined reader before name key) :
    Confined reader after name key where
  used fresh := confined.used (commits.fresh.mp fresh)
  unowned := by
    rintro ⟨id, writer, found, member⟩
    exact confined.unowned ⟨id, writer, (commits.writers id writer found).1, member⟩
  unheld held := confined.unheld ((lands.held name foreign).mpr held)
  homed := lands.homed name key foreign confined.homed

theorem Commits.sound (lands : Lands reader before.root.db after.root.db names)
    (sound : Sound reader before) (used : ∀ name ∈ names, ¬Fresh before name)
    (unheld : ∀ name ∈ names, ¬Held after.root.db name)
    (keeps : ∀ id writer, after.writers id = some writer →
      ∀ member ∈ writer.kept, KeepsName reader after.root.db member)
    (harmed : ∀ name ∈ after.harmed, Spent reader after name) : Sound reader after where
  once name := by
    by_cases member : name ∈ names
    · exact lands.own name member
    · obtain ⟨key, homed⟩ := sound.once name
      exact ⟨key, lands.homed name key member homed⟩
  named_used name named fresh := by
    rcases lands.named_or named with kept | member
    · exact sound.named_used name kept (commits.fresh.mp fresh)
    · exact used name member (commits.fresh.mp fresh)
  named_unheld name named held := by
    by_cases member : name ∈ names
    · exact unheld name member held
    · rcases lands.named_or named with kept | own
      · exact sound.named_unheld name kept ((lands.held name member).mpr held)
      · exact member own
  held_used name held fresh := by
    by_cases member : name ∈ names
    · exact unheld name member held
    · exact sound.held_used name ((lands.held name member).mpr held) (commits.fresh.mp fresh)
  files_used file member fresh :=
    sound.files_used file (commits.files ▸ member) (commits.fresh.mp fresh)
  writers id writer found := by
    obtain ⟨found_before, foreign⟩ := commits.writers id writer found
    have own := sound.writers id writer found_before
    exact ⟨own.nodup, fun name member fresh => own.used name member (commits.fresh.mp fresh),
      fun name member held =>
        own.unheld name member ((lands.held name (foreign name member)).mpr held),
      fun name member => lands.unnamed (foreign name member) (own.unnamed name member),
      own.places, own.lawful, keeps id writer found⟩
  apart first second left right name left_found right_found :=
    sound.apart first second left right name (commits.writers first left left_found).1
      (commits.writers second right right_found).1
  harmed := harmed

end Landing

theorem undisturbed_of_landing (sound : Sound reader before)
    (found : before.writers id = some writer) (lawful : Lawful writer.kept writer.names ops)
    (applied : before.root.db.applyAll ops = .ok db)
    (spares : ∀ other rival, before.writers other = some rival → ∀ member ∈ rival.kept,
      ∀ op ∈ ops, SparesVersion reader op member) :
    Undisturbed reader before
      { before.setWriter id none with root := { before.root with db } } := by
  have own := sound.writers id writer found
  have lands := lands_of_lawful own lawful applied
    fun op op_mem member member_mem => spares id writer found member member_mem op op_mem
  have commits : Commits before { before.setWriter id none with root := { before.root with db } }
      writer.names := by
    refine ⟨rfl, rfl, fun other rival rival_found => ?_⟩
    by_cases same : other = id
    · subst same
      simp [Shared.setWriter] at rival_found
    · simp only [Shared.setWriter, Function.update_of_ne same] at rival_found
      exact ⟨rival_found, fun name member own_mem =>
        same (sound.apart other id rival writer name rival_found found member own_mem)⟩
  have confined (name : FrameName) (key : AspectName × Nat)
      (confined : Confined reader before name key) : Confined reader
        { before.setWriter id none with root := { before.root with db } } name key :=
    commits.confined lands (fun member => confined.unowned ⟨id, writer, found, member⟩) confined
  have unheld (name : FrameName) (member : name ∈ writer.names) : ¬Held db name := by
    intro held
    exact own.unheld name member (held_of_applyAll applied
      (fun op op_mem => (lawful.journal op op_mem).holdsNone) held)
  refine ⟨commits.sound lands sound own.used unheld (fun other rival rival_found member
    member_mem => ?_) fun name member key => confined name key (sound.harmed name member key),
    confined, fun name => ?_, rfl⟩
  · have rival_before := (commits.writers other rival rival_found).1
    exact ((sound.writers other rival rival_before).keeps member member_mem).applyAll applied
      fun op op_mem => spares other rival rival_before member member_mem op op_mem
  · by_cases member : name ∈ writer.names
    · exact ⟨fun held => absurd held (own.unheld name member),
        fun held => absurd held (unheld name member)⟩
    · exact lands.held name member

end WeftDb.Fsck
