import WeftDb.Format.Opening

/-!
# The floors never lag the data

Every step keeps the floors of the marker above those of its copy and of each migration any part of
which may have been applied, so settling the marker never moves a floor.  What a build of an older
layout leaves behind is re-derived as long as the marker says that it wrote.
-/

namespace WeftDb.Opening

variable {named : MigrationId → Migration}
variable {format marker : StoreFormat} {root : Root} {build : Build named} {migration : Migration}

/-- What the open under way keeps to, by where it is. -/
def Process.Holds (root : Root) : Process named → Prop
  | .closed _ => True
  | .gated build format newer =>
      format = foundFormat build root ∧ newer = Newer build format ∧
        (newer = true → root.marker = some format)
  | .prechecked build format newer done =>
      (format = foundFormat build root ∧ newer = Newer build format ∧
        (newer = true → root.marker = some format)) ∧
          ∀ ids ∈ done, ids = root.storeMigrations
  | .raised build format newer done =>
      (root.marker = some format ∧ newer = Newer build format) ∧
        ∀ ids ∈ done, ids = root.storeMigrations
  | .created build format newer done =>
      (root.marker = some format ∧ newer = Newer build format) ∧
        ∀ ids ∈ done, ids = root.storeMigrations
  | .applying build format done left begun =>
      root.marker = some format ∧ done = root.storeMigrations ∧
        (∀ migration ∈ left, migration ∈ build.registry ∧ format.Covers migration) ∧
          (∀ migration ∈ build.registry, migration.id ∈ done ∨ migration ∈ left) ∧
            (begun = true → ∀ migration ∈ left.head?, migration ∈ root.changed)
  | .rederiving build format left =>
      root.marker = some format ∧
        (∀ migration ∈ build.registry, migration.id ∈ root.storeMigrations) ∧
          ∀ migration ∈ left, migration ∈ build.registry ∧ migration.olderWritersSafe = true
  | .mirroring build format newer =>
      root.marker = some format ∧ (newer = true → Newer build format = true) ∧
        (newer = false → ∀ migration ∈ build.registry, migration.id ∈ root.storeMigrations)
  | .settling build settled newer =>
      ∃ format, root.marker = some format ∧ settled = settledFormat build format newer ∧
        (newer = true → Newer build format = true) ∧
          (newer = false → ∀ migration ∈ build.registry, migration.id ∈ root.storeMigrations)
  | .opened build newer _ handed =>
      ∃ marker, root.marker = some marker ∧
        (newer = false → (∀ migration ∈ build.registry, migration.id ∈ root.storeMigrations) ∧
          marker.migratingTo = none) ∧
        ∀ level ∈ handed, level ≤ marker.minReadLayout ∧ level ≤ marker.minWriteLayout

/-- The invariant between two steps. -/
structure Sound (system : System named) : Prop where
  /-- The floors of the copy are at most the marker's. -/
  recordedRead : ∀ read ∈ system.root.storeMeta.minReadLayout,
    ∃ marker ∈ system.root.marker, read ≤ marker.minReadLayout
  recordedWrite : ∀ write ∈ system.root.storeMeta.minWriteLayout,
    ∃ marker ∈ system.root.marker, write ≤ marker.minWriteLayout
  covered : ∀ migration ∈ system.root.changed,
    ∃ marker ∈ system.root.marker, marker.Covers migration
  applied : ∀ id ∈ system.root.storeMigrations,
    named id ∈ system.root.changed ∧ (named id).id = id
  process : system.process.Holds system.root

/-- The floors on disk, the marker's and the copy's, only go up. -/
structure Root.FloorsBelow (before after : Root) : Prop where
  marker : ∀ lower ∈ before.marker, ∃ upper ∈ after.marker, lower.Below upper
  read : ∀ lower ∈ before.storeMeta.minReadLayout,
    ∃ upper ∈ after.storeMeta.minReadLayout, lower ≤ upper
  write : ∀ lower ∈ before.storeMeta.minWriteLayout,
    ∃ upper ∈ after.storeMeta.minWriteLayout, lower ≤ upper

theorem Root.FloorsBelow.refl (root : Root) : root.FloorsBelow root :=
  ⟨fun lower member => ⟨lower, member, .refl lower⟩, fun lower member => ⟨lower, member, le_rfl⟩,
    fun lower member => ⟨lower, member, le_rfl⟩⟩

theorem Root.FloorsBelow.trans {before middle after : Root} (first : before.FloorsBelow middle)
    (second : middle.FloorsBelow after) : before.FloorsBelow after where
  marker := by
    intro lower member
    obtain ⟨between, between_mem, below⟩ := first.marker lower member
    obtain ⟨upper, upper_mem, above⟩ := second.marker between between_mem
    exact ⟨upper, upper_mem, below.trans above⟩
  read := by
    intro lower member
    obtain ⟨between, between_mem, below⟩ := first.read lower member
    obtain ⟨upper, upper_mem, above⟩ := second.read between between_mem
    exact ⟨upper, upper_mem, below.trans above⟩
  write := by
    intro lower member
    obtain ⟨between, between_mem, below⟩ := first.write lower member
    obtain ⟨upper, upper_mem, above⟩ := second.write between between_mem
    exact ⟨upper, upper_mem, below.trans above⟩

/-- A step which leaves the floors, the copy, and the migrations' traces. -/
structure Root.SameFloors (before after : Root) : Prop where
  marker : ∀ lower ∈ before.marker, ∃ upper ∈ after.marker, lower.Below upper
  storeMeta : after.storeMeta = before.storeMeta
  changed : after.changed = before.changed
  storeMigrations : after.storeMigrations = before.storeMigrations

variable {before after : System named}

theorem Root.SameFloors.floorsBelow {before after : Root} (same : before.SameFloors after) :
    before.FloorsBelow after where
  marker := same.marker
  read := fun lower member => ⟨lower, same.storeMeta ▸ member, le_rfl⟩
  write := fun lower member => ⟨lower, same.storeMeta ▸ member, le_rfl⟩

theorem Sound.same (sound : Sound before) (same : before.root.SameFloors after.root)
    (holds : after.process.Holds after.root) : Sound after where
  recordedRead := by
    intro read member
    rw [same.storeMeta] at member
    obtain ⟨marker, marker_mem, le⟩ := sound.recordedRead read member
    obtain ⟨upper, upper_mem, below⟩ := same.marker marker marker_mem
    exact ⟨upper, upper_mem, le.trans below.1⟩
  recordedWrite := by
    intro write member
    rw [same.storeMeta] at member
    obtain ⟨marker, marker_mem, le⟩ := sound.recordedWrite write member
    obtain ⟨upper, upper_mem, below⟩ := same.marker marker marker_mem
    exact ⟨upper, upper_mem, le.trans below.2⟩
  covered := by
    intro migration member
    rw [same.changed] at member
    obtain ⟨marker, marker_mem, covers⟩ := sound.covered migration member
    obtain ⟨upper, upper_mem, below⟩ := same.marker marker marker_mem
    exact ⟨upper, upper_mem, below.covers covers⟩
  applied := by
    rw [same.storeMigrations, same.changed]
    exact sound.applied
  process := holds

theorem sameFloors_of_marker {before after : Root} (marker : after.marker = before.marker)
    (storeMeta : after.storeMeta = before.storeMeta) (changed : after.changed = before.changed)
    (storeMigrations : after.storeMigrations = before.storeMigrations) :
    before.SameFloors after :=
  ⟨fun lower member => ⟨lower, marker ▸ member, .refl lower⟩, storeMeta, changed, storeMigrations⟩

theorem sameFloors_of_format (below : ∀ lower ∈ root.marker, lower.Below format) :
    root.SameFloors { root with marker := some format } :=
  ⟨fun lower member => ⟨format, rfl, below lower member⟩, rfl, rfl, rfl⟩

theorem openStore_refused {holder : Nat} {refusal : Option StoreError}
    (closed : before.process = .closed refusal) (found : before.root.marker = some marker)
    (newer : build.supportedLayout < marker.minWriteLayout) :
    openStore build holder before =
      some ⟨{ before.root with lockHolder := some holder },
        .closed (some (.incompatibleLayout marker.minWriteLayout build.supportedLayout))⟩ := by
  have unwritable : ¬marker.WritableBy build.supportedLayout := Nat.not_le_of_lt newer
  simp only [openStore, closed, openGates, found, Option.filter_some, unwritable, not_false_eq_true,
    decide_true, if_true]

theorem Sound.unmarked (sound : Sound before) (none_found : before.root.marker = none) :
    before.root.storeMeta.minWriteLayout = none ∧ before.root.storeMigrations = [] := by
  refine ⟨Option.eq_none_iff_forall_not_mem.mpr fun write member => ?_,
    List.eq_nil_iff_forall_not_mem.mpr fun id member => ?_⟩
  · obtain ⟨marker, marker_mem, -⟩ := sound.recordedWrite write member
    rw [none_found] at marker_mem
    cases marker_mem
  · obtain ⟨marker, marker_mem, -⟩ := sound.covered _ (sound.applied id member).1
    rw [none_found] at marker_mem
    cases marker_mem

theorem foundFormat_marker (found : root.marker = some marker) :
    foundFormat build root = marker := by
  simp only [foundFormat, found]

section

variable (sound : Sound before)

include sound

theorem Sound.newer_marked (passed : openGates build before.root = none)
    (newer : Newer build (foundFormat build before.root) = true) :
    before.root.marker = some (foundFormat build before.root) := by
  cases found : before.root.marker with
  | some marker => rw [foundFormat_marker found]
  | none =>
      have newer := of_decide_eq_true newer
      have unrecorded := (sound.unmarked found).1
      simp only [openGates, found, unrecorded, Option.filter_none] at passed
      cases databases : before.root.databases with
      | false =>
          simp only [foundFormat, found, databases, StoreFormat.newStore] at newer
          exact absurd newer (lt_irrefl _)
      | true =>
          have format : foundFormat build before.root = .legacy := by
            simp only [foundFormat, found, databases, recordedFormat, unrecorded]
            rfl
          rw [format] at passed newer
          have unwritable : ¬StoreFormat.legacy.WritableBy build.supportedLayout :=
            Nat.not_le_of_lt newer
          rw [if_pos unwritable] at passed
          cases passed

theorem Sound.openStore {holder : Nat} (taken : openStore build holder before = some after) :
    Sound after ∧ before.root.FloorsBelow after.root := by
  unfold Opening.openStore at taken
  split at taken
  · next refusal closed =>
      have same : before.root.SameFloors { before.root with lockHolder := some holder } :=
        sameFloors_of_marker rfl rfl rfl rfl
      have locked : Sound (⟨{ before.root with lockHolder := some holder }, .closed none⟩ :
          System named) := sound.same same trivial
      simp only at taken
      split at taken
      · cases taken
        exact ⟨sound.same same trivial, same.floorsBelow⟩
      · next passed =>
          cases taken
          exact ⟨sound.same same ⟨rfl, rfl, fun newer => locked.newer_marked passed newer⟩,
            same.floorsBelow⟩
  · cases taken

theorem Sound.move {next : Process named} (same : before.root.SameFloors root)
    (holds : next.Holds root) : Sound ⟨root, next⟩ ∧ before.root.FloorsBelow root :=
  ⟨sound.same same holds, same.floorsBelow⟩

theorem Sound.stay (next : Process named) (holds : next.Holds before.root) :
    Sound ⟨before.root, next⟩ ∧ before.root.FloorsBelow before.root :=
  sound.move (sameFloors_of_marker rfl rfl rfl rfl) holds

end

theorem mem_pending {registry : List Migration} {applied : List MigrationId}
    (member : migration ∈ registry) :
    migration.id ∈ applied ∨ migration ∈ pending registry applied := by
  by_cases done : migration.id ∈ applied
  · exact .inl done
  · exact .inr (List.mem_filter.mpr ⟨member, decide_eq_true done⟩)

section

variable (sound : Sound before)

include sound

theorem Sound.startMigrations (marker : before.root.marker = some format) :
    Sound (startMigrations build format before.root.storeMigrations before.root) ∧
      before.root.FloorsBelow
        (startMigrations build format before.root.storeMigrations before.root).root := by
  refine sound.move (sameFloors_of_format fun lower member => ?_)
    ⟨rfl, rfl, fun migration member => ?_, fun migration member => mem_pending member,
      fun begun => Bool.noConfusion begun⟩
  · rw [marker] at member
    cases member
    exact below_raisedFor _ _
  · exact ⟨(List.mem_filter.mp member).1, raisedFor_covers format member⟩

theorem Sound.covers_registry (marker : before.root.marker = some format)
    (applied : ∀ migration ∈ build.registry, migration.id ∈ before.root.storeMigrations) :
    ∀ migration ∈ build.registry, format.Covers migration := by
  intro migration member
  have changed := (sound.applied migration.id (applied migration member)).1
  rw [build.identified migration member] at changed
  obtain ⟨found, found_mem, covers⟩ := sound.covered migration changed
  rw [marker] at found_mem
  cases found_mem
  exact covers

theorem Sound.applyMigration {done : List MigrationId} {left : List Migration} {begun : Bool}
    (phase : before.process = .applying build format done (migration :: left) begun)
    (taken : advance true before = some after) :
    Sound after ∧ before.root.FloorsBelow after.root := by
  have holds := sound.process
  rw [phase] at holds
  obtain ⟨marker, rfl, pending, registered, started⟩ := holds
  obtain ⟨registry_mem, covers⟩ := pending migration List.mem_cons_self
  cases begun with
  | false =>
      simp only [advance, phase] at taken
      cases taken
      refine ⟨⟨sound.recordedRead, sound.recordedWrite, fun changed member => ?_, ?_, ?_⟩,
        ⟨fun lower member => ⟨lower, member, .refl lower⟩, fun lower member =>
          ⟨lower, member, le_rfl⟩, fun lower member => ⟨lower, member, le_rfl⟩⟩⟩
      · rcases List.mem_append.mp member with member | member
        · exact sound.covered changed member
        · obtain rfl := List.mem_singleton.mp member
          exact ⟨format, marker, covers⟩
      · exact fun id member => ⟨List.mem_append_left _ (sound.applied id member).1,
          (sound.applied id member).2⟩
      · refine ⟨marker, rfl, pending, registered, fun _ first first_mem => ?_⟩
        cases first_mem
        exact List.mem_append_right _ List.mem_cons_self
  | true =>
      simp only [advance, phase] at taken
      cases taken
      refine ⟨⟨sound.recordedRead, sound.recordedWrite, sound.covered, fun id member => ?_, ?_⟩,
        ⟨fun lower member => ⟨lower, member, .refl lower⟩, fun lower member =>
          ⟨lower, member, le_rfl⟩, fun lower member => ⟨lower, member, le_rfl⟩⟩⟩
      · rcases List.mem_append.mp member with member | member
        · exact sound.applied id member
        · obtain rfl := List.mem_singleton.mp member
          have identified := build.identified migration registry_mem
          rw [identified]
          exact ⟨started rfl migration rfl, rfl⟩
      · refine ⟨marker, rfl,
          fun later later_mem => pending later (List.mem_cons_of_mem _ later_mem),
          fun other other_mem => ?_, fun begun => Bool.noConfusion begun⟩
        rcases registered other other_mem with before_done | waiting
        · exact .inl (List.mem_append_left _ before_done)
        · rcases List.mem_cons.mp waiting with rfl | later
          · exact .inl (List.mem_append_right _ List.mem_cons_self)
          · exact .inr later

theorem Sound.mirror {newer : Bool} (marker : before.root.marker = some format)
    (was_newer : newer = true → Newer build format = true)
    (applied : newer = false →
      ∀ migration ∈ build.registry, migration.id ∈ before.root.storeMigrations) :
    let settled := settledFormat build format newer
    let root :=
      { before.root with storeMeta := mirrorIntoStoreMeta before.root.storeMeta settled }
    Sound ⟨root, .settling build settled newer⟩ ∧ before.root.FloorsBelow root := by
  obtain ⟨read_eq, write_eq⟩ := settledFormat_floors build format newer
    fun current => sound.covers_registry marker (applied current)
  refine ⟨⟨fun read member => ?_, fun write member => ?_, sound.covered, sound.applied,
    ⟨format, marker, rfl, was_newer, applied⟩⟩, fun lower member => ⟨lower, member, .refl lower⟩,
      fun lower member => ?_, fun lower member => ?_⟩
  · cases member
    exact ⟨format, marker, read_eq.le⟩
  · cases member
    exact ⟨format, marker, write_eq.le⟩
  · obtain ⟨found, found_mem, le⟩ := sound.recordedRead lower member
    rw [marker] at found_mem
    cases found_mem
    exact ⟨_, rfl, read_eq ▸ le⟩
  · obtain ⟨found, found_mem, le⟩ := sound.recordedWrite lower member
    rw [marker] at found_mem
    cases found_mem
    exact ⟨_, rfl, write_eq ▸ le⟩

theorem Sound.settle {newer : Bool} {floorEnsured : Nat} (marker : before.root.marker = some format)
    (applied : newer = false →
      ∀ migration ∈ build.registry, migration.id ∈ before.root.storeMigrations) :
    let root := { before.root with marker := some (settledFormat build format newer) }
    Sound ⟨root, .opened build newer floorEnsured []⟩ ∧ before.root.FloorsBelow root := by
  obtain ⟨read_eq, write_eq⟩ := settledFormat_floors build format newer
    fun current => sound.covers_registry marker (applied current)
  refine sound.move (sameFloors_of_format fun lower member => ?_)
    ⟨_, rfl, fun current => ⟨applied current, ?_⟩, fun level member => absurd member
      List.not_mem_nil⟩
  · rw [marker] at member
    cases member
    exact ⟨read_eq.ge, write_eq.ge⟩
  · rw [current]
    rfl

theorem Sound.advance {passes : Bool} (taken : advance passes before = some after) :
    Sound after ∧ before.root.FloorsBelow after.root := by
  cases phase : before.process with
  | closed refusal =>
      simp only [Opening.advance, phase] at taken
      cases taken
  | gated build format newer =>
      have holds := sound.process
      rw [phase] at holds
      simp only [Opening.advance, phase] at taken
      split at taken
      · cases taken
        exact sound.stay _ ⟨holds, fun ids member => by cases member⟩
      · split at taken
        · cases taken
          exact sound.stay _ ⟨holds, fun ids member => by cases member; rfl⟩
        · cases taken
          exact sound.stay _ trivial
  | prechecked build format newer done =>
      have holds := sound.process
      rw [phase] at holds
      obtain ⟨⟨format_eq, newer_eq, marked⟩, known⟩ := holds
      simp only [Opening.advance, phase] at taken
      split at taken
      · next is_newer =>
          cases taken
          exact sound.stay _ ⟨⟨marked is_newer, newer_eq⟩, known⟩
      · cases taken
        refine sound.move (sameFloors_of_format fun lower member => ?_) ⟨⟨rfl, ?_⟩, known⟩
        · rw [format_eq, foundFormat_marker member]
          exact below_raisedFor _ _
        · rw [newer_eq, Newer, Newer, (raisedFor_layouts _ _).1]
  | raised build format newer done =>
      have holds := sound.process
      rw [phase] at holds
      simp only [Opening.advance, phase] at taken
      cases taken
      exact sound.move (sameFloors_of_marker rfl rfl rfl rfl) holds
  | created build format newer done =>
      have holds := sound.process
      rw [phase] at holds
      obtain ⟨⟨marker, newer_eq⟩, known⟩ := holds
      simp only [Opening.advance, phase] at taken
      split at taken
      · next is_newer =>
          cases taken
          refine sound.stay _ ⟨marker, fun _ => newer_eq ▸ is_newer, fun current => ?_⟩
          rw [is_newer] at current
          cases current
      · split at taken
        · next ids =>
            cases taken
            obtain rfl := known ids rfl
            exact sound.startMigrations marker
        · split at taken
          · cases taken
            exact sound.startMigrations marker
          · cases taken
            exact sound.stay _ trivial
  | applying build format done left begun =>
      cases left with
      | nil =>
          have holds := sound.process
          rw [phase] at holds
          obtain ⟨marker, rfl, -, registered, -⟩ := holds
          have applied : ∀ migration ∈ build.registry,
              migration.id ∈ before.root.storeMigrations := by
            intro migration member
            rcases registered migration member with done | waiting
            · exact done
            · cases waiting
          simp only [Opening.advance, phase] at taken
          split at taken
          · cases taken
            refine sound.stay _ ⟨marker, applied, fun migration member => ?_⟩
            obtain ⟨registry_mem, flagged⟩ := List.mem_filter.mp member
            exact ⟨registry_mem, (of_decide_eq_true flagged).1⟩
          · cases taken
            exact sound.stay _ ⟨marker, fun is_newer => Bool.noConfusion is_newer, fun _ => applied⟩
      | cons migration left =>
          refine sound.applyMigration phase ?_
          cases begun with
          | false =>
              simp only [Opening.advance, phase] at taken ⊢
              exact taken
          | true =>
              simp only [Opening.advance, phase] at taken ⊢
              exact taken
  | rederiving build format left =>
      have holds := sound.process
      rw [phase] at holds
      obtain ⟨marker, applied, flagged⟩ := holds
      cases left with
      | nil =>
          simp only [Opening.advance, phase] at taken
          cases taken
          exact sound.stay _ ⟨marker, fun is_newer => Bool.noConfusion is_newer, fun _ => applied⟩
      | cons migration left =>
          simp only [Opening.advance, phase] at taken
          cases taken
          exact sound.move (sameFloors_of_marker rfl rfl rfl rfl) ⟨marker, applied,
            fun later member => flagged later (List.mem_cons_of_mem _ member)⟩
  | mirroring build format newer =>
      have holds := sound.process
      rw [phase] at holds
      obtain ⟨marker, was_newer, applied⟩ := holds
      simp only [Opening.advance, phase] at taken
      cases taken
      exact sound.mirror marker was_newer applied
  | settling build settled newer =>
      have holds := sound.process
      rw [phase] at holds
      obtain ⟨format, marker, rfl, -, applied⟩ := holds
      simp only [Opening.advance, phase] at taken
      cases taken
      exact sound.settle marker applied
  | opened build newer floorEnsured handed =>
      simp only [Opening.advance, phase] at taken
      cases taken

theorem Sound.writeRows (taken : writeRows before = some after) :
    Sound after ∧ before.root.FloorsBelow after.root := by
  unfold Opening.writeRows at taken
  split at taken
  · next build newer floorEnsured handed phase =>
      have holds := sound.process
      rw [phase] at holds
      cases taken
      have same : before.root.SameFloors
          { before.root with
            derived := before.root.derived.filter fun id =>
              decide ((named id).layout ≤ build.supportedLayout) } :=
        sameFloors_of_marker rfl rfl rfl rfl
      refine ⟨sound.same same ?_, same.floorsBelow⟩
      rw [phase]
      exact holds
  · cases taken

theorem Sound.ensureFloor {level : Nat} (taken : ensureFloor level before = some after) :
    Sound after ∧ before.root.FloorsBelow after.root := by
  unfold Opening.ensureFloor at taken
  split at taken
  · next build newer floorEnsured handed current phase marker =>
      have holds := sound.process
      rw [phase] at holds
      obtain ⟨found, found_eq, complete, ensured⟩ := holds
      rw [marker] at found_eq
      cases found_eq
      split at taken
      · cases taken
      · split at taken
        · cases taken
          exact ⟨sound, .refl _⟩
        · cases taken
          split
          · refine sound.move (sameFloors_of_format fun lower member => ?_)
              ⟨_, rfl, complete, fun handed_level member => ?_⟩
            · rw [marker] at member
              cases member
              exact ⟨le_max_left _ _, le_max_left _ _⟩
            · rcases List.mem_append.mp member with member | member
              · obtain ⟨read, write⟩ := ensured handed_level member
                exact ⟨read.trans (le_max_left _ _), write.trans (le_max_left _ _)⟩
              · obtain rfl := List.mem_singleton.mp member
                exact ⟨le_max_right _ _, le_max_right _ _⟩
          · next enough =>
              rw [not_or, Nat.not_lt, Nat.not_lt] at enough
              refine sound.move (sameFloors_of_format fun lower member => ?_)
                ⟨_, rfl, complete, fun handed_level member => ?_⟩
              · rw [marker] at member
                cases member
                exact .refl _
              · rcases List.mem_append.mp member with member | member
                · exact ensured handed_level member
                · obtain rfl := List.mem_singleton.mp member
                  exact enough
  · cases taken

theorem Sound.commitRaise {level : Nat} (taken : commitRaise level before = some after) :
    Sound after ∧ before.root.FloorsBelow after.root := by
  unfold Opening.commitRaise at taken
  split at taken
  · next build newer floorEnsured handed phase =>
      have holds := sound.process
      rw [phase] at holds
      obtain ⟨marker, found, complete, ensured⟩ := holds
      split at taken
      · next handed_out =>
          obtain ⟨read_le, write_le⟩ := ensured level handed_out
          cases taken
          refine ⟨⟨fun read member => ?_, fun write member => ?_, sound.covered, sound.applied, ?_⟩,
            fun lower member => ⟨lower, member, .refl lower⟩, fun lower member => ⟨_, rfl, ?_⟩,
              fun lower member => ⟨_, rfl, ?_⟩⟩
          · cases member
            refine ⟨marker, found, max_le ?_ read_le⟩
            cases recorded : before.root.storeMeta.minReadLayout with
            | none => exact Nat.zero_le _
            | some read =>
                obtain ⟨other, other_mem, le⟩ := sound.recordedRead read recorded
                rw [found] at other_mem
                cases other_mem
                exact le
          · cases member
            refine ⟨marker, found, max_le ?_ write_le⟩
            cases recorded : before.root.storeMeta.minWriteLayout with
            | none => exact Nat.zero_le _
            | some write =>
                obtain ⟨other, other_mem, le⟩ := sound.recordedWrite write recorded
                rw [found] at other_mem
                cases other_mem
                exact le
          · rw [phase]
            exact ⟨marker, found, complete, ensured⟩
          · rw [Option.mem_def.mp member]
            exact le_max_left _ _
          · rw [Option.mem_def.mp member]
            exact le_max_left _ _
      · cases taken
  · cases taken

theorem Sound.step {action : Action named} (taken : Opening.step before action = some after) :
    Sound after ∧ before.root.FloorsBelow after.root := by
  cases action with
  | openStore build holder => exact sound.openStore taken
  | advance passes => exact sound.advance taken
  | writeRows => exact sound.writeRows taken
  | ensureFloor level => exact sound.ensureFloor taken
  | commitRaise level => exact sound.commitRaise taken
  | stop =>
      cases taken
      exact sound.stay _ trivial

end

theorem unopened_sound (databases : Bool) (refusal : Option StoreError) :
    Sound (⟨unopened databases, .closed refusal⟩ : System named) where
  recordedRead := fun _ member => by cases member
  recordedWrite := fun _ member => by cases member
  covered := fun _ member => absurd member List.not_mem_nil
  applied := fun _ member => absurd member List.not_mem_nil
  process := trivial

theorem Sound.run (sound : Sound before) {actions : List (Action named)}
    (execution : Execution.run Opening.step before actions = some after) :
    Sound after ∧ before.root.FloorsBelow after.root :=
  Execution.invariant_of_run
    (fun system => Sound system ∧ before.root.FloorsBelow system.root)
    (fun reached _ taken => by
      obtain ⟨sound, below⟩ := reached.1.step taken
      exact ⟨sound, reached.2.trans below⟩)
    ⟨sound, .refl before.root⟩ (Execution.meets_true _ _ _) execution

end WeftDb.Opening
