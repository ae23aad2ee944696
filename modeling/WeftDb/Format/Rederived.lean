import WeftDb.Format.OpeningSound

/-!
# What an older build leaves behind

A build of an older layout writes rows without what a newer flagged migration maintains.  While the
marker says so, by a last written layout below the migration's and the store's, the next open which
knows the migration re-derives it.
-/

namespace WeftDb.Opening

variable {named : MigrationId → Migration}
variable {build : Build named} {format : StoreFormat} {newer passes : Bool} {left : List Migration}
  {system : System named}

/-- A recorded migration is flagged safe for older writers, and one wrote since it was derived. -/
def Root.Stale (named : MigrationId → Migration) (root : Root) (id : MigrationId) : Prop :=
  id ∈ root.storeMigrations ∧ (named id).olderWritersSafe = true ∧ id ∉ root.derived

/-- The build registers each flagged migration which is recorded. -/
def Build.Knows (build : Build named) (root : Root) : Prop :=
  ∀ id ∈ root.storeMigrations, (named id).olderWritersSafe = true → named id ∈ build.registry

instance (build : Build named) (root : Root) : Decidable (build.Knows root) :=
  inferInstanceAs (Decidable (∀ id ∈ root.storeMigrations, _ → _))

/-- An open keeps what the marker says of older writers: on a newer store it does not raise the last
written layout, and otherwise it registers the recorded flagged migrations. -/
def Build.Tracks (build : Build named) (format : StoreFormat) (newer : Bool) (root : Root) : Prop :=
  if newer then build.supportedLayout ≤ format.lastWrittenLayout else build.Knows root

instance (build : Build named) (format : StoreFormat) (newer : Bool) (root : Root) :
    Decidable (build.Tracks format newer root) :=
  inferInstanceAs (Decidable (if newer = true then _ else _))

theorem Build.tracks_iff {root : Root} (not_newer : ¬newer = true) :
    build.Tracks format newer root ↔ build.Knows root := by
  rw [Build.Tracks, if_neg not_newer]

/-- Each open keeps track. -/
def KeepsTrack (system : System named) : Action named → Prop
  | .openStore build _ =>
      build.Tracks (foundFormat build system.root)
        (Newer build (foundFormat build system.root)) system.root
  | _ => True

instance (system : System named) : ∀ action, Decidable (KeepsTrack system action)
  | .openStore build _ =>
      inferInstanceAs (Decidable (build.Tracks (foundFormat build system.root)
        (Newer build (foundFormat build system.root)) system.root))
  | .advance _ | .writeRows | .ensureFloor _ | .commitRaise _ | .stop =>
      inferInstanceAs (Decidable True)

/-- The marker says that a build of a layout older than a migration's wrote last. -/
def Root.Marked (named : MigrationId → Migration) (root : Root) (id : MigrationId) : Prop :=
  ∀ marker ∈ root.marker, marker.lastWrittenLayout < (named id).layout ∧
    marker.lastWrittenLayout < marker.layoutVersion

/-- What the open under way keeps track of, by where it is. -/
def Process.Tracks (root : Root) : Process named → Prop
  | .closed _ => True
  | .gated build format newer => build.Tracks format newer root
  | .prechecked build format newer _ => build.Tracks format newer root
  | .raised build format newer _ => build.Tracks format newer root
  | .created build format newer _ => build.Tracks format newer root
  | .applying build _ _ _ _ => build.Knows root
  | .rederiving build _ left => build.Knows root ∧ ∀ id, root.Stale named id → named id ∈ left
  | .mirroring build format newer =>
      build.Tracks format newer root ∧ (newer = false → ∀ id, ¬root.Stale named id)
  | .settling build _ newer =>
      (∀ format ∈ root.marker, build.Tracks format newer root) ∧
        (newer = false → ∀ id, ¬root.Stale named id)
  | .opened build newer _ _ =>
      (∀ marker ∈ root.marker, marker.lastWrittenLayout = build.supportedLayout ∧
        (newer = true → build.supportedLayout < marker.layoutVersion)) ∧
          (newer = false → build.Knows root ∧ ∀ id, ¬root.Stale named id)

/-- The invariant of a run whose opens keep track. -/
structure Tracked (system : System named) : Prop where
  sound : Sound system
  marked : ∀ id, system.root.Stale named id → system.root.Marked named id
  process : system.process.Tracks system.root

variable {before after : System named}

/-- A step which leaves what is recorded and derived, and the layouts of a marker. -/
structure Root.SameTracks (before after : Root) : Prop where
  storeMigrations : after.storeMigrations = before.storeMigrations
  derived : after.derived = before.derived
  marker : ∀ marker ∈ after.marker, (∃ earlier ∈ before.marker,
    marker.lastWrittenLayout = earlier.lastWrittenLayout ∧
      earlier.layoutVersion ≤ marker.layoutVersion) ∨ before.storeMigrations = []

theorem Root.SameTracks.stale {before after : Root} (same : before.SameTracks after)
    {id : MigrationId} : after.Stale named id ↔ before.Stale named id := by
  unfold Root.Stale
  rw [same.storeMigrations, same.derived]

theorem Root.SameTracks.knows {before after : Root} (same : before.SameTracks after) :
    build.Knows after ↔ build.Knows before := by
  unfold Build.Knows
  rw [same.storeMigrations]

theorem Root.SameTracks.marked {before after : Root} (same : before.SameTracks after)
    (marked : ∀ id, before.Stale named id → before.Marked named id) {id : MigrationId}
    (stale : after.Stale named id) : after.Marked named id := by
  intro marker member
  have stale := same.stale.mp stale
  rcases same.marker marker member with ⟨earlier, earlier_mem, written, layout⟩ | unrecorded
  · obtain ⟨below, older⟩ := marked id stale earlier earlier_mem
    exact ⟨written ▸ below, written ▸ older.trans_le layout⟩
  · exact absurd stale.1 (unrecorded ▸ List.not_mem_nil)

theorem sameTracks_of_marker {before after : Root} (marker : after.marker = before.marker)
    (storeMigrations : after.storeMigrations = before.storeMigrations)
    (derived : after.derived = before.derived) : before.SameTracks after :=
  ⟨storeMigrations, derived, fun found member => .inl ⟨found, marker ▸ member, rfl, le_rfl⟩⟩

section

variable (tracked : Tracked before)

include tracked

theorem Tracked.move {root : Root} {next : Process named} (sound : Sound ⟨root, next⟩)
    (same : before.root.SameTracks root) (tracks : next.Tracks root) : Tracked ⟨root, next⟩ :=
  ⟨sound, fun _ stale => same.marked tracked.marked stale, tracks⟩

theorem Tracked.openStore {holder : Nat} (keeps : KeepsTrack before (.openStore build holder))
    (taken : openStore build holder before = some after) : Tracked after := by
  have sound := (tracked.sound.openStore taken).1
  unfold Opening.openStore at taken
  split at taken
  · have same : before.root.SameTracks { before.root with lockHolder := some holder } :=
      sameTracks_of_marker rfl rfl rfl
    simp only at taken
    split at taken
    · cases taken
      exact tracked.move sound same trivial
    · cases taken
      exact tracked.move sound same keeps
  · cases taken

theorem Tracked.raise (migrations : List Migration)
    (found : before.root.marker = some format ∨ before.root.marker = none) :
    before.root.SameTracks { before.root with marker := some (raisedFor format migrations) } where
  storeMigrations := rfl
  derived := rfl
  marker := by
    intro marker member
    cases member
    obtain ⟨layout, written⟩ := raisedFor_layouts format migrations
    rcases found with found | unmarked
    · exact .inl ⟨format, found, written, layout.ge⟩
    · exact .inr (tracked.sound.unmarked unmarked).2

theorem Tracked.startMigrations (marker : before.root.marker = some format)
    (knows : build.Knows before.root) :
    Tracked (startMigrations build format before.root.storeMigrations before.root) := by
  have same := tracked.raise (pending build.registry before.root.storeMigrations)
    (.inl marker)
  exact tracked.move (tracked.sound.startMigrations marker).1 same (same.knows.mpr knows)

theorem Tracked.mem_toRederive (marker : before.root.marker = some format)
    (knows : build.Knows before.root) {id : MigrationId} (stale : before.root.Stale named id) :
    named id ∈ toRederive build before.root.storeMigrations format.lastWrittenLayout := by
  obtain ⟨below, -⟩ := tracked.marked id stale format marker
  obtain ⟨recorded, flagged, -⟩ := stale
  refine List.mem_filter.mpr ⟨knows id recorded flagged, decide_eq_true ⟨flagged, below, ?_⟩⟩
  rw [(tracked.sound.applied id recorded).2]
  exact recorded

/-- Behind the layouts a newer store is left as it is, and another starts its migrations. -/
theorem Tracked.advance_created {done : Option (List MigrationId)}
    (phase : before.process = .created build format newer done)
    (taken : advance passes before = some after) : Tracked after := by
  have sound := (tracked.sound.advance taken).1
  have holds := tracked.sound.process
  have tracks := tracked.process
  have unchanged : before.root.SameTracks before.root := sameTracks_of_marker rfl rfl rfl
  rw [phase] at tracks holds
  obtain ⟨⟨marker, newer_eq⟩, known⟩ := holds
  simp only [Opening.advance, phase] at taken
  split at taken
  · next is_newer =>
      cases taken
      refine tracked.move sound unchanged ⟨tracks, fun current => ?_⟩
      rw [is_newer] at current
      cases current
  · next not_newer =>
      have knows := (Build.tracks_iff not_newer).mp tracks
      split at taken
      · next ids =>
          cases taken
          obtain rfl := known ids rfl
          exact tracked.startMigrations marker knows
      · split at taken
        · cases taken
          exact tracked.startMigrations marker knows
        · cases taken
          exact tracked.move sound unchanged trivial

/-- A migration is recorded as it is applied, and the last one hands over those to derive again. -/
theorem Tracked.advance_applying {done : List MigrationId} {begun : Bool}
    (phase : before.process = .applying build format done left begun)
    (taken : advance passes before = some after) : Tracked after := by
  have sound := (tracked.sound.advance taken).1
  have holds := tracked.sound.process
  have tracks := tracked.process
  have unchanged : before.root.SameTracks before.root := sameTracks_of_marker rfl rfl rfl
  rw [phase] at tracks holds
  obtain ⟨marker, rfl, pending, -⟩ := holds
  cases left with
  | nil =>
      simp only [Opening.advance, phase] at taken
      split at taken
      · cases taken
        exact tracked.move sound unchanged
          ⟨tracks, fun id stale => tracked.mem_toRederive marker tracks stale⟩
      · next current =>
          cases taken
          refine tracked.move sound unchanged ⟨tracks, fun _ id stale => ?_⟩
          exact current (tracked.marked id stale format marker).2
  | cons migration left =>
      obtain ⟨registry_mem, -⟩ := pending migration List.mem_cons_self
      have identified := build.identified migration registry_mem
      cases begun with
      | false =>
          simp only [Opening.advance, phase] at taken
          cases taken
          exact tracked.move sound (sameTracks_of_marker rfl rfl rfl) tracks
      | true =>
          simp only [Opening.advance, phase] at taken
          cases taken
          refine ⟨sound, fun id stale => ?_, fun id member flagged => ?_⟩
          · obtain ⟨recorded, flagged, underived⟩ := stale
            rw [List.mem_append, not_or] at underived
            rcases List.mem_append.mp recorded with recorded | new
            · exact tracked.marked id ⟨recorded, flagged, underived.1⟩
            · exact absurd new underived.2
          · rcases List.mem_append.mp member with recorded | new
            · exact tracks id recorded flagged
            · obtain rfl := List.mem_singleton.mp new
              rw [identified]
              exact registry_mem

/-- A migration which is derived again is no longer stale. -/
theorem Tracked.advance_rederiving (phase : before.process = .rederiving build format left)
    (taken : advance passes before = some after) : Tracked after := by
  have sound := (tracked.sound.advance taken).1
  have holds := tracked.sound.process
  have tracks := tracked.process
  have unchanged : before.root.SameTracks before.root := sameTracks_of_marker rfl rfl rfl
  rw [phase] at tracks holds
  obtain ⟨marker, -, flagged⟩ := holds
  obtain ⟨knows, waiting⟩ := tracks
  cases left with
  | nil =>
      simp only [Opening.advance, phase] at taken
      cases taken
      exact tracked.move sound unchanged
        ⟨knows, fun _ id stale => List.not_mem_nil (waiting id stale)⟩
  | cons migration left =>
      obtain ⟨registry_mem, safe⟩ := flagged migration List.mem_cons_self
      simp only [Opening.advance, phase, build.rederives migration registry_mem safe,
        if_true] at taken
      cases taken
      have earlier {id : MigrationId} (stale : Root.Stale named
          { before.root with derived := before.root.derived ++ [migration.id] } id) :
          before.root.Stale named id ∧ id ≠ migration.id := by
        obtain ⟨recorded, flagged, underived⟩ := stale
        rw [List.mem_append, not_or] at underived
        exact ⟨⟨recorded, flagged, underived.1⟩,
          fun same => underived.2 (List.mem_singleton.mpr same)⟩
      refine ⟨sound, fun id stale => tracked.marked id (earlier stale).1, knows,
        fun id stale => ?_⟩
      obtain ⟨was_stale, other⟩ := earlier stale
      rcases List.mem_cons.mp (waiting id was_stale) with same | later
      · have identified := (tracked.sound.applied id was_stale.1).2
        rw [same] at identified
        exact absurd identified.symm other
      · exact later

theorem Tracked.advance (taken : advance passes before = some after) : Tracked after := by
  have sound := (tracked.sound.advance taken).1
  have holds := tracked.sound.process
  have tracks := tracked.process
  have unchanged : before.root.SameTracks before.root := sameTracks_of_marker rfl rfl rfl
  cases phase : before.process with
  | closed refusal =>
      simp only [Opening.advance, phase] at taken
      cases taken
  | gated build format newer =>
      rw [phase] at tracks
      simp only [Opening.advance, phase] at taken
      split at taken
      · cases taken
        exact tracked.move sound unchanged tracks
      · split at taken
        · cases taken
          exact tracked.move sound unchanged tracks
        · cases taken
          exact tracked.move sound unchanged trivial
  | prechecked build format newer done =>
      rw [phase] at tracks holds
      simp only [Opening.advance, phase] at taken
      split at taken
      · cases taken
        exact tracked.move sound unchanged tracks
      · next not_newer =>
          cases taken
          have found : before.root.marker = some format ∨ before.root.marker = none := by
            cases marker : before.root.marker with
            | none => exact .inr rfl
            | some found => exact .inl (by rw [holds.1.1, foundFormat_marker marker])
          have same := tracked.raise
            (after build.registry format.appliedThrough) found
          have knows := (Build.tracks_iff not_newer).mp tracks
          exact tracked.move sound same ((Build.tracks_iff not_newer).mpr (same.knows.mpr knows))
  | raised build format newer done =>
      rw [phase] at tracks
      simp only [Opening.advance, phase] at taken
      cases taken
      exact tracked.move sound (sameTracks_of_marker rfl rfl rfl) tracks
  | created build format newer done => exact tracked.advance_created phase taken
  | applying build format done left begun => exact tracked.advance_applying phase taken
  | rederiving build format left => exact tracked.advance_rederiving phase taken
  | mirroring build format newer =>
      rw [phase] at tracks holds
      simp only [Opening.advance, phase] at taken
      cases taken
      refine tracked.move sound (sameTracks_of_marker rfl rfl rfl)
        ⟨fun found member => ?_, tracks.2⟩
      rw [holds.1] at member
      cases member
      exact tracks.1
  | settling build settled newer =>
      rw [phase] at tracks holds
      obtain ⟨format, marker, rfl, was_newer, -⟩ := holds
      obtain ⟨build_tracks, fresh⟩ := tracks
      have build_tracks := build_tracks format marker
      simp only [Opening.advance, phase] at taken
      cases taken
      cases newer with
      | true =>
          have older := of_decide_eq_true (was_newer rfl)
          rw [Build.Tracks, if_pos rfl] at build_tracks
          refine ⟨sound, fun id stale found member => ?_, fun found member => ?_,
            fun current => Bool.noConfusion current⟩
          · cases member
            obtain ⟨below, -⟩ := tracked.marked id stale format marker
            exact ⟨build_tracks.trans_lt below, older⟩
          · cases member
            exact ⟨rfl, fun _ => older⟩
      | false =>
          refine ⟨sound, fun id stale => absurd stale (fresh rfl id), fun found member => ?_,
            fun _ => ⟨build_tracks, fresh rfl⟩⟩
          cases member
          exact ⟨rfl, fun is_newer => Bool.noConfusion is_newer⟩
  | opened build newer floorEnsured handed =>
      simp only [Opening.advance, phase] at taken
      cases taken

theorem Tracked.writeRows (taken : writeRows before = some after) : Tracked after := by
  have sound := (tracked.sound.writeRows taken).1
  unfold Opening.writeRows at taken
  split at taken
  · next build newer floorEnsured handed phase =>
      have tracks := tracked.process
      rw [phase] at tracks
      obtain ⟨written, fresh⟩ := tracks
      cases taken
      -- What the write leaves behind is flagged by a layout newer than the build's.
      have left_behind {id : MigrationId} (stale : Root.Stale named
          { before.root with
            derived := before.root.derived.filter fun id =>
              decide ((named id).layout ≤ build.supportedLayout) } id) :
          before.root.Stale named id ∨ build.supportedLayout < (named id).layout := by
        obtain ⟨recorded, flagged, underived⟩ := stale
        by_cases known : (named id).layout ≤ build.supportedLayout
        · exact .inl ⟨recorded, flagged, fun derived =>
            underived (List.mem_filter.mpr ⟨derived, decide_eq_true known⟩)⟩
        · exact .inr (Nat.lt_of_not_le known)
      have current (not_newer : newer = false) {id : MigrationId}
          (recorded : id ∈ before.root.storeMigrations)
          (flagged : (named id).olderWritersSafe = true) :
          ¬build.supportedLayout < (named id).layout :=
        Nat.not_lt.mpr (build.supports _ ((fresh not_newer).1 id recorded flagged)).1
      refine ⟨sound, fun id stale marker member => ?_, ?_⟩
      · rcases left_behind stale with was_stale | older
        · exact tracked.marked id was_stale marker member
        · obtain ⟨written_eq, layout⟩ := written marker member
          cases newer with
          | true => exact ⟨written_eq ▸ older, written_eq ▸ layout rfl⟩
          | false => exact absurd older (current rfl stale.1 stale.2.1)
      · rw [phase]
        refine ⟨written, fun not_newer => ⟨(fresh not_newer).1, fun id stale => ?_⟩⟩
        rcases left_behind stale with was_stale | older
        · exact (fresh not_newer).2 id was_stale
        · exact current not_newer stale.1 stale.2.1 older
  · cases taken

theorem Tracked.ensureFloor {level : Nat} (taken : ensureFloor level before = some after) :
    Tracked after := by
  have sound := (tracked.sound.ensureFloor taken).1
  unfold Opening.ensureFloor at taken
  split at taken
  · next build newer floorEnsured handed current phase marker =>
      have tracks := tracked.process
      rw [phase] at tracks
      obtain ⟨written, fresh⟩ := tracks
      obtain ⟨written, layout⟩ := written current marker
      split at taken
      · cases taken
      · split at taken
        · cases taken
          exact tracked
        · cases taken
          refine tracked.move sound ⟨rfl, rfl, fun found member => .inl ⟨current, marker, ?_⟩⟩
            ⟨fun found member => ?_, fresh⟩
          · cases member
            split
            · exact ⟨rfl, le_max_left _ _⟩
            · exact ⟨rfl, le_rfl⟩
          · cases member
            split
            · exact ⟨written, fun is_newer => (layout is_newer).trans_le (le_max_left _ _)⟩
            · exact ⟨written, layout⟩
  · cases taken

theorem Tracked.commitRaise {level : Nat} (taken : commitRaise level before = some after) :
    Tracked after := by
  have sound := (tracked.sound.commitRaise taken).1
  unfold Opening.commitRaise at taken
  split at taken
  · split at taken
    · cases taken
      exact tracked.move sound (sameTracks_of_marker rfl rfl rfl) tracked.process
    · cases taken
  · cases taken

theorem Tracked.step {action : Action named} (keeps : KeepsTrack before action)
    (taken : Opening.step before action = some after) : Tracked after := by
  cases action with
  | openStore build holder => exact tracked.openStore keeps taken
  | advance passes => exact tracked.advance taken
  | writeRows => exact tracked.writeRows taken
  | ensureFloor level => exact tracked.ensureFloor taken
  | commitRaise level => exact tracked.commitRaise taken
  | stop =>
      cases taken
      have sound := (tracked.sound.stay (.closed none) trivial).1
      exact tracked.move sound (sameTracks_of_marker rfl rfl rfl) trivial

end

theorem unopened_tracked (databases : Bool) (refusal : Option StoreError) :
    Tracked (⟨unopened databases, .closed refusal⟩ : System named) where
  sound := unopened_sound databases refusal
  marked := fun _ stale => absurd stale.1 List.not_mem_nil
  process := trivial

/-- What a root and an open promise. -/
structure KeepsFormat (system : System named) : Prop where
  /-- The marker covers each migration any part of which may have been applied. -/
  covered : ∀ migration ∈ system.root.changed,
    ∃ marker ∈ system.root.marker, marker.Covers migration
  /-- A build below the write floor is refused, and nothing but the lock is touched. -/
  refuses : ∀ (build : Build named) (holder : Nat) (refusal : Option StoreError)
    (marker : StoreFormat), system.process = .closed refusal → system.root.marker = some marker →
      build.supportedLayout < marker.minWriteLayout →
        step system (.openStore build holder) =
          some ⟨{ system.root with lockHolder := some holder },
            .closed (some (.incompatibleLayout marker.minWriteLayout build.supportedLayout))⟩
  /-- An open of a store which is not newer has applied every registered migration. -/
  completed : ∀ (build : Build named) (floorEnsured : Nat) (handed : List Nat),
    system.process = .opened build false floorEnsured handed →
      (∀ migration ∈ build.registry, migration.id ∈ system.root.storeMigrations) ∧
        ∀ marker ∈ system.root.marker, marker.migratingTo = none

/-- An open of a store which is not newer leaves no flagged migration behind an older writer. -/
def Rederives (system : System named) : Prop :=
  ∀ (build : Build named) (floorEnsured : Nat) (handed : List Nat),
    system.process = .opened build false floorEnsured handed →
      ∀ migration ∈ build.registry, migration.olderWritersSafe = true →
        migration.id ∈ system.root.derived

theorem Sound.keepsFormat (sound : Sound system) : KeepsFormat system where
  covered := sound.covered
  refuses := fun _ _ _ _ closed found newer => openStore_refused closed found newer
  completed := by
    intro build floorEnsured handed phase
    have holds := sound.process
    rw [phase] at holds
    obtain ⟨marker, found, complete, -⟩ := holds
    refine ⟨(complete rfl).1, fun other member => ?_⟩
    rw [found] at member
    cases member
    exact (complete rfl).2

theorem Tracked.rederives (tracked : Tracked system) : Rederives system := by
  intro build floorEnsured handed phase migration member flagged
  have tracks := tracked.process
  rw [phase] at tracks
  have applied := (tracked.sound.keepsFormat.completed build floorEnsured handed phase).1
  by_contra underived
  refine (tracks.2 rfl).2 migration.id ⟨applied migration member, ?_, underived⟩
  rw [build.identified migration member]
  exact flagged

/-- In every sequence of opens, crashes and writes from a root without a marker, the floors only go
up and cover what may have been applied, a build below the write floor is refused, and an open of a
store which is not newer has applied everything; and where each open keeps track, it has re-derived
what older builds left behind. -/
theorem opens_keepFormat {databases : Bool} {earlier later : List (Action named)}
    {middle last : System named}
    (reached : Execution.run step ⟨unopened databases, .closed none⟩ earlier = some middle)
    (continued : Execution.run step middle later = some last) :
    middle.root.FloorsBelow last.root ∧ KeepsFormat last ∧
      (Execution.Meets step KeepsTrack ⟨unopened databases, .closed none⟩ (earlier ++ later) →
        Rederives last) := by
  have sound := ((unopened_sound databases none).run reached).1
  obtain ⟨sound, below⟩ := sound.run continued
  refine ⟨below, sound.keepsFormat, fun meets => ?_⟩
  have execution : Execution.run step ⟨unopened databases, .closed none⟩ (earlier ++ later) =
      some last := by
    rw [Execution.run_append, reached]
    exact continued
  exact (Execution.invariant_of_run Tracked (fun tracked keeps taken => tracked.step keeps taken)
    (unopened_tracked databases none) meets execution).rederives

/-- Migrations by their number: the first creates the tables, and each later one belongs to the
layout after its number's and leaves older writers safe. -/
def numbered (id : MigrationId) : Migration :=
  if id.ordinal ≤ 1 then ⟨id, 2, 2, 2, false, false⟩
  else ⟨id, id.ordinal + 1, 2, 2, true, true⟩

/-- The build of a layout, with every migration up to it. -/
def release (layout : Nat) (registry : List Nat) (registers : registry ≠ [])
    (supports : ∀ number ∈ registry, (numbered ⟨number, ""⟩).layout ≤ layout) (two : 2 ≤ layout) :
    Build numbered where
  supportedLayout := layout
  registry := registry.map fun number => numbered ⟨number, ""⟩
  registers := by simpa using registers
  identified := by
    intro migration member
    obtain ⟨number, -, rfl⟩ := List.mem_map.mp member
    unfold numbered
    split
    · rfl
    · rfl
  supports := by
    intro migration member
    obtain ⟨number, number_mem, rfl⟩ := List.mem_map.mp member
    refine ⟨supports number number_mem, ?_⟩
    unfold numbered
    split
    · exact ⟨two, two⟩
    · exact ⟨two, two⟩
  rederives := by
    intro migration member
    obtain ⟨number, -, rfl⟩ := List.mem_map.mp member
    unfold numbered
    split
    · exact id
    · exact id

def second : Build numbered := release 2 [1] (by decide) (by decide) (by decide)
def third : Build numbered := release 3 [1, 2] (by decide) (by decide) (by decide)
def fourth : Build numbered := release 4 [1, 2, 3] (by decide) (by decide) (by decide)

/-- A build opens the root and takes as many durable steps. -/
def openSteps (build : Build numbered) (steps : Nat) : List (Action numbered) :=
  .openStore build 0 :: List.replicate steps (.advance true)

/-- The second release creates the store and the third one upgrades it. -/
def upgraded : List (Action numbered) :=
  openSteps second 9 ++ [.stop] ++ openSteps third 9 ++ [.stop]

/-- The second release writes to the newer store. -/
def olderWriter : List (Action numbered) := openSteps second 6 ++ [.writeRows, .stop]

theorem opens_keepFormat_olderWriter :
    ∃ middle last,
      Execution.run step ⟨unopened false, .closed none⟩ (upgraded ++ olderWriter) = some middle ∧
        Execution.run step middle (openSteps third 9) = some last ∧
          middle.root.FloorsBelow last.root ∧ KeepsFormat last ∧ Rederives last := by
  have meets : Execution.Meets step KeepsTrack (⟨unopened false, .closed none⟩ : System numbered)
      (upgraded ++ olderWriter ++ openSteps third 9) := by
    decide +kernel
  have runs : (Execution.run step (⟨unopened false, .closed none⟩ : System numbered)
      (upgraded ++ olderWriter) >>= fun middle =>
        Execution.run step middle (openSteps third 9)).isSome = true := by
    decide +kernel
  obtain ⟨last, execution⟩ := Option.isSome_iff_exists.mp runs
  obtain ⟨middle, reached, continued⟩ := Option.bind_eq_some_iff.mp execution
  obtain ⟨below, keeps, rederives⟩ := opens_keepFormat reached continued
  exact ⟨middle, last, reached, continued, below, keeps, rederives meets⟩

/-- The build of an open store, and whether the store is newer. -/
def Process.serving : Process named → Option (Build named × Bool)
  | .opened build newer _ _ => some (build, newer)
  | _ => none

theorem Process.eq_opened {process : Process named}
    (serving : process.serving = some (build, newer)) :
    ∃ floorEnsured handed, process = .opened build newer floorEnsured handed := by
  cases process with
  | opened other _ floorEnsured handed =>
      cases serving
      exact ⟨floorEnsured, handed, rfl⟩
  | _ => cases serving

/-- The fourth release crashes once it raised the floors, and the second one opens the store, whose
layout is the third. -/
def newerOpen : List (Action numbered) :=
  upgraded ++ openSteps fourth 3 ++ [.stop] ++ openSteps second 6

/-- An open of a newer store leaves the mark of another open's migration. -/
theorem newerOpen_completes_false :
    ¬∀ (named : MigrationId → Migration) (databases : Bool) (actions : List (Action named))
      (system : System named),
      Execution.run step ⟨unopened databases, .closed none⟩ actions = some system →
        ∀ (build : Build named) (newer : Bool) (floorEnsured : Nat) (handed : List Nat),
          system.process = .opened build newer floorEnsured handed →
            (∀ migration ∈ build.registry, migration.id ∈ system.root.storeMigrations) ∧
              ∀ marker ∈ system.root.marker, marker.migratingTo = none := by
  intro promise
  have marked : (Execution.run step (⟨unopened false, .closed none⟩ : System numbered)
      newerOpen).any (fun system => decide (system.process.serving.isSome = true ∧
        ∃ marker ∈ system.root.marker, marker.migratingTo = some 4)) = true := by
    decide +kernel
  obtain ⟨system, execution, marked⟩ := (Option.any_eq_true _ _).mp marked
  obtain ⟨serving, marker, found, migrating⟩ := of_decide_eq_true marked
  obtain ⟨⟨build, newer⟩, serving⟩ := Option.isSome_iff_exists.mp serving
  obtain ⟨floorEnsured, handed, phase⟩ := Process.eq_opened serving
  have settled := (promise numbered false newerOpen system execution build newer floorEnsured handed
    phase).2 marker found
  rw [settled] at migrating
  cases migrating

end WeftDb.Opening
