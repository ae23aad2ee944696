import Mathlib.Order.Lattice.Nat

/-!
# The marker of a store root and the migrations

A store root records, in a marker file and in a copy in the index database, which layout it is in
and which layouts a build must know to read and to write it.  An open raises these floors to what
the migrations need which it is about to apply, before it applies them, and settles the marker
afterwards.
-/

namespace WeftDb.Opening

/-- A migration's identifier: its leading digits, and its name. -/
structure MigrationId where
  ordinal : Nat
  name : String
  deriving DecidableEq

/-- A registered migration. -/
structure Migration where
  id : MigrationId
  /-- The release layout it belongs to. -/
  layout : Nat
  /-- The read and the write floor once it has applied. -/
  minReadAfter : Nat
  minWriteAfter : Nat
  /-- Whether a build of an older layout may still write the store once it has applied. -/
  olderWritersSafe : Bool
  /-- Whether it ships a hook which re-derives what it maintains. -/
  rederive : Bool
  deriving DecidableEq

/-- What a set of migrations needs of the marker. -/
structure Floors where
  layout : Nat
  minRead : Nat
  minWrite : Nat

/-- The contents of a marker, without the store's identity and scope. -/
structure StoreFormat where
  layoutVersion : Nat
  minReadLayout : Nat
  minWriteLayout : Nat
  /-- The layout of the last build which opened the store for writing. -/
  lastWrittenLayout : Nat
  /-- The layout an open under way migrates to. -/
  migratingTo : Option Nat
  /-- The newest registered migration applied. -/
  appliedThrough : Option MigrationId
  deriving DecidableEq

/-- The layout of a store written before markers existed. -/
def legacyLayout : Nat := 1

namespace StoreFormat

/-- The marker of a new store of a build. -/
def newStore (supportedLayout : Nat) : StoreFormat where
  layoutVersion := supportedLayout
  minReadLayout := supportedLayout
  minWriteLayout := supportedLayout
  lastWrittenLayout := supportedLayout
  migratingTo := some supportedLayout
  appliedThrough := none

/-- What a store with databases and without a marker is. -/
def legacy : StoreFormat where
  layoutVersion := legacyLayout
  minReadLayout := legacyLayout
  minWriteLayout := legacyLayout
  lastWrittenLayout := legacyLayout
  migratingTo := none
  appliedThrough := none

/-- Whether a build which writes layouts up to `supported` may write the store. -/
def WritableBy (format : StoreFormat) (supported : Nat) : Prop := format.minWriteLayout ≤ supported

instance (format : StoreFormat) (supported : Nat) : Decidable (format.WritableBy supported) :=
  inferInstanceAs (Decidable (_ ≤ _))

end StoreFormat

/-- The migrations of a registry which are not applied. -/
def pending (registry : List Migration) (applied : List MigrationId) : List Migration :=
  registry.filter fun migration => decide (migration.id ∉ applied)

/-- The migrations of a registry after the one applied last. -/
def after (registry : List Migration) (appliedThrough : Option MigrationId) : List Migration :=
  let through := (appliedThrough.map MigrationId.ordinal).getD 0
  registry.filter fun migration => decide (through < migration.id.ordinal)

/-- The newest layout and the highest floors of two sets of migrations. -/
def Floors.max (left right : Floors) : Floors where
  layout := Nat.max left.layout right.layout
  minRead := Nat.max left.minRead right.minRead
  minWrite := Nat.max left.minWrite right.minWrite

/-- What one migration needs of the marker. -/
def Migration.floors (migration : Migration) : Floors where
  layout := migration.layout
  minRead := migration.minReadAfter
  minWrite := migration.minWriteAfter

/-- What another migration adds to the needs of those before it. -/
def Floors.add (needs : Option Floors) (migration : Migration) : Option Floors :=
  match needs with
  | none => some migration.floors
  | some needs => some (needs.max migration.floors)

/-- What migrations need of the marker, or nothing for no migration. -/
def floors (migrations : List Migration) : Option Floors := migrations.foldl Floors.add none

/-- The marker an open writes before it runs migrations: the floors only go up. -/
def raisedFor (format : StoreFormat) (migrations : List Migration) : StoreFormat :=
  match floors migrations with
  | none => format
  | some needs =>
      { format with
        minReadLayout := max format.minReadLayout needs.minRead
        minWriteLayout := max format.minWriteLayout needs.minWrite
        migratingTo := some (max (format.migratingTo.getD 0) needs.layout) }

/-- A build: the layouts it supports and the migrations it registers.  An identifier names one
migration in every build, the first of them creates the tables which every open uses, and one that
leaves older writers safe ships its hook. -/
structure Build (named : MigrationId → Migration) where
  supportedLayout : Nat
  registry : List Migration
  registers : registry ≠ []
  identified : ∀ migration ∈ registry, named migration.id = migration
  supports : ∀ migration ∈ registry, migration.layout ≤ supportedLayout ∧
    migration.minReadAfter ≤ supportedLayout ∧ migration.minWriteAfter ≤ supportedLayout
  rederives : ∀ migration ∈ registry, migration.olderWritersSafe = true →
    migration.rederive = true

variable {named : MigrationId → Migration} {migration : Migration} {migrations : List Migration}

/-- The marker an open leaves once its migrations are done. -/
def settledFormat (build : Build named) (format : StoreFormat) (newer : Bool) : StoreFormat :=
  if newer then { format with lastWrittenLayout := build.supportedLayout }
  else
    let registry := (floors build.registry).getD
      ⟨build.supportedLayout, build.supportedLayout, build.supportedLayout⟩
    { layoutVersion := max format.layoutVersion registry.layout
      minReadLayout := max format.minReadLayout registry.minRead
      minWriteLayout := max format.minWriteLayout registry.minWrite
      lastWrittenLayout := build.supportedLayout
      migratingTo := none
      appliedThrough := build.registry.getLast?.map Migration.id }

/-- The floors of the marker are at least those of a migration. -/
def StoreFormat.Covers (format : StoreFormat) (migration : Migration) : Prop :=
  migration.minReadAfter ≤ format.minReadLayout ∧ migration.minWriteAfter ≤ format.minWriteLayout

/-- The floors of one marker are at most those of another. -/
def StoreFormat.Below (lower upper : StoreFormat) : Prop :=
  lower.minReadLayout ≤ upper.minReadLayout ∧ lower.minWriteLayout ≤ upper.minWriteLayout

namespace StoreFormat.Below

theorem refl (format : StoreFormat) : format.Below format := ⟨le_rfl, le_rfl⟩

variable {lower upper : StoreFormat}

theorem trans {middle : StoreFormat} (first : lower.Below middle) (second : middle.Below upper) :
    lower.Below upper :=
  ⟨first.1.trans second.1, first.2.trans second.2⟩

theorem covers (below : lower.Below upper) (covers : lower.Covers migration) :
    upper.Covers migration :=
  ⟨covers.1.trans below.1, covers.2.trans below.2⟩

end StoreFormat.Below

theorem foldl_floors (migrations : List Migration) (needs : Floors) :
    ∃ all, migrations.foldl Floors.add (some needs) = some all ∧
      (needs.minRead ≤ all.minRead ∧ needs.minWrite ≤ all.minWrite) ∧
      (∀ migration ∈ migrations, migration.minReadAfter ≤ all.minRead ∧
        migration.minWriteAfter ≤ all.minWrite) ∧
      ∀ read write, needs.minRead ≤ read → needs.minWrite ≤ write →
        (∀ migration ∈ migrations, migration.minReadAfter ≤ read ∧
          migration.minWriteAfter ≤ write) → all.minRead ≤ read ∧ all.minWrite ≤ write := by
  induction migrations generalizing needs with
  | nil =>
      exact ⟨needs, rfl, ⟨le_rfl, le_rfl⟩, fun _ member => absurd member List.not_mem_nil,
        fun _ _ read write _ => ⟨read, write⟩⟩
  | cons first migrations ih =>
      obtain ⟨all, folded, above, each, least⟩ := ih (needs.max first.floors)
      refine ⟨all, folded, ⟨(Nat.le_max_left _ _).trans above.1,
        (Nat.le_max_left _ _).trans above.2⟩, fun migration member => ?_, ?_⟩
      · rcases List.mem_cons.mp member with rfl | member
        · exact ⟨(Nat.le_max_right _ _).trans above.1, (Nat.le_max_right _ _).trans above.2⟩
        · exact each migration member
      · intro read write needs_read needs_write bounded
        obtain ⟨first_read, first_write⟩ := bounded first List.mem_cons_self
        exact least read write (Nat.max_le.mpr ⟨needs_read, first_read⟩)
          (Nat.max_le.mpr ⟨needs_write, first_write⟩)
          fun migration member => bounded migration (List.mem_cons_of_mem _ member)

theorem floors_spec (some_migration : migrations ≠ []) :
    ∃ needs, floors migrations = some needs ∧
      (∀ migration ∈ migrations, migration.minReadAfter ≤ needs.minRead ∧
        migration.minWriteAfter ≤ needs.minWrite) ∧
      ∀ read write, (∀ migration ∈ migrations, migration.minReadAfter ≤ read ∧
        migration.minWriteAfter ≤ write) → needs.minRead ≤ read ∧ needs.minWrite ≤ write := by
  cases migrations with
  | nil => exact absurd rfl some_migration
  | cons first migrations =>
      obtain ⟨needs, folded, above, each, least⟩ := foldl_floors migrations first.floors
      refine ⟨needs, folded, fun migration member => ?_, fun read write bounded => ?_⟩
      · rcases List.mem_cons.mp member with rfl | member
        · exact above
        · exact each migration member
      · obtain ⟨first_read, first_write⟩ := bounded first List.mem_cons_self
        exact least read write first_read first_write
          fun migration member => bounded migration (List.mem_cons_of_mem _ member)

theorem below_raisedFor (format : StoreFormat) (migrations : List Migration) :
    format.Below (raisedFor format migrations) := by
  unfold raisedFor
  split
  · exact .refl format
  · exact ⟨le_max_left _ _, le_max_left _ _⟩

theorem raisedFor_covers (format : StoreFormat) (member : migration ∈ migrations) :
    (raisedFor format migrations).Covers migration := by
  obtain ⟨needs, found, each, -⟩ := floors_spec (List.ne_nil_of_mem member)
  simp only [raisedFor, found]
  exact ⟨(each migration member).1.trans (le_max_right _ _),
    (each migration member).2.trans (le_max_right _ _)⟩

theorem raisedFor_layouts (format : StoreFormat) (migrations : List Migration) :
    (raisedFor format migrations).layoutVersion = format.layoutVersion ∧
      (raisedFor format migrations).lastWrittenLayout = format.lastWrittenLayout := by
  unfold raisedFor
  split
  · exact ⟨rfl, rfl⟩
  · exact ⟨rfl, rfl⟩

theorem settledFormat_floors (build : Build named) (format : StoreFormat) (newer : Bool)
    (covers : newer = false → ∀ migration ∈ build.registry, format.Covers migration) :
    (settledFormat build format newer).minReadLayout = format.minReadLayout ∧
      (settledFormat build format newer).minWriteLayout = format.minWriteLayout := by
  unfold settledFormat
  cases newer with
  | true => exact ⟨rfl, rfl⟩
  | false =>
      obtain ⟨needs, found, -, least⟩ := floors_spec build.registers
      obtain ⟨read, write⟩ := least format.minReadLayout format.minWriteLayout (covers rfl)
      simp only [found, Option.getD_some, Bool.false_eq_true, if_false]
      exact ⟨max_eq_left read, max_eq_left write⟩

end WeftDb.Opening
