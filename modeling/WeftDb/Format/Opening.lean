import WeftDb.Format.Marker
import WeftDb.Foundation.Execution

/-!
# Opening a store root

One build at a time holds a root.  Its open passes the marker's gate, raises the floors, applies the
pending migrations, re-derives what an older build left behind, and settles the marker; each of
these is a durable step of its own, and a crash may come before any of them.
-/

namespace WeftDb.Opening

/-- Why an open refuses a root. -/
inductive StoreError
  | incompatibleLayout (minWrite supported : Nat)
  | newerStoreWithoutDatabases (layout supported : Nat)
  /-- A migration's precheck refuses the store. -/
  | precheckRefused
  deriving DecidableEq

/-- The copy of the marker in the index database, by its keys. -/
structure StoreMeta where
  layoutVersion : Option Nat
  minReadLayout : Option Nat
  minWriteLayout : Option Nat
  lastWrittenLayout : Option Nat
  appliedThrough : Option MigrationId

/-- What is on disk.  The last two fields are the history of the run and take no part in it. -/
structure Root where
  /-- Who wrote the holder file of the lock last. -/
  lockHolder : Option Nat
  marker : Option StoreFormat
  /-- Whether any of the databases exists. -/
  databases : Bool
  storeMeta : StoreMeta
  /-- The migrations which recorded themselves. -/
  storeMigrations : List MigrationId
  /-- The migrations any part of whose change may have been applied. -/
  changed : List Migration
  /-- The migrations for which no build of an older layout wrote since they were derived. -/
  derived : List MigrationId

/-- A root which no open with markers has touched: it is empty, or holds the databases of a build
from before. -/
def unopened (databases : Bool) : Root where
  lockHolder := none
  marker := none
  databases := databases
  storeMeta := ⟨none, none, none, none, none⟩
  storeMigrations := []
  changed := []
  derived := []

/-- The marker which the copy mirrors, if a build which writes markers recorded it. -/
def recordedFormat (recorded : StoreMeta) : Option StoreFormat :=
  recorded.minWriteLayout.map fun minWrite =>
    let layout := recorded.layoutVersion.getD minWrite
    { layoutVersion := layout
      minReadLayout := recorded.minReadLayout.getD minWrite
      minWriteLayout := minWrite
      lastWrittenLayout := recorded.lastWrittenLayout.getD layout
      migratingTo := none
      appliedThrough := recorded.appliedThrough }

/-- Mirror the marker into its copy. -/
def mirrorIntoStoreMeta (recorded : StoreMeta) (format : StoreFormat) : StoreMeta where
  layoutVersion := some format.layoutVersion
  minReadLayout := some format.minReadLayout
  minWriteLayout := some format.minWriteLayout
  lastWrittenLayout := some format.lastWrittenLayout
  appliedThrough := format.appliedThrough.or recorded.appliedThrough

/-- Raise the floors of the copy. -/
def StoreMeta.raiseFloor (recorded : StoreMeta) (level : Nat) : StoreMeta :=
  { recorded with
    minReadLayout := some (max (recorded.minReadLayout.getD 0) level)
    minWriteLayout := some (max (recorded.minWriteLayout.getD 0) level) }

section Open

variable {named : MigrationId → Migration}

/-- Where the process is which holds the root, if any. -/
inductive Process (named : MigrationId → Migration)
  /-- No open, or the last one was refused. -/
  | closed (refusal : Option StoreError)
  /-- The root passed the gates. -/
  | gated (build : Build named) (format : StoreFormat) (newer : Bool)
  /-- The prechecks of a store with databases passed: these migrations were applied before. -/
  | prechecked (build : Build named) (format : StoreFormat) (newer : Bool)
      (done : Option (List MigrationId))
  /-- The floors are raised by what the marker expects. -/
  | raised (build : Build named) (format : StoreFormat) (newer : Bool)
      (done : Option (List MigrationId))
  /-- The databases exist. -/
  | created (build : Build named) (format : StoreFormat) (newer : Bool)
      (done : Option (List MigrationId))
  /-- Applying the migrations that are left, and perhaps within the first of them. -/
  | applying (build : Build named) (format : StoreFormat) (done : List MigrationId)
      (left : List Migration) (begun : Bool)
  | rederiving (build : Build named) (format : StoreFormat) (left : List Migration)
  | mirroring (build : Build named) (format : StoreFormat) (newer : Bool)
  /-- The copy is settled and the marker is not. -/
  | settling (build : Build named) (settled : StoreFormat) (newer : Bool)
  /-- The open returned success.  The raises of the floors handed out wait for their commit. -/
  | opened (build : Build named) (newer : Bool) (floorEnsured : Nat) (handed : List Nat)

/-- A root with the process which holds it. -/
structure System (named : MigrationId → Migration) where
  root : Root
  process : Process named

/-- The format the open of a build goes on with. -/
def foundFormat (build : Build named) (root : Root) : StoreFormat :=
  match root.marker with
  | some format => format
  | none =>
      if root.databases then (recordedFormat root.storeMeta).getD .legacy
      else .newStore build.supportedLayout

/-- Whether the store's layout is newer than a build's. -/
def Newer (build : Build named) (format : StoreFormat) : Bool :=
  decide (build.supportedLayout < format.layoutVersion)

/-- The gates: the marker's, then the index database's, then the one of the format found. -/
def openGates (build : Build named) (root : Root) : Option StoreError :=
  let supported := build.supportedLayout
  let format := foundFormat build root
  match root.marker.filter fun marker => decide ¬marker.WritableBy supported with
  | some marker => some (.incompatibleLayout marker.minWriteLayout supported)
  | none =>
      match (root.storeMeta.minWriteLayout.filter fun _ => root.databases).filter
          fun minWrite => decide (supported < minWrite) with
      | some minWrite => some (.incompatibleLayout minWrite supported)
      | none =>
          if ¬format.WritableBy supported then
            some (.incompatibleLayout format.minWriteLayout supported)
          else if Newer build format ∧ ¬root.databases then
            some (.newerStoreWithoutDatabases format.layoutVersion supported)
          else none

/-- Take the lock, read the marker and pass the gates. -/
def openStore (build : Build named) (holder : Nat) (system : System named) :
    Option (System named) :=
  match system.process with
  | .closed _ =>
      let root := { system.root with lockHolder := some holder }
      match openGates build root with
      | some refusal => some ⟨root, .closed (some refusal)⟩
      | none =>
          let format := foundFormat build root
          some ⟨root, .gated build format (Newer build format)⟩
  | _ => none

/-- Apply the migrations once their prechecks passed and the floors are raised for them. -/
def startMigrations (build : Build named) (format : StoreFormat) (done : List MigrationId)
    (root : Root) : System named :=
  let left := pending build.registry done
  let raised := raisedFor format left
  ⟨{ root with marker := some raised }, .applying build raised done left false⟩

/-- The flagged migrations which an open re-derives after a build of an older layout wrote. -/
def toRederive (build : Build named) (done : List MigrationId) (lastWritten : Nat) :
    List Migration :=
  build.registry.filter fun migration =>
    decide (migration.olderWritersSafe = true ∧ lastWritten < migration.layout ∧
      migration.id ∈ done)

/-- The next durable step of an open.  The prechecks of the pending migrations may refuse. -/
def advance (passes : Bool) (system : System named) : Option (System named) :=
  let root := system.root
  match system.process with
  | .closed _ => none
  | .gated build format newer =>
      if newer ∨ ¬root.databases then some ⟨root, .prechecked build format newer none⟩
      else if passes then some ⟨root, .prechecked build format newer (some root.storeMigrations)⟩
      else some ⟨root, .closed (some .precheckRefused)⟩
  | .prechecked build format newer done =>
      if newer then some ⟨root, .raised build format newer done⟩
      else
        let raised := raisedFor format (after build.registry format.appliedThrough)
        some ⟨{ root with marker := some raised }, .raised build raised newer done⟩
  | .raised build format newer done =>
      some ⟨{ root with databases := true }, .created build format newer done⟩
  | .created build format newer done =>
      if newer then some ⟨root, .mirroring build format newer⟩
      else
        match done with
        | some done => some (startMigrations build format done root)
        | none =>
            if passes then some (startMigrations build format root.storeMigrations root)
            else some ⟨root, .closed (some .precheckRefused)⟩
  | .applying build format done [] _ =>
      if format.lastWrittenLayout < format.layoutVersion then
        some ⟨root, .rederiving build format (toRederive build done format.lastWrittenLayout)⟩
      else some ⟨root, .mirroring build format false⟩
  | .applying build format done (migration :: left) false =>
      some
        ⟨{ root with changed := root.changed ++ [migration] },
          .applying build format done (migration :: left) true⟩
  | .applying build format done (migration :: left) true =>
      some
        ⟨{ root with
            storeMigrations := root.storeMigrations ++ [migration.id]
            derived := root.derived ++ [migration.id] },
          .applying build format (done ++ [migration.id]) left false⟩
  | .rederiving build format [] => some ⟨root, .mirroring build format false⟩
  | .rederiving build format (migration :: left) =>
      let derived :=
        if migration.rederive then root.derived ++ [migration.id] else root.derived
      some ⟨{ root with derived := derived }, .rederiving build format left⟩
  | .mirroring build format newer =>
      let settled := settledFormat build format newer
      some
        ⟨{ root with storeMeta := mirrorIntoStoreMeta root.storeMeta settled },
          .settling build settled newer⟩
  | .settling build settled newer =>
      some
        ⟨{ root with marker := some settled },
          .opened build newer (min settled.minReadLayout settled.minWriteLayout) []⟩
  | .opened _ _ _ _ => none

/-- The open store writes rows, which older builds do without what newer migrations maintain. -/
def writeRows (system : System named) : Option (System named) :=
  match system.process with
  | .opened build _ _ _ =>
      let derived := system.root.derived.filter fun id =>
        decide ((named id).layout ≤ build.supportedLayout)
      some { system with root := { system.root with derived := derived } }
  | _ => none

/-- Raise the marker's floors before something is written which only newer builds may read, and
hand out the raise of the copy. -/
def ensureFloor (level : Nat) (system : System named) : Option (System named) :=
  match system.process, system.root.marker with
  | .opened build newer floorEnsured handed, some current =>
      if build.supportedLayout < level then none
      else if level ≤ floorEnsured then some system
      else
        let marker :=
          if current.minReadLayout < level ∨ current.minWriteLayout < level then
            { current with
              layoutVersion := max current.layoutVersion level
              minReadLayout := max current.minReadLayout level
              minWriteLayout := max current.minWriteLayout level }
          else current
        some
          ⟨{ system.root with marker := some marker },
            .opened build newer (max floorEnsured level) (handed ++ [level])⟩
  | _, _ => none

/-- The transaction commits which carries a raise of the copy. -/
def commitRaise (level : Nat) (system : System named) : Option (System named) :=
  match system.process with
  | .opened _ _ _ handed =>
      if level ∈ handed then
        some
          { system with
            root := { system.root with storeMeta := system.root.storeMeta.raiseFloor level } }
      else none
  | _ => none

end Open

/-- What can happen next. -/
inductive Action (named : MigrationId → Migration)
  | openStore (build : Build named) (holder : Nat)
  | advance (passes : Bool)
  | writeRows
  | ensureFloor (level : Nat)
  | commitRaise (level : Nat)
  /-- The process crashes, fails or closes the store. -/
  | stop

/-- One step of the system. -/
def step {named : MigrationId → Migration} (system : System named) :
    Action named → Option (System named)
  | .openStore build holder => openStore build holder system
  | .advance passes => advance passes system
  | .writeRows => writeRows system
  | .ensureFloor level => ensureFloor level system
  | .commitRaise level => commitRaise level system
  | .stop => some { system with process := .closed none }

end WeftDb.Opening
