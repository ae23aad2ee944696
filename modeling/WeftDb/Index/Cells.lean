import WeftDb.Foundation.Integers
import WeftDb.Foundation.Snapshots
import WeftDb.Index.Effects

/-!
# The control plane as cells

`ControlPlane` adds the tables which describe the store itself to the index, and `TxnOp` the
operations on them to those on the index.  Every row is a cell under its primary key.  An
operation says which cells it touches, and leaves the others alone.
-/

namespace WeftDb

open KeyedTable

/-- One row of `store_migrations`. -/
structure MigrationRecord where
  id : String
  layout : Nat
  appliedMs : Int
  deriving DecidableEq

/-- The tables of `segment_index.db`. -/
structure ControlPlane where
  index : IndexDb
  /-- The rows of `store_meta`, each a key and its value. -/
  settings : KeyedTable (Prod.fst : String × String → String)
  migrations : KeyedTable MigrationRecord.id

/-- An operation of a transaction. -/
inductive TxnOp
  | onIndex (op : IndexOp)
  | metaSet (key value : String)
  | raiseFloor (level : Nat)
  | recordMigration (record : MigrationRecord)
  deriving DecidableEq

/-- Whether the operation checks again, when it runs, what its caller decided from. -/
def IndexOp.isGuarded : IndexOp → Bool
  | .quarantineInsert _ | .quarantineDelete _ _ _ | .upsert _ _ | .delete _ _ => false
  | _ => true

def TxnOp.isGuarded : TxnOp → Bool
  | .onIndex op => op.isGuarded
  | .metaSet _ _ => false
  | .raiseFloor _ | .recordMigration _ => true

/-- `CAST(text AS INTEGER)`: the integer which the text begins with. -/
def castInteger (text : String) : Int :=
  let digitsOf (chars : List Char) : Int :=
    (chars.takeWhile Char.isDigit).foldl (fun value digit => 10 * value + (digit.toNat - 48)) 0
  match text.toList.dropWhile Char.isWhitespace with
  | '-' :: chars => Word64.saturate (-digitsOf chars)
  | '+' :: chars => Word64.saturate (digitsOf chars)
  | chars => Word64.saturate (digitsOf chars)

/-- The floors which a layout raises. -/
def floorKeys : List String :=
  ["min_read_layout", "min_write_layout"]

namespace ControlPlane

/-- A freshly migrated control plane. -/
def fresh : ControlPlane where
  index := .fresh
  settings := .empty
  migrations := .empty

/-- Raise the floor under a key to a layout. -/
def raiseFloorOf (plane : ControlPlane) (level : Nat) (key : String) : ControlPlane :=
  let value :=
    match plane.settings.find? key with
    | some (_, stored) => toString (max (castInteger stored) (castInteger (toString level)))
    | none => toString level
  { plane with settings := plane.settings.put (key, value) }

/-- Apply one operation, or refuse it with the kind of its failure. -/
def apply (plane : ControlPlane) : TxnOp → Except TxnErrorKind ControlPlane
  | .onIndex op =>
      match plane.index.apply op with
      | .ok index => .ok { plane with index }
      | .error kind => .error kind
  | .metaSet key value => .ok { plane with settings := plane.settings.put (key, value) }
  | .raiseFloor level => .ok (floorKeys.foldl (·.raiseFloorOf level) plane)
  | .recordMigration record =>
      -- The first record of a migration stays.
      match plane.migrations.find? record.id with
      | some _ => .ok plane
      | none => .ok { plane with migrations := plane.migrations.put record }

end ControlPlane

/-- The primary key of a row, with its table. -/
inductive RowKey
  | segment (aspect : AspectName) (id : Nat)
  | sequence (aspect : AspectName)
  | journal (name : FrameName)
  | quarantine (aspect : AspectName) (id gen : Nat)
  | rollup (aspect : AspectName)
  | series (aspect : AspectName) (key : SeriesKey)
  | ledger (aspect : AspectName) (key : String)
  | change (aspect : AspectName) (epoch : Nat)
  | setting (key : String)
  | migration (id : String)
  deriving DecidableEq

/-- A row, with its table. -/
inductive RowCell
  | segment (stored : AspectName × IndexRow)
  | sequence (row : SequenceRow)
  | journal (entry : JournalEntry)
  | quarantine (record : QuarantineRecord)
  | rollup (stored : AspectName × AspectMetadata)
  | series (entry : SeriesEntry)
  | ledger (entry : LedgerEntry)
  | change (change : SegmentChange)
  | setting (stored : String × String)
  | migration (record : MigrationRecord)

namespace ControlPlane

/-- The row under a key. -/
def cell (plane : ControlPlane) : RowKey → Option RowCell
  | .segment aspect id => (plane.index.segments.find? (aspect, id)).map .segment
  | .sequence aspect => (plane.index.sequences.find? aspect).map .sequence
  | .journal name => (plane.index.journal.find? name).map .journal
  | .quarantine aspect id gen => (plane.index.quarantine.find? (aspect, id, gen)).map .quarantine
  | .rollup aspect => (plane.index.rollups.find? aspect).map .rollup
  | .series aspect key => (plane.index.series.find? (aspect, key)).map .series
  | .ledger aspect key => (plane.index.ledger.find? (aspect, key)).map .ledger
  | .change aspect epoch => (plane.index.changes.find? (aspect, epoch)).map .change
  | .setting key => (plane.settings.find? key).map .setting
  | .migration id => (plane.migrations.find? id).map .migration

/-- The rows under some keys taken from a view, and the others as they are. -/
def merge (current view : ControlPlane) (keys : List RowKey) : ControlPlane where
  index :=
    { segments := current.index.segments.merge view.index.segments
        fun (aspect, id) => decide (.segment aspect id ∈ keys)
      sequences := current.index.sequences.merge view.index.sequences
        fun aspect => decide (.sequence aspect ∈ keys)
      journal := current.index.journal.merge view.index.journal
        fun name => decide (.journal name ∈ keys)
      quarantine := current.index.quarantine.merge view.index.quarantine
        fun (aspect, id, gen) => decide (.quarantine aspect id gen ∈ keys)
      rollups := current.index.rollups.merge view.index.rollups
        fun aspect => decide (.rollup aspect ∈ keys)
      series := current.index.series.merge view.index.series
        fun (aspect, key) => decide (.series aspect key ∈ keys)
      ledger := current.index.ledger.merge view.index.ledger
        fun (aspect, key) => decide (.ledger aspect key ∈ keys)
      hasChangeLog := current.index.hasChangeLog
      changes := current.index.changes.merge view.index.changes
        fun (aspect, epoch) => decide (.change aspect epoch ∈ keys) }
  settings := current.settings.merge view.settings fun key => decide (.setting key ∈ keys)
  migrations := current.migrations.merge view.migrations fun id => decide (.migration id ∈ keys)

theorem cell_merge (current view : ControlPlane) (keys : List RowKey) (key : RowKey) :
    (current.merge view keys).cell key =
      if key ∈ keys then view.cell key else current.cell key := by
  cases key <;>
    (simp only [cell, merge, find?_merge, decide_eq_true_eq]; split <;> rfl)

end ControlPlane

/-- The rows which an operation on the index writes. -/
def IndexOp.touches (db : IndexDb) : IndexOp → List RowKey
  | .insertNew aspect row | .upsert aspect row => [.segment aspect row.desc.id]
  | .replaceExpected aspect expected row =>
      [.segment aspect expected.id, .segment aspect row.desc.id]
  | .deleteExpected aspect expected => [.segment aspect expected.id]
  | .deleteEveryExpected aspect expected => expected.map fun version => .segment aspect version.id
  | .delete aspect id =>
      if (db.segments.find? (aspect, id)).isSome then [.segment aspect id] else []
  | .seqBump aspect _ _ _ | .seedSeries aspect _ => [.sequence aspect]
  | .journalPending _ name _ | .journalRetire _ name _ _ | .journalHeld _ name _ =>
      [.journal name]
  | .clearJournal name => if (db.journal.find? name).isSome then [.journal name] else []
  | .putRollup aspect _ => [.rollup aspect]
  | .quarantineInsert record => [.quarantine record.aspect record.id record.gen]
  | .quarantineDelete aspect id gen =>
      if (db.quarantine.find? (aspect, id, gen)).isSome then [.quarantine aspect id gen] else []
  | .registerSeries aspect _ key => [.series aspect key]
  | .recordIngest entry => [.ledger entry.aspect entry.key]
  | .recordChange change => if db.hasChangeLog then [.change change.aspect change.epoch] else []
  | .deleteChanges aspect throughEpoch =>
      if db.hasChangeLog then
        (db.changes.rows.filter fun change =>
          decide (change.aspect = aspect ∧ change.epoch ≤ throughEpoch)).map fun change =>
            .change change.aspect change.epoch
      else []

/-- The rows which an operation writes. -/
def TxnOp.touches (plane : ControlPlane) : TxnOp → List RowKey
  | .onIndex op => op.touches plane.index
  | .metaSet key _ => [.setting key]
  | .raiseFloor _ => floorKeys.map .setting
  | .recordMigration record =>
      if (plane.migrations.find? record.id).isSome then [] else [.migration record.id]

theorem find?_erase_of_untouched {Key Row : Type} {key : Row → Key} [DecidableEq Key]
    {table : KeyedTable key} {erased target : Key}
    (untouched : target = erased → table.find? erased = none) :
    (table.erase erased).find? target = table.find? target := by
  by_cases same : target = erased
  · rw [same, untouched same, find?_erase_self]
  · exact find?_erase_of_ne same

namespace IndexDb

variable {db after : IndexDb} {op : IndexOp}
variable {aspect : AspectName}

theorem find?_segments_of_untouched (applied : db.apply op = .ok after) {id : Nat}
    (untouched : .segment aspect id ∉ op.touches db) :
    after.segments.find? (aspect, id) = db.segments.find? (aspect, id) := by
  cases applied_of_apply applied with
  | insertNew inserted =>
      refine find?_insert?_of_ne inserted fun same => untouched ?_
      cases same
      exact List.mem_cons_self
  | @replaceExpected own expected row member segments found inserted =>
      rw [IndexOp.touches, List.mem_cons, List.mem_singleton, not_or] at untouched
      refine (find?_insert?_of_ne inserted fun same => untouched.2 ?_).trans
        (find?_erase_of_ne fun same => untouched.1 ?_)
      · cases same
        rfl
      · cases same
        rfl
  | deleteExpected =>
      refine find?_erase_of_ne fun same => untouched ?_
      cases same
      exact List.mem_cons_self
  | @deleteEveryExpected own expected =>
      refine find?_filter_of_keep fun row row_key => decide_eq_true ?_
      rintro ⟨rfl, member⟩
      obtain ⟨version, version_mem, same⟩ := List.mem_map.mp member
      cases row_key
      exact untouched (List.mem_map.mpr ⟨version, version_mem, by rw [same]⟩)
  | @upsert own row =>
      refine find?_put_of_ne db.segments fun same => untouched ?_
      cases same
      exact List.mem_cons_self
  | @delete own erased =>
      refine find?_erase_of_untouched fun same => ?_
      cases same
      simp only [IndexOp.touches] at untouched
      split at untouched
      · exact absurd List.mem_cons_self untouched
      · rename_i absent
        exact Option.not_isSome_iff_eq_none.mp absent
  | _ => rfl

theorem find?_raise_of_ne {created : SequenceRow} {raised : SequenceRow → SequenceRow}
    (different : aspect ≠ created.aspect) :
    (db.raise created raised).sequences.find? aspect = db.sequences.find? aspect := by
  refine find?_put_of_ne db.sequences fun same => different ?_
  rw [same, raisedRow_aspect]

variable (applied : db.apply op = .ok after)

include applied

theorem find?_journal_of_untouched {name : FrameName} (untouched : .journal name ∉ op.touches db) :
    after.journal.find? name = db.journal.find? name := by
  have not_own : ∀ {other : FrameName}, op.touches db = [.journal other] → name ≠ other := by
    rintro other touches rfl
    rw [touches] at untouched
    exact untouched List.mem_cons_self
  cases applied_of_apply applied with
  | journalPending inserted => exact find?_insert?_of_ne inserted (not_own rfl)
  | journalRetire inserted => exact find?_insert?_of_ne inserted (not_own rfl)
  | journalHeld inserted => exact find?_insert?_of_ne inserted (not_own rfl)
  | @clearJournal cleared =>
      refine find?_erase_of_untouched fun same => ?_
      cases same
      simp only [IndexOp.touches] at untouched
      split at untouched
      · exact absurd List.mem_cons_self untouched
      · rename_i absent
        exact Option.not_isSome_iff_eq_none.mp absent
  | _ => rfl

theorem find?_quarantine_of_untouched {id gen : Nat}
    (untouched : .quarantine aspect id gen ∉ op.touches db) :
    after.quarantine.find? (aspect, id, gen) = db.quarantine.find? (aspect, id, gen) := by
  cases applied_of_apply applied with
  | @quarantineInsert record =>
      refine find?_put_of_ne db.quarantine fun same => untouched ?_
      cases same
      exact List.mem_cons_self
  | @quarantineDelete own id' gen' =>
      refine find?_erase_of_untouched fun same => ?_
      cases same
      simp only [IndexOp.touches] at untouched
      split at untouched
      · exact absurd List.mem_cons_self untouched
      · rename_i absent
        exact Option.not_isSome_iff_eq_none.mp absent
  | _ => rfl

theorem find?_changes_of_untouched {epoch : Nat}
    (untouched : .change aspect epoch ∉ op.touches db) :
    after.changes.find? (aspect, epoch) = db.changes.find? (aspect, epoch) := by
  by_cases logged : db.hasChangeLog = true
  · cases applied_of_apply applied with
    | recordChange inserted =>
        refine find?_insert?_of_ne inserted fun same => untouched ?_
        cases same
        simp [IndexOp.touches, logged]
    | @deleteChanges own through =>
        refine find?_congr fun change change_key => ?_
        rw [mem_filter]
        refine ⟨And.left, fun member => ⟨member, ?_⟩⟩
        refine decide_eq_true fun forgotten => untouched ?_
        cases change_key
        rw [IndexOp.touches, if_pos logged, List.mem_map]
        exact ⟨change, List.mem_filter.mpr ⟨member, decide_eq_true forgotten⟩, rfl⟩
    | _ => rfl
  · cases op with
    | recordChange change =>
        simp only [apply, logged] at applied
        cases applied
        rfl
    | deleteChanges own through =>
        simp only [apply, logged] at applied
        cases applied
        rfl
    | _ =>
        cases applied_of_apply applied
        all_goals rfl

end IndexDb

namespace ControlPlane

variable {plane after : ControlPlane}
variable {key : RowKey}

theorem cell_onIndex {op : IndexOp} {index : IndexDb} (applied : plane.index.apply op = .ok index)
    (untouched : key ∉ op.touches plane.index) :
    { plane with index }.cell key = plane.cell key := by
  cases key with
  | segment aspect id =>
      exact congrArg (Option.map RowCell.segment)
        (IndexDb.find?_segments_of_untouched applied untouched)
  | sequence aspect =>
      refine congrArg (Option.map RowCell.sequence) ?_
      cases IndexDb.applied_of_apply applied with
      | seqBump =>
          refine IndexDb.find?_raise_of_ne fun same => untouched ?_
          cases same
          exact List.mem_cons_self
      | seedSeries =>
          refine IndexDb.find?_raise_of_ne fun same => untouched ?_
          cases same
          exact List.mem_cons_self
      | _ => rfl
  | journal name =>
      exact congrArg (Option.map RowCell.journal)
        (IndexDb.find?_journal_of_untouched applied untouched)
  | quarantine aspect id gen =>
      exact congrArg (Option.map RowCell.quarantine)
        (IndexDb.find?_quarantine_of_untouched applied untouched)
  | rollup aspect =>
      refine congrArg (Option.map RowCell.rollup) ?_
      cases IndexDb.applied_of_apply applied with
      | putRollup =>
          refine find?_put_of_ne plane.index.rollups fun same => untouched ?_
          cases same
          exact List.mem_cons_self
      | _ => rfl
  | series aspect series_key =>
      refine congrArg (Option.map RowCell.series) ?_
      cases IndexDb.applied_of_apply applied with
      | registerSeries inserted =>
          refine find?_insert?_of_ne inserted fun same => untouched ?_
          cases same
          exact List.mem_cons_self
      | _ => rfl
  | ledger aspect ledger_key =>
      refine congrArg (Option.map RowCell.ledger) ?_
      cases IndexDb.applied_of_apply applied with
      | recordIngest inserted =>
          refine find?_insert?_of_ne inserted fun same => untouched ?_
          cases same
          exact List.mem_cons_self
      | _ => rfl
  | change aspect epoch =>
      exact congrArg (Option.map RowCell.change)
        (IndexDb.find?_changes_of_untouched applied untouched)
  | setting key => rfl
  | migration id => rfl

theorem cell_put_setting {stored : String × String} (untouched : key ≠ .setting stored.1) :
    { plane with settings := plane.settings.put stored }.cell key = plane.cell key := by
  cases key with
  | setting key =>
      refine congrArg (Option.map RowCell.setting)
        (find?_put_of_ne plane.settings fun same => untouched ?_)
      rw [same]
  | _ => rfl

theorem cell_apply {op : TxnOp} (applied : plane.apply op = .ok after)
    (untouched : key ∉ op.touches plane) : after.cell key = plane.cell key := by
  cases op with
  | onIndex op =>
      simp only [apply] at applied
      split at applied
      · rename_i index done
        cases applied
        exact cell_onIndex done untouched
      · cases applied
  | metaSet own value =>
      cases applied
      exact cell_put_setting fun same => untouched (same ▸ List.mem_cons_self)
  | raiseFloor level =>
      cases applied
      have outside : ∀ own ∈ floorKeys, key ≠ .setting own := fun own member same =>
        untouched (same ▸ List.mem_map_of_mem member)
      refine (cell_put_setting (outside _ ?_)).trans (cell_put_setting (outside _ ?_))
      · exact List.mem_cons_of_mem _ List.mem_cons_self
      · exact List.mem_cons_self
  | recordMigration record =>
      simp only [apply] at applied
      split at applied
      · cases applied
        rfl
      · rename_i absent
        cases applied
        cases key with
        | migration id =>
            refine congrArg (Option.map RowCell.migration)
              (find?_put_of_ne plane.migrations fun same => ?_)
            exact untouched (by simp [TxnOp.touches, absent, same])
        | _ => rfl

/-- The control plane as a store of rows. -/
def rowStore : RowStore ControlPlane TxnOp TxnErrorKind RowKey RowCell where
  cell := cell
  apply := apply
  touches plane op := op.touches plane
  merge := merge
  cell_apply := cell_apply
  cell_merge := cell_merge

end ControlPlane

end WeftDb
