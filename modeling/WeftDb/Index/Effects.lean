import WeftDb.Index.IndexTxn

/-!
# What transactions do to each table

`Applied` states the outcome of every operation which is not refused.  From it each table gets its
own rule: which rows an operation adds or removes, which counters it raises, and that it leaves
the other tables alone.  The rules for whole transactions follow by induction.
-/

namespace WeftDb

namespace IndexDb

/-- Delete rows by id. -/
def eraseEvery (db : IndexDb) (aspect : AspectName) (ids : List Nat) : IndexDb :=
  db.withSegments (db.segments.filter fun stored =>
    decide (¬(stored.1 = aspect ∧ stored.2.desc.id ∈ ids)))

/-- The outcome of an operation which is not refused. -/
inductive Applied (db : IndexDb) : IndexOp → IndexDb → Prop
  | insertNew {aspect row segments}
      (inserted : db.segments.insert? (aspect, row) = some segments) :
      Applied db (.insertNew aspect row) (db.withSegments segments)
  | replaceExpected {aspect expected row member segments}
      (found : db.matching aspect expected = some member)
      (inserted : (db.segments.erase (aspect, expected.id)).insert? (aspect, row) =
        some segments) :
      Applied db (.replaceExpected aspect expected row) (db.withSegments segments)
  | deleteExpected {aspect expected member}
      (found : db.matching aspect expected = some member) :
      Applied db (.deleteExpected aspect expected)
        (db.withSegments (db.segments.erase (aspect, expected.id)))
  | deleteEveryExpected {aspect expected} :
      Applied db (.deleteEveryExpected aspect expected)
        (db.eraseEvery aspect (expected.map (·.id)))
  | upsert {aspect row} :
      Applied db (.upsert aspect row) (db.withSegments (db.segments.put (aspect, row)))
  | delete {aspect id} :
      Applied db (.delete aspect id) (db.withSegments (db.segments.erase (aspect, id)))
  | seqBump {aspect nextId nextGen epoch} :
      Applied db (.seqBump aspect nextId nextGen epoch)
        (db.raise ⟨aspect, nextId, max nextGen 1, epoch, 1⟩ fun row =>
          { row with
            nextId := max row.nextId nextId
            nextGen := max row.nextGen (max nextGen 1)
            epoch := max row.epoch epoch })
  | journalPending {aspect name createdMs journal}
      (inserted : db.journal.insert? ⟨name, aspect, .pending, none, createdMs⟩ = some journal) :
      Applied db (.journalPending aspect name createdMs) { db with journal }
  | journalRetire {aspect name retireEpoch createdMs journal}
      (inserted : db.journal.insert? ⟨name, aspect, .retired, some retireEpoch, createdMs⟩ =
        some journal) :
      Applied db (.journalRetire aspect name retireEpoch createdMs) { db with journal }
  | journalHeld {aspect name createdMs journal}
      (inserted : db.journal.insert? ⟨name, aspect, .held, none, createdMs⟩ = some journal) :
      Applied db (.journalHeld aspect name createdMs) { db with journal }
  | clearJournal {name} :
      Applied db (.clearJournal name) { db with journal := db.journal.erase name }
  | putRollup {aspect rollup} :
      Applied db (.putRollup aspect rollup) { db with rollups := db.rollups.put (aspect, rollup) }
  | quarantineInsert {record} :
      Applied db (.quarantineInsert record) { db with quarantine := db.quarantine.put record }
  | quarantineDelete {aspect id gen} :
      Applied db (.quarantineDelete aspect id gen)
        { db with quarantine := db.quarantine.erase (aspect, id, gen) }
  | seedSeries {aspect nextSeriesId} :
      Applied db (.seedSeries aspect nextSeriesId)
        (db.raise ⟨aspect, 1, 0, 0, nextSeriesId⟩ fun row =>
          { row with nextSeriesId := max row.nextSeriesId nextSeriesId })
  | registerSeries {aspect seriesId seriesKey series}
      (inserted : db.series.insert? ⟨aspect, seriesKey, seriesId⟩ = some series) :
      Applied db (.registerSeries aspect seriesId seriesKey) { db with series }
  | recordIngest {entry ledger} (inserted : db.ledger.insert? entry = some ledger) :
      Applied db (.recordIngest entry) { db with ledger }
  | recordChange {change changes} (inserted : db.changes.insert? change = some changes) :
      Applied db (.recordChange change) { db with changes }
  | deleteChanges {aspect throughEpoch} :
      Applied db (.deleteChanges aspect throughEpoch)
        { db with
          changes := db.changes.filter fun change =>
            decide (¬(change.aspect = aspect ∧ change.epoch ≤ throughEpoch)) }
  /-- The change log of a registry which has none takes no operation. -/
  | withoutLog {op} (missing : db.hasChangeLog = false)
      (kind : (∃ change, op = .recordChange change) ∨
        ∃ aspect epoch, op = .deleteChanges aspect epoch) :
      Applied db op db

variable {after : IndexDb}

theorem deleteEveryExpected_eq {db : IndexDb} {aspect : AspectName} {expected : List RowVersion}
    (deleted : db.deleteEveryExpected aspect expected = .ok after) :
    after = db.eraseEvery aspect (expected.map (·.id)) := by
  induction expected generalizing db with
  | nil =>
      cases deleted
      simp only [eraseEvery, withSegments, List.map_nil, List.not_mem_nil, and_false,
        not_false_eq_true, decide_true]
      simp [KeyedTable.filter]
  | cons version expected ih =>
      unfold deleteEveryExpected deleteExpected at deleted
      cases found : db.matching aspect version with
      | none => simp [found] at deleted
      | some member =>
          rw [ih (by simpa [found] using deleted)]
          have same : ∀ stored : AspectName × IndexRow,
              (segmentKey stored ≠ (aspect, version.id) ∧
                ¬(stored.1 = aspect ∧ stored.2.desc.id ∈ expected.map (·.id))) ↔
              ¬(stored.1 = aspect ∧ stored.2.desc.id ∈ (version :: expected).map (·.id)) := by
            intro stored
            simp only [segmentKey, ne_eq, Prod.mk.injEq, List.map_cons, List.mem_cons]
            tauto
          simp only [eraseEvery, withSegments, KeyedTable.erase, KeyedTable.filter,
            List.filter_filter, ← same, Bool.decide_and, Bool.and_comm]

theorem orConflict_bind_eq_ok {α : Type} {found : Option α} {next : α → Except TxnErrorKind IndexDb}
    (bound : orConflict found >>= next = .ok after) :
    ∃ value, found = some value ∧ next value = .ok after := by
  cases found with
  | none => cases bound
  | some value => exact ⟨value, rfl, bound⟩

/-- Every successful operation has one of the listed outcomes. -/
theorem applied_of_apply {db : IndexDb} {op : IndexOp} (applied : db.apply op = .ok after) :
    Applied db op after := by
  cases op with
  | insertNew aspect row =>
      obtain ⟨segments, inserted, done⟩ := orConflict_bind_eq_ok applied
      cases done
      exact .insertNew inserted
  | replaceExpected aspect expected row =>
      cases found : db.matching aspect expected with
      | none => simp [apply, found] at applied
      | some member =>
          simp only [apply, found] at applied
          obtain ⟨segments, inserted, done⟩ := orConflict_bind_eq_ok applied
          cases done
          exact .replaceExpected found inserted
  | deleteExpected aspect expected =>
      cases found : db.matching aspect expected with
      | none => simp [apply, IndexDb.deleteExpected, found] at applied
      | some member =>
          simp only [apply, IndexDb.deleteExpected, found] at applied
          cases applied
          exact .deleteExpected found
  | deleteEveryExpected aspect expected =>
      rw [deleteEveryExpected_eq applied]
      exact .deleteEveryExpected
  | upsert aspect row =>
      cases applied
      exact .upsert
  | delete aspect id =>
      cases applied
      exact .delete
  | seqBump aspect nextId nextGen epoch =>
      cases applied
      exact .seqBump
  | journalPending aspect name createdMs =>
      obtain ⟨journal, inserted, done⟩ := orConflict_bind_eq_ok applied
      cases done
      exact .journalPending inserted
  | journalRetire aspect name retireEpoch createdMs =>
      obtain ⟨journal, inserted, done⟩ := orConflict_bind_eq_ok applied
      cases done
      exact .journalRetire inserted
  | journalHeld aspect name createdMs =>
      obtain ⟨journal, inserted, done⟩ := orConflict_bind_eq_ok applied
      cases done
      exact .journalHeld inserted
  | clearJournal name =>
      cases applied
      exact .clearJournal
  | putRollup aspect rollup =>
      cases applied
      exact .putRollup
  | quarantineInsert record =>
      cases applied
      exact .quarantineInsert
  | quarantineDelete aspect id gen =>
      cases applied
      exact .quarantineDelete
  | seedSeries aspect nextSeriesId =>
      cases applied
      exact .seedSeries
  | registerSeries aspect seriesId seriesKey =>
      simp only [apply] at applied
      split at applied
      · cases applied
      · split at applied
        · cases applied
        · obtain ⟨series, inserted, done⟩ := orConflict_bind_eq_ok applied
          cases done
          exact .registerSeries inserted
  | recordIngest entry =>
      obtain ⟨ledger, inserted, done⟩ := orConflict_bind_eq_ok applied
      cases done
      exact .recordIngest inserted
  | recordChange change =>
      simp only [apply] at applied
      split at applied
      · obtain ⟨changes, inserted, done⟩ := orConflict_bind_eq_ok applied
        cases done
        exact .recordChange inserted
      · rename_i missing
        cases applied
        exact .withoutLog (by simpa using missing) (.inl ⟨change, rfl⟩)
  | deleteChanges aspect throughEpoch =>
      simp only [apply] at applied
      split at applied
      · cases applied
        exact .deleteChanges
      · rename_i missing
        cases applied
        exact .withoutLog (by simpa using missing) (.inr ⟨aspect, throughEpoch, rfl⟩)

end IndexDb

/-- The ledger rows which an operation adds. -/
def IndexOp.ingested : IndexOp → List LedgerEntry
  | .recordIngest entry => [entry]
  | _ => []

namespace IndexDb

variable {db after : IndexDb} {op : IndexOp} {ops : List IndexOp} {aspect : AspectName}

theorem apply_ledger (applied : db.apply op = .ok after) :
    after.ledger.rows = db.ledger.rows ++ op.ingested := by
  cases applied_of_apply applied with
  | recordIngest inserted => exact KeyedTable.rows_of_insert? inserted
  | withoutLog missing kind =>
      rcases kind with ⟨change, rfl⟩ | ⟨aspect, epoch, rfl⟩ <;> simp [IndexOp.ingested]
  | _ => simp [IndexOp.ingested, withSegments, eraseEvery, raise]

theorem applyAll_ledger (applied : db.applyAll ops = .ok after) :
    after.ledger.rows = db.ledger.rows ++ ops.flatMap (·.ingested) := by
  induction ops generalizing db with
  | nil =>
      cases applied
      simp
  | cons op later ih =>
      obtain ⟨middle, first, rest⟩ := applyAll_cons_eq_ok.mp applied
      rw [ih rest, apply_ledger first, List.flatMap_cons, List.append_assoc]

end IndexDb

/-- The change rows which an operation adds. -/
def IndexOp.changed : IndexOp → List SegmentChange
  | .recordChange change => [change]
  | _ => []

/-- Whether an operation deletes a change row. -/
def IndexOp.forgets (op : IndexOp) (change : SegmentChange) : Prop :=
  match op with
  | .deleteChanges aspect throughEpoch => change.aspect = aspect ∧ change.epoch ≤ throughEpoch
  | _ => False

namespace IndexDb

variable {db after : IndexDb} {op : IndexOp} {ops : List IndexOp} {aspect : AspectName}
variable {change : SegmentChange}

theorem apply_hasChangeLog (applied : db.apply op = .ok after) :
    after.hasChangeLog = db.hasChangeLog := by
  cases applied_of_apply applied <;> rfl

theorem applyAll_hasChangeLog (applied : db.applyAll ops = .ok after) :
    after.hasChangeLog = db.hasChangeLog :=
  applyAll_induction (fun next => next.hasChangeLog = db.hasChangeLog)
    (fun _ kept applied => (apply_hasChangeLog applied).trans kept) rfl applied

theorem mem_changes_of_apply (applied : db.apply op = .ok after) (member : change ∈ after.changes) :
    change ∈ db.changes ∨ change ∈ op.changed := by
  cases applied_of_apply applied with
  | recordChange inserted =>
      rcases (KeyedTable.mem_of_insert? inserted change).mp member with kept | rfl
      · exact .inl kept
      · exact .inr List.mem_cons_self
  | deleteChanges => exact .inl (KeyedTable.mem_filter.mp member).1
  | _ => exact .inl member

theorem mem_changes_of_applyAll (applied : db.applyAll ops = .ok after)
    (member : change ∈ after.changes) : change ∈ db.changes ∨ change ∈ ops.flatMap (·.changed) := by
  induction ops generalizing db with
  | nil =>
      cases applied
      exact .inl member
  | cons op later ih =>
      obtain ⟨middle, first, rest⟩ := applyAll_cons_eq_ok.mp applied
      rw [List.flatMap_cons, List.mem_append]
      rcases ih rest with kept | added
      · rcases mem_changes_of_apply first kept with kept | added
        · exact .inl kept
        · exact .inr (.inl added)
      · exact .inr (.inr added)

theorem changes_kept_of_apply (applied : db.apply op = .ok after) (member : change ∈ db.changes) :
    change ∈ after.changes ∨ op.forgets change := by
  cases applied_of_apply applied with
  | recordChange inserted =>
      exact .inl ((KeyedTable.mem_of_insert? inserted change).mpr (.inl member))
  | @deleteChanges aspect throughEpoch =>
      by_cases forgotten : change.aspect = aspect ∧ change.epoch ≤ throughEpoch
      · exact .inr forgotten
      · exact .inl (KeyedTable.mem_filter.mpr ⟨member, decide_eq_true forgotten⟩)
  | _ => exact .inl member

theorem changes_kept_of_applyAll (applied : db.applyAll ops = .ok after)
    (member : change ∈ db.changes) : change ∈ after.changes ∨ ∃ op ∈ ops, op.forgets change := by
  induction ops generalizing db with
  | nil =>
      cases applied
      exact .inl member
  | cons op later ih =>
      obtain ⟨middle, first, rest⟩ := applyAll_cons_eq_ok.mp applied
      rcases changes_kept_of_apply first member with kept | forgotten
      · rcases ih rest kept with kept | ⟨other, other_mem, forgotten⟩
        · exact .inl kept
        · exact .inr ⟨other, List.mem_cons_of_mem op other_mem, forgotten⟩
      · exact .inr ⟨op, List.mem_cons_self, forgotten⟩

theorem change_recorded (logged : db.hasChangeLog = true) (applied : db.applyAll ops = .ok after)
    (member : change ∈ ops.flatMap (·.changed)) :
    change ∈ after.changes ∨ ∃ op ∈ ops, op.forgets change := by
  induction ops generalizing db with
  | nil => simp at member
  | cons op later ih =>
      obtain ⟨middle, first, rest⟩ := applyAll_cons_eq_ok.mp applied
      rw [List.flatMap_cons, List.mem_append] at member
      rcases member with own | others
      · cases applied_of_apply first with
        | recordChange inserted =>
            rw [IndexOp.changed, List.mem_singleton] at own
            subst own
            have recorded := (KeyedTable.mem_of_insert? inserted change).mpr (.inr rfl)
            rcases changes_kept_of_applyAll rest recorded with kept | ⟨other, other_mem, forgotten⟩
            · exact .inl kept
            · exact .inr ⟨other, List.mem_cons_of_mem _ other_mem, forgotten⟩
        | withoutLog missing => simp [logged] at missing
        | _ => simp [IndexOp.changed] at own
      · rcases ih ((apply_hasChangeLog first).trans logged) rest others with
          kept | ⟨other, other_mem, forgotten⟩
        · exact .inl kept
        · exact .inr ⟨other, List.mem_cons_of_mem op other_mem, forgotten⟩

end IndexDb

/-- The effect of an operation on the allocator row of an aspect. -/
def IndexOp.onSequence (op : IndexOp) (aspect : AspectName) (row : Option SequenceRow) :
    Option SequenceRow :=
  match op with
  | .seqBump own nextId nextGen epoch =>
      if own = aspect then
        some <|
          match row with
          | some row =>
              { row with
                aspect := own
                nextId := max row.nextId nextId
                nextGen := max row.nextGen (max nextGen 1)
                epoch := max row.epoch epoch }
          | none => ⟨own, nextId, max nextGen 1, epoch, 1⟩
      else
        row
  | .seedSeries own nextSeriesId =>
      if own = aspect then
        some <|
          match row with
          | some row =>
              { row with
                aspect := own
                nextSeriesId := max row.nextSeriesId nextSeriesId }
          | none => ⟨own, 1, 0, 0, nextSeriesId⟩
      else
        row
  | _ => row

namespace IndexDb

variable {db after : IndexDb} {op : IndexOp} {ops : List IndexOp} {aspect : AspectName}

theorem raisedRow_aspect (created : SequenceRow) (raised : SequenceRow → SequenceRow) :
    (db.raisedRow created raised).aspect = created.aspect := by
  unfold raisedRow
  split <;> rfl

theorem sequence_raise (created : SequenceRow) (raised : SequenceRow → SequenceRow) :
    (db.raise created raised).sequence aspect =
      if created.aspect = aspect then some (db.raisedRow created raised)
      else db.sequence aspect := by
  split
  · rename_i same
    rw [← same, ← raisedRow_aspect created raised]
    exact KeyedTable.find?_put_self _ _
  · rename_i different
    refine KeyedTable.find?_put_of_ne _ ?_
    rw [raisedRow_aspect]
    exact Ne.symm different

theorem apply_sequence (applied : db.apply op = .ok after) (aspect : AspectName) :
    after.sequence aspect = op.onSequence aspect (db.sequence aspect) := by
  cases applied_of_apply applied with
  | @seqBump own nextId nextGen epoch =>
      rw [sequence_raise]
      by_cases same : own = aspect
      · subst same
        cases old : db.sequence own <;> simp [raisedRow, IndexOp.onSequence, old]
      · simp [IndexOp.onSequence, same]
  | @seedSeries own nextSeriesId =>
      rw [sequence_raise]
      by_cases same : own = aspect
      · subst same
        cases old : db.sequence own <;> simp [raisedRow, IndexOp.onSequence, old]
      · simp [IndexOp.onSequence, same]
  | withoutLog missing kind => rcases kind with ⟨change, rfl⟩ | ⟨aspect, epoch, rfl⟩ <;> rfl
  | _ => rfl

/-- The next id which an aspect's allocator row allows. -/
def nextIdOf (db : IndexDb) (aspect : AspectName) : Nat :=
  ((db.sequence aspect).map (·.nextId)).getD 0

/-- The next generation which an aspect's allocator row allows. -/
def nextGenOf (db : IndexDb) (aspect : AspectName) : Nat :=
  ((db.sequence aspect).map (·.nextGen)).getD 0

/-- The epoch of an aspect's allocator row. -/
def epochOf (db : IndexDb) (aspect : AspectName) : Nat :=
  ((db.sequence aspect).map (·.epoch)).getD 0

/-- No counter of an aspect is lower afterwards. -/
structure Raised (db after : IndexDb) (aspect : AspectName) : Prop where
  nextId : db.nextIdOf aspect ≤ after.nextIdOf aspect
  nextGen : db.nextGenOf aspect ≤ after.nextGenOf aspect
  epoch : db.epochOf aspect ≤ after.epochOf aspect
  nextSeriesId : db.nextSeriesId aspect ≤ after.nextSeriesId aspect

theorem Raised.refl (db : IndexDb) (aspect : AspectName) : db.Raised db aspect :=
  ⟨Nat.le_refl _, Nat.le_refl _, Nat.le_refl _, Nat.le_refl _⟩

theorem Raised.trans {first second third : IndexDb} (earlier : first.Raised second aspect)
    (later : second.Raised third aspect) : first.Raised third aspect :=
  ⟨earlier.1.trans later.1, earlier.2.trans later.2, earlier.3.trans later.3,
    earlier.4.trans later.4⟩

theorem raised_of_apply (applied : db.apply op = .ok after) (aspect : AspectName) :
    db.Raised after aspect := by
  have row := apply_sequence applied aspect
  cases op with
  | seqBump own nextId nextGen epoch =>
      by_cases same : own = aspect <;> cases old : db.sequence aspect <;>
        constructor <;>
        simp [nextIdOf, nextGenOf, epochOf, nextSeriesId, row, old, IndexOp.onSequence, same]
  | seedSeries own seriesId =>
      by_cases same : own = aspect <;> cases old : db.sequence aspect <;>
        constructor <;>
        simp only [nextIdOf, nextGenOf, epochOf, nextSeriesId, row, old, IndexOp.onSequence,
          same, if_true, if_false, Option.map_some, Option.map_none, Option.getD_some,
          Option.getD_none] <;>
        omega
  | _ =>
      constructor <;> simp [nextIdOf, nextGenOf, epochOf, nextSeriesId, row, IndexOp.onSequence]

variable (applied : db.applyAll ops = .ok after)

include applied

theorem raised_of_applyAll (aspect : AspectName) : db.Raised after aspect :=
  applyAll_induction (fun next => db.Raised next aspect)
    (fun _ kept applied => kept.trans (raised_of_apply applied aspect)) (.refl db aspect) applied

theorem apply_of_mem (member : op ∈ ops) (aspect : AspectName) :
    ∃ middle last, db.Raised middle aspect ∧ middle.apply op = .ok last ∧
      last.Raised after aspect := by
  induction ops generalizing db with
  | nil => cases member
  | cons first later ih =>
      obtain ⟨next, head, rest⟩ := applyAll_cons_eq_ok.mp applied
      rcases List.mem_cons.mp member with rfl | member
      · exact ⟨db, next, .refl db aspect, head, raised_of_applyAll rest aspect⟩
      · obtain ⟨middle, last, raised, own, rest⟩ := ih rest member
        exact ⟨middle, last, (raised_of_apply head aspect).trans raised, own, rest⟩

theorem le_of_seqBump {nextId nextGen epoch : Nat}
    (member : .seqBump aspect nextId nextGen epoch ∈ ops) :
    nextId ≤ after.nextIdOf aspect ∧ nextGen ≤ after.nextGenOf aspect ∧
      epoch ≤ after.epochOf aspect := by
  obtain ⟨middle, last, _, own, raised⟩ := apply_of_mem applied member aspect
  have row := apply_sequence own aspect
  have reached : nextId ≤ last.nextIdOf aspect ∧ nextGen ≤ last.nextGenOf aspect ∧
      epoch ≤ last.epochOf aspect := by
    cases old : middle.sequence aspect <;>
      simp [nextIdOf, nextGenOf, epochOf, row, old, IndexOp.onSequence]
  exact ⟨reached.1.trans raised.nextId, reached.2.1.trans raised.nextGen,
    reached.2.2.trans raised.epoch⟩

theorem le_of_seedSeries {next : Nat} (member : .seedSeries aspect next ∈ ops) :
    next ≤ after.nextSeriesId aspect := by
  obtain ⟨middle, last, _, own, raised⟩ := apply_of_mem applied member aspect
  have row := apply_sequence own aspect
  have reached : next ≤ last.nextSeriesId aspect := by
    cases old : middle.sequence aspect <;>
      simp [nextSeriesId, row, old, IndexOp.onSequence]
  exact reached.trans raised.nextSeriesId

end IndexDb

/-- The epoch to which an operation raises an aspect. -/
def IndexOp.bumpedEpoch (aspect : AspectName) : IndexOp → Nat
  | .seqBump own _ _ epoch => if own = aspect then epoch else 0
  | _ => 0

/-- The id to which an operation raises an aspect's allocator; the row which a series creates
starts at `1`. -/
def IndexOp.bumpedId (aspect : AspectName) : IndexOp → Nat
  | .seqBump own nextId _ _ => if own = aspect then nextId else 0
  | .seedSeries own _ => if own = aspect then 1 else 0
  | _ => 0

/-- The series which an operation registers. -/
def IndexOp.registers : IndexOp → List SeriesEntry
  | .registerSeries aspect id key => [⟨aspect, key, id⟩]
  | _ => []

namespace IndexDb

variable {db after : IndexDb} {op : IndexOp} {ops : List IndexOp} {aspect : AspectName}
variable {entry : SeriesEntry} {key : SeriesKey}

theorem apply_epochOf (applied : db.apply op = .ok after) (aspect : AspectName) :
    after.epochOf aspect = max (db.epochOf aspect) (op.bumpedEpoch aspect) := by
  have row := apply_sequence applied aspect
  cases op with
  | seqBump own nextId nextGen epoch =>
      by_cases same : own = aspect <;> cases old : db.sequence aspect <;>
        simp [epochOf, row, old, IndexOp.onSequence, IndexOp.bumpedEpoch, same]
  | seedSeries own next =>
      by_cases same : own = aspect <;> cases old : db.sequence aspect <;>
        simp [epochOf, row, old, IndexOp.onSequence, IndexOp.bumpedEpoch, same]
  | _ => simp [epochOf, row, IndexOp.onSequence, IndexOp.bumpedEpoch]

theorem epochOf_le_of_applyAll {bound : Nat} (applied : db.applyAll ops = .ok after)
    (start : db.epochOf aspect ≤ bound) (bumped : ∀ op ∈ ops, op.bumpedEpoch aspect ≤ bound) :
    after.epochOf aspect ≤ bound :=
  applyAll_induction (fun next => next.epochOf aspect ≤ bound)
    (fun member kept applied => by
      rw [apply_epochOf applied]
      exact max_le kept (bumped _ member)) start applied

theorem apply_nextIdOf (applied : db.apply op = .ok after) (aspect : AspectName) :
    after.nextIdOf aspect ≤ max (db.nextIdOf aspect) (op.bumpedId aspect) := by
  have row := apply_sequence applied aspect
  cases op with
  | seqBump own nextId nextGen epoch =>
      by_cases same : own = aspect <;> cases old : db.sequence aspect <;>
        simp [nextIdOf, row, old, IndexOp.onSequence, IndexOp.bumpedId, same]
  | seedSeries own next =>
      by_cases same : own = aspect <;> cases old : db.sequence aspect <;>
        simp [nextIdOf, row, old, IndexOp.onSequence, IndexOp.bumpedId, same]
  | _ => simp [nextIdOf, row, IndexOp.onSequence, IndexOp.bumpedId]

theorem nextIdOf_le_of_applyAll {bound : Nat} (applied : db.applyAll ops = .ok after)
    (start : db.nextIdOf aspect ≤ bound) (bumped : ∀ op ∈ ops, op.bumpedId aspect ≤ bound) :
    after.nextIdOf aspect ≤ bound :=
  applyAll_induction (fun next => next.nextIdOf aspect ≤ bound)
    (fun member kept applied =>
      (apply_nextIdOf applied aspect).trans (max_le kept (bumped _ member))) start applied

theorem mem_series_of_apply (applied : db.apply op = .ok after) (member : entry ∈ after.series) :
    entry ∈ db.series ∨ entry ∈ op.registers := by
  cases applied_of_apply applied with
  | registerSeries inserted =>
      rcases (KeyedTable.mem_of_insert? inserted entry).mp member with kept | rfl
      · exact .inl kept
      · exact .inr List.mem_cons_self
  | _ => exact .inl member

theorem mem_series_of_applyAll (applied : db.applyAll ops = .ok after)
    (member : entry ∈ after.series) : entry ∈ db.series ∨ ∃ op ∈ ops, entry ∈ op.registers := by
  induction ops generalizing db with
  | nil =>
      cases applied
      exact .inl member
  | cons op later ih =>
      obtain ⟨middle, first, rest⟩ := applyAll_cons_eq_ok.mp applied
      rcases ih rest with kept | ⟨other, other_mem, registered⟩
      · rcases mem_series_of_apply first kept with kept | registered
        · exact .inl kept
        · exact .inr ⟨op, List.mem_cons_self, registered⟩
      · exact .inr ⟨other, List.mem_cons_of_mem op other_mem, registered⟩

theorem series_kept_of_apply (applied : db.apply op = .ok after) (member : entry ∈ db.series) :
    entry ∈ after.series := by
  cases applied_of_apply applied with
  | registerSeries inserted =>
      exact (KeyedTable.mem_of_insert? inserted entry).mpr (.inl member)
  | _ => exact member

theorem series_kept_of_applyAll (applied : db.applyAll ops = .ok after)
    (member : entry ∈ db.series) : entry ∈ after.series :=
  applyAll_induction (fun next => entry ∈ next.series)
    (fun _ kept applied => series_kept_of_apply applied kept) member applied

theorem registered_of_apply {id : Nat}
    (applied : db.apply (.registerSeries aspect id key) = .ok after) :
    ⟨aspect, key, id⟩ ∈ after.series := by
  cases applied_of_apply applied with
  | registerSeries inserted =>
      exact (KeyedTable.mem_of_insert? inserted ⟨aspect, key, id⟩).mpr (.inr rfl)
  | withoutLog _ kind => simp at kind

theorem registered_of_applyAll (applied : db.applyAll ops = .ok after) {id : Nat}
    (member : .registerSeries aspect id key ∈ ops) : ⟨aspect, key, id⟩ ∈ after.series := by
  induction ops generalizing db with
  | nil => cases member
  | cons op later ih =>
      obtain ⟨middle, first, rest⟩ := applyAll_cons_eq_ok.mp applied
      rcases List.mem_cons.mp member with rfl | member
      · exact series_kept_of_applyAll rest (registered_of_apply first)
      · exact ih rest member

end IndexDb

end WeftDb
