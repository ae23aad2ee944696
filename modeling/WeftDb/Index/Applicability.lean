import WeftDb.Index.Isolation

/-!
# Transactions which cannot be refused

An inserting operation is refused only for a key which is taken.  A transaction whose inserts have
different keys, all of them free, is applied in full.
-/

namespace WeftDb

/-- Whether the keys which an operation inserts under are free.  An operation with another
precondition counts as refusable. -/
def IndexOp.Free (db : IndexDb) : IndexOp → Prop
  | .insertNew aspect row => ∀ other ∈ db.stored aspect, other.desc.id ≠ row.desc.id
  | .registerSeries aspect id key => id ≠ 0 ∧ key ≠ "" ∧ ∀ entry ∈ db.series,
      entry.aspect = aspect → entry.id ≠ id ∧ entry.key ≠ key
  | .recordIngest entry => db.ledgerEntry entry.aspect entry.key = none
  | .recordChange change => ∀ other ∈ db.changes, other.aspect = change.aspect →
      other.epoch ≠ change.epoch
  | .seqBump _ _ _ _ => True
  | .seedSeries _ _ => True
  | .putRollup _ _ => True
  | _ => False

/-- Two operations do not insert under one key. -/
def IndexOp.Independent : IndexOp → IndexOp → Prop
  | .insertNew own row, .insertNew aspect other => own = aspect → row.desc.id ≠ other.desc.id
  | .registerSeries _ _ _, .registerSeries _ _ _ => False
  | .recordIngest _, .recordIngest _ => False
  | .recordChange _, .recordChange _ => False
  | _, _ => True

namespace IndexDb

variable {db after : IndexDb} {op other : IndexOp} {ops : List IndexOp}
variable {aspect : AspectName}

theorem segment_free {row : IndexRow}
    (free : ∀ other ∈ db.stored aspect, other.desc.id ≠ row.desc.id) :
    ∀ stored ∈ db.segments, segmentKey stored ≠ segmentKey (aspect, row) := by
  rintro ⟨own, stored⟩ member same
  obtain ⟨rfl, ids⟩ := Prod.mk.inj same
  exact free stored (mem_stored.mpr member) ids

theorem apply_of_free (free : op.Free db) : ∃ after, db.apply op = .ok after := by
  cases op with
  | insertNew aspect row =>
      obtain ⟨segments, inserted⟩ := KeyedTable.insert?_isSome _ _ (segment_free free)
      exact ⟨_, by simp only [apply, inserted]; rfl⟩
  | registerSeries aspect id key =>
      obtain ⟨id_ne, key_ne, unused⟩ := free
      obtain ⟨series, inserted⟩ := db.series.insert?_isSome ⟨aspect, key, id⟩ (by
          intro entry member same
          obtain ⟨own, keys⟩ := Prod.mk.inj same
          exact (unused entry member own).2 keys)
      have untaken : (db.series.rows.any fun entry =>
          decide (entry.aspect = aspect ∧ entry.id = id)) = false := by
        rw [List.any_eq_false]
        intro entry member
        simp only [decide_eq_true_eq, not_and]
        exact fun own => (unused entry member own).1
      refine ⟨{ db with series }, ?_⟩
      simp only [apply, id_ne, key_ne, or_self, if_false, untaken, inserted, Bool.false_eq_true]
      rfl
  | recordIngest entry =>
      obtain ⟨ledger, inserted⟩ := KeyedTable.insert?_isSome _ _ (ledgerEntry_eq_none.mp free)
      exact ⟨_, by simp only [apply, inserted]; rfl⟩
  | recordChange change =>
      obtain ⟨changes, inserted⟩ := db.changes.insert?_isSome change (by
          intro other member same
          obtain ⟨own, epochs⟩ := Prod.mk.inj same
          exact free other member own epochs)
      simp only [apply, inserted]
      split
      · exact ⟨_, rfl⟩
      · exact ⟨_, rfl⟩
  | seqBump aspect nextId nextGen epoch => exact ⟨_, rfl⟩
  | seedSeries aspect nextSeriesId => exact ⟨_, rfl⟩
  | putRollup aspect rollup => exact ⟨_, rfl⟩
  | _ => exact free.elim

theorem free_of_apply (free : other.Free db) (independent : op.Independent other)
    (own_free : op.Free db) (applied : db.apply op = .ok after) : other.Free after := by
  cases other with
  | insertNew aspect row =>
      intro stored member
      rw [apply_stored applied] at member
      rcases mem_onStored member with kept | put
      · exact free stored kept
      · cases op with
        | insertNew own inserted =>
            simp only [IndexOp.puts, List.mem_singleton, Prod.mk.injEq] at put
            obtain ⟨rfl, rfl⟩ := put
            exact independent rfl
        | replaceExpected own expected inserted => exact own_free.elim
        | upsert own inserted => exact own_free.elim
        | _ => cases put
  | registerSeries aspect id key =>
      refine ⟨free.1, free.2.1, ?_⟩
      intro entry member
      cases applied_of_apply applied with
      | registerSeries inserted => exact independent.elim
      | _ => exact free.2.2 entry member
  | recordIngest entry =>
      refine ledgerEntry_eq_none.mpr ?_
      intro recorded member
      cases applied_of_apply applied with
      | recordIngest inserted => exact independent.elim
      | _ => exact ledgerEntry_eq_none.mp free recorded member
  | recordChange change =>
      intro recorded member
      cases applied_of_apply applied with
      | recordChange inserted => exact independent.elim
      | deleteChanges => exact own_free.elim
      | _ => exact free recorded member
  | seqBump aspect nextId nextGen epoch => trivial
  | seedSeries aspect nextSeriesId => trivial
  | putRollup aspect rollup => trivial
  | _ => exact free.elim

theorem applyAll_of_free (free : ∀ op ∈ ops, op.Free db)
    (independent : ops.Pairwise IndexOp.Independent) : ∃ after, db.applyAll ops = .ok after := by
  induction ops generalizing db with
  | nil => exact ⟨db, rfl⟩
  | cons op later ih =>
      obtain ⟨apart, rest⟩ := List.pairwise_cons.mp independent
      have own := free op List.mem_cons_self
      obtain ⟨middle, first⟩ := apply_of_free own
      obtain ⟨after, applied⟩ := ih (fun other member =>
        free_of_apply (free other (List.mem_cons_of_mem op member)) (apart other member) own
          first) rest
      exact ⟨after, applyAll_cons_eq_ok.mpr ⟨middle, first, applied⟩⟩

/-- The second index holds no more of an aspect than the first, and the same rows and counters. -/
structure Lasts (db after : IndexDb) (aspect : AspectName) : Prop where
  stored : after.stored aspect = db.stored aspect
  sequence : after.sequence aspect = db.sequence aspect
  series : ∀ entry ∈ after.series, entry.aspect = aspect → entry ∈ db.series
  ledger : ∀ entry ∈ after.ledger, entry.aspect = aspect → entry ∈ db.ledger
  changes : ∀ change ∈ after.changes, change.aspect = aspect → change ∈ db.changes

theorem SameFor.lasts (same : db.SameFor after aspect) : db.Lasts after aspect where
  stored := same.stored
  sequence := same.sequence
  series entry member own := (same.series entry own).mp member
  ledger entry member own := (same.ledger entry own).mp member
  changes change member own := (same.changes change own).mp member

theorem lasts_of_applyAll (applied : db.applyAll ops = .ok after)
    (clearing : ∀ op ∈ ops, (∃ name, op = .clearJournal name) ∨
      ∃ aspect epoch, op = .deleteChanges aspect epoch) (aspect : AspectName) :
    db.Lasts after aspect := by
  refine applyAll_induction (fun next => db.Lasts next aspect) ?_
    ⟨rfl, rfl, fun _ member _ => member, fun _ member _ => member, fun _ member _ => member⟩
    applied
  intro before next op member kept taken
  rcases clearing op member with ⟨name, rfl⟩ | ⟨own, epoch, rfl⟩
  · cases taken
    exact ⟨kept.stored, kept.sequence, kept.series, kept.ledger, kept.changes⟩
  · refine ⟨?_, ?_, ?_, ?_, ?_⟩
    · rw [apply_stored taken]
      exact kept.stored
    · rw [apply_sequence taken]
      exact kept.sequence
    · intro entry entry_mem
      rcases mem_series_of_apply taken entry_mem with earlier | added
      · exact kept.series entry earlier
      · cases added
    · intro entry entry_mem
      have rows : next.ledger.rows = before.ledger.rows :=
        (apply_ledger taken).trans (List.append_nil _)
      rw [← KeyedTable.mem_rows, rows] at entry_mem
      exact kept.ledger entry entry_mem
    · intro change change_mem
      rcases mem_changes_of_apply taken change_mem with earlier | added
      · exact kept.changes change earlier
      · cases added

theorem free_of_lasts (within : op.Within aspect) (free : op.Free db)
    (lasts : db.Lasts after aspect) : op.Free after := by
  cases op with
  | insertNew own row =>
      cases within
      intro other member
      rw [lasts.stored] at member
      exact free other member
  | registerSeries own id key =>
      cases within
      exact ⟨free.1, free.2.1, fun entry member entry_own =>
        free.2.2 entry (lasts.series entry member entry_own) entry_own⟩
  | recordIngest entry =>
      cases within
      refine ledgerEntry_eq_none.mpr fun recorded member same => ?_
      exact ledgerEntry_eq_none.mp free recorded
        (lasts.ledger recorded member (Prod.mk.inj same).1) same
  | recordChange change =>
      cases within
      exact fun other member own => free other (lasts.changes other member own) own
  | seqBump own nextId nextGen epoch => trivial
  | seedSeries own nextSeriesId => trivial
  | putRollup own rollup => trivial
  | _ => exact free.elim

end IndexDb

end WeftDb
