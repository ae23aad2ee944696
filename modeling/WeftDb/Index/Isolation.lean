import WeftDb.Index.Effects

/-!
# Transactions within one aspect

An operation names the aspect whose rows it writes.  A transaction within one aspect leaves every
table as it was for the others, and a transaction whose operations insert rows under free keys is
never refused.
-/

namespace WeftDb

open IndexOp KeyedTable

/-- Whether an operation writes no aspect but this one; the journal belongs to none. -/
def IndexOp.Within (aspect : AspectName) : IndexOp → Prop
  | .insertNew own _ => own = aspect
  | .replaceExpected own _ _ => own = aspect
  | .deleteExpected own _ => own = aspect
  | .deleteEveryExpected own _ => own = aspect
  | .upsert own _ => own = aspect
  | .delete own _ => own = aspect
  | .seqBump own _ _ _ => own = aspect
  | .journalPending _ _ _ => True
  | .journalRetire _ _ _ _ => True
  | .journalHeld _ _ _ => True
  | .clearJournal _ => True
  | .putRollup own _ => own = aspect
  | .quarantineInsert record => record.aspect = aspect
  | .quarantineDelete own _ _ => own = aspect
  | .seedSeries own _ => own = aspect
  | .registerSeries own _ _ => own = aspect
  | .recordIngest entry => entry.aspect = aspect
  | .recordChange change => change.aspect = aspect
  | .deleteChanges own _ => own = aspect

namespace IndexDb

/-- The two indexes agree on everything which belongs to an aspect. -/
structure SameFor (db after : IndexDb) (aspect : AspectName) : Prop where
  stored : after.stored aspect = db.stored aspect
  sequence : after.sequence aspect = db.sequence aspect
  rollup : after.rollup aspect = db.rollup aspect
  series : ∀ entry : SeriesEntry, entry.aspect = aspect →
    (entry ∈ after.series ↔ entry ∈ db.series)
  ledger : ∀ entry : LedgerEntry, entry.aspect = aspect →
    (entry ∈ after.ledger ↔ entry ∈ db.ledger)
  changes : ∀ change : SegmentChange, change.aspect = aspect →
    (change ∈ after.changes ↔ change ∈ db.changes)
  quarantine : ∀ record : QuarantineRecord, record.aspect = aspect →
    (record ∈ after.quarantine ↔ record ∈ db.quarantine)

namespace SameFor

variable {db after : IndexDb} {aspect : AspectName}

theorem refl (db : IndexDb) (aspect : AspectName) : db.SameFor db aspect :=
  ⟨rfl, rfl, rfl, fun _ _ => Iff.rfl, fun _ _ => Iff.rfl, fun _ _ => Iff.rfl,
    fun _ _ => Iff.rfl⟩

theorem trans {first second third : IndexDb} (earlier : first.SameFor second aspect)
    (later : second.SameFor third aspect) : first.SameFor third aspect where
  stored := later.stored.trans earlier.stored
  sequence := later.sequence.trans earlier.sequence
  rollup := later.rollup.trans earlier.rollup
  series entry own := (later.series entry own).trans (earlier.series entry own)
  ledger entry own := (later.ledger entry own).trans (earlier.ledger entry own)
  changes change own := (later.changes change own).trans (earlier.changes change own)
  quarantine record own := (later.quarantine record own).trans (earlier.quarantine record own)

theorem epochOf (same : db.SameFor after aspect) : after.epochOf aspect = db.epochOf aspect := by
  simp only [IndexDb.epochOf, same.sequence]

theorem nextIdOf (same : db.SameFor after aspect) :
    after.nextIdOf aspect = db.nextIdOf aspect := by
  simp only [IndexDb.nextIdOf, same.sequence]

end SameFor

variable {db after : IndexDb} {op : IndexOp} {ops : List IndexOp} {own aspect : AspectName}

end IndexDb

/-- The rows which an operation puts. -/
def IndexOp.puts : IndexOp → List (AspectName × IndexRow)
  | .insertNew own row => [(own, row)]
  | .replaceExpected own _ row => [(own, row)]
  | .upsert own row => [(own, row)]
  | _ => []

/-- The effect of an operation on the rows of an aspect. -/
def IndexOp.onStored (op : IndexOp) (aspect : AspectName) (rows : List IndexRow) :
    List IndexRow :=
  match op with
  | .insertNew own row => if own = aspect then rows ++ [row] else rows
  | .replaceExpected own expected row =>
      if own = aspect then
        rows.filter (fun other => decide (other.desc.id ≠ expected.id)) ++ [row]
      else
        rows
  | .deleteExpected own expected =>
      if own = aspect then rows.filter fun other => decide (other.desc.id ≠ expected.id) else rows
  | .deleteEveryExpected own expected =>
      if own = aspect then rows.filter fun other => decide (other.desc.id ∉ expected.map (·.id))
      else rows
  | .upsert own row =>
      if own = aspect then
        rows.filter (fun other => decide (other.desc.id ≠ row.desc.id)) ++ [row]
      else
        rows
  | .delete own id =>
      if own = aspect then rows.filter fun other => decide (other.desc.id ≠ id) else rows
  | _ => rows

namespace IndexDb

variable {db after : IndexDb} {op : IndexOp} {ops : List IndexOp} {own aspect : AspectName}
variable {row : IndexRow}

theorem stored_append {segments : KeyedTable segmentKey} {kept : List (AspectName × IndexRow)}
    (rows : segments.rows = kept ++ [(own, row)]) :
    (db.withSegments segments).stored aspect =
      (kept.filter fun stored => decide (stored.1 = aspect)).map Prod.snd ++
        if own = aspect then [row] else [] := by
  simp only [stored, withSegments, rows, List.filter_append, List.map_append]
  split <;> simp_all

theorem stored_filter (keep : AspectName × IndexRow → Bool) :
    ((db.segments.rows.filter keep).filter fun stored => decide (stored.1 = aspect)).map Prod.snd =
      (db.stored aspect).filter fun row => keep (aspect, row) := by
  simp only [stored, List.filter_filter, List.filter_map]
  congr 1
  refine List.filter_congr ?_
  rintro ⟨found, row⟩ _
  by_cases same : found = aspect
  · subst same
    simp
  · simp [same]

theorem stored_erase (id : Nat) :
    ((db.segments.erase (own, id)).rows.filter fun stored =>
        decide (stored.1 = aspect)).map Prod.snd =
      if own = aspect then (db.stored aspect).filter fun row => decide (row.desc.id ≠ id)
      else db.stored aspect := by
  refine (stored_filter _).trans ?_
  split
  · rename_i same
    subst same
    refine List.filter_congr fun row _ => ?_
    simp [segmentKey]
  · rename_i different
    rw [List.filter_eq_self]
    intro row _
    simp [segmentKey, Ne.symm different]

theorem apply_stored (applied : db.apply op = .ok after) (aspect : AspectName) :
    after.stored aspect = op.onStored aspect (db.stored aspect) := by
  cases applied_of_apply applied with
  | @insertNew own row segments inserted =>
      rw [stored_append (rows_of_insert? inserted)]
      simp only [onStored]
      split
      · rfl
      · exact List.append_nil _
  | @replaceExpected own expected row member segments found inserted =>
      rw [stored_append (rows_of_insert? inserted), stored_erase]
      simp only [onStored]
      split
      · rfl
      · exact List.append_nil _
  | deleteExpected found => exact stored_erase _
  | @deleteEveryExpected own expected =>
      refine (stored_filter _).trans ?_
      simp only [onStored]
      split
      · rename_i same
        subst same
        refine List.filter_congr fun row _ => ?_
        simp
      · rename_i different
        rw [List.filter_eq_self]
        intro row _
        simp [Ne.symm different]
  | @upsert own row =>
      have rows : (db.segments.put (own, row)).rows =
          (db.segments.erase (own, row.desc.id)).rows ++ [(own, row)] := by
        rfl
      rw [stored_append rows, stored_erase]
      simp only [onStored]
      split
      · rfl
      · exact List.append_nil _
  | delete => exact stored_erase _
  | withoutLog missing kind => rcases kind with ⟨change, rfl⟩ | ⟨aspect, epoch, rfl⟩ <;> rfl
  | _ => rfl

theorem applyAll_stored (applied : db.applyAll ops = .ok after) (aspect : AspectName) :
    after.stored aspect =
      ops.foldl (fun rows op => op.onStored aspect rows) (db.stored aspect) := by
  induction ops generalizing db with
  | nil =>
      cases applied
      rfl
  | cons op later ih =>
      obtain ⟨middle, first, rest⟩ := applyAll_cons_eq_ok.mp applied
      rw [ih rest, apply_stored first, List.foldl_cons]

theorem mem_onStored {rows : List IndexRow} (member : row ∈ op.onStored aspect rows) :
    row ∈ rows ∨ (aspect, row) ∈ op.puts := by
  cases op with
  | insertNew own put =>
      simp only [onStored] at member
      split at member
      · rename_i same
        subst same
        simpa [puts] using member
      · exact .inl member
  | replaceExpected own expected put =>
      simp only [onStored] at member
      split at member
      · rename_i same
        subst same
        rcases List.mem_append.mp member with kept | added
        · exact .inl (List.mem_filter.mp kept).1
        · exact .inr (by simpa [puts] using added)
      · exact .inl member
  | upsert own put =>
      simp only [onStored] at member
      split at member
      · rename_i same
        subst same
        rcases List.mem_append.mp member with kept | added
        · exact .inl (List.mem_filter.mp kept).1
        · exact .inr (by simpa [puts] using added)
      · exact .inl member
  | deleteExpected own expected =>
      simp only [onStored] at member
      split at member
      · exact .inl (List.mem_filter.mp member).1
      · exact .inl member
  | deleteEveryExpected own expected =>
      simp only [onStored] at member
      split at member
      · exact .inl (List.mem_filter.mp member).1
      · exact .inl member
  | delete own id =>
      simp only [onStored] at member
      split at member
      · exact .inl (List.mem_filter.mp member).1
      · exact .inl member
  | _ => exact .inl member

theorem mem_stored_of_applyAll (applied : db.applyAll ops = .ok after)
    (member : row ∈ after.stored aspect) :
    row ∈ db.stored aspect ∨ ∃ op ∈ ops, (aspect, row) ∈ op.puts := by
  induction ops generalizing db with
  | nil =>
      cases applied
      exact .inl member
  | cons op later ih =>
      obtain ⟨middle, first, rest⟩ := applyAll_cons_eq_ok.mp applied
      rcases ih rest with kept | ⟨other, other_mem, put⟩
      · rw [apply_stored first] at kept
        rcases mem_onStored kept with kept | put
        · exact .inl kept
        · exact .inr ⟨op, List.mem_cons_self, put⟩
      · exact .inr ⟨other, List.mem_cons_of_mem op other_mem, put⟩

end IndexDb

/-- The effect of an operation on the rollup of an aspect. -/
def IndexOp.onRollup (op : IndexOp) (aspect : AspectName) (stored : Option AspectMetadata) :
    Option AspectMetadata :=
  match op with
  | .putRollup own rollup => if own = aspect then some rollup else stored
  | _ => stored

namespace IndexDb

variable {db after : IndexDb} {op : IndexOp} {ops : List IndexOp} {own aspect : AspectName}

theorem apply_rollup (applied : db.apply op = .ok after) (aspect : AspectName) :
    after.rollup aspect = op.onRollup aspect (db.rollup aspect) := by
  cases applied_of_apply applied with
  | @putRollup own rollup =>
      simp only [IndexDb.rollup, onRollup]
      split
      · rename_i same
        subst same
        rw [find?_put_self db.rollups (own, rollup)]
        rfl
      · rename_i different
        rw [find?_put_of_ne db.rollups (Ne.symm different)]
  | withoutLog missing kind => rcases kind with ⟨change, rfl⟩ | ⟨aspect, epoch, rfl⟩ <;> rfl
  | _ => rfl

section

variable (within : op.Within own)

include within

theorem onStored_of_within (different : own ≠ aspect) (rows : List IndexRow) :
    op.onStored aspect rows = rows := by
  cases op <;> simp_all [IndexOp.Within, onStored]

theorem onSequence_of_within (different : own ≠ aspect) (row : Option SequenceRow) :
    op.onSequence aspect row = row := by
  cases op <;> simp_all [IndexOp.Within, onSequence]

theorem onRollup_of_within (different : own ≠ aspect) (rollup : Option AspectMetadata) :
    op.onRollup aspect rollup = rollup := by
  cases op <;> simp_all [IndexOp.Within, onRollup]

/-- An operation within one aspect leaves the others alone. -/
theorem sameFor_of_apply (different : own ≠ aspect) (applied : db.apply op = .ok after) :
    db.SameFor after aspect where
  stored := by rw [apply_stored applied, onStored_of_within within different]
  sequence := by rw [apply_sequence applied, onSequence_of_within within different]
  rollup := by rw [apply_rollup applied, onRollup_of_within within different]
  series := by
    intro entry entry_own
    cases applied_of_apply applied with
    | registerSeries inserted =>
        rw [mem_of_insert? inserted]
        simp only [IndexOp.Within] at within
        exact or_iff_left fun same => different (by rw [← entry_own, same, within])
    | _ => exact Iff.rfl
  ledger := by
    intro entry entry_own
    cases applied_of_apply applied with
    | recordIngest inserted =>
        rw [mem_of_insert? inserted]
        simp only [IndexOp.Within] at within
        exact or_iff_left fun same => different (by rw [← entry_own, same, within])
    | _ => exact Iff.rfl
  changes := by
    intro change change_own
    cases applied_of_apply applied with
    | recordChange inserted =>
        rw [mem_of_insert? inserted]
        simp only [IndexOp.Within] at within
        exact or_iff_left fun same => different (by rw [← change_own, same, within])
    | deleteChanges =>
        simp only [IndexOp.Within] at within
        rw [mem_filter]
        refine and_iff_left (decide_eq_true ?_)
        rintro ⟨same, _⟩
        exact different (by rw [← within, ← same, change_own])
    | _ => exact Iff.rfl
  quarantine := by
    intro record record_own
    cases applied_of_apply applied with
    | quarantineInsert =>
        simp only [IndexOp.Within] at within
        rw [mem_put]
        constructor
        · rintro (⟨kept, _⟩ | same)
          · exact kept
          · exact absurd (by rw [← record_own, same, within]) different
        · intro kept
          refine .inl ⟨kept, fun same => different ?_⟩
          rw [← within, ← record_own]
          exact (congrArg Prod.fst same).symm
    | quarantineDelete =>
        simp only [IndexOp.Within] at within
        rw [mem_erase]
        refine and_iff_left fun same => different ?_
        rw [← within, ← record_own]
        exact (congrArg Prod.fst same).symm
    | _ => exact Iff.rfl

end

theorem sameFor_of_applyAll (within : ∀ op ∈ ops, op.Within own) (different : own ≠ aspect)
    (applied : db.applyAll ops = .ok after) : db.SameFor after aspect :=
  applyAll_induction (fun next => db.SameFor next aspect)
    (fun member kept applied => kept.trans (sameFor_of_apply (within _ member) different applied))
    (.refl db aspect) applied

end IndexDb

end WeftDb
