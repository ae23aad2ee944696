import WeftDb.Index.FrameNames
import WeftDb.Index.Isolation

/-!
# The ids and generations in use

A mark is a segment id or a frame generation which an index row, a journaled frame or a quarantine
record holds.  A transaction leaves no mark but those which were there before and those which its
operations bring, so an index all of whose marks are below their counters stays one as long as a
transaction raises the counters past what it brings.
-/

namespace WeftDb

/-- The two counters of an aspect. -/
inductive Counter
  | id
  | gen
  deriving DecidableEq

/-- A segment id or a frame generation of an aspect. -/
structure Mark where
  aspect : AspectName
  counter : Counter
  value : Nat
  deriving DecidableEq

namespace FrameName

/-- The marks which a frame's name carries for a row of an aspect.  A legacy name belongs to the
aspect which it names. -/
def marks (aspect : AspectName) : FrameName → List Mark
  | .writeOnce _ gen _ => [⟨aspect, .gen, gen⟩]
  | .legacy own id => [⟨own, .id, id⟩]
  | .other _ => []

/-- The marks of a file which is known by its name alone. -/
def fileMarks (name : FrameName) : List Mark :=
  match name with
  | .writeOnce _ gen _ => name.aspect.toList.map fun aspect => ⟨aspect, .gen, gen⟩
  | .legacy own id => [⟨own, .id, id⟩]
  | .other _ => []

end FrameName

def FramePath.marks (aspect : AspectName) : FramePath → List Mark
  | .segments name => name.marks aspect
  | .elsewhere _ => []

/-- The marks of a row: its id, its generation, and what its frame's name carries. -/
def IndexRow.marks (aspect : AspectName) (row : IndexRow) : List Mark :=
  ⟨aspect, .id, row.desc.id⟩ :: ⟨aspect, .gen, row.gen⟩ :: row.desc.path.marks aspect

/-- The marks of a journaled frame.  A held frame is an orphan, and its marks are those of a file
which no transaction wrote. -/
def JournalEntry.marks (entry : JournalEntry) : List Mark :=
  if entry.state = .held then [] else entry.name.marks entry.aspect

/-- The marks of a quarantined row; an orphan's record has none but those of its file. -/
def QuarantineRecord.marks (record : QuarantineRecord) : List Mark :=
  match record.row with
  | some row =>
      ⟨record.aspect, .id, record.id⟩ :: ⟨record.aspect, .gen, record.gen⟩ ::
        (record.name.marks record.aspect ++ row.marks record.aspect)
  | none => []

namespace IndexOp

/-- The marks which an operation brings. -/
def marks : IndexOp → List Mark
  | .insertNew aspect row => row.marks aspect
  | .replaceExpected aspect _ row => row.marks aspect
  | .upsert aspect row => row.marks aspect
  | .journalPending aspect name _ => name.marks aspect
  | .journalRetire aspect name _ _ => name.marks aspect
  | .quarantineInsert record => record.marks
  | _ => []

/-- How far an operation raises the counter of a mark. -/
def bump (mark : Mark) : IndexOp → Nat
  | .seqBump aspect nextId nextGen _ =>
      if aspect = mark.aspect then
        match mark.counter with
        | .id => nextId
        | .gen => nextGen
      else
        0
  | _ => 0

end IndexOp

namespace IndexDb

variable {db after : IndexDb} {op : IndexOp} {ops : List IndexOp} {mark : Mark}
variable {aspect : AspectName} {row : IndexRow} {record : QuarantineRecord}

/-- The persisted counter of a mark.  Generation `0` is never handed out. -/
def counterOf (db : IndexDb) (mark : Mark) : Nat :=
  match mark.counter with
  | .id => db.nextIdOf mark.aspect
  | .gen => max (db.nextGenOf mark.aspect) 1

/-- Every mark which something in the index holds. -/
def marks (db : IndexDb) : List Mark :=
  db.segments.rows.flatMap (fun stored => stored.2.marks stored.1) ++
    db.journal.rows.flatMap JournalEntry.marks ++
    db.quarantine.rows.flatMap QuarantineRecord.marks

/-- Every mark is below its counter. -/
def Counted (db : IndexDb) : Prop :=
  ∀ mark ∈ db.marks, mark.value < db.counterOf mark

instance (db : IndexDb) : Decidable db.Counted :=
  inferInstanceAs (Decidable (∀ mark ∈ db.marks, _))

/-- Whether a transaction leaves the counters above the marks it brings. -/
def Counts (db : IndexDb) (ops : List IndexOp) : Prop :=
  ∀ op ∈ ops, ∀ mark ∈ op.marks,
    mark.value < db.counterOf mark ∨ ∃ raise ∈ ops, mark.value < raise.bump mark

theorem mem_marks :
    mark ∈ db.marks ↔ (∃ aspect, ∃ row ∈ db.stored aspect, mark ∈ row.marks aspect) ∨
      (∃ entry ∈ db.journal, mark ∈ entry.marks) ∨
      ∃ record ∈ db.quarantine, mark ∈ record.marks := by
  simp only [marks, List.mem_append, List.mem_flatMap, KeyedTable.mem_rows, mem_stored, or_assoc,
    Prod.exists]

theorem mem_marks_of_row (stored : row ∈ db.stored aspect) (held : mark ∈ row.marks aspect) :
    mark ∈ db.marks :=
  mem_marks.mpr (.inl ⟨aspect, row, stored, held⟩)

theorem mem_marks_of_record (quarantined : record ∈ db.quarantine) (held : mark ∈ record.marks) :
    mark ∈ db.marks :=
  mem_marks.mpr (.inr (.inr ⟨record, quarantined, held⟩))

theorem counted_fresh : IndexDb.fresh.Counted := by
  decide

theorem mem_marks_of_puts (put : (aspect, row) ∈ op.puts) (held : mark ∈ row.marks aspect) :
    mark ∈ op.marks := by
  cases op with
  | insertNew own other =>
      obtain ⟨rfl, rfl⟩ := Prod.mk.inj (List.mem_singleton.mp put)
      exact held
  | replaceExpected own expected other =>
      obtain ⟨rfl, rfl⟩ := Prod.mk.inj (List.mem_singleton.mp put)
      exact held
  | upsert own other =>
      obtain ⟨rfl, rfl⟩ := Prod.mk.inj (List.mem_singleton.mp put)
      exact held
  | _ => cases put

section

variable (applied : db.apply op = .ok after)

include applied

theorem mem_journal_of_apply {entry : JournalEntry} (member : entry ∈ after.journal) :
    entry ∈ db.journal ∨ ∀ mark ∈ entry.marks, mark ∈ op.marks := by
  cases applied_of_apply applied with
  | journalPending inserted =>
      rcases (KeyedTable.mem_of_insert? inserted entry).mp member with kept | rfl
      · exact .inl kept
      · exact .inr fun mark own => own
  | journalRetire inserted =>
      rcases (KeyedTable.mem_of_insert? inserted entry).mp member with kept | rfl
      · exact .inl kept
      · exact .inr fun mark own => own
  | journalHeld inserted =>
      rcases (KeyedTable.mem_of_insert? inserted entry).mp member with kept | rfl
      · exact .inl kept
      · exact .inr fun mark own => by simp [JournalEntry.marks] at own
  | clearJournal => exact .inl (KeyedTable.mem_erase.mp member).1
  | _ => exact .inl member

theorem mem_quarantine_of_apply (member : record ∈ after.quarantine) :
    record ∈ db.quarantine ∨ op = .quarantineInsert record := by
  cases applied_of_apply applied with
  | quarantineInsert =>
      rcases KeyedTable.mem_put.mp member with ⟨kept, -⟩ | rfl
      · exact .inl kept
      · exact .inr rfl
  | quarantineDelete => exact .inl (KeyedTable.mem_erase.mp member).1
  | _ => exact .inl member

theorem mem_marks_of_apply (held : mark ∈ after.marks) : mark ∈ db.marks ∨ mark ∈ op.marks := by
  rcases mem_marks.mp held with ⟨aspect, row, member, held⟩ | ⟨entry, member, held⟩ |
    ⟨record, member, held⟩
  · rw [apply_stored applied] at member
    rcases mem_onStored member with kept | put
    · exact .inl (mem_marks_of_row kept held)
    · exact .inr (mem_marks_of_puts put held)
  · rcases mem_journal_of_apply applied member with kept | added
    · exact .inl (mem_marks.mpr (.inr (.inl ⟨entry, kept, held⟩)))
    · exact .inr (added mark held)
  · rcases mem_quarantine_of_apply applied member with kept | rfl
    · exact .inl (mem_marks_of_record kept held)
    · exact .inr held

end

theorem mem_marks_of_applyAll (applied : db.applyAll ops = .ok after) (held : mark ∈ after.marks) :
    mark ∈ db.marks ∨ ∃ op ∈ ops, mark ∈ op.marks := by
  induction ops generalizing db with
  | nil =>
      cases applied
      exact .inl held
  | cons op later ih =>
      obtain ⟨middle, first, rest⟩ := applyAll_cons_eq_ok.mp applied
      rcases ih rest with kept | ⟨other, other_mem, brought⟩
      · rcases mem_marks_of_apply first kept with kept | brought
        · exact .inl kept
        · exact .inr ⟨op, List.mem_cons_self, brought⟩
      · exact .inr ⟨other, List.mem_cons_of_mem op other_mem, brought⟩

theorem Raised.counterOf (raised : ∀ aspect, db.Raised after aspect) (mark : Mark) :
    db.counterOf mark ≤ after.counterOf mark := by
  unfold IndexDb.counterOf
  cases mark.counter with
  | id => exact (raised mark.aspect).nextId
  | gen => exact max_le_max_right 1 (raised mark.aspect).nextGen

theorem counterOf_le_of_applyAll (applied : db.applyAll ops = .ok after) (mark : Mark) :
    db.counterOf mark ≤ after.counterOf mark :=
  Raised.counterOf (raised_of_applyAll applied) mark

theorem Counts.mono {later : IndexDb} (counts : db.Counts ops)
    (raised : ∀ mark, db.counterOf mark ≤ later.counterOf mark) : later.Counts ops :=
  fun op member mark held => (counts op member mark held).imp_left fun low =>
    low.trans_le (raised mark)

theorem bump_le_of_applyAll (applied : db.applyAll ops = .ok after) (member : op ∈ ops)
    (mark : Mark) : op.bump mark ≤ after.counterOf mark := by
  cases op with
  | seqBump aspect nextId nextGen epoch =>
      simp only [IndexOp.bump]
      split
      · rename_i own
        subst own
        obtain ⟨ids, gens, -⟩ := le_of_seqBump applied member
        unfold counterOf
        cases mark.counter with
        | id => exact ids
        | gen => exact gens.trans (Nat.le_max_left _ _)
      · exact Nat.zero_le _
  | _ => exact Nat.zero_le _

theorem lt_counterOf_of_counts (counts : db.Counts ops) (applied : db.applyAll ops = .ok after)
    (member : op ∈ ops) (brought : mark ∈ op.marks) : mark.value < after.counterOf mark := by
  rcases counts op member mark brought with low | ⟨raise, raise_mem, low⟩
  · exact low.trans_le (counterOf_le_of_applyAll applied mark)
  · exact low.trans_le (bump_le_of_applyAll applied raise_mem mark)

end IndexDb

end WeftDb
