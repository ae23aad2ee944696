import WeftDb.Fsck.Root
import WeftDb.Index.Isolation

/-!
# The rows which name a frame

A row names the frame at the end of its path.  `Homed` states under which key alone a frame can be
named, and the lemmas below follow it through transactions.  A swap may rewrite a member as
itself; the row it finds then names the member's frame as long as no other row took over the
member's version.
-/

namespace WeftDb

open KeyedTable

variable {stored : AspectName × IndexRow}

namespace IndexDb

variable {db after : IndexDb} {op : IndexOp} {ops : List IndexOp} {aspect : AspectName}
variable {expected : RowVersion} {row : IndexRow}

theorem mem_segments_of_apply (applied : db.apply op = .ok after)
    (member : stored ∈ after.segments) : stored ∈ db.segments ∨ stored ∈ op.puts := by
  obtain ⟨own, row⟩ := stored
  have row_mem := mem_stored.mpr member
  rw [apply_stored applied] at row_mem
  rcases mem_onStored row_mem with kept | put
  · exact .inl (mem_stored.mp kept)
  · exact .inr put

theorem mem_segments_of_applyAll (applied : db.applyAll ops = .ok after)
    (member : stored ∈ after.segments) : stored ∈ db.segments ∨ ∃ op ∈ ops, stored ∈ op.puts := by
  obtain ⟨own, row⟩ := stored
  rcases mem_stored_of_applyAll applied (mem_stored.mpr member) with kept | put
  · exact .inl (mem_stored.mp kept)
  · exact .inr put

theorem matching_eq_some (found : db.matching aspect expected = some row) :
    (aspect, row) ∈ db.segments ∧ row.version = expected := by
  unfold matching at found
  split at found
  · rename_i own other lookup
    split at found
    · rename_i same
      cases found
      obtain ⟨member, key⟩ := find?_eq_some.mp lookup
      obtain ⟨rfl, -⟩ := Prod.mk.inj key
      exact ⟨member, same⟩
    · cases found
  · cases found

theorem mem_of_deleteExpected (applied : db.apply (.deleteExpected aspect expected) = .ok after) :
    stored ∈ after.segments ↔
      stored ∈ db.segments ∧ segmentKey stored ≠ (aspect, expected.id) := by
  cases applied_of_apply applied with
  | deleteExpected found => exact mem_erase
  | withoutLog missing kind => rcases kind with ⟨change, same⟩ | ⟨own, epoch, same⟩ <;> cases same

theorem matched_of_replaceExpected
    (applied : db.apply (.replaceExpected aspect expected row) = .ok after) :
    ∃ member, (aspect, member) ∈ db.segments ∧ member.version = expected := by
  cases applied_of_apply applied with
  | replaceExpected found inserted => exact ⟨_, matching_eq_some found⟩
  | withoutLog missing kind => rcases kind with ⟨change, same⟩ | ⟨own, epoch, same⟩ <;> cases same

end IndexDb

namespace Fsck

open IndexDb

variable (reader : FrameReader)

/-- Whether a row names the frame. -/
def Named (db : IndexDb) (name : FrameName) : Prop :=
  ∃ stored ∈ db.segments, reader.rowName stored.2 = some name

/-- Only the row under the key can name the frame. -/
def Homed (db : IndexDb) (name : FrameName) (key : AspectName × Nat) : Prop :=
  ∀ stored ∈ db.segments, reader.rowName stored.2 = some name → segmentKey stored = key

/-- No two rows name one frame. -/
def ClaimedOnce (db : IndexDb) : Prop :=
  ∀ name, ∃ key, Homed reader db name key

/-- A row at the version of a member names the member's frame. -/
def KeepsName (db : IndexDb) (member : AspectName × IndexRow) : Prop :=
  ∀ row, (member.1, row) ∈ db.segments → row.version = member.2.version →
    reader.rowName row = reader.rowName member.2

/-- The operation puts no other frame's row at the version of the member. -/
def SparesVersion (op : IndexOp) (member : AspectName × IndexRow) : Prop :=
  ∀ row, (member.1, row) ∈ op.puts → row.version = member.2.version →
    reader.rowName row = reader.rowName member.2

instance (op : IndexOp) (member : AspectName × IndexRow) :
    Decidable (SparesVersion reader op member) :=
  decidable_of_iff (∀ stored ∈ op.puts, stored.1 = member.1 →
      stored.2.version = member.2.version → reader.rowName stored.2 = reader.rowName member.2)
    ⟨fun spares row put => spares (member.1, row) put rfl,
      fun spares stored put same => spares stored.2 (by rw [← same]; exact put)⟩

variable {reader} {db after : IndexDb} {op : IndexOp} {ops : List IndexOp} {name : FrameName}
  {key : AspectName × Nat} {member : AspectName × IndexRow}

theorem homed_of_not_named (free : ¬Named reader db name) (key : AspectName × Nat) :
    Homed reader db name key :=
  fun stored stored_mem named => absurd ⟨stored, stored_mem, named⟩ free

theorem not_named_of_homed (homed : ∀ key, Homed reader db name key) : ¬Named reader db name := by
  rintro ⟨stored, stored_mem, named⟩
  have zero := homed ("", 0) stored stored_mem named
  have one := homed ("", 1) stored stored_mem named
  rw [zero] at one
  cases one

theorem ClaimedOnce.homed (once : ClaimedOnce reader db) (stored_mem : stored ∈ db.segments)
    (named : reader.rowName stored.2 = some name) : Homed reader db name (segmentKey stored) := by
  obtain ⟨key, homed⟩ := once name
  rw [homed stored stored_mem named]
  exact homed

theorem Homed.apply (homed : Homed reader db name key) (applied : db.apply op = .ok after)
    (puts : ∀ stored ∈ op.puts, reader.rowName stored.2 = some name → segmentKey stored = key) :
    Homed reader after name key := by
  intro stored stored_mem named
  rcases mem_segments_of_apply applied stored_mem with kept | put
  · exact homed stored kept named
  · exact puts stored put named

theorem Homed.applyAll (homed : Homed reader db name key) (applied : db.applyAll ops = .ok after)
    (puts : ∀ op ∈ ops, ∀ stored ∈ op.puts, reader.rowName stored.2 = some name →
      segmentKey stored = key) :
    Homed reader after name key := by
  intro stored stored_mem named
  rcases mem_segments_of_applyAll applied stored_mem with kept | ⟨op, op_mem, put⟩
  · exact homed stored kept named
  · exact puts op op_mem stored put named

theorem KeepsName.apply (keeps : KeepsName reader db member) (applied : db.apply op = .ok after)
    (spares : SparesVersion reader op member) : KeepsName reader after member := by
  intro row row_mem same
  rcases mem_segments_of_apply applied row_mem with kept | put
  · exact keeps row kept same
  · exact spares row put same

theorem KeepsName.applyAll (keeps : KeepsName reader db member)
    (applied : db.applyAll ops = .ok after) (spares : ∀ op ∈ ops, SparesVersion reader op member) :
    KeepsName reader after member := by
  intro row row_mem same
  rcases mem_segments_of_applyAll applied row_mem with kept | ⟨op, op_mem, put⟩
  · exact keeps row kept same
  · exact spares op op_mem row put same

/-- The operation rewrites one of the members as itself. -/
def Rewrites (kept : List (AspectName × IndexRow)) (op : IndexOp) : Prop :=
  ∃ member ∈ kept, op = .replaceExpected member.1 member.2.version member.2

theorem Homed.written {kept : List (AspectName × IndexRow)}
    (homed : Homed reader db name key) (applied : db.applyAll ops = .ok after)
    (keeps : ∀ member ∈ kept, KeepsName reader db member)
    (spares : ∀ op ∈ ops, ∀ member ∈ kept, SparesVersion reader op member)
    (lawful : ∀ op ∈ ops, Rewrites kept op ∨
      ∀ stored ∈ op.puts, reader.rowName stored.2 = some name → segmentKey stored = key) :
    Homed reader after name key := by
  induction ops generalizing db with
  | nil =>
      cases applied
      exact homed
  | cons op later ih =>
      obtain ⟨middle, first, rest⟩ := applyAll_cons_eq_ok.mp applied
      have spared := spares op List.mem_cons_self
      refine ih (homed.apply first fun stored put named => ?_) rest
        (fun member member_mem => (keeps member member_mem).apply first (spared member member_mem))
        (fun other other_mem => spares other (List.mem_cons_of_mem op other_mem))
        (fun other other_mem => lawful other (List.mem_cons_of_mem op other_mem))
      rcases lawful op List.mem_cons_self with ⟨member, member_mem, rfl⟩ | placed
      · -- The row which the rewrite finds names the member's frame already.
        obtain ⟨found, found_mem, same⟩ := matched_of_replaceExpected first
        rw [List.mem_singleton.mp put] at named ⊢
        have found_named := (keeps member member_mem found found_mem same).trans named
        rw [← homed _ found_mem found_named]
        exact congrArg (Prod.mk member.1) (congrArg RowVersion.id same).symm
      · exact placed stored put named

/-- The operation takes no row but the one under the key. -/
def TakesOnly (key : AspectName × Nat) : IndexOp → Prop
  | .replaceExpected aspect expected _ => (aspect, expected.id) = key
  | .deleteExpected aspect expected => (aspect, expected.id) = key
  | .deleteEveryExpected _ _ => False
  | .upsert _ _ => False
  | .delete _ _ => False
  | _ => True

theorem kept_of_apply (applied : db.apply op = .ok after) (takes : TakesOnly key op)
    (stored_mem : member ∈ db.segments) (foreign : segmentKey member ≠ key) :
    member ∈ after.segments := by
  cases applied_of_apply applied with
  | insertNew inserted => exact (mem_of_insert? inserted member).mpr (.inl stored_mem)
  | replaceExpected found inserted =>
      exact (mem_of_insert? inserted member).mpr
        (.inl (mem_erase.mpr ⟨stored_mem, fun same => foreign (same.trans takes)⟩))
  | deleteExpected found =>
      exact mem_erase.mpr ⟨stored_mem, fun same => foreign (same.trans takes)⟩
  | deleteEveryExpected => exact takes.elim
  | upsert => exact takes.elim
  | delete => exact takes.elim
  | _ => exact stored_mem

theorem kept_of_applyAll (applied : db.applyAll ops = .ok after)
    (takes : ∀ op ∈ ops, TakesOnly key op) (stored_mem : member ∈ db.segments)
    (foreign : segmentKey member ≠ key) : member ∈ after.segments := by
  induction ops generalizing db with
  | nil =>
      cases applied
      exact stored_mem
  | cons op later ih =>
      obtain ⟨middle, first, rest⟩ := applyAll_cons_eq_ok.mp applied
      exact ih rest (fun other other_mem => takes other (List.mem_cons_of_mem op other_mem))
        (kept_of_apply first (takes op List.mem_cons_self) stored_mem foreign)

/-- Whether the journal keeps the frame out of every reclaim path. -/
def Held (db : IndexDb) (name : FrameName) : Prop :=
  ∃ entry ∈ db.journal, entry.state = .held ∧ entry.name = name

/-- The operation holds no frame. -/
def HoldsNone : IndexOp → Prop
  | .journalHeld _ _ _ => False
  | _ => True

theorem held_of_apply (applied : db.apply op = .ok after) (holds : HoldsNone op)
    (held : Held after name) : Held db name := by
  obtain ⟨entry, entry_mem, state, named⟩ := held
  cases applied_of_apply applied with
  | journalPending inserted =>
      rcases (mem_of_insert? inserted entry).mp entry_mem with kept | rfl
      · exact ⟨entry, kept, state, named⟩
      · cases state
  | journalRetire inserted =>
      rcases (mem_of_insert? inserted entry).mp entry_mem with kept | rfl
      · exact ⟨entry, kept, state, named⟩
      · cases state
  | journalHeld inserted => exact holds.elim
  | clearJournal => exact ⟨entry, (mem_erase.mp entry_mem).1, state, named⟩
  | _ => exact ⟨entry, entry_mem, state, named⟩

theorem held_kept_of_apply (applied : db.apply op = .ok after) (held : Held db name)
    (spares : op ≠ .clearJournal name) : Held after name := by
  obtain ⟨entry, entry_mem, state, named⟩ := held
  cases applied_of_apply applied with
  | journalPending inserted =>
      exact ⟨entry, (mem_of_insert? inserted entry).mpr (.inl entry_mem), state, named⟩
  | journalRetire inserted =>
      exact ⟨entry, (mem_of_insert? inserted entry).mpr (.inl entry_mem), state, named⟩
  | journalHeld inserted =>
      exact ⟨entry, (mem_of_insert? inserted entry).mpr (.inl entry_mem), state, named⟩
  | @clearJournal cleared =>
      refine ⟨entry, mem_erase.mpr ⟨entry_mem, fun same => spares ?_⟩, state, named⟩
      rw [← named, same]
  | _ => exact ⟨entry, entry_mem, state, named⟩

variable (applied : db.applyAll ops = .ok after)

include applied

theorem held_of_applyAll (holds : ∀ op ∈ ops, HoldsNone op) (held : Held after name) :
    Held db name := by
  induction ops generalizing db with
  | nil =>
      cases applied
      exact held
  | cons op later ih =>
      obtain ⟨middle, first, rest⟩ := applyAll_cons_eq_ok.mp applied
      exact held_of_apply first (holds op List.mem_cons_self)
        (ih rest fun other member => holds other (List.mem_cons_of_mem op member))

theorem held_kept_of_applyAll (held : Held db name) (spares : .clearJournal name ∉ ops) :
    Held after name := by
  induction ops generalizing db with
  | nil =>
      cases applied
      exact held
  | cons op later ih =>
      obtain ⟨middle, first, rest⟩ := applyAll_cons_eq_ok.mp applied
      refine ih rest (held_kept_of_apply first held ?_) fun member =>
        spares (List.mem_cons_of_mem op member)
      rintro rfl
      exact spares List.mem_cons_self

theorem not_held_of_clear (holds : ∀ op ∈ ops, HoldsNone op) (cleared : .clearJournal name ∈ ops) :
    ¬Held after name := by
  induction ops generalizing db with
  | nil => cases cleared
  | cons op later ih =>
      obtain ⟨middle, first, rest⟩ := applyAll_cons_eq_ok.mp applied
      have later_holds : ∀ other ∈ later, HoldsNone other :=
        fun other member => holds other (List.mem_cons_of_mem op member)
      rcases List.mem_cons.mp cleared with rfl | again
      · intro held
        obtain ⟨entry, entry_mem, -, named⟩ := held_of_applyAll rest later_holds held
        cases applied_of_apply first with
        | clearJournal => exact (mem_erase.mp entry_mem).2 named
        | withoutLog missing kind =>
            rcases kind with ⟨change, same⟩ | ⟨own, epoch, same⟩ <;> cases same
      · exact ih rest later_holds again

end Fsck

end WeftDb
