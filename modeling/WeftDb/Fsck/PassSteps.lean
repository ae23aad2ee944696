import WeftDb.Fsck.WriterSteps

/-!
# The steps of the pass

`Passed` states what the pass does to the store while it works on one frame: every other frame
stays where it is confined or held, and nothing else is harmed which may still be rebound.
-/

namespace WeftDb.Fsck

open IndexDb

/-- What the pass may do while it works on the frame, whose row is the one under the key. -/
structure Passed (reader : FrameReader) (name : FrameName) (key : AspectName × Nat)
    (before after : Shared) : Prop where
  sound : Sound reader after
  confined : ∀ other home, other ≠ name → Confined reader before other home →
    Confined reader after other home
  harmed : ∀ other home, other ≠ name → home ≠ key → Confined reader before other home →
    other ∈ after.harmed → other ∈ before.harmed
  held : ∀ other, other ≠ name → Held before.root.db other → Held after.root.db other
  heldBefore : ∀ other, Held after.root.db other → Held before.root.db other

variable {reader : FrameReader} {before after : Shared} {name : FrameName}
  {key : AspectName × Nat}
variable {db : IndexDb} {ops seriesOps : List IndexOp} {aspect target : AspectName}
  {row rebound : IndexRow} {quarantineClass : QuarantineClass} {reason : String}
  {newAspect : Option AspectName}

theorem Undisturbed.passed (undisturbed : Undisturbed reader before after) :
    Passed reader name key before after where
  sound := undisturbed.sound
  confined other home _ := undisturbed.confined other home
  harmed _ _ _ _ _ member := undisturbed.harmed ▸ member
  held other _ := (undisturbed.held other).mp
  heldBefore other := (undisturbed.held other).mpr

theorem Passed.trans {middle : Shared} (first : Passed reader name key before middle)
    (second : Passed reader name key middle after) : Passed reader name key before after where
  sound := second.sound
  confined other home different confined :=
    second.confined other home different (first.confined other home different confined)
  harmed other home different foreign confined member :=
    first.harmed other home different foreign confined
      (second.harmed other home different foreign (first.confined other home different confined)
        member)
  held other different held := second.held other different (first.held other different held)
  heldBefore other held := first.heldBefore other (second.heldBefore other held)

/-- The store after a transaction of the pass. -/
def Shared.commit (reader : FrameReader) (shared : Shared) (ops : List IndexOp) (db : IndexDb) :
    Shared :=
  { shared with
    root := { shared.root with db }
    harmed := shared.harmed ++ harms reader shared.root (.commitIndex ops) }

/-- No writer's swap keeps a member whose version the transaction gives to another frame's row. -/
def SparesKept (reader : FrameReader) (shared : Shared) (ops : List IndexOp) : Prop :=
  ∀ id writer, shared.writers id = some writer →
    ∀ member ∈ writer.kept, ∀ op ∈ ops, SparesVersion reader op member

theorem mem_claimed : name ∈ claimed reader db ↔ Named reader db name :=
  List.mem_filterMap

theorem mem_harms_commitIndex {root : Root} (applied : root.db.applyAll ops = .ok db) :
    name ∈ harms reader root (.commitIndex ops) ↔
      name ∈ recorded ops ∨ Named reader root.db name ∧ ¬Named reader db name := by
  simp only [harms, applied, List.mem_append, List.mem_filter, mem_claimed, decide_eq_true_eq]

/-- A transaction of the pass about one frame. -/
structure About (name : FrameName) (key : AspectName × Nat) (ops : List IndexOp) : Prop where
  takes : ∀ op ∈ ops, TakesOnly key op
  holds : ∀ op ∈ ops, HoldsNone op
  records : ∀ other ∈ recorded ops, other = name
  clears : ∀ other, .clearJournal other ∈ ops → other = name

section

variable (sound : Sound reader before)

include sound

theorem commit_passed (applied : before.root.db.applyAll ops = .ok db)
    (spares : SparesKept reader before ops) (about : About name key ops)
    (placed : ∀ op ∈ ops, ∀ stored ∈ op.puts, reader.rowName stored.2 = some name)
    (used : ¬Fresh before name) (unowned : ¬Owned before name) (unheld : ¬Held db name)
    (homed : ∃ home, Homed reader db name home)
    (spent : name ∈ before.harmed ∨ name ∈ recorded ops → ¬Named reader db name) :
    Passed reader name key before (before.commit reader ops db) := by
  have lands : Lands reader before.root.db db [name] := by
    refine ⟨fun other home foreign homed => ?_, fun other member => ?_, fun other foreign => ?_⟩
    · refine homed.applyAll applied fun op op_mem stored put named => ?_
      exact absurd (Option.some.inj (named.symm.trans (placed op op_mem stored put)))
        (by simpa using foreign)
    · rw [List.mem_singleton.mp member]
      exact homed
    · constructor
      · exact fun held => held_kept_of_applyAll applied held fun cleared =>
          foreign (List.mem_singleton.mpr (about.clears other cleared))
      · exact held_of_applyAll applied about.holds
  have commits : Commits before (before.commit reader ops db) [name] := by
    refine ⟨rfl, rfl, fun id writer found => ⟨found, fun other member own => ?_⟩⟩
    exact unowned ⟨id, writer, found, List.mem_singleton.mp own ▸ member⟩
  have confined (other : FrameName) (home : AspectName × Nat) (different : other ≠ name)
      (confined : Confined reader before other home) :
      Confined reader (before.commit reader ops db) other home :=
    commits.confined lands (by simpa using different) confined
  have own_spent (harmed : name ∈ before.harmed ∨ name ∈ recorded ops) :
      Spent reader (before.commit reader ops db) name := by
    refine spent_of (fun fresh => used (commits.fresh.mp fresh)) ?_ unheld (spent harmed)
    rintro ⟨id, writer, found, member⟩
    exact unowned ⟨id, writer, found, member⟩
  refine ⟨commits.sound lands sound (by simpa using used)
    (fun other member => List.mem_singleton.mp member ▸ unheld) (fun id writer found member member_mem => ?_) fun other member => ?_, confined,
    fun other home different foreign homed member => ?_, fun other different => ?_,
    fun other => held_of_applyAll applied about.holds⟩
  · exact ((sound.writers id writer found).keeps member member_mem).applyAll applied
      fun op op_mem => spares id writer found member member_mem op op_mem
  · rcases List.mem_append.mp member with old | new
    · by_cases same : other = name
      · subst same
        exact own_spent (.inl old)
      · exact fun home => confined other home same (sound.harmed other old home)
    · rcases (mem_harms_commitIndex applied).mp new with record | ⟨named, unnamed⟩
      · obtain rfl := about.records other record
        exact own_spent (.inr record)
      · -- A frame which lost its row is nobody else's.
        refine spent_of (fun fresh => sound.named_used other named (commits.fresh.mp fresh)) ?_
          (fun held => sound.named_unheld other named
            (held_of_applyAll applied about.holds held)) unnamed
        rintro ⟨id, writer, found, own⟩
        exact (sound.writers id writer found).unnamed other own named
  · rcases List.mem_append.mp member with old | new
    · exact old
    · rcases (mem_harms_commitIndex applied).mp new with record | ⟨⟨stored, stored_mem, named⟩, gone⟩
      · exact absurd (about.records other record) different
      · have at_home := homed.homed stored stored_mem named
        refine absurd ⟨stored, ?_, named⟩ gone
        exact kept_of_applyAll applied about.takes stored_mem (at_home ▸ foreign)
  · exact (lands.held other (by simpa using different)).mp

theorem not_fresh_of_held (held : Held before.root.db name) :
    ¬Fresh before name ∧ ¬Owned before name ∧ ¬Named reader before.root.db name := by
  refine ⟨sound.held_used name held, ?_, fun named => sound.named_unheld name named held⟩
  rintro ⟨id, writer, found, member⟩
  exact (sound.writers id writer found).unheld name member held

theorem quarantineRow_passed {now : Int}
    (confined : Confined reader before name (aspect, row.desc.id))
    (applied : before.root.db.applyAll
      (quarantineRow aspect row name quarantineClass reason now) = .ok db)
    (spares : SparesKept reader before
      (quarantineRow aspect row name quarantineClass reason now)) :
    Passed reader name (aspect, row.desc.id) before
        (before.commit reader (quarantineRow aspect row name quarantineClass reason now) db) ∧
      name ∈ (before.commit reader
        (quarantineRow aspect row name quarantineClass reason now) db).harmed := by
  have gone : ¬Named reader db name := by
    obtain ⟨middle, inserted, rest⟩ := applyAll_cons_eq_ok.mp applied
    obtain ⟨after, deleted, last⟩ := applyAll_cons_eq_ok.mp rest
    cases last
    rintro ⟨stored, stored_mem, named⟩
    obtain ⟨kept, foreign⟩ := (mem_of_deleteExpected deleted).mp stored_mem
    have was : stored ∈ before.root.db.segments :=
      (mem_segments_of_apply inserted kept).resolve_right (by simp [IndexOp.puts])
    exact foreign (confined.homed stored was named)
  have about : About name (aspect, row.desc.id)
      (quarantineRow aspect row name quarantineClass reason now) :=
    ⟨by simp [quarantineRow, TakesOnly, IndexRow.version], by simp [quarantineRow, HoldsNone],
      by simp [quarantineRow, recorded, quarantineRecordOf], by simp [quarantineRow]⟩
  refine ⟨commit_passed sound applied spares about (by simp [quarantineRow, IndexOp.puts])
    confined.used confined.unowned
    (fun held => confined.unheld (held_of_applyAll applied about.holds held))
    ⟨("", 0), homed_of_not_named gone _⟩ fun _ => gone, ?_⟩
  refine List.mem_append_right _ ((mem_harms_commitIndex applied).mpr (.inl ?_))
  simp [quarantineRow, recorded, quarantineRecordOf]

theorem unnamed_passed (applied : before.root.db.applyAll ops = .ok db)
    (spares : SparesKept reader before ops) (about : About name key ops)
    (puts : ∀ op ∈ ops, op.puts = []) (used : ¬Fresh before name) (unowned : ¬Owned before name)
    (unnamed : ¬Named reader before.root.db name)
    (cleared : Held before.root.db name → .clearJournal name ∈ ops) :
    Passed reader name key before (before.commit reader ops db) := by
  have unnamed_after : ¬Named reader db name :=
    not_named_of_homed fun home => (homed_of_not_named unnamed home).applyAll applied
      fun op op_mem stored put => by
        rw [puts op op_mem] at put
        cases put
  refine commit_passed sound applied spares about (fun op op_mem stored put => ?_) used unowned
    (fun held => ?_) ⟨("", 0), homed_of_not_named unnamed_after _⟩ fun _ => unnamed_after
  · rw [puts op op_mem] at put
    cases put
  · exact not_held_of_clear applied about.holds
      (cleared (held_of_applyAll applied about.holds held)) held

end

theorem quarantineOrphan_eq_some {now : Int} {clear : Bool}
    (built : quarantineOrphan name quarantineClass reason now clear = some ops) :
    ∃ record, record.name = name ∧
      ops = .quarantineInsert record :: if clear then [.clearJournal name] else [] := by
  obtain ⟨⟨aspect, id, gen⟩, -, rfl⟩ := Option.map_eq_some_iff.mp built
  exact ⟨_, rfl, rfl⟩

theorem about_quarantineOrphan {record : QuarantineRecord} (own : record.name = name)
    (clear : Bool) (key : AspectName × Nat) :
    About name key (.quarantineInsert record :: if clear then [.clearJournal name] else []) := by
  cases clear
  · exact ⟨by simp [TakesOnly], by simp [HoldsNone], by simp [recorded, own], by simp⟩
  · exact ⟨by simp [TakesOnly], by simp [HoldsNone], by simp [recorded, own], by simp⟩

theorem about_clear (name : FrameName) (key : AspectName × Nat) :
    About name key [.clearJournal name] :=
  ⟨by simp [TakesOnly], by simp [HoldsNone], by simp [recorded], by simp⟩

theorem recorded_ofSeries (series : ∀ op ∈ seriesOps, op.OfSeries target) :
    recorded (seriesOps ++ ops) = recorded ops := by
  rw [recorded, List.filterMap_append]
  refine List.append_left_eq_self.mpr (List.filterMap_eq_nil_iff.mpr fun op member => ?_)
  rcases series op member with ⟨id, seriesKey, rfl⟩ | ⟨next, rfl⟩
  · rfl
  · rfl

theorem about_ofSeries (series : ∀ op ∈ seriesOps, op.OfSeries target)
    (about : About name key ops) : About name key (seriesOps ++ ops) := by
  have plain (op : IndexOp) (member : op ∈ seriesOps) :
      TakesOnly key op ∧ HoldsNone op ∧ ∀ other, op ≠ .clearJournal other := by
    rcases series op member with ⟨id, seriesKey, rfl⟩ | ⟨next, rfl⟩
    · exact ⟨trivial, trivial, by simp⟩
    · exact ⟨trivial, trivial, by simp⟩
  refine ⟨fun op member => ?_, fun op member => ?_, fun other member => ?_,
    fun other member => ?_⟩
  · exact (List.mem_append.mp member).elim (fun own => (plain op own).1) (about.takes op)
  · exact (List.mem_append.mp member).elim (fun own => (plain op own).2.1) (about.holds op)
  · rw [recorded_ofSeries series] at member
    exact about.records other member
  · exact (List.mem_append.mp member).elim
      (fun own => absurd rfl ((plain _ own).2.2 other)) (about.clears other)

theorem reboundFromFrame_spec (aspect : AspectName) (row : IndexRow) (name : FrameName)
    (computedCrc : Option Nat) :
    (reboundFromFrame aspect row name computedCrc).1.desc = row.desc := by
  cases name with
  | _ => rfl

theorem about_moveRow (newAspect : Option AspectName) :
    About name (aspect, row.desc.id) (moveRow aspect row newAspect rebound) := by
  cases newAspect with
  | none =>
      exact ⟨by simp [moveRow, TakesOnly, IndexRow.version], by simp [moveRow, HoldsNone],
        by simp [moveRow, recorded], by simp [moveRow]⟩
  | some target =>
      exact ⟨by simp [moveRow, TakesOnly, IndexRow.version], by simp [moveRow, HoldsNone],
        by simp [moveRow, recorded], by simp [moveRow]⟩

theorem rebind_homed {after : IndexDb} (homed : Homed reader db name (aspect, row.desc.id))
    (same : rebound.desc.id = row.desc.id)
    (applied : db.applyAll (moveRow aspect row newAspect rebound) = .ok after) :
    ∃ home, Homed reader after name home := by
  cases newAspect with
  | none =>
      refine ⟨_, homed.applyAll applied fun op op_mem stored put _ => ?_⟩
      obtain rfl := List.mem_singleton.mp op_mem
      obtain rfl := List.mem_singleton.mp put
      exact congrArg (Prod.mk aspect) same
  | some target =>
      obtain ⟨middle, deleted, rest⟩ := applyAll_cons_eq_ok.mp applied
      have gone : ¬Named reader middle name := by
        rintro ⟨stored, stored_mem, named⟩
        obtain ⟨was, foreign⟩ := (mem_of_deleteExpected deleted).mp stored_mem
        exact foreign (homed stored was named)
      refine ⟨_, (homed_of_not_named gone (target, rebound.desc.id)).applyAll rest
        fun op op_mem stored put _ => ?_⟩
      obtain rfl := List.mem_singleton.mp op_mem
      obtain rfl := List.mem_singleton.mp put
      rfl

theorem mem_moveRow {op : IndexOp} (member : op ∈ moveRow aspect row newAspect rebound) :
    (∀ stored ∈ op.puts, stored.2 = rebound) ∧ recorded [op] = [] := by
  cases newAspect with
  | none =>
      obtain rfl := List.mem_singleton.mp member
      exact ⟨fun stored put => by rw [List.mem_singleton.mp put], rfl⟩
  | some target =>
      simp only [moveRow, List.mem_cons, List.not_mem_nil, or_false] at member
      rcases member with rfl | rfl
      · exact ⟨by simp [IndexOp.puts], rfl⟩
      · exact ⟨fun stored put => by rw [List.mem_singleton.mp put], rfl⟩

theorem recorded_moveRow (aspect : AspectName) (row rebound : IndexRow)
    (newAspect : Option AspectName) : recorded (moveRow aspect row newAspect rebound) = [] := by
  cases newAspect <;> rfl

variable (sound : Sound reader before)

include sound

theorem rebind_passed (confined : Confined reader before name (aspect, row.desc.id))
    (unharmed : name ∉ before.harmed) (series : ∀ op ∈ seriesOps, op.OfSeries target)
    (same : rebound.desc.id = row.desc.id) (path : rebound.desc.path = .segments name)
    (applied : before.root.db.applyAll (seriesOps ++ moveRow aspect row newAspect rebound) =
      .ok db)
    (spares : SparesKept reader before (seriesOps ++ moveRow aspect row newAspect rebound)) :
    Passed reader name (aspect, row.desc.id) before
      (before.commit reader (seriesOps ++ moveRow aspect row newAspect rebound) db) := by
  have moved : About name (aspect, row.desc.id) (moveRow aspect row newAspect rebound) :=
    about_moveRow newAspect
  have about := about_ofSeries series moved
  refine commit_passed sound applied spares about (fun op op_mem stored put => ?_) confined.used
    confined.unowned (fun held => confined.unheld (held_of_applyAll applied about.holds held)) ?_
    fun harmed => ?_
  · rcases List.mem_append.mp op_mem with registers | moves
    · rw [puts_ofSeries (series op registers)] at put
      cases put
    · rw [(mem_moveRow moves).1 stored put, FrameReader.rowName, path]
  · obtain ⟨middle, registered, moves⟩ := applyAll_append_eq_ok.mp applied
    refine rebind_homed (confined.homed.applyAll registered fun op op_mem stored put => ?_) same
      moves
    rw [puts_ofSeries (series op op_mem)] at put
    cases put
  · rw [recorded_ofSeries series, recorded_moveRow] at harmed
    exact absurd (harmed.resolve_right (by simp)) unharmed

theorem adopt_passed {state : AspectState} {gen epoch : Nat} (held : Held before.root.db name)
    (series : ∀ op ∈ seriesOps, op.OfSeries target) (path : row.desc.path = .segments name)
    (applied : before.root.db.applyAll (seriesOps ++
      [.insertNew aspect row, seqBump aspect state gen epoch, .clearJournal name]) = .ok db)
    (spares : SparesKept reader before (seriesOps ++
      [.insertNew aspect row, seqBump aspect state gen epoch, .clearJournal name])) :
    Passed reader name key before (before.commit reader (seriesOps ++
      [.insertNew aspect row, seqBump aspect state gen epoch, .clearJournal name]) db) := by
  obtain ⟨used, unowned, unnamed⟩ := not_fresh_of_held sound held
  have own : About name key
      [.insertNew aspect row, seqBump aspect state gen epoch, .clearJournal name] :=
    ⟨by simp [TakesOnly, seqBump], by simp [HoldsNone, seqBump], by simp [recorded, seqBump],
      by simp [seqBump]⟩
  have about := about_ofSeries series own
  have placed (op : IndexOp) (op_mem : op ∈ seriesOps ++
      [.insertNew aspect row, seqBump aspect state gen epoch, .clearJournal name])
      (stored : AspectName × IndexRow) (put : stored ∈ op.puts) : stored = (aspect, row) := by
    rcases List.mem_append.mp op_mem with registers | adopts
    · rw [puts_ofSeries (series op registers)] at put
      cases put
    · simp only [List.mem_cons, List.not_mem_nil, or_false] at adopts
      rcases adopts with rfl | rfl | rfl
      · exact List.mem_singleton.mp put
      · cases put
      · cases put
  refine commit_passed sound applied spares about (fun op op_mem stored put => ?_) used unowned
    (not_held_of_clear applied about.holds (by simp)) ⟨(aspect, row.desc.id), ?_⟩ fun harmed => ?_
  · rw [placed op op_mem stored put, FrameReader.rowName, path]
  · refine (homed_of_not_named unnamed _).applyAll applied fun op op_mem stored put _ => ?_
    rw [placed op op_mem stored put]
    rfl
  · rw [recorded_ofSeries series] at harmed
    exact absurd held (sound.harmed name (harmed.resolve_right (by simp [recorded, seqBump]))).not_held

theorem quiet_undisturbed (applied : before.root.db.applyAll ops = .ok db)
    (quiet : ∀ op ∈ ops, Quiet op) (takes : ∀ key, ∀ op ∈ ops, TakesOnly key op)
    (unrecorded : recorded ops = []) : Undisturbed reader before (before.commit reader ops db) := by
  have harmless : harms reader before.root (.commitIndex ops) = [] := by
    refine List.eq_nil_iff_forall_not_mem.mpr fun other member => ?_
    rcases (mem_harms_commitIndex applied).mp member with record | ⟨⟨stored, stored_mem, named⟩, gone⟩
    · rw [unrecorded] at record
      cases record
    · -- A key which no row has: nothing under any other is taken.
      have foreign : segmentKey stored ≠ (stored.1, stored.2.desc.id + 1) := by
        simp [segmentKey]
      exact gone ⟨stored, kept_of_applyAll applied (takes _) stored_mem foreign, named⟩
  have same : before.commit reader ops db =
      { before with root := { before.root with db } } := by
    rw [Shared.commit, harmless, List.append_nil]
  rw [same]
  exact undisturbed_of_quiet sound applied quiet

theorem undisturbed_of_still (db : after.root.db = before.root.db)
    (files : after.root.files = before.root.files) (gens : after.nextGen = before.nextGen)
    (writers : after.writers = before.writers) (harmed : after.harmed = before.harmed) :
    Undisturbed reader before after := by
  have moves : Moves before after 0 := by
    refine ⟨db, harmed, fun _ => by rw [gens], fun file member fresh => ?_, fun _ _ => by rw [writers],
      fun writer found name member => .inr ⟨writer, writers ▸ found, member⟩⟩
    obtain ⟨stem, gen, prec, named, reached⟩ := fresh
    exact sound.files_used file (files ▸ member) ⟨stem, gen, prec, named, gens ▸ reached⟩
  exact moves.undisturbed sound fun writer found =>
    moves.writerSound (sound.writers 0 writer (writers ▸ found))

theorem harm_passed (spent : Spent reader before name) :
    Passed reader name key before { before with harmed := before.harmed ++ [name] } := by
  have confined (other : FrameName) (home : AspectName × Nat)
      (confined : Confined reader before other home) :
      Confined reader { before with harmed := before.harmed ++ [name] } other home :=
    ⟨confined.used, confined.unowned, confined.unheld, confined.homed⟩
  refine ⟨⟨sound.once, sound.named_used, sound.named_unheld, sound.held_used, sound.files_used,
    fun id writer found => ?_, sound.apart, fun other member home => ?_⟩, fun other home _ =>
    confined other home, fun other home different _ _ member => ?_, fun _ _ held => held,
    fun _ held => held⟩
  · have own := sound.writers id writer found
    exact ⟨own.nodup, own.used, own.unheld, own.unnamed, own.places, own.lawful, own.keeps⟩
  · rcases List.mem_append.mp member with old | new
    · exact confined other home (sound.harmed other old home)
    · rw [List.mem_singleton.mp new]
      exact confined name home (spent home)
  · exact (List.mem_append.mp member).resolve_right (by simpa using different)

theorem rename_passed {root : Root} (spent : Spent reader before name)
    (moved : before.root.moveToQuarantine name = some root) :
    Passed reader name key before { before with root, harmed := before.harmed ++ [name] } := by
  obtain ⟨file, found, rfl⟩ := Option.map_eq_some_iff.mp moved
  let middle : Shared :=
    { before with
      root := { before.root with
        files := before.root.files.erase name
        quarantined := before.root.quarantined.put file } }
  have moves : Moves before middle 0 :=
    ⟨rfl, rfl, fun _ => Nat.le_refl _,
      fun other member => sound.files_used other (KeyedTable.mem_erase.mp member).1,
      fun _ _ => rfl, fun writer found other member => .inr ⟨writer, found, member⟩⟩
  have undisturbed : Undisturbed reader before middle :=
    moves.undisturbed sound fun writer found => moves.writerSound (sound.writers 0 writer found)
  exact undisturbed.passed.trans (harm_passed undisturbed.sound (undisturbed.spent spent))

end WeftDb.Fsck
