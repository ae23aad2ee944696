import WeftDb.Index.Marks
import WeftDb.Store.Sequencing

/-!
# The counters in memory

A process hands out ids and generations from counters which it seeds once, from the persisted
counters, the rows and the names on disk.  A mark is spent when neither the persisted counter nor
the one in memory will hand it out again.  What is spent or handed out stays so as the process
goes on, and so does what a running task still has to write or to commit.  Whatever is built under
a commit lock brings marks which were handed out for it, marks which its members hold, or those of
a frame it adopts, and raises the persisted counters past all of them.
-/

namespace WeftDb

open Option

/-- The frames which a seal or an ingest has written. -/
def Work.written : Work → List WrittenSegment
  | .seal _ _ written => written
  | .ingest _ _ _ _ written => written
  | _ => []

/-- The outputs which a swap has journaled and not yet written. -/
def Work.unwritten : Work → List FrameName
  | .swap _ _ (.writing names) => names
  | _ => []

variable {name : FrameName} {plan : PreparedPlan} {work : Work} {frame : WrittenSegment}
  {crc : Option Nat} {row : IndexRow} {epoch id seriesId : Nat}

namespace Store

/-- The counter of a mark in memory, once seeded. -/
def memory (store : Store) (mark : Mark) : Option Nat :=
  match mark.counter with
  | .id => (store.locks mark.aspect).state.map (·.nextId)
  | .gen => (store.locks mark.aspect).nextGen

/-- The marks of the files on disk.  Legacy files count in `segments/` only. -/
def fileMarks (store : Store) : List Mark :=
  store.frames.flatMap FrameName.fileMarks ++
    (store.quarantined.flatMap FrameName.fileMarks).filter fun mark => decide (mark.counter = .gen)

/-- The names from which the counters of a kind are seeded, once they are listed. -/
def listed (store : Store) : Counter → Option (List FrameName)
  | .id => store.legacyNames
  | .gen => store.frameNames

/-- Every mark which the running process has handed out. -/
def issued (store : Store) : List Mark :=
  (store.issuedIds.map fun pair => ⟨pair.1, .id, pair.2⟩) ++
    store.issuedGens.map fun pair => ⟨pair.1, .gen, pair.2⟩

/-- No counter hands the mark out again, now or after a restart. -/
def Spent (store : Store) (mark : Mark) : Prop :=
  mark.value < store.db.counterOf mark ∧ ∀ limit ∈ store.memory mark, mark.value < limit

/-- The running process has passed the mark. -/
def Passed (store : Store) (mark : Mark) : Prop :=
  ∃ limit ∈ store.memory mark, mark.value < limit

/-- The marks of files which are known to the counters: those in memory are past them, and those
still to be seeded will be. -/
def FilesKnown (store : Store) : Prop :=
  ∀ mark ∈ store.fileMarks, (∀ limit ∈ store.memory mark, mark.value < limit) ∧
    (store.memory mark = none → ∀ names ∈ store.listed mark.counter,
      mark ∈ names.flatMap FrameName.fileMarks ∨ mark.value < store.db.counterOf mark)

/-- The process goes on: no counter falls, and a counter which is seeded starts past the persisted
one and past the files. -/
structure Onward (before after : Store) : Prop where
  raised : ∀ mark, before.db.counterOf mark ≤ after.db.counterOf mark
  kept : ∀ {mark limit}, before.memory mark = some limit →
    ∃ later, after.memory mark = some later ∧ limit ≤ later
  seeded : ∀ {mark limit}, before.memory mark = none → after.memory mark = some limit →
    before.db.counterOf mark ≤ limit ∧ (mark ∈ before.fileMarks → mark.value < limit)

section Onward

variable {before middle after : Store} {mark : Mark}

theorem Onward.of_memory (raised : ∀ mark, before.db.counterOf mark ≤ after.db.counterOf mark)
    (memory : ∀ mark, after.memory mark = before.memory mark) : Onward before after where
  raised := raised
  kept found := ⟨_, (memory _).trans found, Nat.le_refl _⟩
  seeded missing found := by
    rw [memory, missing] at found
    cases found

theorem Spent.mono (spent : Spent before mark) (onward : Onward before after) :
    Spent after mark := by
  refine ⟨spent.1.trans_le (onward.raised mark), fun limit found => ?_⟩
  cases earlier : before.memory mark with
  | none => exact spent.1.trans_le (onward.seeded earlier found).1
  | some low =>
      obtain ⟨later, same, le⟩ := onward.kept earlier
      rw [mem_def, same] at found
      cases found
      exact (spent.2 low earlier).trans_le le

theorem Passed.mono (passed : Passed before mark) (onward : Onward before after) :
    Passed after mark := by
  obtain ⟨limit, found, low⟩ := passed
  obtain ⟨later, same, le⟩ := onward.kept found
  exact ⟨later, same, low.trans_le le⟩

end Onward

/-- The frames for which a transaction inserts rows. -/
def insertedNames (ops : List IndexOp) : List FrameName :=
  ops.flatMap fun op =>
    match op with
    | .insertNew _ row =>
        match row.desc.path with
        | .segments name => [name]
        | .elsewhere _ => []
    | _ => []

/-- A pending commit inserts a row for the frame. -/
def Adopting (store : Store) (name : FrameName) : Prop :=
  ∃ id work aspect publication next,
    store.tasks id = some ⟨work, .committing aspect publication next⟩ ∧
      name ∈ insertedNames publication.ops

/-- The counter in memory is past the mark, or will be once it is seeded: from the persisted
counter, or from one of the frames which are being adopted. -/
def Covered (store : Store) (adopted : List FrameName) (mark : Mark) : Prop :=
  Passed store mark ∨ store.memory mark = none ∧
    (mark.value < store.db.counterOf mark ∨ mark.counter = .gen ∧
      ∃ name ∈ adopted, name ∈ store.frames ++ store.quarantined ∧ mark ∈ name.fileMarks)

/-- A name which a swap may still write is one of the aspect, under a generation handed out. -/
def NamedOutput (store : Store) (aspect : AspectName) (name : FrameName) : Prop :=
  ∃ gen prec, name = frameName aspect gen prec ∧ Passed store ⟨aspect, .gen, gen⟩

/-- The marks of a plan: its members hold theirs, and its outputs were handed theirs. -/
structure PlanMarked (store : Store) (aspect : AspectName) (plan : PreparedPlan) : Prop where
  members : ∀ member ∈ plan.members, ∀ mark ∈ member.marks aspect, Spent store mark
  retired : ∀ name ∈ plan.retired, ∀ mark ∈ name.marks aspect, Spent store mark
  fresh : ∀ id ∈ plan.fresh, Passed store ⟨aspect, .id, id⟩
  outputs : ∀ output ∈ plan.outputs, Passed store ⟨aspect, .gen, output.gen⟩ ∧
    output.name = frameName aspect output.gen output.prec ∧
      output.descriptor.path = .segments output.name

/-- A written frame is named by the generation which was handed out for it. -/
def FrameMarked (store : Store) (aspect : AspectName) (frame : WrittenSegment) : Prop :=
  Passed store ⟨aspect, .gen, frame.gen⟩ ∧
    frame.desc.path = .segments (frameName aspect frame.gen frame.gen)

/-- What a task has written, planned and still to write carries marks which were handed out to
it, or which its members hold. -/
structure WorkMarked (store : Store) (aspect : AspectName) (work : Work) : Prop where
  written : ∀ frame ∈ work.written, FrameMarked store aspect frame
  plans : ∀ plan ∈ work.plans, PlanMarked store aspect plan
  unwritten : ∀ name ∈ work.unwritten, NamedOutput store aspect name

/-- The marks of a task, and of the transaction which it is committing. -/
structure TaskMarked (store : Store) (task : Task) : Prop where
  own : ∀ {own held}, task.work.aspect = some own → task.stage.aspect = some held → held = own
  work : ∀ {own}, task.work.aspect = some own → WorkMarked store own task.work
  counts : ∀ {aspect publication next}, task.stage = .committing aspect publication next →
    store.db.Counts publication.ops
  covered : ∀ {aspect publication next}, task.stage = .committing aspect publication next →
    ∀ op ∈ publication.ops, ∀ mark ∈ op.marks, Covered store (insertedNames publication.ops) mark
  next : ∀ {aspect publication next later own}, task.stage = .committing aspect publication next ∨
      task.stage = .landed aspect publication next → next = .resume later ∨ next = .retain later →
    later.aspect = some own → own = aspect ∧ WorkMarked store own later

section Mono

variable {before after : Store} {aspect : AspectName}
variable {store : Store}

theorem PlanMarked.mono (marked : PlanMarked before aspect plan) (onward : Onward before after) :
    PlanMarked after aspect plan where
  members member mem mark held := (marked.members member mem mark held).mono onward
  retired name mem mark held := (marked.retired name mem mark held).mono onward
  fresh id mem := (marked.fresh id mem).mono onward
  outputs output mem := ⟨(marked.outputs output mem).1.mono onward, (marked.outputs output mem).2⟩

theorem WorkMarked.mono (marked : WorkMarked before aspect work) (onward : Onward before after) :
    WorkMarked after aspect work where
  written frame mem := ⟨(marked.written frame mem).1.mono onward, (marked.written frame mem).2⟩
  plans plan mem := (marked.plans plan mem).mono onward
  unwritten name mem := by
    obtain ⟨gen, prec, named, passed⟩ := marked.unwritten name mem
    exact ⟨gen, prec, named, passed.mono onward⟩

theorem mem_fileMarks {mark : Mark} (found : name ∈ store.frames ++ store.quarantined)
    (held : mark ∈ name.fileMarks) (gen : mark.counter = .gen) : mark ∈ store.fileMarks := by
  rcases List.mem_append.mp found with found | found
  · exact List.mem_append_left _ (List.mem_flatMap.mpr ⟨name, found, held⟩)
  · refine List.mem_append_right _ (List.mem_filter.mpr ⟨?_, decide_eq_true gen⟩)
    exact List.mem_flatMap.mpr ⟨name, found, held⟩

theorem Covered.mono {adopted : List FrameName} {mark : Mark}
    (covered : Covered before adopted mark) (onward : Onward before after)
    (kept : ∀ name ∈ adopted, name ∈ before.frames ++ before.quarantined →
      name ∈ after.frames ++ after.quarantined ∨
        ∀ mark ∈ name.fileMarks, before.memory mark ≠ none) :
    Covered after adopted mark := by
  rcases covered with passed | ⟨unseeded, covered⟩
  · exact .inl (passed.mono onward)
  · cases later : after.memory mark with
    | none =>
        refine .inr ⟨later, ?_⟩
        rcases covered with low | ⟨gen, name, adopt, found, held⟩
        · exact .inl (low.trans_le (onward.raised mark))
        · rcases kept name adopt found with found | seeded
          · exact .inr ⟨gen, name, adopt, found, held⟩
          · exact absurd unseeded (seeded mark held)
    | some limit =>
        obtain ⟨persisted, files⟩ := onward.seeded unseeded later
        refine .inl ⟨limit, later, ?_⟩
        rcases covered with low | ⟨gen, name, adopt, found, held⟩
        · exact low.trans_le persisted
        · exact files (mem_fileMarks found held gen)

theorem TaskMarked.mono {task : Task} (marked : TaskMarked before task)
    (onward : Onward before after)
    (kept : ∀ {aspect publication next}, task.stage = .committing aspect publication next →
      ∀ name ∈ insertedNames publication.ops, name ∈ before.frames ++ before.quarantined →
        name ∈ after.frames ++ after.quarantined ∨
          ∀ mark ∈ name.fileMarks, before.memory mark ≠ none) :
    TaskMarked after task where
  own := marked.own
  work own := (marked.work own).mono onward
  counts stage := (marked.counts stage).mono onward.raised
  covered stage op member mark held := (marked.covered stage op member mark held).mono onward
    (kept stage)
  next stage goes_on own := by
    obtain ⟨same, later⟩ := marked.next stage goes_on own
    exact ⟨same, later.mono onward⟩

theorem taskMarked_outside {stage : Stage}
    (outside : stage = .running ∨ ∃ aspect, stage = .locked aspect)
    (own : ∀ {own held}, work.aspect = some own → stage.aspect = some held → held = own)
    (marked : ∀ {own}, work.aspect = some own → WorkMarked store own work) :
    TaskMarked store ⟨work, stage⟩ where
  own := own
  work := marked
  counts := by
    intro aspect publication next committing
    rcases outside with rfl | ⟨_, rfl⟩ <;> cases committing
  covered := by
    intro aspect publication next committing
    rcases outside with rfl | ⟨_, rfl⟩ <;> cases committing
  next := by
    intro aspect publication next later own pending
    rcases outside with rfl | ⟨_, rfl⟩ <;> rcases pending with pending | pending <;> cases pending

end Mono

end Store

section Rows

variable {aspect : AspectName} {mark : Mark}

theorem mem_marks_of_writtenRow
    (named : frame.desc.path = .segments (frameName aspect frame.gen frame.gen))
    (held : mark ∈ (frame.row id epoch seriesId).marks aspect) :
    mark = ⟨aspect, .id, id⟩ ∨ mark = ⟨aspect, .gen, frame.gen⟩ := by
  have path : (frame.row id epoch seriesId).desc.path = .segments (frameName aspect frame.gen
    frame.gen) := named
  simp only [IndexRow.marks, path, FramePath.marks, frameName, FrameName.marks, List.mem_cons,
    List.not_mem_nil, or_false] at held
  rcases held with rfl | rfl | rfl
  · exact .inl rfl
  · exact .inr rfl
  · exact .inr rfl

theorem mem_marks_of_outputRow {output : WrittenOutput}
    (named : output.name = frameName aspect output.gen output.prec)
    (placed : output.descriptor.path = .segments output.name)
    (held : mark ∈ (output.row id epoch seriesId).marks aspect) :
    mark = ⟨aspect, .id, id⟩ ∨ mark = ⟨aspect, .gen, output.gen⟩ := by
  have path : (output.row id epoch seriesId).desc.path = .segments (frameName aspect output.gen
    output.prec) := placed.trans (congrArg _ named)
  simp only [IndexRow.marks, path, FramePath.marks, frameName, FrameName.marks, List.mem_cons,
    List.not_mem_nil, or_false] at held
  rcases held with rfl | rfl | rfl
  · exact .inl rfl
  · exact .inr rfl
  · exact .inr rfl

theorem mem_marks_of_retiredName (retired : retiredName row = some name)
    (held : mark ∈ name.marks aspect) : mark ∈ row.marks aspect := by
  refine List.mem_cons_of_mem _ (List.mem_cons_of_mem _ ?_)
  unfold retiredName at retired
  split at retired
  · rename_i path
    cases retired
    rw [path]
    exact held
  · cases retired

theorem mem_marks_of_rebound (retired : retiredName row = some name)
    (held : mark ∈ (reboundFromFrame aspect row name crc).1.marks aspect) :
    mark ∈ row.marks aspect := by
  cases name with
  | writeOnce stem gen prec =>
      rcases List.mem_cons.mp held with rfl | held
      · exact List.mem_cons_self
      rcases List.mem_cons.mp held with rfl | held
      · exact mem_marks_of_retiredName retired (List.mem_singleton.mpr rfl)
      · exact List.mem_cons_of_mem _ (List.mem_cons_of_mem _ held)
  | legacy own id => exact held
  | other text => exact held

end Rows

/-- A recovery step brings no mark which the index does not hold. -/
theorem Store.recoveryOps_marks {db : IndexDb} {step : Store.RecoveryStep}
    {frames : List FrameName} {ops : List IndexOp} {changed : Option AspectName}
    (readable : step.readable frames = true)
    (built : Store.recoveryOps db step = some (ops, changed)) :
    ∀ op ∈ ops, ∀ mark ∈ op.marks, mark ∈ db.marks := by
  cases step with
  | quarantineRow aspect row quarantineClass reason now =>
      simp only [Store.recoveryOps] at built
      split at built
      · rename_i member
        obtain ⟨name, retired, pair⟩ := map_eq_some_iff.mp built
        cases pair
        have stored := IndexDb.mem_stored.mpr (IndexDb.mem_rows.mp member)
        simp only [quarantineRow, List.forall_mem_cons]
        refine ⟨fun mark held => IndexDb.mem_marks_of_row stored ?_, by simp [IndexOp.marks]⟩
        simp only [IndexOp.marks, QuarantineRecord.marks, quarantineRecordOf, List.mem_cons,
          List.mem_append] at held
        rcases held with rfl | rfl | named | held
        · exact List.mem_cons_self
        · exact List.mem_cons_of_mem _ List.mem_cons_self
        · exact mem_marks_of_retiredName retired named
        · exact held
      · cases built
  | quarantineOrphan name quarantineClass reason now clear =>
      simp only [Store.recoveryOps, quarantineOrphan, map_map] at built
      obtain ⟨identity, -, pair⟩ := map_eq_some_iff.mp built
      cases pair
      intro op member mark held
      rcases List.mem_cons.mp member with rfl | member
      · cases held
      · split at member
        · rw [List.mem_singleton.mp member] at held
          cases held
        · cases member
  | release record =>
      simp only [Store.recoveryOps] at built
      split at built
      · rename_i quarantined
        unfold quarantineRelease at built
        cases row : record.row with
        | none =>
            rw [row] at built
            cases built
        | some back =>
            rw [row] at built
            cases built
            simp only [List.forall_mem_cons]
            refine ⟨by simp [IndexOp.marks], fun mark held => ?_, by simp⟩
            refine IndexDb.mem_marks_of_record quarantined ?_
            simp only [QuarantineRecord.marks, row]
            exact List.mem_cons_of_mem _ (List.mem_cons_of_mem _ (List.mem_append_right _ held))
      · cases built
  | purge record =>
      simp only [Store.recoveryOps] at built
      split at built
      · cases built
        simp [quarantinePurge, IndexOp.marks]
      · cases built
  | rebind aspect row name crc key =>
      simp only [Store.recoveryOps] at built
      split at built
      · rename_i guard
        obtain ⟨member, home, -⟩ := guard
        obtain ⟨rebuilt, rebound, pair⟩ := map_eq_some_iff.mp built
        cases pair
        have retired := (of_decide_eq_true readable).1
        have stored := IndexDb.mem_stored.mpr (IndexDb.mem_rows.mp member)
        unfold rebindRow at rebound
        simp only at rebound
        split at rebound
        · cases rebound
          intro op op_mem mark held
          rcases List.mem_append.mp op_mem with series | moved
          · rcases rebindSeries_ofSeries _ _ _ _ _ op series with ⟨_, _, rfl⟩ | ⟨_, rfl⟩ <;>
              cases held
          · rw [home, moveRow, List.mem_singleton] at moved
            rw [moved] at held
            exact IndexDb.mem_marks_of_row stored (mem_marks_of_rebound retired held)
        · cases rebound
      · cases built
  | journalHeld aspect name now =>
      cases built
      simp [IndexOp.marks]
  | seedSeries aspect next =>
      cases built
      simp [IndexOp.marks]

namespace Store

/-- A transaction raises the persisted counter past a mark it brings, unless it is past it, and the
counter in memory is past it or will be. -/
def Brings (store : Store) (ops : List IndexOp) (mark : Mark) : Prop :=
  (mark.value < store.db.counterOf mark ∨ ∃ raise ∈ ops, mark.value < raise.bump mark) ∧
    Covered store (insertedNames ops) mark

/-- All marks which a transaction brings are counted. -/
def BringsAll (store : Store) (ops : List IndexOp) : Prop :=
  ∀ op ∈ ops, ∀ mark ∈ op.marks, Brings store ops mark

section Building

variable {catalog : Catalog} {db : IndexDb} {store : Store} {aspect : AspectName}
  {state next : AspectState} {publication : Publication} {ops : List IndexOp} {mark : Mark}
variable {nextGen : Nat} {createdMs : Int} {desc : SegmentDescriptor} {continuation : Continuation}
  {changed : List AspectName} {step : Repair}

theorem brings_of_spent (spent : Spent store mark) : Brings store ops mark := by
  refine ⟨.inl spent.1, ?_⟩
  cases seeded : store.memory mark with
  | none => exact .inr ⟨seeded, .inl spent.1⟩
  | some limit => exact .inl ⟨limit, seeded, spent.2 limit seeded⟩

theorem brings_id (seeded : (store.locks aspect).state = some next)
    (bump : seqBump aspect next nextGen epoch ∈ ops) (low : id < next.nextId) :
    Brings store ops ⟨aspect, .id, id⟩ := by
  refine ⟨.inr ⟨_, bump, ?_⟩, .inl ⟨next.nextId, ?_, low⟩⟩
  · simpa [seqBump, IndexOp.bump] using low
  · simp [memory, seeded]

theorem brings_gen {gen : Nat} (passed : Passed store ⟨aspect, .gen, gen⟩)
    (bump : seqBump aspect next nextGen epoch ∈ ops) (low : gen < nextGen) :
    Brings store ops ⟨aspect, .gen, gen⟩ := by
  refine ⟨.inr ⟨_, bump, ?_⟩, .inl passed⟩
  simpa [seqBump, IndexOp.bump] using low

theorem bringsAll_of_frame {bumped : Nat} (marked : FrameMarked store aspect frame)
    (seeded : (store.locks aspect).state = some next) (low : id < next.nextId)
    (bump : seqBump aspect next nextGen bumped ∈ ops) (gens : frame.gen < nextGen) :
    ∀ mark ∈ (frame.row id epoch seriesId).marks aspect, Brings store ops mark := by
  intro mark held
  rcases mem_marks_of_writtenRow marked.2 held with rfl | rfl
  · exact brings_id seeded bump low
  · exact brings_gen marked.1 bump gens

theorem publishSeal_bringsAll (marked : FrameMarked store aspect frame)
    (seeded : (store.locks aspect).state = some next)
    (built : publishSeal db aspect state frame = (next, some publication)) :
    BringsAll store publication.ops := by
  unfold publishSeal at built
  split at built
  · cases built
  · rename_i id last allocated
    cases built
    obtain ⟨id_eq, next_id, -⟩ := AspectState.allocate_eq_some allocated
    simp only [BringsAll, List.forall_mem_cons]
    refine ⟨?_, by simp [IndexOp.marks, seqBump], by simp [IndexOp.marks],
      by simp [IndexOp.marks], by simp⟩
    exact bringsAll_of_frame marked seeded (by omega)
      (List.mem_cons_of_mem _ List.mem_cons_self) (Nat.lt_succ_self _)

theorem publishIngest_bringsAll {batch : IngestBatch} {fingerprint : UInt64}
    {written : List WrittenSegment} {receipt : IngestReceipt}
    (marked : ∀ frame ∈ written, FrameMarked store aspect frame)
    (seeded : (store.locks aspect).state = some next)
    (built : publishIngest catalog db aspect state batch fingerprint written createdMs =
      (next, .ok (.publish publication receipt))) : BringsAll store publication.ops := by
  obtain ⟨-, -, next_id, seriesId, seriesOps, ids, resolved, ids_eq, -, -, ops⟩ :=
    publishIngest_eq_publish built
  have series := commitSeriesId_ofSeries resolved
  intro op member mark held
  have bump : seqBump aspect next (written.foldl (fun gen frame => max gen frame.gen) 0 + 1)
      receipt.commitEpoch ∈ publication.ops := by
    rw [ops]
    exact List.mem_append_right _ List.mem_cons_self
  rw [ops] at member
  rcases mem_ingestOps member with own | ⟨frame, id, ⟨frame_mem, id_mem⟩, rfl⟩ | ⟨_, rfl⟩ |
    ⟨_, rfl⟩ | rfl | rfl
  · rcases series op own with ⟨_, _, rfl⟩ | ⟨_, rfl⟩ <;> cases held
  · refine bringsAll_of_frame (marked frame frame_mem) seeded ?_ bump ?_ mark held
    · rw [ids_eq, List.mem_map] at id_mem
      obtain ⟨offset, offset_mem, rfl⟩ := id_mem
      rw [List.mem_range] at offset_mem
      omega
    · exact Nat.lt_succ_of_le ((Hull.le_foldl_max WrittenSegment.gen written 0).2 frame frame_mem)
  all_goals cases held

theorem journalOutputs_bringsAll {planned : List WrittenOutput}
    (marked : ∀ output ∈ planned, Passed store ⟨aspect, .gen, output.gen⟩ ∧
      output.name = frameName aspect output.gen output.prec) :
    BringsAll store (journalOutputs aspect state planned createdMs).ops := by
  intro op member mark held
  have bump : seqBump aspect state
      (planned.foldl (fun gen output => max gen (output.gen + 1)) 0) state.epoch ∈
        (journalOutputs aspect state planned createdMs).ops :=
    List.mem_append_right _ (List.mem_singleton.mpr rfl)
  rcases List.mem_append.mp member with journaled | bumped
  · obtain ⟨output, output_mem, rfl⟩ := List.mem_map.mp journaled
    obtain ⟨passed, named⟩ := marked output output_mem
    rw [IndexOp.marks, named, frameName, FrameName.marks, List.mem_singleton] at held
    rw [held]
    exact brings_gen passed bump
      ((Hull.le_foldl_max (fun output : WrittenOutput => output.gen + 1) planned 0).2 output
        output_mem)
  · rw [List.mem_singleton.mp bumped] at held
    cases held

/-- What a plan brings in a transaction which raises the counters past its outputs. -/
theorem planOps_bringsAll {bumped : Nat} (marked : PlanMarked store aspect plan)
    (seeded : (store.locks aspect).state = some next)
    (bump : seqBump aspect next nextGen bumped ∈ ops)
    (gens : ∀ output ∈ plan.outputs, output.gen < nextGen) :
    ∀ op ∈ plan.ops aspect epoch createdMs, ∀ mark ∈ op.marks, Brings store ops mark := by
  have memberId : ∀ member ∈ plan.members, Brings store ops ⟨aspect, .id, member.desc.id⟩ :=
    fun member mem => brings_of_spent (marked.members member mem _ List.mem_cons_self)
  have freshId : ∀ id ∈ plan.fresh, Brings store ops ⟨aspect, .id, id⟩ := by
    intro id mem
    obtain ⟨limit, found, low⟩ := marked.fresh id mem
    simp only [memory, seeded, map_some, mem_def, some.injEq] at found
    rw [← found] at low
    exact brings_id seeded bump low
  have outputId : ∀ id ∈ plan.outputIds, Brings store ops ⟨aspect, .id, id⟩ := by
    intro id mem
    unfold PreparedPlan.outputIds at mem
    split at mem
    · obtain ⟨row, row_mem, rfl⟩ := List.mem_map.mp mem
      exact memberId row (List.mem_of_mem_take row_mem)
    · rcases List.mem_append.mp (List.mem_of_mem_take mem) with own | fresh
      · obtain ⟨row, row_mem, rfl⟩ := List.mem_map.mp own
        exact memberId row row_mem
      · exact freshId id fresh
  have outputRow : ∀ output ∈ plan.outputs, ∀ id ∈ plan.outputIds,
      ∀ mark ∈ (output.row id epoch plan.seriesId).marks aspect, Brings store ops mark := by
    intro output output_mem id id_mem mark held
    obtain ⟨passed, named, placed⟩ := marked.outputs output output_mem
    rcases mem_marks_of_outputRow named placed held with rfl | rfl
    · exact outputId id id_mem
    · exact brings_gen passed bump (gens output output_mem)
  intro op member mark held
  simp only [PreparedPlan.ops, List.mem_append, List.mem_map] at member
  rcases member with (((kept | ⟨⟨⟨output, id⟩, position⟩, zipped, rfl⟩) | deleted) |
    ⟨name, retired, rfl⟩) | ⟨_, _, rfl⟩
  · split at kept
    · obtain ⟨row, row_mem, rfl⟩ := List.mem_map.mp kept
      exact brings_of_spent (marked.members row (List.mem_of_mem_take row_mem) mark held)
    · cases kept
  · have zipped_mem : (output, id) ∈ plan.outputs.zip plan.outputIds :=
      List.fst_mem_of_mem_zipIdx zipped
    obtain ⟨output_mem, id_mem⟩ := List.of_mem_zip zipped_mem
    simp only [PreparedPlan.outputOp] at held
    split at held <;> exact outputRow output output_mem id id_mem mark held
  · split at deleted
    · cases deleted
    · rw [List.mem_singleton.mp deleted] at held
      cases held
  · exact brings_of_spent (marked.retired name retired mark held)
  · cases held

theorem commitPlans_bringsAll {plans : List PreparedPlan}
    (marked : ∀ plan ∈ plans, PlanMarked store aspect plan)
    (seeded : (store.locks aspect).state = some state) :
    BringsAll store (commitPlans db aspect state plans createdMs).ops := by
  have bump : seqBump aspect state
      ((plans.flatMap (·.outputs)).foldl (fun gen output => max gen (output.gen + 1)) 0)
        (state.epoch + 1) ∈ (commitPlans db aspect state plans createdMs).ops :=
    List.mem_append_right _ List.mem_cons_self
  intro op member mark held
  rcases List.mem_append.mp member with planned | finished
  · obtain ⟨plan, plan_mem, op_mem⟩ := List.mem_flatMap.mp planned
    refine planOps_bringsAll (marked plan plan_mem) seeded bump ?_ op op_mem mark held
    intro output output_mem
    exact (Hull.le_foldl_max (fun output : WrittenOutput => output.gen + 1)
      (plans.flatMap (·.outputs)) 0).2 output (List.mem_flatMap.mpr ⟨plan, plan_mem, output_mem⟩)
  · rcases List.mem_cons.mp finished with rfl | finished
    · cases held
    · rw [List.mem_singleton.mp finished] at held
      cases held

theorem mem_insertedNames (inserted : .insertNew aspect row ∈ ops)
    (path : row.desc.path = .segments name) : name ∈ insertedNames ops := by
  refine List.mem_flatMap.mpr ⟨_, inserted, ?_⟩
  simp only [path]
  exact List.mem_singleton.mpr rfl

theorem mem_marks_of_adoptedRow (identity : (orphanIdentity name).map Prod.fst = some aspect)
    (held : mark ∈ (adoptedRow name desc crc seriesId id).marks aspect) :
    mark = ⟨aspect, .id, id⟩ ∨ mark = ⟨aspect, .gen, (adoptedRow name desc crc seriesId id).gen⟩ ∧
        (mark ∈ name.fileMarks ∨ mark.value = 0) ∨
      mark.aspect = aspect ∧ mark.counter = .id ∧ mark ∈ name.fileMarks := by
  cases name with
  | writeOnce stem gen prec =>
      have named : (FrameName.writeOnce stem gen prec).aspect = some aspect := by
        simpa [orphanIdentity] using identity
      simp only [IndexRow.marks, adoptedRow, FramePath.marks, FrameName.marks, List.mem_cons,
        List.not_mem_nil, or_false] at held
      have own : ⟨aspect, .gen, gen⟩ ∈ (FrameName.writeOnce stem gen prec).fileMarks := by
        simp [FrameName.fileMarks, named]
      rcases held with rfl | rfl | rfl
      · exact .inl rfl
      · exact .inr (.inl ⟨rfl, .inl own⟩)
      · exact .inr (.inl ⟨rfl, .inl own⟩)
  | legacy owner file =>
      cases identity
      simp only [IndexRow.marks, adoptedRow, FramePath.marks, FrameName.marks, List.mem_cons,
        List.not_mem_nil, or_false] at held
      rcases held with rfl | rfl | rfl
      · exact .inl rfl
      · exact .inr (.inl ⟨rfl, .inr rfl⟩)
      · exact .inr (.inr ⟨rfl, rfl, List.mem_singleton.mpr rfl⟩)
  | other text => cases identity

theorem adoptOrphan_bringsAll {seriesKey : Option SeriesKey} {clear : Bool}
    (files : FilesKnown store) (positive : ∀ limit ∈ (store.locks aspect).nextGen, 0 < limit)
    (found : name ∈ store.frames) (identity : (orphanIdentity name).map Prod.fst = some aspect)
    (seeded : (store.locks aspect).state = some next)
    (built : adoptOrphan db aspect state name desc crc seriesKey clear = (next, some ops)) :
    BringsAll store ops := by
  obtain ⟨seriesOps, seriesId, id, series, allocated, ops_eq⟩ := adoptOrphan_eq_some built
  obtain ⟨id_eq, next_id, -⟩ := AspectState.allocate_eq_some allocated
  have inserted : .insertNew aspect (adoptedRow name desc crc seriesId id) ∈ ops := by
    rw [ops_eq]
    simp
  have bump : seqBump aspect next ((adoptedRow name desc crc seriesId id).gen + 1) next.epoch ∈
      ops := by
    rw [ops_eq]
    simp
  have onDisk : ∀ {mark : Mark}, mark ∈ name.fileMarks → mark ∈ store.fileMarks := fun held =>
    List.mem_append_left _ (List.mem_flatMap.mpr ⟨name, found, held⟩)
  have row : ∀ mark ∈ (adoptedRow name desc crc seriesId id).marks aspect,
      Brings store ops mark := by
    intro mark held
    rcases mem_marks_of_adoptedRow identity held with rfl | ⟨rfl, file⟩ | ⟨own, counter, file⟩
    · exact brings_id seeded bump (by omega)
    · refine ⟨.inr ⟨_, bump, ?_⟩, ?_⟩
      · simp [seqBump, IndexOp.bump]
      · cases memory_eq : store.memory
          ⟨aspect, .gen, (adoptedRow name desc crc seriesId id).gen⟩ with
        | none =>
            refine .inr ⟨memory_eq, ?_⟩
            rcases file with file | zero
            · exact .inr ⟨rfl, name, mem_insertedNames inserted rfl,
                List.mem_append_left _ found, file⟩
            · refine .inl ?_
              simp only at zero
              rw [zero]
              exact Nat.lt_of_lt_of_le Nat.zero_lt_one (Nat.le_max_right _ _)
        | some limit =>
            refine .inl ⟨limit, memory_eq, ?_⟩
            rcases file with file | zero
            · exact (files _ (onDisk file)).1 limit memory_eq
            · simp only at zero
              simp only [zero]
              exact positive limit memory_eq
    · obtain ⟨markAspect, markCounter, value⟩ := mark
      simp only at own counter
      subst own counter
      refine brings_id seeded bump ((files _ (onDisk file)).1 next.nextId ?_)
      simp [memory, seeded]
  intro op member mark held
  rw [ops_eq] at member
  simp only [List.mem_append, List.mem_cons, List.not_mem_nil, or_false] at member
  rcases member with (own | rfl | rfl) | cleared
  · rcases series op own with ⟨_, _, rfl⟩ | ⟨_, rfl⟩ <;> cases held
  · exact row mark held
  · cases held
  · split at cleared
    · rw [List.mem_singleton.mp cleared] at held
      cases held
    · cases cleared

theorem rebindRow_bringsAll {source : AspectName} {key : SeriesKey}
    (held : ∀ mark ∈ row.marks source, Spent store mark) (retired : retiredName row = some name)
    (moved : ∀ target, (reboundFromFrame source row name crc).2.2 = some target →
      ∀ mark ∈ (reboundFromFrame source row name crc).1.marks target, Spent store mark)
    (built : rebindRow db source row name crc key = some ops) : BringsAll store ops := by
  unfold rebindRow at built
  simp only at built
  split at built
  · cases built
    intro op member mark brought
    rcases List.mem_append.mp member with series | shifted
    · rcases rebindSeries_ofSeries _ _ _ _ _ op series with ⟨_, _, rfl⟩ | ⟨_, rfl⟩ <;>
        cases brought
    · refine brings_of_spent ?_
      cases target : (reboundFromFrame source row name crc).2.2 with
      | none =>
          rw [target, moveRow, List.mem_singleton] at shifted
          rw [shifted] at brought
          exact held mark (mem_marks_of_rebound retired brought)
      | some newAspect =>
          rw [target, moveRow] at shifted
          rcases List.mem_cons.mp shifted with rfl | shifted
          · cases brought
          · rw [List.mem_singleton.mp shifted] at brought
            exact moved newAspect target mark brought
  · cases built

/-- A rebind to another aspect brings only an id and a generation which the counters of that
aspect are past. -/
def Repair.Counted (store : Store) : Repair → Prop
  | .rebind source row name crc _ => ∀ target,
      (reboundFromFrame source row name crc).2.2 = some target →
        ∀ mark ∈ (reboundFromFrame source row name crc).1.marks target, Spent store mark
  | _ => True

theorem repair_bringsAll (files : FilesKnown store)
    (positive : ∀ limit ∈ (store.locks aspect).nextGen, 0 < limit)
    (held : ∀ mark ∈ store.db.marks, Spent store mark) (counted : step.Counted store)
    (readable : step.readable store.frames aspect = true)
    (seeded : (store.locks aspect).state = some next)
    (built : repair store.db aspect state changed step =
      (next, some (publication, continuation))) : BringsAll store publication.ops := by
  cases step with
  | rebuild =>
      cases built
      simp [BringsAll, rebuildRollup, IndexOp.marks]
  | adopt name desc crc seriesKey clear =>
      simp only [repair, Prod.mk.injEq] at built
      obtain ⟨rfl, built⟩ := built
      obtain ⟨ops, adopted, pair⟩ := map_eq_some_iff.mp built
      cases pair
      obtain ⟨found, identity⟩ := of_decide_eq_true readable
      exact adoptOrphan_bringsAll files positive found identity seeded (Prod.ext rfl adopted)
  | rebind source row name crc key =>
      simp only [repair] at built
      split at built
      · rename_i guard
        simp only [Prod.mk.injEq] at built
        obtain ⟨-, built⟩ := built
        obtain ⟨ops, rebound, pair⟩ := map_eq_some_iff.mp built
        cases pair
        have stored := IndexDb.mem_stored.mpr (IndexDb.mem_rows.mp guard.1)
        exact rebindRow_bringsAll
          (fun mark own => held mark (IndexDb.mem_marks_of_row stored own))
          (of_decide_eq_true readable).1 counted rebound
      · cases built

theorem repair_continuation
    (built : repair db aspect state changed step = (next, some (publication, continuation))) :
    ∃ later, continuation = .resume (.recovery later) := by
  cases step with
  | rebuild =>
      cases built
      exact ⟨_, rfl⟩
  | adopt name desc crc seriesKey clear =>
      simp only [repair, Prod.mk.injEq] at built
      obtain ⟨ops, -, pair⟩ := map_eq_some_iff.mp built.2
      cases pair
      exact ⟨_, rfl⟩
  | rebind source row name crc key =>
      simp only [repair] at built
      split at built
      · simp only [Prod.mk.injEq] at built
        obtain ⟨ops, -, pair⟩ := map_eq_some_iff.mp built.2
        cases pair
        exact ⟨_, rfl⟩
      · cases built

/-- What a task commits brings counted marks, and what it goes on with carries those it had. -/
theorem prepared_bringsAll (files : FilesKnown store)
    (positive : ∀ limit ∈ (store.locks aspect).nextGen, 0 < limit)
    (held : ∀ mark ∈ store.db.marks, Spent store mark)
    (marked : ∀ {own}, work.aspect = some own → own = aspect ∧ WorkMarked store own work)
    (counted : step.Counted store) (readable : step.readable store.frames aspect = true)
    (seeded : (store.locks aspect).state = some next)
    (built : prepared catalog store.db aspect state step createdMs work =
      some (next, .commit publication continuation)) :
    BringsAll store publication.ops ∧ ∀ {later own},
      continuation = .resume later ∨ continuation = .retain later → later.aspect = some own →
        own = aspect ∧ WorkMarked store own later := by
  unfold prepared at built
  split at built
  · obtain ⟨rfl, work_marked⟩ := marked rfl
    split at built
    · rename_i published
      cases built
      refine ⟨publishSeal_bringsAll (work_marked.written _ List.mem_cons_self) seeded published, ?_⟩
      rintro later own (goes_on | goes_on) <;> cases goes_on
    · cases built
  · obtain ⟨rfl, work_marked⟩ := marked rfl
    split at built
    · rename_i published
      cases built
      refine ⟨publishIngest_bringsAll work_marked.written seeded published, ?_⟩
      rintro later own (goes_on | goes_on) <;> cases goes_on
    all_goals cases built
  · rename_i own plans
    cases built
    obtain ⟨rfl, work_marked⟩ := marked rfl
    have outputs : ∀ output ∈ plans.flatMap (·.outputs), Passed store ⟨own, .gen, output.gen⟩ ∧
        output.name = frameName own output.gen output.prec := by
      intro output member
      obtain ⟨plan, plan_mem, output_mem⟩ := List.mem_flatMap.mp member
      obtain ⟨passed, named, -⟩ := (work_marked.plans plan plan_mem).outputs output output_mem
      exact ⟨passed, named⟩
    refine ⟨journalOutputs_bringsAll outputs, ?_⟩
    rintro later own' (goes_on | goes_on) same
    · cases goes_on
      cases same
      refine ⟨rfl, by simp [Work.written], work_marked.plans, ?_⟩
      intro name member
      obtain ⟨output, output_mem, rfl⟩ := List.mem_map.mp member
      obtain ⟨passed, named⟩ := outputs output output_mem
      exact ⟨output.gen, output.prec, named, passed⟩
    · cases goes_on
  · rename_i own plans attempt later
    cases built
    obtain ⟨rfl, work_marked⟩ := marked rfl
    refine ⟨commitPlans_bringsAll (fun plan member => work_marked.plans plan ?_) seeded, ?_⟩
    · simp [Work.plans, member]
    · rintro work own' goes_on same
      split at goes_on
      · rcases goes_on with goes_on | goes_on <;> cases goes_on
      · rcases goes_on with goes_on | goes_on
        · cases goes_on
        · cases goes_on
          cases same
          refine ⟨rfl, by simp [Work.written], fun plan member => work_marked.plans plan ?_,
            by simp [Work.unwritten]⟩
          simp only [Work.plans, List.mem_append, List.flatten_cons] at member ⊢
          tauto
  · rename_i changed
    split at built
    · rename_i repaired
      cases built
      refine ⟨repair_bringsAll files positive held counted readable seeded repaired, ?_⟩
      obtain ⟨later, rfl⟩ := repair_continuation repaired
      rintro work own (goes_on | goes_on) same
      · cases goes_on
        cases same
      · cases goes_on
    · cases built
  · cases built

end Building

end Store

end WeftDb
