import WeftDb.Fsck.PassSteps

/-!
# The pass among the writers

The pass relies on the writers to leave alone the frames which are not theirs.  Every access it
makes keeps the store sound, phase by phase.
-/

namespace WeftDb.Fsck

open IndexDb Program

variable (reader : FrameReader)
variable {request : Request} {aspect : AspectName} {ops : List IndexOp}
  {seriesKey : Option SeriesKey} {pass next : FsckPass} {rows : List IndexRow} {after : Shared}
  {aspects : List AspectName}

/-- What the condition says of one access. -/
def Allowed (request : Request) (shared : Shared) : Prop :=
  (∀ name, request = .read .orphan name → Named reader shared.root.db name ∨ Owned shared name →
    ∀ bytes, contents shared.root.files name = some bytes →
      ∃ desc, reader.readFull name bytes = .ok desc) ∧
  ∀ ops, request = .commitIndex ops → SparesKept reader shared ops

/-- The pass relies on the writers and keeps the store sound. -/
def passRules : Rules Request Shared where
  rely before after := Sound reader before → Undisturbed reader before after
  assume request shared := Sound reader shared ∧ Allowed reader request shared
  guarantee _ _ after := Sound reader after
  refl _ := Undisturbed.refl
  trans first second sound := (first sound).trans (second (first sound).sound)

/-- A part of the pass keeps the store sound at each access and ends in the postcondition. -/
abbrev Guarded {Value : Type} (post : Value → Shared → Prop) (program : Recovery Value)
    (state : Shared) : Prop :=
  Safe (Shared.answer reader) (passRules reader) post program state

/-- The request changes nothing. -/
def Request.Reads : Request → Prop
  | .commitLock _ | .allocate _ | .commitIndex _ | .rename _ | .removeQuarantined _ => False
  | _ => True

variable {reader} {Value : Type} {post : Value → Shared → Prop} {state : Shared}
  {name : FrameName} {key : AspectName × Nat}

theorem answer_of_reads (reads : request.Reads) (shared : Shared) :
    shared.answer reader request = ((Root.answer request shared.root).1, shared) := by
  cases request with
  | commitLock => exact reads.elim
  | allocate => exact reads.elim
  | commitIndex => exact reads.elim
  | rename => exact reads.elim
  | removeQuarantined => exact reads.elim
  | _ => simp [Shared.answer, Root.answer, harms]

theorem guarded_read {next : Reply request → Recovery Value} (reads : request.Reads)
    (sound : Sound reader state)
    (safe : ∀ later, Undisturbed reader state later → Allowed reader request later →
      Guarded reader post (next (Root.answer request later.root).1) later) :
    Guarded reader post (.ask request next) state := by
  intro later relied assumed
  rw [answer_of_reads reads]
  exact ⟨assumed.1, safe later (relied sound) assumed.2⟩

theorem guarded_still {next : Reply request → Recovery Value}
    (still : ∀ root, (Root.answer request root).2.db = root.db ∧
      (Root.answer request root).2.files = root.files ∧ harms reader root request = [])
    (sound : Sound reader state)
    (safe : ∀ reply after, Undisturbed reader state after → Guarded reader post (next reply) after) :
    Guarded reader post (.ask request next) state := by
  intro later relied assumed
  obtain ⟨db, files, harmless⟩ := still later.root
  have undisturbed : Undisturbed reader later (later.answer reader request).2 :=
    undisturbed_of_still assumed.1 db files rfl rfl (by simp [Shared.answer, harmless])
  exact ⟨undisturbed.sound, safe _ _ ((relied sound).trans undisturbed)⟩

section

variable (sound : Sound reader state)

include sound

theorem guarded_commitLock {next : Unit → Recovery Value}
    (safe : ∀ after, Undisturbed reader state after → Guarded reader post (next ()) after) :
    Guarded reader post (.ask (.commitLock aspect) next) state :=
  guarded_still (fun _ => ⟨rfl, rfl, rfl⟩) sound fun _ => safe

theorem guarded_allocate {next : Option (Nat × AspectState) → Recovery Value}
    (safe : ∀ reply after, Undisturbed reader state after → Guarded reader post (next reply) after) :
    Guarded reader post (.ask (.allocate aspect) next) state := by
  refine guarded_still (fun root => ?_) sound safe
  simp only [Root.answer, harms, and_true]
  split
  · exact ⟨rfl, rfl⟩
  · exact ⟨rfl, rfl⟩

theorem guarded_commitIndex {post : Unit → Shared → Prop}
    (lands : ∀ later db, Undisturbed reader state later → SparesKept reader later ops →
      later.root.db.applyAll ops = .ok db →
      Sound reader (later.commit reader ops db) ∧ post () (later.commit reader ops db)) :
    Guarded reader post (commitIndex ops) state := by
  intro later relied assumed
  have undisturbed := relied sound
  have spares := assumed.2.2 ops rfl
  cases applied : later.root.db.applyAll ops with
  | ok db =>
      have answered : later.answer reader (.commitIndex ops) =
          (.ok (), later.commit reader ops db) := by
        simp only [Shared.answer, Root.answer, applied, Shared.commit]
      rw [answered]
      exact lands later db undisturbed spares applied
  | error kind =>
      have answered : later.answer reader (.commitIndex ops) = (.error kind, later) := by
        simp only [Shared.answer, Root.answer, applied, harms, List.append_nil]
      rw [answered]
      exact ⟨assumed.1, trivial⟩

theorem commitIndex_quiet (quiet : ∀ op ∈ ops, Quiet op)
    (takes : ∀ key, ∀ op ∈ ops, TakesOnly key op) (unrecorded : recorded ops = []) :
    Guarded reader (fun _ => Undisturbed reader state) (commitIndex ops) state :=
  guarded_commitIndex sound fun _ _ undisturbed _ applied =>
    have quieted := quiet_undisturbed undisturbed.sound applied quiet takes unrecorded
    ⟨quieted.sound, undisturbed.trans quieted⟩

theorem quarantineFile_guarded (spent : Spent reader state name) :
    Guarded reader (fun _ => Passed reader name key state) (quarantineFile name) state := by
  intro later relied assumed
  have undisturbed := relied sound
  have spent_later := undisturbed.spent spent
  cases moved : later.root.moveToQuarantine name with
  | some root =>
      have present : (contents later.root.files name).isSome := by
        obtain ⟨file, found, -⟩ := Option.map_eq_some_iff.mp moved
        simp [contents, found]
      have answered : later.answer reader (.rename name) =
          (true, { later with root, harmed := later.harmed ++ [name] }) := by
        simp only [Shared.answer, Root.answer, moved, harms, if_pos present]
      rw [answered]
      have passed : Passed reader name key later
          { later with root, harmed := later.harmed ++ [name] } :=
        rename_passed assumed.1 spent_later moved
      exact ⟨passed.sound, undisturbed.passed.trans passed⟩
  | none =>
      have absent : contents later.root.files name = none := by
        rw [contents, Option.map_eq_none_iff]
        exact Option.map_eq_none_iff.mp moved
      have answered : later.answer reader (.rename name) = (false, later) := by
        simp [Shared.answer, Root.answer, moved, harms, absent]
      rw [answered]
      exact ⟨assumed.1, trivial⟩

end

variable {aspect : AspectName} {row : IndexRow} {quarantineClass : QuarantineClass}
  {reason : String} {clear : Bool} {bytes : List UInt8}

theorem quarantineIndexedRow_guarded (sound : Sound reader state)
    (confined : Confined reader state name (aspect, row.desc.id)) :
    Guarded reader (fun _ => Passed reader name (aspect, row.desc.id) state)
      (quarantineIndexedRow aspect row name quarantineClass reason) state := by
  rw [quarantineIndexedRow, request_bind]
  refine guarded_read trivial sound fun later undisturbed _ => Safe.bind ?_
  refine guarded_commitIndex undisturbed.sound fun landing db relied spares applied => ?_
  obtain ⟨passed, harmed⟩ := quarantineRow_passed relied.sound
    (relied.confined _ _ (undisturbed.confined _ _ confined)) applied spares
  have recorded := (undisturbed.trans relied).passed.trans passed
  refine ⟨recorded.sound, ?_⟩
  rw [request_bind]
  refine guarded_read trivial recorded.sound fun after moved _ => ?_
  split
  · have spent := moved.spent (recorded.sound.harmed name harmed)
    exact (quarantineFile_guarded moved.sound spent).mono fun _ _ renamed =>
      recorded.trans (moved.passed.trans renamed)
  · exact recorded.trans moved.passed

theorem quarantineOrphanFile_guarded (key : AspectName × Nat) (sound : Sound reader state)
    (free : Spent reader state name ∨ Held state.root.db name ∧ clear = true) :
    Guarded reader (fun _ => Passed reader name key state)
      (quarantineOrphanFile name quarantineClass reason clear) state := by
  rw [quarantineOrphanFile, request_bind]
  refine guarded_read trivial sound fun later undisturbed _ => ?_
  split
  · exact undisturbed.passed
  · rename_i ops built
    obtain ⟨record, own, rfl⟩ := quarantineOrphan_eq_some built
    have puts : ∀ op ∈ .quarantineInsert record :: (if clear then [.clearJournal name] else []),
        IndexOp.puts op = [] := by
      cases clear <;> simp [IndexOp.puts]
    refine Safe.bind (guarded_commitIndex undisturbed.sound
      fun landing db relied spares applied => ?_)
    have moved := undisturbed.trans relied
    have passed : Passed reader name key landing (landing.commit reader
        (.quarantineInsert record :: if clear then [.clearJournal name] else []) db) := by
      rcases free with spent | ⟨held, cleared⟩
      · have spent := moved.spent spent
        exact unnamed_passed moved.sound applied spares (about_quarantineOrphan own clear key) puts
          (spent key).used spent.not_owned spent.not_named fun held => absurd held spent.not_held
      · obtain ⟨used, unowned, unnamed⟩ :=
          not_fresh_of_held moved.sound ((moved.held name).mp held)
        exact unnamed_passed moved.sound applied spares (about_quarantineOrphan own clear key) puts
          used unowned unnamed fun _ => by simp [cleared]
    have harmed : name ∈ (landing.commit reader
        (.quarantineInsert record :: if clear then [.clearJournal name] else []) db).harmed := by
      refine List.mem_append_right _ ((mem_harms_commitIndex applied).mpr (.inl ?_))
      simp [recorded, own]
    refine ⟨passed.sound, ?_⟩
    exact (quarantineFile_guarded passed.sound (passed.sound.harmed name harmed)).mono
      fun _ _ renamed => moved.passed.trans (passed.trans renamed)

theorem resolveSeriesKey_guarded {seriesKey : SeriesKey} (sound : Sound reader state) :
    Guarded reader (fun resolved after => Undisturbed reader state after ∧
      ∀ op ∈ resolved.2, op.OfSeries aspect) (resolveSeriesKey aspect seriesKey) state := by
  rw [resolveSeriesKey, request_bind]
  refine guarded_read trivial sound fun later undisturbed _ => ?_
  split
  · exact ⟨undisturbed, by simp⟩
  · rw [request_bind]
    refine guarded_read trivial undisturbed.sound fun after relied _ => ?_
    refine ⟨undisturbed.trans relied, ?_⟩
    simp only [List.forall_mem_cons]
    exact ⟨.inl ⟨_, _, rfl⟩, .inr ⟨_, rfl⟩, by simp⟩

theorem planAdoption_guarded (sound : Sound reader state) :
    Guarded reader (fun _ => Undisturbed reader state) (planAdoption reader name bytes) state := by
  unfold planAdoption
  split
  · exact Undisturbed.refl sound
  · rw [request_bind]
    refine guarded_read trivial sound fun later undisturbed _ => ?_
    split
    · split
      · exact trivial
      · exact undisturbed
    · exact undisturbed

theorem adoptedSeries_guarded (sound : Sound reader state) :
    Guarded reader (fun resolved after => Undisturbed reader state after ∧
      ∀ op ∈ resolved.2, op.OfSeries aspect) (adoptedSeries aspect seriesKey) state := by
  cases seriesKey with
  | none => exact ⟨Undisturbed.refl sound, by simp⟩
  | some seriesKey => exact resolveSeriesKey_guarded sound

theorem adoptOrphanFile_guarded (key : AspectName × Nat) (sound : Sound reader state)
    (held : Held state.root.db name) :
    Guarded reader (fun outcome after => Passed reader name key state after ∧
      (outcome = .skipped → Undisturbed reader state after))
      (adoptOrphanFile reader name bytes seriesKey true) state := by
  unfold adoptOrphanFile
  refine Safe.bind ((planAdoption_guarded sound).mono fun planned middle undisturbed => ?_)
  split
  · exact ⟨undisturbed.passed, fun _ => undisturbed⟩
  · rename_i aspect desc
    rw [request_bind]
    refine guarded_commitLock undisturbed.sound fun locked relied => ?_
    have series := undisturbed.trans relied
    refine Safe.bind ((adoptedSeries_guarded series.sound).mono fun resolved found moved => ?_)
    obtain ⟨seriesId, seriesOps⟩ := resolved
    simp only [request_bind]
    refine guarded_allocate moved.1.sound fun reply after handed => ?_
    have allocated := (series.trans moved.1).trans handed
    split
    · trivial
    · refine Safe.bind ?_
      simp only [if_true, List.append_assoc, List.cons_append, List.nil_append]
      refine guarded_commitIndex allocated.sound fun landing db settled spares applied => ?_
      have landed := allocated.trans settled
      have passed : Passed reader name key landing _ :=
        adopt_passed landed.sound ((landed.held name).mp held) moved.2 rfl applied spares
      exact ⟨passed.sound, landed.passed.trans passed, by simp⟩

theorem rowSeries_guarded {newAspect : Option AspectName} {frameKey : SeriesKey}
    (sound : Sound reader state) :
    Guarded reader (fun resolved after => Undisturbed reader state after ∧
      ∀ op ∈ resolved.2, op.OfSeries (newAspect.getD aspect))
      (rowSeries false aspect row newAspect frameKey) state := by
  have matches_guarded : Guarded reader (fun _ => Undisturbed reader state)
      (catalogMatches aspect row newAspect frameKey) state := by
    cases newAspect with
    | some target => exact Undisturbed.refl sound
    | none => exact guarded_read trivial sound fun later undisturbed _ => undisturbed
  refine Safe.bind (matches_guarded.mono fun matched middle undisturbed => ?_)
  split
  · exact ⟨undisturbed, by simp⟩
  · simp only [resolveRow, Bool.false_eq_true, if_false, request_bind]
    refine guarded_commitLock undisturbed.sound fun locked relied => ?_
    have moved := undisturbed.trans relied
    exact Safe.bind ((resolveSeriesKey_guarded moved.sound).mono
      fun resolved after found => ⟨moved.trans found.1, found.2⟩)

section

variable (sound : Sound reader state) (path : row.desc.path = .segments name)
  (confined : Confined reader state name (aspect, row.desc.id)) (unharmed : name ∉ state.harmed)

include sound path confined unharmed

theorem fsckRebindRow_guarded :
    Guarded reader (fun result after => Passed reader name (aspect, row.desc.id) state after ∧
      result.1.journalNames = pass.journalNames)
      (fsckRebindRow reader false pass aspect row name bytes) state := by
  unfold fsckRebindRow
  split
  · exact Safe.bind ((quarantineIndexedRow_guarded sound confined).mono
      fun _ after passed => ⟨passed, rfl⟩)
  · have same := reboundFromFrame_spec aspect row name (trailer bytes)
    generalize reboundFromFrame aspect row name (trailer bytes) = framed at same ⊢
    obtain ⟨rebound, changed, newAspect⟩ := framed
    refine Safe.bind ((rowSeries_guarded sound).mono fun resolved middle found => ?_)
    obtain ⟨resolved, seriesOps⟩ := resolved
    obtain ⟨undisturbed, series⟩ := found
    simp only at same ⊢
    split
    · simp only [Bool.not_false, if_true]
      refine Safe.bind (guarded_commitIndex undisturbed.sound
        fun landing db relied spares applied => ?_)
      have moved := undisturbed.trans relied
      have own_id : ({ rebound with seriesId := resolved.getD rebound.seriesId } : IndexRow).desc.id =
          row.desc.id := congrArg SegmentDescriptor.id same
      have own_path : ({ rebound with seriesId := resolved.getD rebound.seriesId } :
          IndexRow).desc.path = .segments name := (congrArg SegmentDescriptor.path same).trans path
      have passed := rebind_passed moved.sound (moved.confined _ _ confined)
        (moved.harmed ▸ unharmed) series own_id own_path applied spares
      exact ⟨passed.sound, moved.passed.trans passed, rfl⟩
    · exact ⟨undisturbed.passed, rfl⟩

theorem fsckCheckRow_guarded :
    Guarded reader (fun result after => Passed reader name (aspect, row.desc.id) state after ∧
      result.1.journalNames = pass.journalNames)
      (fsckCheckRow reader false pass aspect row) state := by
  simp only [fsckCheckRow, path, request_bind]
  refine guarded_read trivial sound fun later undisturbed _ => ?_
  have confined_later := undisturbed.confined _ _ confined
  split
  · simp only [Bool.not_false, if_true]
    refine guarded_read trivial undisturbed.sound fun after relied _ => ?_
    have moved := undisturbed.trans relied
    refine Safe.bind (guarded_commitIndex moved.sound fun landing db settled spares applied => ?_)
    have landed := moved.trans settled
    obtain ⟨passed, -⟩ := quarantineRow_passed landed.sound (landed.confined _ _ confined) applied
      spares
    exact ⟨passed.sound, landed.passed.trans passed, rfl⟩
  · split
    · refine (fsckRebindRow_guarded undisturbed.sound path confined_later
        (undisturbed.harmed ▸ unharmed)).mono fun result after passed => ?_
      exact ⟨undisturbed.passed.trans passed.1, passed.2⟩
    · refine Safe.bind ((quarantineIndexedRow_guarded undisturbed.sound confined_later).mono
        fun _ after passed => ?_)
      exact ⟨undisturbed.passed.trans passed, rfl⟩

end

/-- The rows which are still to be checked: each names a frame of its own. -/
structure Listed (reader : FrameReader) (aspect : AspectName) (rows : List IndexRow)
    (shared : Shared) : Prop where
  confined : ∀ row ∈ rows, ∀ name, row.desc.path = .segments name →
    Confined reader shared name (aspect, row.desc.id) ∧ name ∉ shared.harmed
  apart : rows.Pairwise fun first second => first.desc.id ≠ second.desc.id ∧
    ∀ name, first.desc.path = .segments name → second.desc.path ≠ .segments name

theorem Listed.passed (listed : Listed reader aspect (row :: rows) state)
    (path : row.desc.path = .segments name)
    (passed : Passed reader name (aspect, row.desc.id) state after) :
    Listed reader aspect rows after where
  confined other other_mem own own_path := by
    obtain ⟨first, -⟩ := List.pairwise_cons.mp listed.apart
    obtain ⟨ids, paths⟩ := first other other_mem
    obtain ⟨confined, unharmed⟩ := listed.confined other (List.mem_cons_of_mem row other_mem) own
      own_path
    have different : own ≠ name := fun same => paths name path (same ▸ own_path)
    refine ⟨passed.confined _ _ different confined, fun harmed => unharmed ?_⟩
    refine passed.harmed own _ different (fun same => ids ?_) confined harmed
    exact (Prod.mk.inj same).2.symm
  apart := (List.pairwise_cons.mp listed.apart).2

/-- What the pass keeps: a sound store, whose held frames it knows of. -/
structure Knows (reader : FrameReader) (pass : FsckPass) (shared : Shared) : Prop where
  sound : Sound reader shared
  held : ∀ name, Held shared.root.db name → name ∈ pass.journalNames

theorem Knows.passed (knows : Knows reader pass state) (passed : Passed reader name key state after)
    (same : next.journalNames = pass.journalNames) : Knows reader next after :=
  ⟨passed.sound, fun other held => same ▸ knows.held other (passed.heldBefore other held)⟩

theorem Knows.undisturbed (knows : Knows reader pass state)
    (undisturbed : Undisturbed reader state after) (same : next.journalNames = pass.journalNames) :
    Knows reader next after :=
  ⟨undisturbed.sound, fun other held => same ▸ knows.held other ((undisturbed.held other).mpr held)⟩

theorem fsckCheckRows_guarded {changed : Bool} (knows : Knows reader pass state)
    (listed : Listed reader aspect rows state) :
    Guarded reader (fun result after => Knows reader result.1 after)
      (fsckCheckRows reader false aspect pass changed rows) state := by
  induction rows generalizing pass changed state with
  | nil => exact knows
  | cons row rows ih =>
      rw [fsckCheckRows]
      cases path : row.desc.path with
      | elsewhere text =>
          simp only [fsckCheckRow, path, pure_bind]
          exact ih ⟨knows.sound, knows.held⟩
            ⟨fun other other_mem => listed.confined other (List.mem_cons_of_mem row other_mem),
              (List.pairwise_cons.mp listed.apart).2⟩
      | segments name =>
          obtain ⟨confined, unharmed⟩ := listed.confined row List.mem_cons_self name path
          refine Safe.bind ((fsckCheckRow_guarded knows.sound path confined unharmed).mono
            fun result after passed => ?_)
          exact ih (knows.passed passed.1 passed.2) (listed.passed path passed.1)

theorem nodup_rows (db : IndexDb) (aspect : AspectName) : (db.rows aspect).Nodup := by
  have stored : (db.stored aspect).Nodup := by
    refine List.Nodup.map_on ?_ ((db.segments.nodup.of_map).filter _)
    intro left left_mem right right_mem same
    have left_own := of_decide_eq_true (List.mem_filter.mp left_mem).2
    have right_own := of_decide_eq_true (List.mem_filter.mp right_mem).2
    exact Prod.ext (left_own.trans right_own.symm) same
  exact (List.perm_insertionSort _ _).nodup_iff.mpr stored

theorem listed_of_rows (sound : Sound reader state) :
    Listed reader aspect (state.root.db.rows aspect) state := by
  constructor
  · intro row row_mem name path
    have stored_mem := mem_rows.mp row_mem
    have named : reader.rowName row = some name := by rw [FrameReader.rowName, path]
    have live : Named reader state.root.db name := ⟨_, stored_mem, named⟩
    refine ⟨⟨sound.named_used name live, ?_, sound.named_unheld name live,
      sound.once.homed stored_mem named⟩, fun harmed => (sound.harmed name harmed).not_named live⟩
    rintro ⟨id, writer, found, member⟩
    exact (sound.writers id writer found).unnamed name member live
  · refine (nodup_rows _ _).pairwise_of_forall_ne fun first first_mem second second_mem ne => ?_
    have first_stored := mem_rows.mp first_mem
    have second_stored := mem_rows.mp second_mem
    have ids : first.desc.id ≠ second.desc.id := fun same =>
      ne (congrArg Prod.snd (state.root.db.segments.eq_of_key_eq first_stored second_stored
        (congrArg (Prod.mk aspect) same)))
    refine ⟨ids, fun name first_path second_path => ids ?_⟩
    have first_named : reader.rowName first = some name := by rw [FrameReader.rowName, first_path]
    have second_named : reader.rowName second = some name := by
      rw [FrameReader.rowName, second_path]
    have key := sound.once.homed second_stored second_named _ first_stored first_named
    exact (Prod.mk.inj key).2

theorem fsckAspects_guarded (knows : Knows reader pass state) :
    Guarded reader (Knows reader) (fsckAspects reader false pass aspects) state := by
  induction aspects generalizing pass state with
  | nil => exact knows
  | cons aspect aspects ih =>
      rw [fsckAspects, request_bind]
      refine guarded_read trivial knows.sound fun later undisturbed _ => Safe.bind ?_
      refine (fsckCheckRows_guarded (knows.undisturbed undisturbed rfl)
        (listed_of_rows undisturbed.sound)).mono fun result after checked => ?_
      obtain ⟨pass, changed⟩ := result
      refine ih ⟨checked.sound, ?_⟩
      cases changed <;> exact checked.held

theorem fsckSeedSeries_guarded (knows : Knows reader pass state) :
    Guarded reader (Knows reader) (fsckSeedSeries false pass aspects) state := by
  induction aspects generalizing pass state with
  | nil => exact knows
  | cons aspect aspects ih =>
      rw [fsckSeedSeries, request_bind]
      refine guarded_read trivial knows.sound fun later undisturbed _ => ?_
      rw [request_bind]
      refine guarded_read trivial undisturbed.sound fun listed relied _ => ?_
      have moved := undisturbed.trans relied
      simp only [Bool.not_false, if_true]
      refine Safe.bind ((commitIndex_quiet moved.sound ?_ ?_ ?_).mono fun _ after seeded => ?_)
      · simp [Quiet, IndexOp.puts, SparesHeld]
      · simp [TakesOnly]
      · rfl
      · exact ih (knows.undisturbed (moved.trans seeded) rfl)

theorem heldKey_journalNames (pass : FsckPass) :
    (heldKey reader pass name bytes).1.journalNames = pass.journalNames := by
  unfold heldKey
  cases reader.describeFrame bytes with
  | error _ => cases reader.readFull name bytes <;> rfl
  | ok info =>
      simp only
      split
      · rfl
      · cases reader.readFull name bytes <;> rfl

theorem clearHeld_guarded (key : AspectName × Nat) (sound : Sound reader state)
    (held : Held state.root.db name) :
    Guarded reader (fun result after => Passed reader name key state after ∧
      result.journalNames = pass.journalNames) (clearHeld false pass name) state := by
  simp only [clearHeld, Bool.not_false, if_true]
  refine Safe.bind (guarded_commitIndex sound fun later db undisturbed spares applied => ?_)
  obtain ⟨used, unowned, unnamed⟩ := not_fresh_of_held undisturbed.sound ((undisturbed.held name).mp held)
  have passed : Passed reader name key later (later.commit reader [.clearJournal name] db) :=
    unnamed_passed undisturbed.sound applied spares (about_clear name key)
      (by simp [IndexOp.puts]) used unowned unnamed (by simp)
  exact ⟨passed.sound, undisturbed.passed.trans passed, rfl⟩

theorem fsckReleaseOne_guarded (key : AspectName × Nat) (sound : Sound reader state)
    (held : Held state.root.db name) :
    Guarded reader (fun result after => Passed reader name key state after ∧
      result.journalNames = pass.journalNames) (fsckReleaseOne reader false pass name) state := by
  rw [fsckReleaseOne, request_bind]
  refine guarded_read trivial sound fun later undisturbed _ => ?_
  have held_later := (undisturbed.held name).mp held
  have clears (other : FsckPass) (same : other.journalNames = pass.journalNames) (middle : Shared)
      (moved : Undisturbed reader state middle) :
      Guarded reader (fun result after => Passed reader name key state after ∧
        result.journalNames = pass.journalNames) (clearHeld false other name) middle :=
    (clearHeld_guarded key moved.sound ((moved.held name).mp held)).mono fun result after cleared =>
      ⟨moved.passed.trans cleared.1, cleared.2.trans same⟩
  split
  · exact clears pass rfl later undisturbed
  · rename_i bytes _
    have same : (heldKey reader pass name bytes).1.journalNames = pass.journalNames :=
      heldKey_journalNames pass
    generalize heldKey reader pass name bytes = keyed at same ⊢
    obtain ⟨next, seriesKey⟩ := keyed
    simp only at same ⊢
    split
    · rename_i seriesKey
      simp only [adoptHeld, Bool.false_eq_true, if_false]
      refine Safe.bind ((adoptOrphanFile_guarded key undisturbed.sound held_later).mono
        fun outcome after adopted => ?_)
      have passed : Passed reader name key state after := undisturbed.passed.trans adopted.1
      split
      · refine safe_pure.mpr ⟨passed, ?_⟩
        rw [FsckPass.change]
        split
        · exact same
        · exact same
      · exact ⟨passed, same⟩
      · exact clears next same after (undisturbed.trans (adopted.2 rfl))
    · split
      · simp only [Bool.not_false, if_true]
        refine Safe.bind ((quarantineOrphanFile_guarded key undisturbed.sound
          (.inr ⟨held_later, rfl⟩)).mono fun _ after quarantined => ?_)
        exact ⟨undisturbed.passed.trans quarantined, same⟩
      · exact clears next same later undisturbed

theorem fsckReleaseHeld_guarded {entries : List JournalEntry} (knows : Knows reader pass state)
    (names : (entries.map (·.name)).Nodup)
    (held : ∀ entry ∈ entries, entry.state = .held → Held state.root.db entry.name) :
    Guarded reader (Knows reader) (fsckReleaseHeld reader false pass entries) state := by
  induction entries generalizing pass state with
  | nil => exact knows
  | cons entry entries ih =>
      obtain ⟨foreign, apart⟩ := List.nodup_cons.mp names
      simp only [fsckReleaseHeld]
      split
      · rename_i own
        refine Safe.bind ((fsckReleaseOne_guarded ("", 0) knows.sound
          (held entry List.mem_cons_self own)).mono fun result after released => ?_)
        obtain ⟨passed, same⟩ := released
        refine ih (knows.passed passed same) apart fun other other_mem other_held => ?_
        refine passed.held other.name (fun same => foreign ?_)
          (held other (List.mem_cons_of_mem entry other_mem) other_held)
        exact List.mem_map.mpr ⟨other, other_mem, same⟩
      · exact ih knows apart fun other other_mem => held other (List.mem_cons_of_mem entry other_mem)

theorem fsckOrphan_guarded (knows : Knows reader pass state)
    (unjournaled : name ∉ pass.journalNames) :
    Guarded reader (Knows reader) (fsckOrphan reader false pass name) state := by
  rw [fsckOrphan, request_bind]
  refine guarded_read trivial knows.sound fun later undisturbed allowed => ?_
  have knows_later : Knows reader pass later := knows.undisturbed undisturbed rfl
  split
  · exact ⟨knows_later.sound, knows_later.held⟩
  · rename_i bytes found
    split
    · exact ⟨knows_later.sound, knows_later.held⟩
    · rename_i fault undecoded
      simp only
      split
      · -- The file does not decode, so no row names it and no write owns it.
        have free : ¬(Named reader later.root.db name ∨ Owned later name) := by
          intro claims
          obtain ⟨desc, decoded⟩ := allowed.1 name rfl claims bytes found
          rw [decoded] at undecoded
          cases undecoded
        obtain ⟨unnamed, unowned⟩ := not_or.mp free
        have unheld : ¬Held later.root.db name := fun held =>
          unjournaled (knows_later.held name held)
        have spent : Spent reader later name := by
          refine spent_of (fun fresh => ?_) unowned unheld unnamed
          obtain ⟨file, file_mem, rfl⟩ := contents_isSome (Option.isSome_of_eq_some found)
          exact undisturbed.sound.files_used file file_mem fresh
        simp only [Bool.not_false, if_true]
        exact Safe.bind ((quarantineOrphanFile_guarded ("", 0) undisturbed.sound
          (.inl spent)).mono fun _ after quarantined => knows_later.passed quarantined rfl)
      · exact ⟨knows_later.sound, knows_later.held⟩

theorem fsckOrphans_guarded {names : List FrameName} (knows : Knows reader pass state) :
    Guarded reader (Knows reader) (fsckOrphans reader false pass names) state := by
  induction names generalizing pass state with
  | nil => exact knows
  | cons name names ih =>
      simp only [fsckOrphans]
      split
      · rename_i orphan
        simp only [Bool.and_eq_true, decide_eq_true_eq] at orphan
        exact Safe.bind ((fsckOrphan_guarded knows orphan.2.2).mono fun _ _ checked => ih checked)
      · exact ih knows

theorem rebuildRollups_guarded (sound : Sound reader state) :
    Guarded reader (fun _ => Sound reader) (rebuildRollups aspects) state := by
  induction aspects generalizing state with
  | nil => exact sound
  | cons aspect aspects ih =>
      rw [rebuildRollups, request_bind]
      refine guarded_commitLock sound fun locked undisturbed => ?_
      rw [request_bind]
      refine guarded_read trivial undisturbed.sound fun listed relied _ => Safe.bind ?_
      refine (commitIndex_quiet relied.sound ?_ ?_ ?_).mono fun _ after rebuilt => ih rebuilt.sound
      · simp [Quiet, IndexOp.puts, SparesHeld]
      · simp [TakesOnly]
      · rfl

theorem purgeRecords_guarded {now : Int} {purged : Nat} {records : List QuarantineRecord}
    (sound : Sound reader state) :
    Guarded reader (fun _ => Sound reader) (purgeRecords now purged records) state := by
  induction records generalizing purged state with
  | nil => exact sound
  | cons record records ih =>
      rw [purgeRecords]
      split
      · rw [request_bind]
        refine guarded_still (fun _ => ⟨rfl, rfl, rfl⟩) sound fun _ unlinked undisturbed => ?_
        refine Safe.bind ((commitIndex_quiet undisturbed.sound ?_ ?_ ?_).mono
          fun _ after deleted => ih deleted.sound)
        · simp [quarantinePurge, Quiet, IndexOp.puts, SparesHeld]
        · simp [quarantinePurge, TakesOnly]
        · rfl
      · exact ih sound

theorem fsck_guarded (sound : Sound reader state) :
    Guarded reader (fun _ => Sound reader) (fsck reader false) state := by
  rw [fsck, request_bind]
  refine guarded_read trivial sound fun journaled first _ => ?_
  rw [request_bind]
  refine guarded_read trivial first.sound fun indexed second _ => ?_
  rw [request_bind]
  refine guarded_read trivial second.sound fun catalogued third _ => ?_
  have knows : Knows reader
      { journalNames := journaled.root.db.journal.rows.map (·.name) } catalogued := by
    refine ⟨third.sound, fun name held => ?_⟩
    obtain ⟨entry, entry_mem, -, rfl⟩ := ((second.trans third).held name).mpr held
    exact List.mem_map_of_mem (KeyedTable.mem_rows.mpr entry_mem)
  refine Safe.bind ((fsckSeedSeries_guarded knows).mono fun pass seeded knows => ?_)
  refine Safe.bind ((fsckAspects_guarded knows).mono fun pass checked knows => ?_)
  rw [request_bind]
  refine guarded_read trivial knows.sound fun listed relied _ => Safe.bind ?_
  have knows_listed : Knows reader pass listed := knows.undisturbed relied rfl
  refine (fsckReleaseHeld_guarded knows_listed listed.root.db.journal.nodup
    fun entry entry_mem held => ⟨entry, entry_mem, held, rfl⟩).mono fun pass released knows => ?_
  rw [request_bind]
  refine guarded_read trivial knows.sound fun dir relied _ => Safe.bind ?_
  have knows_dir : Knows reader pass dir := knows.undisturbed relied rfl
  refine (fsckOrphans_guarded knows_dir).mono fun pass cleaned knows => ?_
  simp only [Bool.false_eq_true, if_false]
  refine Safe.bind ((rebuildRollups_guarded knows.sound).mono fun _ rebuilt sound => Safe.bind ?_)
  rw [purgeExpiredQuarantine, request_bind]
  refine guarded_read trivial sound fun later undisturbed _ => ?_
  rw [request_bind]
  refine guarded_read trivial undisturbed.sound fun recorded relied _ => ?_
  exact (purgeRecords_guarded relied.sound).mono fun _ _ sound => sound

end WeftDb.Fsck
