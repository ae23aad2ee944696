import WeftDb.Fsck.Undisturbed

/-!
# The steps of the writers

Each step of a seal, an ingest or a swap keeps the store sound and leaves alone every frame which
is not its own.
-/

namespace WeftDb.Fsck

open IndexDb Function Option

variable {reader : FrameReader} {before after : Shared} {id : WriterId} {writer : Writer}
  {name : FrameName}
variable {aspect : AspectName} {db : IndexDb} {next : Writer} {root : Root} {ops : List IndexOp}
  {content : List UInt8}

theorem planOutputs_spec (aspect : AspectName) (prec gen : Nat) (specs : List FrameSpec) :
    (∀ output ∈ Shared.planOutputs aspect prec gen specs,
      output.1.name = output.2.name ∧ output.1.descriptor.path = .segments output.1.name ∧
        ∃ offset, offset < specs.length ∧
          output.2.name = frameName aspect (gen + offset) prec) ∧
      (Shared.planOutputs aspect prec gen specs).length = specs.length ∧
      ((Shared.planOutputs aspect prec gen specs).map (·.2.name)).Nodup := by
  induction specs generalizing gen with
  | nil => simp [Shared.planOutputs]
  | cons spec specs ih =>
      obtain ⟨each, length, nodup⟩ := ih (gen + 1)
      simp only [Shared.planOutputs, List.forall_mem_cons, List.length_cons, List.map_cons,
        List.nodup_cons]
      refine ⟨⟨⟨trivial, trivial, 0, by omega, rfl⟩, fun output member => ?_⟩, by rw [length], ?_,
        nodup⟩
      · obtain ⟨same, path, offset, small, named⟩ := each output member
        exact ⟨same, path, offset + 1, by omega, by rw [named]; congr 1; omega⟩
      · intro member
        obtain ⟨output, output_mem, same⟩ := List.mem_map.mp member
        obtain ⟨-, -, offset, -, named⟩ := each output output_mem
        rw [named] at same
        simp only [frameName, FrameName.writeOnce.injEq] at same
        omega

theorem plansOutputs_spec (aspect : AspectName) (gen : Nat) (plans : List PreparedPlan)
    (specs : List (List FrameSpec)) :
    let result := Shared.plansOutputs aspect gen plans specs
    (result.1.flatMap (·.outputs)).map (·.name) = result.2.map (·.name) ∧
      (∀ plan ∈ result.1, ∀ output ∈ plan.outputs,
        output.descriptor.path = .segments output.name) ∧
      result.1.map (fun plan => (plan.keep, plan.members)) =
        plans.map (fun plan => (plan.keep, plan.members)) ∧
      (∀ output ∈ result.2, ∃ offset prec, offset < result.2.length ∧
        output.name = frameName aspect (gen + offset) prec) ∧
      (result.2.map (·.name)).Nodup := by
  induction plans generalizing gen specs with
  | nil => simp [Shared.plansOutputs]
  | cons plan plans ih =>
      let own := if plan.keep then [] else specs.headD []
      obtain ⟨each, length, nodup⟩ := planOutputs_spec aspect plan.prec gen own
      obtain ⟨names, paths, kept, offsets, later_nodup⟩ := ih (gen + own.length) specs.tail
      have unfolded : Shared.plansOutputs aspect gen (plan :: plans) specs =
          ({ plan with
              outputs := (Shared.planOutputs aspect plan.prec gen own).map Prod.fst } ::
            (Shared.plansOutputs aspect (gen + own.length) plans specs.tail).1,
            (Shared.planOutputs aspect plan.prec gen own).map Prod.snd ++
            (Shared.plansOutputs aspect (gen + own.length) plans specs.tail).2) := by
        rfl
      simp only [unfolded, List.flatMap_cons, List.map_append, List.map_map, List.map_cons,
        List.forall_mem_cons, List.length_append, List.length_map, length]
      refine ⟨congrArg₂ _ (List.map_congr_left fun output member => (each output member).1) names,
        ⟨fun output member => ?_, paths⟩, congrArg₂ _ rfl kept, fun output member => ?_, ?_⟩
      · obtain ⟨both, both_mem, rfl⟩ := List.mem_map.mp member
        exact (each both both_mem).2.1
      · rcases List.mem_append.mp member with first | later
        · obtain ⟨both, both_mem, rfl⟩ := List.mem_map.mp first
          obtain ⟨-, -, offset, small, named⟩ := each both both_mem
          exact ⟨offset, plan.prec, by omega, named⟩
        · obtain ⟨offset, prec, small, named⟩ := offsets output later
          exact ⟨own.length + offset, prec, by omega, by rw [named, Nat.add_assoc]⟩
      · refine List.Nodup.append nodup later_nodup fun shared first later => ?_
        obtain ⟨both, both_mem, rfl⟩ := List.mem_map.mp first
        obtain ⟨other, other_mem, same⟩ := List.mem_map.mp later
        obtain ⟨-, -, offset, small, named⟩ := each both both_mem
        obtain ⟨further, prec, -, other_named⟩ := offsets other other_mem
        simp only [comp_apply] at same
        rw [named, other_named] at same
        simp only [frameName, FrameName.writeOnce.injEq] at same
        omega

theorem begin_undisturbed {work : Work} (sound : Sound reader before)
    (taken : before.begin id aspect work = some after) (places : work.Places [])
    (keeps : ∀ member ∈ work.kept aspect, KeepsName reader before.root.db member) :
    Undisturbed reader before after := by
  unfold Shared.begin at taken
  split at taken
  · cases taken
  · cases taken
    have moves : Moves before (before.setWriter id (some ⟨aspect, work, [], none⟩)) id := by
      refine ⟨rfl, rfl, fun _ => Nat.le_refl _, sound.files_used, fun other different => ?_,
        fun writer found name member => ?_⟩
      · simp [Shared.setWriter, different]
      · simp only [Shared.setWriter, update_self, some.injEq] at found
        subst found
        cases member
    refine moves.undisturbed sound fun writer found => ?_
    simp only [Shared.setWriter, update_self, some.injEq] at found
    subst found
    exact ⟨List.nodup_nil, by simp [Writer.names], by simp [Writer.names],
      by simp [Writer.names], places, by simp, keeps⟩

theorem keepsName_of_mem {member : AspectName × IndexRow} (stored : member ∈ db.segments) :
    KeepsName reader db member := by
  intro row row_mem same
  have key : segmentKey (member.1, row) = segmentKey member :=
    congrArg (Prod.mk member.1) (congrArg RowVersion.id same)
  rw [← db.segments.eq_of_key_eq row_mem stored key]

theorem beginSwap_undisturbed {catalog : Catalog} {selections : List (List IndexRow × Bool)}
    (sound : Sound reader before)
    (taken : before.advance catalog (.beginSwap id aspect selections) = some after) :
    Undisturbed reader before after := by
  simp only [Shared.advance] at taken
  split at taken
  · rename_i listed
    obtain ⟨plans, all, begun⟩ := bind_eq_some_iff.mp taken
    have each (plan : PreparedPlan) (member : plan ∈ plans) : ∃ selection ∈ selections,
        plan.members = selection.1 ∧ plan.outputs = [] := by
      obtain ⟨selection, selection_mem, prepared⟩ :=
        List.mem_map.mp (mem_of_allSome all plan member)
      obtain ⟨members, -, outputs, -⟩ := preparePlan_spec prepared
      exact ⟨selection, selection_mem, members, outputs⟩
    refine begin_undisturbed sound begun ⟨?_, fun plan member => ?_⟩ fun member member_mem => ?_
    · rw [List.map_eq_nil_iff, List.flatMap_eq_nil_iff]
      exact fun plan member => (each plan member).choose_spec.2.2
    · rw [(each plan member).choose_spec.2.2]
      simp
    · obtain ⟨plan, plan_mem, kept⟩ := List.mem_flatMap.mp member_mem
      split at kept
      · obtain ⟨row, row_mem, rfl⟩ := List.mem_map.mp kept
        obtain ⟨selection, selection_mem, members, -⟩ := each plan plan_mem
        have row_listed := List.all_eq_true.mp
          (List.all_eq_true.mp listed selection selection_mem) row
            (members ▸ List.mem_of_mem_take row_mem)
        exact keepsName_of_mem (mem_rows.mp (of_decide_eq_true row_listed))
      · cases kept
  · cases taken

theorem undisturbed_of_replace (sound : Sound reader before)
    (found : before.writers id = some writer) (db : root.db = before.root.db)
    (files : ∀ file ∈ root.files, ¬Fresh before file.1) (names : next.names = writer.names)
    (places : next.work.Places writer.names) (kept : next.kept = writer.kept)
    (lawful : ∀ ops, next.ops = some ops → Lawful writer.kept writer.names ops) :
    Undisturbed reader before { before.setWriter id (some next) with root } := by
  have own := sound.writers id writer found
  have moves : Moves before { before.setWriter id (some next) with root } id := by
    refine ⟨db, rfl, fun _ => Nat.le_refl _, files, fun other different => ?_,
      fun changed changed_found name member => ?_⟩
    · simp [Shared.setWriter, different]
    · simp only [Shared.setWriter, update_self, some.injEq] at changed_found
      subst changed_found
      exact .inr ⟨writer, found, names ▸ member⟩
  refine moves.undisturbed sound fun changed changed_found => ?_
  simp only [Shared.setWriter, update_self, some.injEq] at changed_found
  subst changed_found
  have moved := moves.writerSound own
  exact ⟨names ▸ moved.nodup, names ▸ moved.used, names ▸ moved.unheld, names ▸ moved.unnamed,
    names ▸ places, fun ops built => by rw [kept, names]; exact lawful ops built,
    kept ▸ moved.keeps⟩

/-- A step which replaces one writer and hands it frames. -/
theorem undisturbed_of_handing {nextGen : String → Nat} (handed : List FrameName)
    (sound : Sound reader before) (found : before.writers id = some writer)
    (gens : ∀ stem, before.nextGen stem ≤ nextGen stem)
    (names : next.names = writer.names ++ handed) (nodup : handed.Nodup)
    (fresh : ∀ name ∈ handed, Fresh before name)
    (used : ∀ name ∈ handed, ∀ stem gen prec, name = .writeOnce stem gen prec →
      gen < nextGen stem) (places : next.work.Places next.names) (kept : next.kept = writer.kept)
    (unbuilt : next.ops = none) :
    Undisturbed reader before { before.setWriter id (some next) with nextGen } := by
  have own := sound.writers id writer found
  have moves : Moves before { before.setWriter id (some next) with nextGen } id := by
    refine ⟨rfl, rfl, gens, fun file member fresh => ?_, fun other different => ?_,
      fun changed changed_found name member => ?_⟩
    · obtain ⟨stem, gen, prec, named, reached⟩ := fresh
      exact sound.files_used file member ⟨stem, gen, prec, named, (gens stem).trans reached⟩
    · simp [Shared.setWriter, different]
    · simp only [Shared.setWriter, update_self, some.injEq] at changed_found
      subst changed_found
      rw [names] at member
      rcases List.mem_append.mp member with old | new
      · exact .inr ⟨writer, found, old⟩
      · exact .inl (fresh name new)
  refine moves.undisturbed sound fun changed changed_found => ?_
  simp only [Shared.setWriter, update_self, some.injEq] at changed_found
  subst changed_found
  have moved := moves.writerSound own
  refine ⟨?_, fun name member => ?_, fun name member => ?_, fun name member => ?_, places,
    fun ops built => ?_, kept ▸ moved.keeps⟩
  · rw [names]
    exact moved.nodup.append nodup fun name old new => own.used name old (fresh name new)
  · rw [names] at member
    rcases List.mem_append.mp member with old | new
    · exact moved.used name old
    · rintro ⟨stem, gen, prec, named, reached⟩
      exact absurd (used name new stem gen prec named) (Nat.not_lt.mpr reached)
  · rw [names] at member
    rcases List.mem_append.mp member with old | new
    · exact moved.unheld name old
    · exact fun held => sound.held_used name held (fresh name new)
  · rw [names] at member
    rcases List.mem_append.mp member with old | new
    · exact moved.unnamed name old
    · exact fun named => sound.named_used name named (fresh name new)
  · rw [unbuilt] at built
    cases built

/-- The operation changes no row and leaves the held frames as they are. -/
def Quiet (op : IndexOp) : Prop :=
  op.puts = [] ∧ SparesHeld [] op

theorem lands_of_quiet {next : IndexDb} (applied : db.applyAll ops = .ok next)
    (quiet : ∀ op ∈ ops, Quiet op) : Lands reader db next [] where
  homed name key _ homed := homed.applyAll applied fun op op_mem stored put => by
    rw [(quiet op op_mem).1] at put
    cases put
  own name member := by cases member
  held name _ := by
    constructor
    · exact fun held => held_kept_of_applyAll applied held fun cleared => by
        cases (quiet _ cleared).2
    · exact held_of_applyAll applied fun op op_mem => (quiet op op_mem).2.holdsNone

theorem undisturbed_of_quiet (sound : Sound reader before)
    (applied : before.root.db.applyAll ops = .ok db) (quiet : ∀ op ∈ ops, Quiet op) :
    Undisturbed reader before { before with root := { before.root with db } } := by
  have lands : Lands reader before.root.db db [] := lands_of_quiet applied quiet
  have commits : Commits before { before with root := { before.root with db } } [] :=
    ⟨rfl, rfl, fun id writer found => ⟨found, fun name member => by simp⟩⟩
  have confined (name : FrameName) (key : AspectName × Nat)
      (confined : Confined reader before name key) :
      Confined reader { before with root := { before.root with db } } name key :=
    commits.confined lands (by simp) confined
  refine ⟨commits.sound lands sound (by simp) (by simp)
    (fun id writer found member member_mem => ?_)
    fun name member key => confined name key (sound.harmed name member key), confined,
    fun name => lands.held name (by simp), rfl⟩
  refine ((sound.writers id writer found).keeps member member_mem).applyAll applied ?_
  intro op op_mem row put
  rw [(quiet op op_mem).1] at put
  cases put

theorem contents_isSome {files : Files} (found : (contents files name).isSome) :
    ∃ file ∈ files, file.1 = name := by
  rw [contents, isSome_map] at found
  obtain ⟨file, lookup⟩ := isSome_iff_exists.mp found
  exact ⟨file, KeyedTable.find?_eq_some.mp lookup⟩

theorem writeThrough_files {file : FrameName × List UInt8}
    (member : file ∈ (Shared.writeThrough root name content).files) :
    ∃ kept ∈ root.files, kept.1 = file.1 := by
  unfold Shared.writeThrough at member
  split at member
  · rename_i found
    rcases KeyedTable.mem_put.mp member with ⟨kept, -⟩ | rfl
    · exact ⟨file, kept, rfl⟩
    · exact contents_isSome found
  · split at member
    · exact ⟨file, member, rfl⟩
    · exact ⟨file, member, rfl⟩

theorem writeThrough_db : (Shared.writeThrough root name content).db = root.db := by
  unfold Shared.writeThrough
  split
  · rfl
  · split <;> rfl

theorem Writer.names_setOutput {set : Output → Output}
    (same : ∀ output, (set output).name = output.name) :
    (writer.setOutput name set).names = writer.names := by
  simp only [Writer.names, Writer.setOutput, List.map_map]
  refine List.map_congr_left fun output _ => ?_
  simp only [comp_apply]
  split
  · exact same output
  · rfl

section Steps

variable {catalog : Catalog}

theorem nameFrame_undisturbed {spec : FrameSpec} (sound : Sound reader before)
    (taken : before.advance catalog (.nameFrame id spec) = some after) :
    Undisturbed reader before after := by
  simp only [Shared.advance] at taken
  obtain ⟨writer, found, taken⟩ := bind_eq_some_iff.mp taken
  have own := sound.writers id writer found
  split at taken
  · rename_i unbuilt
    obtain ⟨work, handed, rfl⟩ := map_eq_some_iff.mp taken
    refine undisturbed_of_handing [frameName writer.aspect (before.nextGen (stem writer.aspect))
      (before.nextGen (stem writer.aspect))] sound found (fun other => ?_) ?_
      (List.nodup_singleton _) ?_ ?_ ?_ ?_ unbuilt
    · rw [update_apply]
      split
      · rename_i same
        rw [same]
        exact Nat.le_succ _
      · exact Nat.le_refl _
    · simp [Writer.names]
    · simp only [List.mem_singleton, forall_eq]
      exact ⟨_, _, _, rfl, Nat.le_refl _⟩
    · simp only [List.mem_singleton, forall_eq]
      intro other gen prec named
      obtain ⟨rfl, rfl, -⟩ := FrameName.writeOnce.inj named
      rw [update_self]
      exact Nat.lt_succ_self _
    · split at handed
      · rename_i same
        cases handed
        have places := own.places
        simp only [same, Work.Places, List.map_nil, List.nil_eq, List.map_eq_nil_iff] at places
        simp only [Work.Places, Writer.names] at places ⊢
        simp [places]
      · rename_i batch fingerprint written same
        cases handed
        have places := own.places
        simp only [same, Work.Places] at places
        simp only [Work.Places, Writer.names, List.map_append, List.map_cons, List.map_nil]
          at places ⊢
        rw [places]
      · cases handed
    · split at handed
      · rename_i same
        cases handed
        simp only [Writer.kept, same]
        rfl
      · rename_i batch fingerprint written same
        cases handed
        simp only [Writer.kept, same]
        rfl
      · cases handed
  · cases taken

theorem nameOutputs_undisturbed {specs : List (List FrameSpec)} (sound : Sound reader before)
    (taken : before.advance catalog (.nameOutputs id specs) = some after) :
    Undisturbed reader before after := by
  simp only [Shared.advance] at taken
  obtain ⟨writer, found, taken⟩ := bind_eq_some_iff.mp taken
  split at taken
  · rename_i plans same
    split at taken
    · rename_i idle
      cases taken
      obtain ⟨names, paths, kept, offsets, nodup⟩ := plansOutputs_spec writer.aspect
        (before.nextGen (stem writer.aspect)) plans specs
      refine undisturbed_of_handing _ sound found (fun other => ?_) ?_ nodup ?_ ?_ ?_ ?_ idle.2
      · rw [update_apply]
        split
        · rename_i equal
          rw [equal]
          exact Nat.le_add_right _ _
        · exact Nat.le_refl _
      · simp [Writer.names, idle.1]
      · intro name member
        obtain ⟨output, output_mem, rfl⟩ := List.mem_map.mp member
        obtain ⟨offset, prec, -, named⟩ := offsets output output_mem
        exact ⟨_, _, _, named, Nat.le_add_right _ _⟩
      · intro name member other gen prec equal
        obtain ⟨output, output_mem, rfl⟩ := List.mem_map.mp member
        obtain ⟨offset, own_prec, small, named⟩ := offsets output output_mem
        obtain ⟨rfl, rfl, -⟩ := FrameName.writeOnce.inj (named.symm.trans equal)
        rw [update_self]
        exact Nat.add_lt_add_left small _
      · exact ⟨names, paths⟩
      · simp only [Writer.kept, same, Work.kept]
        have flat (list : List PreparedPlan) : (list.flatMap fun plan =>
            if plan.keep then (plan.members.take 1).map (writer.aspect, ·) else []) =
            (list.map fun plan => (plan.keep, plan.members)).flatMap fun plan =>
              if plan.1 then (plan.2.take 1).map (writer.aspect, ·) else [] := by
          rw [List.flatMap_map]
        rw [flat, kept, ← flat]
    · cases taken
  · cases taken

theorem journalOutputs_quiet {state : AspectState} {planned : List WrittenOutput}
    {createdMs : Int} :
    ∀ op ∈ (WeftDb.journalOutputs aspect state planned createdMs).ops, Quiet op := by
  intro op member
  simp only [WeftDb.journalOutputs, List.mem_append, List.mem_map, List.mem_singleton] at member
  rcases member with ⟨output, -, rfl⟩ | rfl
  · exact ⟨rfl, trivial⟩
  · exact ⟨rfl, trivial⟩

variable (sound : Sound reader before)

include sound

theorem journalOutputs_undisturbed
    (taken : before.advance catalog (.journalOutputs id) = some after) :
    Undisturbed reader before after := by
  simp only [Shared.advance] at taken
  obtain ⟨writer, found, taken⟩ := bind_eq_some_iff.mp taken
  split at taken
  · rename_i plans same
    split at taken
    · rename_i db applied
      cases taken
      have first := undisturbed_of_quiet sound applied journalOutputs_quiet
      have own := first.sound.writers id writer found
      have places := own.places
      rw [same] at places
      refine first.trans (undisturbed_of_replace first.sound found rfl first.sound.files_used rfl
        places ?_ own.lawful)
      simp only [Writer.kept, same, Work.kept]
    · cases taken
  · cases taken

theorem createFile_undisturbed (taken : before.advance catalog (.createFile id name) = some after) :
    Undisturbed reader before after := by
  simp only [Shared.advance] at taken
  obtain ⟨writer, found, taken⟩ := bind_eq_some_iff.mp taken
  have own := sound.writers id writer found
  split at taken
  · rename_i created
    cases taken
    simp only [Bool.and_eq_true, List.any_eq_true, decide_eq_true_eq] at created
    obtain ⟨⟨⟨output, output_mem, same, -⟩, -⟩, -⟩ := created
    refine undisturbed_of_replace sound found rfl (fun file member => ?_)
      (Writer.names_setOutput fun _ => rfl) own.places rfl own.lawful
    rcases KeyedTable.mem_put.mp member with ⟨kept, -⟩ | rfl
    · exact sound.files_used file kept
    · exact own.used name (List.mem_map.mpr ⟨output, output_mem, same⟩)
  · cases taken

theorem writeFile_undisturbed
    (taken : before.advance catalog (.writeFile id name content) = some after) :
    Undisturbed reader before after := by
  simp only [Shared.advance] at taken
  obtain ⟨writer, found, taken⟩ := bind_eq_some_iff.mp taken
  have own := sound.writers id writer found
  split at taken
  · cases taken
    refine undisturbed_of_replace sound found writeThrough_db (fun file member => ?_)
      (Writer.names_setOutput fun _ => rfl) own.places rfl own.lawful
    obtain ⟨kept, kept_mem, same⟩ := writeThrough_files member
    exact same ▸ sound.files_used kept kept_mem
  · cases taken

theorem prepare_undisturbed (taken : before.advance catalog (.prepare id) = some after) :
    Undisturbed reader before after := by
  simp only [Shared.advance] at taken
  obtain ⟨writer, found, taken⟩ := bind_eq_some_iff.mp taken
  obtain ⟨⟨state, ops⟩, built, rfl⟩ := map_eq_some_iff.mp taken
  have own := sound.writers id writer found
  refine undisturbed_of_replace sound found rfl sound.files_used rfl own.places rfl
    fun other other_built => ?_
  obtain rfl := some.inj other_built
  exact prepareOps_lawful built own.places own.nodup

theorem giveUp_undisturbed {removed : List FrameName}
    (taken : before.advance catalog (.giveUp id removed) = some after) :
    Undisturbed reader before after := by
  simp only [Shared.advance] at taken
  obtain ⟨writer, found, taken⟩ := bind_eq_some_iff.mp taken
  split at taken
  · cases taken
    have gone : (before.setWriter id none).writers id = none := by
      simp [Shared.setWriter]
    let root : Root :=
      { before.root with
        files := before.root.files.filter fun file => decide (file.1 ∉ removed) }
    have moves : Moves before { before.setWriter id none with root } id := by
      refine ⟨rfl, rfl, fun _ => Nat.le_refl _, fun file member => ?_, fun other different => ?_,
        fun writer found => ?_⟩
      · exact sound.files_used file (KeyedTable.mem_filter.mp member).1
      · simp [Shared.setWriter, different]
      · cases gone.symm.trans found
    refine moves.undisturbed sound fun writer found => ?_
    cases gone.symm.trans found
  · cases taken

theorem advance_undisturbed {action : Action}
    (versions : ∀ id writer, before.writers id = some writer → ∀ member ∈ writer.kept,
      ∀ op ∈ committed ⟨before, none⟩ action, SparesVersion reader op member)
    (taken : before.advance catalog action = some after) : Undisturbed reader before after := by
  cases action with
  | startPass => cases taken
  | pass => cases taken
  | failPass => cases taken
  | beginSeal id aspect => exact begin_undisturbed sound taken rfl (by simp [Work.kept])
  | beginIngest id aspect batch fingerprint =>
      exact begin_undisturbed sound taken rfl (by simp [Work.kept])
  | beginSwap id aspect selections => exact beginSwap_undisturbed sound taken
  | nameFrame id spec => exact nameFrame_undisturbed sound taken
  | nameOutputs id specs => exact nameOutputs_undisturbed sound taken
  | journalOutputs id => exact journalOutputs_undisturbed sound taken
  | createFile id name => exact createFile_undisturbed sound taken
  | writeFile id name content => exact writeFile_undisturbed sound taken
  | prepare id => exact prepare_undisturbed sound taken
  | land id =>
      simp only [Shared.advance] at taken
      obtain ⟨writer, found, taken⟩ := bind_eq_some_iff.mp taken
      obtain ⟨ops, built, taken⟩ := bind_eq_some_iff.mp taken
      split at taken
      · rename_i db applied
        cases taken
        refine undisturbed_of_landing sound found ((sound.writers id writer found).lawful ops built)
          applied fun other rival rival_found member member_mem op op_mem => ?_
        refine versions other rival rival_found member member_mem op ?_
        simp only [committed, found, bind_some, built, getD_some]
        exact op_mem
      · cases taken
  | giveUp id removed => exact giveUp_undisturbed sound taken
  | tick now =>
      cases taken
      have moves : Moves before { before with root := { before.root with now } } 0 :=
        ⟨rfl, rfl, fun _ => Nat.le_refl _, sound.files_used, fun _ _ => rfl,
          fun writer found name member => .inr ⟨writer, found, member⟩⟩
      exact moves.undisturbed sound fun writer found =>
        moves.writerSound (sound.writers 0 writer found)

end Steps

end WeftDb.Fsck
