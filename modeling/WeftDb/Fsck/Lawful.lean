import WeftDb.Fsck.Writers
import WeftDb.Store.Building

/-!
# What a writer commits

Every row which a seal, an ingest or a swap puts in the index names a frame handed out to it, each
of them under one key, except that a swap may rewrite a member which it keeps.
-/

namespace WeftDb.Fsck

open IndexOp

/-- The operation leaves the held frames held, and clears no journal row but the writer's own. -/
def SparesHeld (names : List FrameName) : IndexOp → Prop
  | .journalHeld _ _ _ => False
  | .clearJournal name => name ∈ names
  | _ => True

variable {op : IndexOp} {written : List WrittenSegment} {frame : WrittenSegment}
  {state next : AspectState} {publication : Publication} {db : IndexDb} {catalog : Catalog}
  {createdMs : Int}

theorem SparesHeld.holdsNone {names : List FrameName} (spares : SparesHeld names op) :
    HoldsNone op := by
  cases op with
  | journalHeld aspect name createdMs => exact spares.elim
  | _ => trivial

/-- The row is the one of a frame handed out to the writer. -/
def Publishes (name : FrameName) (stored : AspectName × IndexRow) : Prop :=
  stored.2.desc.path = .segments name

/-- What a writer's transaction does to the rows and to the journal. -/
structure Lawful (kept : List (AspectName × IndexRow)) (names : List FrameName)
    (ops : List IndexOp) : Prop where
  rows : ∀ op ∈ ops, Rewrites kept op ∨ ∀ stored ∈ op.puts, ∃ name ∈ names, Publishes name stored
  once : ∀ name, ∃ key, ∀ op ∈ ops, Rewrites kept op ∨
    ∀ stored ∈ op.puts, Publishes name stored → segmentKey stored = key
  journal : ∀ op ∈ ops, SparesHeld names op

variable {kept : List (AspectName × IndexRow)} {names : List FrameName} {ops : List IndexOp}
  {aspect : AspectName}

theorem Lawful.of_pairs (aspect : AspectName) (pairs : List (FrameName × Nat))
    (own : ∀ pair ∈ pairs, pair.1 ∈ names) (nodup : (pairs.map Prod.fst).Nodup)
    (puts : ∀ op ∈ ops, Rewrites kept op ∨ ∀ stored ∈ op.puts, stored.1 = aspect ∧
      ∃ name, Publishes name stored ∧ (name, stored.2.desc.id) ∈ pairs)
    (journal : ∀ op ∈ ops, SparesHeld names op) : Lawful kept names ops where
  rows op op_mem := by
    refine (puts op op_mem).imp_right fun placed stored put => ?_
    obtain ⟨-, name, published, pair⟩ := placed stored put
    exact ⟨name, own _ pair, published⟩
  once name := by
    by_cases paired : ∃ id, (name, id) ∈ pairs
    · obtain ⟨id, pair⟩ := paired
      refine ⟨(aspect, id), fun op op_mem =>
        (puts op op_mem).imp_right fun placed stored put published => ?_⟩
      obtain ⟨same, other, other_published, other_pair⟩ := placed stored put
      obtain rfl : other = name := by
        rw [Publishes, other_published] at published
        exact FramePath.segments.inj published
      have pairs_eq := List.inj_on_of_nodup_map nodup other_pair pair rfl
      exact Prod.ext same (Prod.mk.inj pairs_eq).2
    · refine ⟨(aspect, 0), fun op op_mem =>
        (puts op op_mem).imp_right fun placed stored put published => ?_⟩
      obtain ⟨-, other, other_published, other_pair⟩ := placed stored put
      obtain rfl : other = name := by
        rw [Publishes, other_published] at published
        exact FramePath.segments.inj published
      exact absurd ⟨_, other_pair⟩ paired
  journal := journal

theorem puts_ofSeries (series : op.OfSeries aspect) : op.puts = [] := by
  rcases series with ⟨id, key, rfl⟩ | ⟨next, rfl⟩
  · rfl
  · rfl

theorem sparesHeld_ofSeries (series : op.OfSeries aspect) : SparesHeld names op := by
  rcases series with ⟨id, key, rfl⟩ | ⟨next, rfl⟩
  · trivial
  · trivial

/-- The work's frames are the ones handed out to the writer. -/
def Work.Places (names : List FrameName) : Work → Prop
  | .seal written => written.map (·.desc.path) = names.map .segments
  | .ingest _ _ written => written.map (·.desc.path) = names.map .segments
  | .swap plans _ =>
      (plans.flatMap (·.outputs)).map (·.name) = names ∧
        ∀ plan ∈ plans, ∀ output ∈ plan.outputs,
          output.descriptor.path = .segments output.name

theorem mem_zip_of_paths {ids : List Nat} (places : written.map (·.desc.path) = names.map .segments)
    {id : Nat} (member : (frame, id) ∈ written.zip ids) :
    ∃ name, frame.desc.path = .segments name ∧ (name, id) ∈ names.zip ids := by
  induction written generalizing names ids with
  | nil => cases member
  | cons head tail ih =>
      cases names with
      | nil => cases places
      | cons name names =>
          cases ids with
          | nil => cases member
          | cons first ids =>
              obtain ⟨head_path, tail_paths⟩ := List.cons.inj places
              rcases List.mem_cons.mp member with own | later
              · obtain ⟨rfl, rfl⟩ := Prod.mk.inj own
                exact ⟨name, head_path, List.mem_cons_self⟩
              · obtain ⟨other, path, zipped⟩ := ih tail_paths later
                exact ⟨other, path, List.mem_cons_of_mem _ zipped⟩

theorem map_fst_zip_sublist {Left Right : Type} (left : List Left) (right : List Right) :
    ((left.zip right).map Prod.fst).Sublist left := by
  induction left generalizing right with
  | nil => simp
  | cons head tail ih =>
      cases right with
      | nil => simp
      | cons other others => exact (ih others).cons_cons head

theorem publishSeal_lawful (built : publishSeal db aspect state frame = (next, some publication))
    (places : [frame].map (·.desc.path) = names.map .segments) (nodup : names.Nodup) :
    Lawful kept names publication.ops := by
  unfold publishSeal at built
  split at built
  · cases built
  · rename_i id last allocated
    cases built
    refine Lawful.of_pairs aspect (names.zip [id])
      (fun pair member => (List.of_mem_zip member).1)
      (nodup.sublist (map_fst_zip_sublist _ _)) ?_ (by simp [SparesHeld, seqBump])
    simp only [List.forall_mem_cons]
    refine ⟨.inr ?_, .inr (by simp [puts, seqBump]), .inr (by simp [puts]),
      .inr (by simp [puts]), by simp⟩
    intro stored put
    obtain rfl := List.mem_singleton.mp put
    have zipped : (frame, id) ∈ [frame].zip [id] := List.mem_cons_self
    obtain ⟨name, path, zipped⟩ := mem_zip_of_paths places zipped
    exact ⟨rfl, name, path, zipped⟩

theorem publishIngest_lawful {batch : IngestBatch} {fingerprint : UInt64} {receipt : IngestReceipt}
    (built : publishIngest catalog db aspect state batch fingerprint written createdMs =
      (next, .ok (.publish publication receipt)))
    (places : written.map (·.desc.path) = names.map .segments) (nodup : names.Nodup) :
    Lawful kept names publication.ops := by
  obtain ⟨-, -, -, seriesId, seriesOps, ids, resolved, -, -, -, ops_eq⟩ :=
    publishIngest_eq_publish built
  have series := commitSeriesId_ofSeries resolved
  rw [ops_eq]
  refine Lawful.of_pairs aspect (names.zip ids)
    (fun pair member => (List.of_mem_zip member).1)
    (nodup.sublist (map_fst_zip_sublist _ _)) ?_ ?_
  · intro op member
    simp only [ingestOps, List.mem_append, List.mem_map, List.mem_cons, List.not_mem_nil,
      or_false] at member
    rcases member with (own | ⟨⟨frame, id⟩, zipped, rfl⟩) | rfl | rfl | rfl | rfl
    · exact .inr (by simp [puts_ofSeries (series op own)])
    · refine .inr fun stored put => ?_
      obtain rfl := List.mem_singleton.mp put
      obtain ⟨name, path, paired⟩ := mem_zip_of_paths places zipped
      exact ⟨rfl, name, path, paired⟩
    all_goals exact .inr (by simp [puts, seqBump])
  · intro op member
    rcases mem_ingestOps member with own | ⟨_, _, _, rfl⟩ | ⟨_, rfl⟩ | ⟨_, rfl⟩ | rfl | rfl
    · exact sparesHeld_ofSeries (series op own)
    all_goals trivial

/-- The id of each of a plan's outputs. -/
def PreparedPlan.pairs (plan : PreparedPlan) : List (FrameName × Nat) :=
  (plan.outputs.zip plan.outputIds).map fun placed => (placed.1.name, placed.2)

theorem PreparedPlan.pairs_sublist (plan : PreparedPlan) :
    ((pairs plan).map Prod.fst).Sublist (plan.outputs.map (·.name)) := by
  have names : (pairs plan).map Prod.fst =
      ((plan.outputs.zip plan.outputIds).map Prod.fst).map (·.name) := by
    simp [pairs]
  rw [names]
  exact (map_fst_zip_sublist _ _).map _

theorem allocatePlans_ready (rows : List IndexRow) (state : AspectState)
    (plans : List PreparedPlan) :
    (∀ ready ∈ (allocatePlans rows state plans).2, ∃ plan ∈ plans,
      ready.members = plan.members ∧ ready.keep = plan.keep ∧ ready.outputs = plan.outputs) ∧
    (((allocatePlans rows state plans).2.flatMap (·.outputs)).Sublist
      (plans.flatMap (·.outputs))) := by
  induction plans generalizing state with
  | nil => simp [allocatePlans]
  | cons plan plans ih =>
      have own : ∀ ready ∈ (allocateFresh rows state plan).2, ready.members = plan.members ∧
          ready.keep = plan.keep ∧ ready.outputs = plan.outputs := by
        unfold allocateFresh
        split
        · rintro _ ⟨⟩
          exact ⟨rfl, rfl, rfl⟩
        · split
          · simp
          · intro ready ready_mem
            obtain ⟨ids, -, rfl⟩ := Option.map_eq_some_iff.mp ready_mem
            exact ⟨rfl, rfl, rfl⟩
      obtain ⟨found, sublist⟩ := ih (allocateFresh rows state plan).1
      simp only [allocatePlans]
      constructor
      · intro ready member
        rcases List.mem_append.mp member with first | later
        · exact ⟨plan, List.mem_cons_self, own ready (by simpa using first)⟩
        · obtain ⟨other, other_mem, same⟩ := found ready later
          exact ⟨other, List.mem_cons_of_mem _ other_mem, same⟩
      · rw [List.flatMap_append, List.flatMap_cons]
        refine List.Sublist.append ?_ sublist
        cases ready : (allocateFresh rows state plan).2 with
        | none => simp
        | some one => simp [(own one (by rw [ready]; rfl)).2.2]

theorem PreparedPlan.lawful_op {plan : PreparedPlan} {epoch : Nat}
    (paths : ∀ output ∈ plan.outputs, output.descriptor.path = .segments output.name)
    (members : ∀ member ∈ plan.members.take 1, plan.keep = true → (aspect, member) ∈ kept)
    (own : ∀ output ∈ plan.outputs, output.name ∈ names)
    (op_mem : op ∈ plan.ops aspect epoch createdMs) :
    (Rewrites kept op ∨ ∀ stored ∈ op.puts, stored.1 = aspect ∧
      ∃ name, Publishes name stored ∧ (name, stored.2.desc.id) ∈ pairs plan) ∧
    SparesHeld names op := by
  simp only [WeftDb.PreparedPlan.ops, List.mem_append, List.mem_map] at op_mem
  rcases op_mem with (((rewritten | ⟨⟨⟨output, id⟩, position⟩, placed, rfl⟩) | deleted) |
    ⟨_, _, rfl⟩) | ⟨output, output_mem, rfl⟩
  · split at rewritten
    · rename_i keep
      obtain ⟨member, member_mem, rfl⟩ := List.mem_map.mp rewritten
      exact ⟨.inl ⟨(aspect, member), members member member_mem keep, rfl⟩, trivial⟩
    · cases rewritten
  · have zipped : (output, id) ∈ plan.outputs.zip plan.outputIds :=
      List.fst_mem_of_mem_zipIdx placed
    have row : ∀ stored, stored = (aspect, output.row id epoch plan.seriesId) →
        stored.1 = aspect ∧
          ∃ name, Publishes name stored ∧ (name, stored.2.desc.id) ∈ pairs plan := by
      rintro _ rfl
      refine ⟨rfl, output.name, paths output (List.of_mem_zip zipped).1, ?_⟩
      exact List.mem_map.mpr ⟨(output, id), zipped, rfl⟩
    simp only [WeftDb.PreparedPlan.outputOp]
    split
    · exact ⟨.inr fun stored put => row stored (List.mem_singleton.mp put), trivial⟩
    · exact ⟨.inr fun stored put => row stored (List.mem_singleton.mp put), trivial⟩
  · split at deleted
    · cases deleted
    · rw [List.mem_singleton.mp deleted]
      exact ⟨.inr (by simp [puts]), trivial⟩
  · exact ⟨.inr (by simp [puts]), trivial⟩
  · exact ⟨.inr (by simp [puts]), own output output_mem⟩

theorem commitPlans_lawful {plans : List PreparedPlan}
    (paths : ∀ plan ∈ plans, ∀ output ∈ plan.outputs,
      output.descriptor.path = .segments output.name)
    (members : ∀ plan ∈ plans, ∀ member ∈ plan.members.take 1, plan.keep = true →
      (aspect, member) ∈ kept) (own : ((plans.flatMap (·.outputs)).map (·.name)).Sublist names)
    (nodup : names.Nodup) :
    Lawful kept names (commitPlans db aspect state plans createdMs).ops := by
  have pairs_sublist : ((plans.flatMap PreparedPlan.pairs).map Prod.fst).Sublist
      ((plans.flatMap (·.outputs)).map (·.name)) := by
    rw [List.map_flatMap, List.map_flatMap]
    clear paths members own
    induction plans with
    | nil => simp
    | cons plan plans ih => exact (PreparedPlan.pairs_sublist plan).append ih
  have planned (plan : PreparedPlan) (plan_mem : plan ∈ plans) (op : IndexOp)
      (op_mem : op ∈ plan.ops aspect (state.epoch + 1) createdMs) :
      (Rewrites kept op ∨ ∀ stored ∈ op.puts, stored.1 = aspect ∧
        ∃ name, Publishes name stored ∧ (name, stored.2.desc.id) ∈ PreparedPlan.pairs plan) ∧
      SparesHeld names op :=
    PreparedPlan.lawful_op (paths plan plan_mem) (members plan plan_mem)
      (fun output output_mem => own.subset (List.mem_map_of_mem
        (List.mem_flatMap.mpr ⟨plan, plan_mem, output_mem⟩))) op_mem
  refine Lawful.of_pairs aspect (plans.flatMap PreparedPlan.pairs)
    (fun pair member => (pairs_sublist.trans own).subset (List.mem_map_of_mem member))
    (nodup.sublist (pairs_sublist.trans own)) ?_ ?_
  · intro op member
    rcases List.mem_append.mp member with own | finished
    · obtain ⟨plan, plan_mem, op_mem⟩ := List.mem_flatMap.mp own
      refine (planned plan plan_mem op op_mem).1.imp_right fun placed stored put => ?_
      obtain ⟨same, name, published, pair⟩ := placed stored put
      exact ⟨same, name, published, List.mem_flatMap.mpr ⟨plan, plan_mem, pair⟩⟩
    · simp only [List.mem_cons, List.not_mem_nil, or_false] at finished
      rcases finished with rfl | rfl
      · exact .inr (by simp [puts, seqBump])
      · exact .inr (by simp [puts])
  · intro op member
    rcases List.mem_append.mp member with own | finished
    · obtain ⟨plan, plan_mem, op_mem⟩ := List.mem_flatMap.mp own
      exact (planned plan plan_mem op op_mem).2
    · simp only [List.mem_cons, List.not_mem_nil, or_false] at finished
      rcases finished with rfl | rfl
      · trivial
      · trivial

theorem prepareOps_lawful {root : Root} {writer : Writer}
    (built : Shared.prepareOps catalog root writer = some (state, ops))
    (places : writer.work.Places writer.names) (nodup : writer.names.Nodup) :
    Lawful writer.kept writer.names ops := by
  unfold Shared.prepareOps at built
  simp only at built
  split at built
  · split at built
    · rename_i frame work
      rw [work] at places
      split at built
      · rename_i next publication published
        cases built
        exact publishSeal_lawful published places nodup
      · cases built
    · cases built
    · rename_i batch fingerprint written work
      rw [work] at places
      split at built
      · rename_i next publication receipt published
        cases built
        exact publishIngest_lawful published places nodup
      · cases built
    · rename_i plans journaled work
      rw [work] at places
      cases built
      obtain ⟨names_eq, paths⟩ := places
      obtain ⟨ready, sublist⟩ := allocatePlans_ready (root.db.rows writer.aspect)
        (root.allocator writer.aspect) plans
      refine commitPlans_lawful ?_ ?_ (names_eq ▸ sublist.map _) nodup
      · intro plan plan_mem output output_mem
        obtain ⟨other, other_mem, -, -, outputs⟩ := ready plan plan_mem
        exact paths other other_mem output (outputs ▸ output_mem)
      · intro plan plan_mem member member_mem keep
        obtain ⟨other, other_mem, members, keep_eq, -⟩ := ready plan plan_mem
        rw [Writer.kept, work]
        refine List.mem_flatMap.mpr ⟨other, other_mem, ?_⟩
        rw [if_pos (keep_eq ▸ keep), ← members]
        exact List.mem_map_of_mem member_mem
  · cases built

end WeftDb.Fsck
