import WeftDb.Index.Isolation
import WeftDb.Index.Overlapping
import WeftDb.Store.SwapPlan

/-!
# What a swap leaves behind

A swap prepares its plan, writes the outputs, takes the fresh ids they need and commits.  The rows
behind it are those it published and those from before which it does not name, and the rollup it
commits is that of the rows behind it.
-/

namespace WeftDb

open IndexOp

/-- Whether a descriptor counts and spans the rows of its frame. -/
structure Describes (descriptor : SegmentDescriptor) (timestamps : List Int) : Prop where
  rows : descriptor.rowCount = timestamps.length
  first : descriptor.minTs = timestamps.min?
  last : descriptor.maxTs = timestamps.max?

namespace Describes

variable {descriptor : SegmentDescriptor} {timestamps : List Int}

section

variable (describes : Describes descriptor timestamps)

include describes

theorem bounds {timestamp : Int} (member : timestamp ∈ timestamps) :
    descriptor.timeRange.isSome = true ∧ descriptor.low ≤ timestamp ∧
      timestamp ≤ descriptor.high := by
  have filled := List.ne_nil_of_mem member
  have least := List.min?_eq_some_min filled
  have greatest := List.max?_eq_some_max filled
  have range : descriptor.timeRange = some (timestamps.min filled, timestamps.max filled) := by
    rw [SegmentDescriptor.timeRange, describes.first, describes.last, least, greatest]
  rw [SegmentDescriptor.low, SegmentDescriptor.high, range]
  exact ⟨rfl, (List.min?_eq_some_iff.mp least).2 timestamp member,
    (List.max?_eq_some_iff.mp greatest).2 timestamp member⟩

theorem range {range : Int × Int} (spanned : descriptor.timeRange = some range) :
    range.1 ∈ timestamps ∧ range.2 ∈ timestamps := by
  rw [SegmentDescriptor.timeRange, describes.first, describes.last] at spanned
  split at spanned
  · rename_i low high least greatest
    obtain rfl := Option.some.inj spanned
    exact ⟨List.min?_mem least, List.max?_mem greatest⟩
  · cases spanned

theorem ranged : descriptor.Ranged := by
  intro range spanned
  obtain ⟨first, last⟩ := describes.range spanned
  obtain ⟨some_range, low_le, -⟩ := describes.bounds last
  rw [range_eq some_range, Option.mem_some_iff] at spanned
  subst spanned
  exact low_le

end

theorem apart {first second : List Row} {left right : IndexRow}
    (left_describes : Describes left.desc (first.map Prod.fst))
    (right_describes : Describes right.desc (second.map Prod.fst))
    (earlier : Earlier first second) : ¬Overlapping left right ∧ ¬Overlapping right left := by
  have before : ∀ {range other : Int × Int}, left.desc.timeRange = some range →
      right.desc.timeRange = some other → range.2 < other.1 := by
    intro range other spanned spanned'
    obtain ⟨row, row_mem, row_eq⟩ := List.mem_map.mp (left_describes.range spanned).2
    obtain ⟨next, next_mem, next_eq⟩ := List.mem_map.mp (right_describes.range spanned').1
    exact row_eq ▸ next_eq ▸ earlier row row_mem next next_mem
  constructor
  · rintro ⟨-, range, spanned, other, spanned', meets⟩
    exact absurd (before spanned spanned') (not_lt.mpr meets.1)
  · rintro ⟨-, other, spanned', range, spanned, meets⟩
    exact absurd (before spanned spanned') (not_lt.mpr meets.2)

end Describes

/-- A swap of a plan: its outputs are written, and what is ready is committed. -/
inductive Swaps (aspect : AspectName) (db : IndexDb) (plan : SwapPlan) : IndexDb → Prop
  | intro {prepared ready : PreparedPlan} {written : List WrittenOutput} {state next : AspectState}
      {createdMs : Int} {after : IndexDb}
      (built : preparePlan plan.members plan.keep = some prepared)
      (described : List.Forall₂
        (fun output rows => Describes output.descriptor (rows.map Prod.fst)) written plan.outputs)
      (allocated : allocateFresh (db.rows aspect) state { prepared with outputs := written } =
        (next, some ready))
      (committed : db.applyAll (commitPlans db aspect next [ready] createdMs).ops = .ok after) :
      Swaps aspect db plan after

/-- What a swap which takes no fresh ids commits. -/
structure SwapCommitted (aspect : AspectName) (db : IndexDb) (plan : SwapPlan) (after : IndexDb)
    (ready : PreparedPlan) (epoch : Nat) (createdMs : Int) : Prop where
  is_ready : ready.Ready
  members : ready.members = plan.members
  keep : ready.keep = plan.keep
  fresh : ready.fresh = []
  series : ∀ member ∈ plan.members, member.seriesId = ready.seriesId
  described : List.Forall₂ (fun output rows => Describes output.descriptor (rows.map Prod.fst))
    ready.outputs plan.outputs
  applied : ∃ next : AspectState, epoch = next.epoch + 1 ∧
    db.applyAll (commitPlans db aspect next [ready] createdMs).ops = .ok after

theorem seriesId_of_preparePlan {members : List IndexRow} {keep : Bool} {prepared : PreparedPlan}
    (built : preparePlan members keep = some prepared) :
    ∀ member ∈ members, member.seriesId = prepared.seriesId := by
  unfold preparePlan at built
  cases members with
  | nil => cases built
  | cons first members =>
      simp only at built
      split at built
      · rename_i same
        obtain ⟨retired, -, rfl⟩ := Option.map_eq_some_iff.mp built
        exact fun member inside => of_decide_eq_true (List.all_eq_true.mp same member inside)
      · cases built

variable {ready : PreparedPlan} {state : AspectState} {rows : List IndexRow}
  {plans : List PreparedPlan} {createdMs : Int} {row : IndexRow} {op : IndexOp} {ops : List IndexOp}
  {epoch : Nat} {descriptors : List SegmentDescriptor}

theorem allocateFresh_none {next : AspectState} {plan : PreparedPlan}
    (few : plan.outputs.length ≤ plan.members.length)
    (allocated : allocateFresh rows state plan = (next, some ready)) :
    ready = { plan with fresh := [] } := by
  have enough : plan.extra = 0 := Nat.sub_eq_zero_of_le few
  rw [allocateFresh, if_pos enough] at allocated
  exact (Option.some.inj (Prod.mk.inj allocated).2).symm

variable {aspect : AspectName} {db after : IndexDb} {plan : SwapPlan}

theorem Swaps.committed (swaps : Swaps aspect db plan after)
    (few : plan.outputs.length ≤ plan.members.length)
    (ascending : (plan.members.map fun member => member.desc.id).Pairwise (· < ·))
    (kept : plan.keep = true → plan.outputs = []) :
    ∃ ready epoch createdMs, SwapCommitted aspect db plan after ready epoch createdMs := by
  obtain @⟨prepared, ready, written, state, next, createdMs, _, built, described, allocated,
    committed⟩ := swaps
  obtain ⟨members_eq, keep_eq, -⟩ := preparePlan_spec built
  have supplied : written.length ≤ prepared.members.length := by
    rwa [described.length_eq, members_eq]
  obtain rfl := allocateFresh_none supplied allocated
  have kept_none : prepared.keep = true → written = [] := by
    intro keep
    rw [kept (keep_eq.symm.trans keep)] at described
    exact List.forall₂_nil_right_iff.mp described
  have sorted : ((prepared.members.map fun member => member.desc.id) ++ ([] : List Nat)).Pairwise
      (· < ·) := by
    rw [List.append_nil, members_eq]
    exact ascending
  have series := seriesId_of_preparePlan built
  exact ⟨{ prepared with outputs := written, fresh := [] }, _, createdMs,
    { is_ready := ⟨kept_none, Nat.le_add_right_of_le supplied, sorted⟩
      members := members_eq
      keep := keep_eq
      fresh := rfl
      series := series
      described := described
      applied := ⟨next, rfl, committed⟩ }⟩

/-- The operations of a swap's transaction. -/
def SwapKind (aspect : AspectName) (op : IndexOp) : Prop :=
  SwapOp aspect op ∨ (∃ id gen epoch, op = .seqBump aspect id gen epoch) ∨
    ∃ rollup, op = .putRollup aspect rollup

theorem swapKind_of_commitPlans : ∀ op ∈ (commitPlans db aspect state plans createdMs).ops,
      SwapKind aspect op := by
  intro op member
  rcases mem_commitPlans member with swap | ⟨gen, rfl⟩ | ⟨rollup, rfl⟩
  · exact .inl swap
  · exact .inr (.inl ⟨_, _, _, rfl⟩)
  · exact .inr (.inr ⟨_, rfl⟩)

theorem mem_onStored_of_swapKind (kind : SwapKind aspect op)
    (live : row ∈ op.onStored aspect rows) :
    op.publishes = some row ∨ row ∈ rows ∧ row.desc.id ∉ op.expects.map RowVersion.id := by
  rcases kind with swap | ⟨id, gen, epoch, rfl⟩ | ⟨rollup, rfl⟩
  · cases swap with
    | replace =>
        rw [onStored, if_pos rfl, List.mem_append, List.mem_filter, List.mem_singleton]
          at live
        rcases live with ⟨held, apart⟩ | rfl
        · exact .inr ⟨held, fun named => of_decide_eq_true apart (List.mem_singleton.mp named)⟩
        · exact .inl rfl
    | insert =>
        rw [onStored, if_pos rfl, List.mem_append, List.mem_singleton] at live
        rcases live with held | rfl
        · exact .inr ⟨held, List.not_mem_nil⟩
        · exact .inl rfl
    | delete =>
        rw [onStored, if_pos rfl, List.mem_filter] at live
        exact .inr ⟨live.1, of_decide_eq_true live.2⟩
    | retire => exact .inr ⟨live, List.not_mem_nil⟩
    | clear => exact .inr ⟨live, List.not_mem_nil⟩
  · exact .inr ⟨live, List.not_mem_nil⟩
  · exact .inr ⟨live, List.not_mem_nil⟩

theorem mem_stored_of_swap (kinds : ∀ op ∈ ops, SwapKind aspect op)
    (applied : db.applyAll ops = .ok after) (live : row ∈ after.stored aspect) :
    row ∈ ops.filterMap publishes ∨
      row ∈ db.stored aspect ∧ row.desc.id ∉ (ops.flatMap expects).map RowVersion.id := by
  induction ops generalizing db with
  | nil =>
      cases applied
      exact .inr ⟨live, List.not_mem_nil⟩
  | cons op ops ih =>
      obtain ⟨middle, first, rest⟩ := IndexDb.applyAll_cons_eq_ok.mp applied
      obtain ⟨kind, others⟩ := List.forall_mem_cons.mp kinds
      rcases ih others rest with published | ⟨held, unnamed⟩
      · obtain ⟨later, member, found⟩ := List.mem_filterMap.mp published
        exact .inl (List.mem_filterMap.mpr ⟨later, List.mem_cons_of_mem _ member, found⟩)
      · rw [IndexDb.apply_stored first] at held
        rcases mem_onStored_of_swapKind kind held with published | ⟨before, unnamed_first⟩
        · exact .inl (List.mem_filterMap.mpr ⟨op, List.mem_cons_self, published⟩)
        · refine .inr ⟨before, ?_⟩
          rw [List.flatMap_cons, List.map_append, List.mem_append]
          exact not_or.mpr ⟨unnamed_first, unnamed⟩

theorem SwapCommitted.mem_rows
    (committed : SwapCommitted aspect db plan after ready epoch createdMs)
    (live : row ∈ after.rows aspect) :
    row ∈ (ready.ops aspect epoch createdMs).filterMap publishes ∨
      row ∈ db.rows aspect ∧ ∀ member ∈ plan.members, member.desc.id ≠ row.desc.id := by
  obtain ⟨next, rfl, applied⟩ := committed.applied
  rw [IndexDb.mem_rows, ← IndexDb.mem_stored] at live ⊢
  have behind := mem_stored_of_swap swapKind_of_commitPlans applied live
  have both : row ∈ (ready.ops aspect (next.epoch + 1) createdMs).filterMap publishes ∨
      row ∈ db.stored aspect ∧ row.desc.id ∉
        ((ready.ops aspect (next.epoch + 1) createdMs).flatMap expects).map
          RowVersion.id := by
    simpa [commitPlans, seqBump, publishes, expects, List.filterMap_append] using
      behind
  rcases both with fresh | ⟨held, unnamed⟩
  · exact .inl fresh
  refine .inr ⟨held, fun member inside same => unnamed ?_⟩
  rw [committed.is_ready.expects_ops, committed.members, List.map_map]
  exact List.mem_map.mpr ⟨member, inside, same⟩

theorem foldl_onStored_eq_self (still : ∀ op ∈ ops, ∀ rows, op.onStored aspect rows = rows)
    (rows : List IndexRow) : ops.foldl (fun rows op => op.onStored aspect rows) rows = rows := by
  induction ops with
  | nil => rfl
  | cons op ops ih =>
      obtain ⟨own, others⟩ := List.forall_mem_cons.mp still
      rw [List.foldl_cons, own, ih others]

theorem SwapCommitted.stored
    (committed : SwapCommitted aspect db plan after ready epoch createdMs) :
    after.stored aspect =
      (ready.keeping aspect ++
        ready.publishing aspect epoch (ready.outputs.zip ready.outputIds) 0 ++
          ready.deleting aspect).foldl (fun rows op => op.onStored aspect rows)
        (db.stored aspect) := by
  obtain ⟨next, rfl, applied⟩ := committed.applied
  have retiring : ∀ op ∈ ready.retired.map fun name =>
      journalRetire aspect name (next.epoch + 1) createdMs,
      ∀ rows, op.onStored aspect rows = rows := by
    intro op member rows
    obtain ⟨name, -, rfl⟩ := List.mem_map.mp member
    rfl
  have clearing : ∀ op ∈ ready.outputs.map fun output => clearJournal output.name,
      ∀ rows, op.onStored aspect rows = rows := by
    intro op member rows
    obtain ⟨output, -, rfl⟩ := List.mem_map.mp member
    rfl
  have rest := IndexDb.applyAll_stored applied aspect
  simp only [commitPlans, List.flatMap_singleton, PreparedPlan.ops_eq, List.foldl_append,
    foldl_onStored_eq_self retiring, foldl_onStored_eq_self clearing] at rest
  simp only [List.foldl_append]
  exact rest

theorem series_of_swapKind (kind : SwapKind aspect op) (applied : db.apply op = .ok after) :
    after.series = db.series := by
  cases IndexDb.applied_of_apply applied with
  | registerSeries inserted =>
      rcases kind with swap | ⟨_, _, _, wrong⟩ | ⟨_, wrong⟩
      · cases swap
      · cases wrong
      · cases wrong
  | _ => rfl

theorem SwapCommitted.series_eq
    (committed : SwapCommitted aspect db plan after ready epoch createdMs) :
    after.series = db.series := by
  obtain ⟨next, rfl, applied⟩ := committed.applied
  exact IndexDb.applyAll_induction (fun current => current.series = db.series)
    (fun member same step =>
      (series_of_swapKind (swapKind_of_commitPlans _ member) step).trans same) rfl applied

/-- Whether a replacement keeps the id of the row it replaces. -/
def IndexOp.Aligned : IndexOp → Prop
  | .replaceExpected _ expected row => row.desc.id = expected.id
  | _ => True

theorem getElem?_outputIds {plan : PreparedPlan} {position id : Nat} {member : IndexRow}
    (cut : plan.keep = false) (found : plan.outputIds[position]? = some id)
    (held : plan.members[position]? = some member) : id = member.desc.id := by
  rw [PreparedPlan.outputIds, cut, if_neg Bool.false_ne_true, List.getElem?_take] at found
  split at found
  · obtain ⟨inside, -⟩ := List.getElem?_eq_some_iff.mp held
    rw [List.getElem?_append_left (by simpa using inside), List.getElem?_map, held] at found
    exact (Option.some.inj found).symm
  · cases found

theorem PreparedPlan.ops_aligned {plan : PreparedPlan}
    (uncut : plan.keep = true → plan.outputs = []) (epoch : Nat) (createdMs : Int) :
    ∀ op ∈ plan.ops aspect epoch createdMs, op.Aligned := by
  intro op member
  simp only [PreparedPlan.ops, List.mem_append, List.mem_map] at member
  rcases member with (((kept | ⟨⟨⟨output, id⟩, position⟩, zipped, rfl⟩) | deleted) | ⟨_, _, rfl⟩) |
    ⟨_, _, rfl⟩
  · split at kept
    · obtain ⟨_, _, rfl⟩ := List.mem_map.mp kept
      rfl
    · cases kept
  · cases keep : plan.keep with
    | true =>
        rw [uncut keep] at zipped
        cases zipped
    | false =>
        have found := (List.getElem?_zip_eq_some.mp (List.mem_zipIdx_iff_getElem?.mp zipped)).2
        simp only [PreparedPlan.outputOp]
        split
        · rename_i held
          exact getElem?_outputIds keep found held
        · trivial
  · split at deleted
    · cases deleted
    · rw [List.mem_singleton.mp deleted]
      trivial
  · trivial
  · trivial

theorem foldl_removeDescriptor (descriptors : List SegmentDescriptor)
    (versions : List RowVersion) :
    versions.foldl (fun descriptors version => removeDescriptor descriptors version.id)
      descriptors = descriptors.filter fun other => decide (other.id ∉ versions.map (·.id)) := by
  induction versions generalizing descriptors with
  | nil => simp
  | cons version versions ih =>
      rw [List.foldl_cons, ih, removeDescriptor, List.filter_filter]
      refine List.filter_congr fun other _ => ?_
      simp [not_or, Bool.and_comm]

theorem postSwapStep_perm (kind : SwapKind aspect op) (aligned : op.Aligned)
    (applied : db.apply op = .ok after)
    (same : descriptors.Perm ((db.stored aspect).map IndexRow.desc)) :
    (postSwapStep descriptors op).Perm ((after.stored aspect).map IndexRow.desc) := by
  have stored := IndexDb.apply_stored applied aspect
  have dropped (keep : Nat → Bool) :
      (descriptors.filter fun other => keep other.id).Perm
        (((db.stored aspect).filter fun row => keep row.desc.id).map IndexRow.desc) := by
    have filtered := same.filter fun other => keep other.id
    rwa [List.filter_map] at filtered
  rcases kind with swap | ⟨id, gen, epoch, rfl⟩ | ⟨rollup, rfl⟩
  · cases swap with
    | @replace expected row =>
        rw [onStored, if_pos rfl] at stored
        rw [stored, List.map_append, postSwapStep, putDescriptor, aligned]
        exact (dropped fun id => decide (id ≠ expected.id)).append_right _
    | @insert row =>
        rw [onStored, if_pos rfl] at stored
        have free : ∀ held ∈ db.stored aspect, held.desc.id ≠ row.desc.id := by
          intro held member taken
          obtain ⟨segments, inserted, -⟩ := IndexDb.orConflict_bind_eq_ok applied
          exact KeyedTable.free_of_insert? inserted _ (IndexDb.mem_stored.mp member)
            (congrArg (Prod.mk aspect) taken)
        have all : (db.stored aspect).filter (fun held => decide (held.desc.id ≠ row.desc.id)) =
            db.stored aspect :=
          List.filter_eq_self.mpr fun held member => decide_eq_true (free held member)
        rw [stored, List.map_append, postSwapStep, putDescriptor]
        have perm := dropped fun id => decide (id ≠ row.desc.id)
        rw [all] at perm
        exact perm.append_right _
    | @delete expected =>
        rw [onStored, if_pos rfl] at stored
        rw [stored, postSwapStep, foldl_removeDescriptor]
        exact dropped fun id => decide (id ∉ expected.map (·.id))
    | retire => exact stored ▸ same
    | clear => exact stored ▸ same
  · exact stored ▸ same
  · exact stored ▸ same

theorem postSwap_perm (kinds : ∀ op ∈ ops, SwapKind aspect op) (aligned : ∀ op ∈ ops, op.Aligned)
    (applied : db.applyAll ops = .ok after)
    (same : descriptors.Perm ((db.stored aspect).map IndexRow.desc)) :
    (ops.foldl postSwapStep descriptors).Perm ((after.stored aspect).map IndexRow.desc) := by
  induction ops generalizing db descriptors with
  | nil =>
      cases applied
      exact same
  | cons op ops ih =>
      obtain ⟨middle, first, rest⟩ := IndexDb.applyAll_cons_eq_ok.mp applied
      obtain ⟨kind, kinds⟩ := List.forall_mem_cons.mp kinds
      obtain ⟨own, aligned⟩ := List.forall_mem_cons.mp aligned
      exact ih kinds aligned rest (postSwapStep_perm kind own first same)

theorem insertionSort_eq_index (same : descriptors.Perm ((db.stored aspect).map IndexRow.desc)) :
    descriptors.insertionSort (fun left right => left.id ≤ right.id) =
      (db.index aspect).descriptors := by
  have rows_perm : (db.rows aspect).Perm (db.stored aspect) := List.perm_insertionSort _ _
  have sorted : ((db.rows aspect).map IndexRow.desc).Pairwise fun left right =>
      left.id ≤ right.id :=
    List.pairwise_map.mpr (List.pairwise_insertionSort _ _)
  have perm : (descriptors.insertionSort fun left right => left.id ≤ right.id).Perm
      ((db.rows aspect).map IndexRow.desc) :=
    (List.perm_insertionSort _ _).trans (same.trans (rows_perm.map _).symm)
  refine perm.eq_of_pairwise (fun left right left_mem right_mem below above => ?_)
    (List.pairwise_insertionSort _ _) sorted
  obtain ⟨held, held_mem, rfl⟩ := List.mem_map.mp (perm.subset left_mem)
  obtain ⟨other, other_mem, rfl⟩ := List.mem_map.mp right_mem
  rw [List.inj_on_of_nodup_map (db.nodup_ids_rows aspect) held_mem other_mem
    (Nat.le_antisymm below above)]

theorem commitPlans_rollup {read : IndexDb}
    (uncut : ∀ plan ∈ plans, plan.keep = true → plan.outputs = [])
    (same : db.stored aspect = read.stored aspect)
    (applied : db.applyAll (commitPlans read aspect state plans createdMs).ops = .ok after) :
    after.rollup aspect = some (.fromIndex (after.index aspect)) := by
  obtain ⟨middle, swapped, rest⟩ := IndexDb.applyAll_append_eq_ok.mp applied
  obtain ⟨bumped, bump, rest⟩ := IndexDb.applyAll_cons_eq_ok.mp rest
  obtain ⟨last, put, done⟩ := IndexDb.applyAll_cons_eq_ok.mp rest
  obtain rfl := Except.ok.inj ((IndexDb.applyAll_nil last).symm.trans done)
  -- The allocator row and the rollup leave the rows as they are.
  have bumped_stored : bumped.stored aspect = middle.stored aspect :=
    IndexDb.apply_stored bump aspect
  have stored : last.stored aspect = middle.stored aspect :=
    (IndexDb.apply_stored put aspect).trans bumped_stored
  have kinds : ∀ op ∈ plans.flatMap (fun plan => plan.ops aspect (state.epoch + 1) createdMs),
      SwapKind aspect op := by
    intro op member
    obtain ⟨plan, -, op_mem⟩ := List.mem_flatMap.mp member
    exact .inl (plan.ops_swapOp aspect _ createdMs op op_mem)
  have aligned : ∀ op ∈ plans.flatMap (fun plan => plan.ops aspect (state.epoch + 1) createdMs),
      op.Aligned := by
    intro op member
    obtain ⟨plan, plan_mem, op_mem⟩ := List.mem_flatMap.mp member
    exact PreparedPlan.ops_aligned (uncut plan plan_mem) _ _ op op_mem
  have rows_perm : (read.rows aspect).Perm (db.stored aspect) :=
    same ▸ List.perm_insertionSort _ _
  have perm := postSwap_perm kinds aligned swapped (rows_perm.map IndexRow.desc)
  rw [← stored] at perm
  rw [IndexDb.apply_rollup put, onRollup, if_pos rfl, postSwapRollup,
    insertionSort_eq_index perm]

theorem SwapCommitted.rollup
    (committed : SwapCommitted aspect db plan after ready epoch createdMs) :
    after.rollup aspect = some (.fromIndex (after.index aspect)) := by
  obtain ⟨next, rfl, applied⟩ := committed.applied
  refine commitPlans_rollup (fun plan member => ?_) rfl applied
  rw [List.mem_singleton.mp member]
  exact committed.is_ready.kept

end WeftDb
