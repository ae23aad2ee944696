import WeftDb.Foundation.StableOrder
import WeftDb.Segment.Merge
import WeftDb.Store.Swap

/-!
# What a swap plan accounts for

A plan replaces some rows of the index by outputs cut from their rows, or keeps the first of them.
Once it is prepared and its outputs are written, its operations name every member once, in the
version which was read.
-/

namespace WeftDb

open IndexOp

/-- One maintenance swap: the members by ascending id, the rows of the outputs in time order, and
whether the first member stays as it is. -/
structure SwapPlan where
  members : List IndexRow
  outputs : List (List Row)
  keep : Bool

/-- The members by ascending id. -/
def byId (members : List IndexRow) : List IndexRow :=
  StableOrder.sortBy (fun member => member.desc.id) members

namespace SwapPlan

/-- Replace the members by their sorted rows, cut at some timestamps. -/
def cut (members : List IndexRow) (rows : List Row) (cuts : List Int) : SwapPlan where
  members := byId members
  outputs := cutRows rows cuts
  keep := false

/-- Delete all members but the first. -/
def keepFirst (members : List IndexRow) : SwapPlan where
  members := byId members
  outputs := []
  keep := true

/-- How many segments the swap removes. -/
def removes (plan : SwapPlan) : Nat :=
  plan.members.length - (plan.outputs.length + plan.keep.toNat)

/-- The plan once its outputs are written. -/
def prepared (plan : SwapPlan) (written : List WrittenOutput) : Option PreparedPlan :=
  (preparePlan plan.members plan.keep).map fun prepared => { prepared with outputs := written }

end SwapPlan

/-- The versions which an operation expects to find. -/
def IndexOp.expects : IndexOp → List RowVersion
  | .replaceExpected _ expected _ => [expected]
  | .deleteExpected _ expected => [expected]
  | .deleteEveryExpected _ expected => expected
  | _ => []

/-- The row which an operation leaves behind. -/
def IndexOp.publishes : IndexOp → Option IndexRow
  | .replaceExpected _ _ row => some row
  | .insertNew _ row => some row
  | _ => none

/-- The frame which an operation journals as retired. -/
def IndexOp.retires : IndexOp → Option FrameName
  | .journalRetire _ name _ _ => some name
  | _ => none

/-- The frame whose journal row an operation clears. -/
def IndexOp.clears : IndexOp → Option FrameName
  | .clearJournal name => some name
  | _ => none

namespace PreparedPlan

variable {plan : PreparedPlan} {aspect : AspectName} {epoch : Nat} {createdMs : Int}

/-- The operations of the outputs, from one on. -/
def publishing (plan : PreparedPlan) (aspect : AspectName) (epoch : Nat)
    (outputs : List (WrittenOutput × Nat)) (position : Nat) : List IndexOp :=
  (outputs.zipIdx position).map fun ((output, id), position) =>
    plan.outputOp aspect epoch output id position

section

variable (plan : PreparedPlan) (aspect : AspectName) (epoch : Nat) (output : WrittenOutput)

theorem publishes_outputOp (id position : Nat) :
    (plan.outputOp aspect epoch output id position).publishes =
      some (output.row id epoch plan.seriesId) := by
  unfold outputOp
  cases plan.members[position]? <;> rfl

theorem retires_outputOp (id position : Nat) :
    (plan.outputOp aspect epoch output id position).retires = none ∧
      (plan.outputOp aspect epoch output id position).clears = none := by
  unfold outputOp
  cases plan.members[position]? <;> exact ⟨rfl, rfl⟩

theorem expects_outputOp (id position : Nat) :
    (plan.outputOp aspect epoch output id position).expects =
      (plan.members[position]?.map IndexRow.version).toList := by
  unfold outputOp
  cases plan.members[position]? <;> rfl

end

section

variable (outputs : List (WrittenOutput × Nat)) (position : Nat)

include outputs position

theorem expects_publishing :
    (plan.publishing aspect epoch outputs position).flatMap expects =
      ((plan.members.drop position).take outputs.length).map IndexRow.version := by
  induction outputs generalizing position with
  | nil => simp [publishing]
  | cons output outputs ih =>
      have later := ih (position + 1)
      rw [publishing] at later ⊢
      rw [List.zipIdx_cons, List.map_cons, List.flatMap_cons, later, expects_outputOp]
      rcases lt_or_ge position plan.members.length with inside | beyond
      · rw [List.getElem?_eq_getElem inside, List.drop_eq_getElem_cons inside, List.length_cons,
          List.take_succ_cons]
        rfl
      · rw [List.getElem?_eq_none beyond, List.drop_eq_nil_of_le beyond,
          List.drop_eq_nil_of_le (by omega)]
        simp

theorem publishes_publishing :
    (plan.publishing aspect epoch outputs position).filterMap publishes =
      outputs.map fun (output, id) => output.row id epoch plan.seriesId := by
  induction outputs generalizing position with
  | nil => rfl
  | cons output outputs ih =>
      have later := ih (position + 1)
      rw [publishing] at later ⊢
      rw [List.zipIdx_cons, List.map_cons,
        List.filterMap_cons_some (publishes_outputOp _ _ _ _ _ _), later]
      rfl

theorem retires_publishing :
    (plan.publishing aspect epoch outputs position).filterMap retires = [] ∧
      (plan.publishing aspect epoch outputs position).filterMap clears = [] := by
  simp only [List.filterMap_eq_nil_iff, publishing, List.forall_mem_map]
  exact ⟨fun item _ => (retires_outputOp plan aspect epoch _ _ _).1,
    fun item _ => (retires_outputOp plan aspect epoch _ _ _).2⟩

end

/-- A plan which can be committed: one which keeps its first member has no outputs, every output
has an id, and the ids ascend. -/
structure Ready (plan : PreparedPlan) : Prop where
  kept : plan.keep = true → plan.outputs = []
  supplied : plan.outputs.length ≤ plan.members.length + plan.fresh.length
  ascending : (plan.members.map (·.desc.id) ++ plan.fresh).Pairwise (· < ·)

theorem Ready.length_outputIds (ready : plan.Ready) (cut : plan.keep = false) :
    plan.outputIds.length = plan.outputs.length := by
  rw [outputIds, cut, if_neg Bool.false_ne_true, List.length_take, List.length_append,
    List.length_map]
  have supplied := ready.supplied
  omega

theorem Ready.pairwise_outputIds (ready : plan.Ready) : plan.outputIds.Pairwise (· < ·) := by
  rw [outputIds]
  split
  · rw [List.map_take]
    exact (List.pairwise_append.mp ready.ascending).1.sublist (List.take_sublist _ _)
  · exact ready.ascending.sublist (List.take_sublist _ _)

/-- The operation of a kept member. -/
def keeping (plan : PreparedPlan) (aspect : AspectName) : List IndexOp :=
  if plan.keep then
    (plan.members.take 1).map fun member => .replaceExpected aspect member.version member
  else []

/-- The operation which deletes the members left over. -/
def deleting (plan : PreparedPlan) (aspect : AspectName) : List IndexOp :=
  let deleted := (plan.members.drop plan.taken).map (·.version)
  if deleted = [] then [] else [.deleteEveryExpected aspect deleted]

section

variable (plan : PreparedPlan) (aspect : AspectName)

theorem ops_eq (epoch : Nat) (createdMs : Int) :
    plan.ops aspect epoch createdMs =
      plan.keeping aspect ++ plan.publishing aspect epoch (plan.outputs.zip plan.outputIds) 0 ++
        plan.deleting aspect ++
        plan.retired.map (fun name => .journalRetire aspect name epoch createdMs) ++
        plan.outputs.map (fun output => .clearJournal output.name) :=
  rfl

theorem expects_keeping :
    (plan.keeping aspect).flatMap expects =
      if plan.keep then (plan.members.take 1).map IndexRow.version else [] := by
  rw [keeping]
  cases plan.keep <;> cases plan.members <;> rfl

theorem publishes_keeping :
    (plan.keeping aspect).filterMap publishes =
      if plan.keep then plan.members.take 1 else [] := by
  rw [keeping]
  cases plan.keep <;> cases plan.members <;> rfl

theorem journal_keeping :
    (plan.keeping aspect).filterMap retires = [] ∧
      (plan.keeping aspect).filterMap clears = [] := by
  rw [keeping]
  cases plan.keep <;> cases plan.members <;> exact ⟨rfl, rfl⟩

theorem expects_deleting :
    (plan.deleting aspect).flatMap expects =
      (plan.members.drop plan.taken).map IndexRow.version := by
  rw [deleting]
  split
  · rename_i empty
    exact empty.symm
  · simp [expects]

theorem journal_deleting :
    (plan.deleting aspect).filterMap publishes = [] ∧
      (plan.deleting aspect).filterMap retires = [] ∧
      (plan.deleting aspect).filterMap clears = [] := by
  rw [deleting]
  split <;> exact ⟨rfl, rfl, rfl⟩

end

theorem Ready.expects_ops (ready : plan.Ready) :
    (plan.ops aspect epoch createdMs).flatMap expects =
      plan.members.map IndexRow.version := by
  have retires : (plan.retired.map fun name =>
      journalRetire aspect name epoch createdMs).flatMap expects = [] := by
    simp [List.flatMap_map, expects]
  have clears : (plan.outputs.map fun output => clearJournal output.name).flatMap
      expects = [] := by simp [List.flatMap_map, expects]
  simp only [ops_eq, List.flatMap_append, expects_keeping, expects_publishing, expects_deleting,
    retires, clears, List.append_nil, List.drop_zero, List.length_zip]
  cases keep : plan.keep with
  | true =>
      rw [if_pos rfl, ready.kept keep, taken, keep, if_pos rfl, List.length_nil, Nat.zero_min,
        List.take_zero, List.map_nil, List.append_nil, ← List.map_append, List.take_append_drop]
  | false =>
      rw [if_neg Bool.false_ne_true, ready.length_outputIds keep, Nat.min_self, taken, keep,
        if_neg Bool.false_ne_true, List.nil_append, ← List.map_append, List.take_append_drop]

theorem publishes_ops (plan : PreparedPlan) :
    (plan.ops aspect epoch createdMs).filterMap publishes =
      (if plan.keep then plan.members.take 1 else []) ++
        (plan.outputs.zip plan.outputIds).map fun (output, id) =>
          output.row id epoch plan.seriesId := by
  have retires : (plan.retired.map fun name =>
      journalRetire aspect name epoch createdMs).filterMap publishes = [] := by
    simp [publishes]
  have clears : (plan.outputs.map fun output => clearJournal output.name).filterMap
      publishes = [] := by simp [publishes]
  simp only [ops_eq, List.filterMap_append, publishes_keeping, publishes_publishing,
    (journal_deleting plan aspect).1, retires, clears, List.append_nil]

theorem journal_ops (plan : PreparedPlan) :
    (plan.ops aspect epoch createdMs).filterMap retires = plan.retired ∧
      (plan.ops aspect epoch createdMs).filterMap clears = plan.outputNames := by
  obtain ⟨not_retired, not_cleared⟩ :=
    @retires_publishing plan aspect epoch (plan.outputs.zip plan.outputIds) 0
  obtain ⟨kept_not_retired, kept_not_cleared⟩ := plan.journal_keeping aspect
  obtain ⟨-, deleted_not_retired, deleted_not_cleared⟩ := plan.journal_deleting aspect
  rw [ops_eq]
  simp only [List.filterMap_append, not_retired, not_cleared, kept_not_retired, kept_not_cleared,
    deleted_not_retired, deleted_not_cleared, List.nil_append, List.filterMap_map]
  constructor
  · have names : ∀ names : List FrameName, names.filterMap (retires ∘ fun name =>
        journalRetire aspect name epoch createdMs) = names := fun names => by
      simp [Function.comp_def, retires]
    have nothing : plan.outputs.filterMap (retires ∘ fun output =>
        clearJournal output.name) = [] := by simp [Function.comp_def, retires]
    rw [names, nothing, List.append_nil]
  · have nothing : plan.retired.filterMap (clears ∘ fun name =>
        journalRetire aspect name epoch createdMs) = [] := by
      simp [Function.comp_def, clears]
    have names : plan.outputs.filterMap (clears ∘ fun output =>
        clearJournal output.name) = plan.outputNames := by
      simp [Function.comp_def, clears, outputNames]
    rw [nothing, names, List.nil_append]

end PreparedPlan

variable {members : List IndexRow}

theorem pairwise_byId (distinct : (members.map fun member => member.desc.id).Nodup) :
    ((byId members).map fun member => member.desc.id).Pairwise (· < ·) := by
  have sorted := StableOrder.sorted_sortBy (fun member : IndexRow => member.desc.id) members
  have perm := (StableOrder.sortBy_perm (fun member : IndexRow => member.desc.id) members).map
    fun member => member.desc.id
  have apart := perm.nodup_iff.mpr distinct
  exact (List.pairwise_map.mpr sorted).imp₂ (fun _ _ => Nat.lt_of_le_of_ne) apart

theorem ready_of_allocateFresh {keep : Bool} {prepared ready : PreparedPlan}
    {written : List WrittenOutput} {rows : List IndexRow} {state next : AspectState}
    (built : preparePlan members keep = some prepared)
    (ascending : (members.map fun member => member.desc.id).Pairwise (· < ·))
    (below : ∀ member ∈ members, member.desc.id < state.nextId) (kept : keep = true → written = [])
    (allocated : allocateFresh rows state { prepared with outputs := written } =
      (next, some ready)) :
    ready.Ready ∧ ready.members = members ∧ ready.keep = keep ∧ ready.outputs = written ∧
      ready.retired = prepared.retired := by
  obtain ⟨rfl, rfl, -⟩ := preparePlan_spec built
  rw [allocateFresh] at allocated
  split at allocated
  · rename_i enough
    obtain ⟨-, rfl⟩ := Prod.mk.inj allocated |>.imp_right Option.some.inj
    refine ⟨⟨kept, ?_, by rwa [List.append_nil]⟩, rfl, rfl, rfl, rfl⟩
    exact Nat.le_of_sub_eq_zero enough
  · split at allocated
    · cases allocated
    · obtain ⟨-, found⟩ := Prod.mk.inj allocated
      obtain ⟨fresh, ids, rfl⟩ := Option.map_eq_some_iff.mp found
      obtain ⟨rfl, -⟩ := AspectState.allocateMany_ids ids
      refine ⟨⟨kept, ?_, ?_⟩, rfl, rfl, rfl, rfl⟩
      · rw [List.length_map, List.length_range, PreparedPlan.extra]
        simp only
        omega
      · refine List.pairwise_append.mpr ⟨ascending, ?_, ?_⟩
        · exact List.pairwise_map.mpr (List.pairwise_lt_range.imp fun below => by omega)
        · intro id member fresh later
          obtain ⟨row, held, rfl⟩ := List.mem_map.mp member
          obtain ⟨offset, -, rfl⟩ := List.mem_map.mp later
          exact (below row held).trans_le (Nat.le_add_right _ _)

/-- The outputs of a cut hold the rows, each before the next.  The operations of a plan, whether it
cuts or keeps, name every member once in the version which was read, publish the outputs under
ascending ids, retire the frames of the members which are not kept and clear the outputs. -/
theorem swap_plan_accounts (members : List IndexRow)
    (distinct : (members.map fun member => member.desc.id).Nodup) :
    (∀ rows cuts, rows.Pairwise (fun before after => before.1 ≤ after.1) →
      (SwapPlan.cut members rows cuts).outputs ≠ [] ∧
        (SwapPlan.cut members rows cuts).outputs.flatten = rows ∧
        (SwapPlan.cut members rows cuts).outputs.Pairwise Earlier) ∧
    ∀ (plan : SwapPlan) (prepared ready : PreparedPlan) (written : List WrittenOutput)
      (current : List IndexRow) (state next : AspectState) (aspect : AspectName) (epoch : Nat)
      (createdMs : Int),
      (plan = SwapPlan.keepFirst members ∨ ∃ rows cuts, plan = SwapPlan.cut members rows cuts) →
      preparePlan plan.members plan.keep = some prepared →
      written.length = plan.outputs.length →
      (∀ member ∈ members, member.desc.id < state.nextId) →
      allocateFresh current state { prepared with outputs := written } = (next, some ready) →
      ((ready.ops aspect epoch createdMs).flatMap IndexOp.expects).Perm
          (members.map IndexRow.version) ∧
        ready.outputIds.Pairwise (· < ·) ∧
        (plan.keep = false →
          ready.outputIds = ((byId members).map (·.desc.id) ++ ready.fresh).take written.length ∧
            ready.outputIds.length = written.length) ∧
        (ready.ops aspect epoch createdMs).filterMap IndexOp.publishes =
          (if plan.keep then (byId members).take 1 else []) ++
            (written.zip ready.outputIds).map (fun (output, id) =>
              output.row id epoch ready.seriesId) ∧
        ((ready.ops aspect epoch createdMs).filterMap IndexOp.retires).map some =
          ((byId members).drop plan.keep.toNat).map retiredName ∧
        (ready.ops aspect epoch createdMs).filterMap IndexOp.clears = written.map (·.name) := by
  constructor
  · intro rows cuts sorted
    obtain ⟨filled, whole, apart, -⟩ := cutRows_spec sorted cuts
    exact ⟨filled, whole, apart⟩
  · intro plan prepared ready written current state next aspect epoch createdMs shape built
      heights below allocated
    have held : plan.members = byId members := by
      rcases shape with rfl | ⟨rows, cuts, rfl⟩ <;> rfl
    have kept : plan.keep = true → written = [] := by
      rcases shape with rfl | ⟨rows, cuts, rfl⟩
      · exact fun _ => List.length_eq_zero_iff.mp heights
      · exact fun keep => absurd keep Bool.false_ne_true
    have perm := StableOrder.sortBy_perm (fun member : IndexRow => member.desc.id) members
    rw [held] at built
    obtain ⟨-, -, -, names⟩ := preparePlan_spec built
    obtain ⟨is_ready, members_eq, keep_eq, outputs_eq, retired_eq⟩ :=
      ready_of_allocateFresh built (pairwise_byId distinct)
        (fun member inside => below member (perm.subset inside)) kept allocated
    refine ⟨?_, is_ready.pairwise_outputIds, fun cut => ⟨?_, ?_⟩, ?_, ?_, ?_⟩
    · rw [is_ready.expects_ops, members_eq]
      exact perm.map IndexRow.version
    · rw [PreparedPlan.outputIds, keep_eq, cut, if_neg Bool.false_ne_true, members_eq, outputs_eq]
    · rw [is_ready.length_outputIds (keep_eq.trans cut), outputs_eq]
    · rw [PreparedPlan.publishes_ops, keep_eq, members_eq, outputs_eq]
    · rw [(PreparedPlan.journal_ops ready).1, retired_eq, names]
    · rw [(PreparedPlan.journal_ops ready).2, PreparedPlan.outputNames, outputs_eq]

/-- The index's row of one frame of two rows. -/
def twoRows : IndexRow where
  desc :=
    { id := 3, path := .segments (.writeOnce "a" 0 0), formatVersion := 5, physicalType := none
      timeUnit := none, rowCount := 2, nullCount := 2, timeSorted := true, minTs := some 1
      maxTs := some 2, minValue := none, maxValue := none, byteLen := 100 }
  gen := 0
  prec := some 0
  frameCrc := some 1
  commitEpoch := some 1
  seriesId := 0

/-- An output of one of the rows. -/
def oneRow (gen : Nat) (timestamp : Int) : WrittenOutput where
  name := .writeOnce "a" gen 0
  gen := gen
  prec := 0
  frameCrc := gen
  descriptor :=
    { twoRows.desc with rowCount := 1, nullCount := 1, minTs := some timestamp
                        maxTs := some timestamp }

theorem swap_plan_accounts_split :
    ∃ ready : PreparedPlan,
      ((ready.ops "a" 2 0).flatMap IndexOp.expects).Perm [twoRows.version] ∧
        ready.outputIds = [3, 5] := by
  have plan : SwapPlan.cut [twoRows] [(1, none), (2, none)] [2] =
      ⟨[twoRows], [[(1, none)], [(2, none)]], false⟩ := by
    rw [SwapPlan.cut, byId, StableOrder.sortBy, List.mergeSort_singleton, cutRows,
      List.mergeSort_singleton]
    rfl
  have accounts := (swap_plan_accounts [twoRows] (by decide)).2
    (SwapPlan.cut [twoRows] [(1, none), (2, none)] [2])
    { members := [twoRows], keep := false, retired := [.writeOnce "a" 0 0], seriesId := 0
      prec := 0, fresh := [], outputs := [] }
    { members := [twoRows], keep := false, retired := [.writeOnce "a" 0 0], seriesId := 0
      prec := 0, fresh := [5], outputs := [oneRow 1 1, oneRow 2 2] }
    [oneRow 1 1, oneRow 2 2] [] ⟨5, 1⟩ ⟨6, 1⟩ "a" 2 0 (.inr ⟨_, _, rfl⟩)
    (by rw [plan]; decide) (by rw [plan]; decide) (by decide) (by decide)
  exact ⟨_, accounts.1, by decide⟩

end WeftDb
