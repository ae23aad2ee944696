import WeftDb.Store.Publish

/-!
# Maintenance swaps

A prepared plan names the members which a swap replaces and the outputs which replace them.  The
outputs take the members' ids in ascending order and fresh ids beyond them, the members left over
are deleted, and every retired frame is journaled in the transaction that retires it.
-/

namespace WeftDb

/-- An output which a swap has written and synced. -/
structure WrittenOutput where
  name : FrameName
  gen : Nat
  prec : Nat
  frameCrc : Nat
  /-- The frame's descriptor, before an id is assigned. -/
  descriptor : SegmentDescriptor
  deriving DecidableEq

/-- The row which publishes an output. -/
def WrittenOutput.row (output : WrittenOutput) (id epoch seriesId : Nat) : IndexRow where
  desc := { output.descriptor with id }
  gen := output.gen
  prec := some output.prec
  frameCrc := some output.frameCrc
  commitEpoch := some epoch
  seriesId := seriesId

@[simp]
theorem WrittenOutput.row_id (output : WrittenOutput) (id epoch seriesId : Nat) :
    (output.row id epoch seriesId).desc.id = id := by
  rfl

/-- A plan on its way through a swap. -/
structure PreparedPlan where
  /-- The rows replaced, ascending by id, as they were read. -/
  members : List IndexRow
  /-- Whether the first member stays and no output is written. -/
  keep : Bool
  /-- The frames which the swap retires. -/
  retired : List FrameName
  seriesId : Nat
  prec : Nat
  /-- Ids allocated for the outputs beyond the members. -/
  fresh : List Nat
  /-- The outputs, in time order. -/
  outputs : List WrittenOutput
  deriving DecidableEq

/-- The name under which a row's frame is retired; only a frame directly in `segments/` has one. -/
def retiredName (row : IndexRow) : Option FrameName :=
  match row.desc.path with
  | .segments name => some name
  | .elsewhere _ => none

variable {α : Type*} {values : List α} {state : AspectState} {aspect : AspectName} {createdMs : Int}
  {options : List (Option α)}

/-- Collect the values of a list of options, or nothing. -/
def allSome : List (Option α) → Option (List α)
  | [] => some []
  | head :: tail => head.bind fun value => (allSome tail).map (value :: ·)

/-- The plan which replaces `members`: they share one series, every retired frame has a name, and
the outputs take the members' largest adoption order. -/
def preparePlan (members : List IndexRow) (keep : Bool) : Option PreparedPlan :=
  match members with
  | [] => none
  | first :: _ =>
      if members.all fun member => decide (member.seriesId = first.seriesId) then
        (allSome ((members.drop keep.toNat).map retiredName)).map fun retired =>
          { members, keep, retired, seriesId := first.seriesId
            prec := members.foldl (fun prec member => max prec (member.prec.getD 0)) 0
            fresh := [], outputs := [] }
      else
        none

theorem map_some_of_allSome (all : allSome options = some values) : options = values.map some := by
  induction options generalizing values with
  | nil =>
      cases all
      rfl
  | cons option options ih =>
      obtain ⟨value, rfl, rest⟩ := Option.bind_eq_some_iff.mp all
      obtain ⟨later, found, rfl⟩ := Option.map_eq_some_iff.mp rest
      rw [ih found, List.map_cons]

theorem mem_of_allSome (all : allSome options = some values) :
    ∀ value ∈ values, some value ∈ options := by
  intro value member
  rw [map_some_of_allSome all]
  exact List.mem_map_of_mem member

theorem preparePlan_spec {members : List IndexRow} {keep : Bool} {plan : PreparedPlan}
    (prepared : preparePlan members keep = some plan) :
    plan.members = members ∧ plan.keep = keep ∧ plan.outputs = [] ∧
      (members.drop keep.toNat).map retiredName = plan.retired.map some := by
  unfold preparePlan at prepared
  cases members with
  | nil => cases prepared
  | cons first members =>
      simp only at prepared
      split at prepared
      · obtain ⟨retired, all, rfl⟩ := Option.map_eq_some_iff.mp prepared
        exact ⟨rfl, rfl, rfl, map_some_of_allSome all⟩
      · cases prepared

namespace PreparedPlan

def outputNames (plan : PreparedPlan) : List FrameName :=
  plan.outputs.map (·.name)

/-- How many members keep their row. -/
def taken (plan : PreparedPlan) : Nat :=
  if plan.keep then 1 else plan.outputs.length

/-- How many outputs take fresh ids. -/
def extra (plan : PreparedPlan) : Nat :=
  plan.outputs.length - plan.members.length

/-- The id of each output: the members' ids in order, then the fresh ones. -/
def outputIds (plan : PreparedPlan) : List Nat :=
  if plan.keep then
    (plan.members.take 1).map (·.desc.id)
  else
    (plan.members.map (·.desc.id) ++ plan.fresh).take plan.outputs.length

/-- The operation which publishes one output: a replacement of the member whose id it takes, or
an insertion under a fresh id. -/
def outputOp (plan : PreparedPlan) (aspect : AspectName) (epoch : Nat) (output : WrittenOutput)
    (id position : Nat) : IndexOp :=
  let row := output.row id epoch plan.seriesId
  match plan.members[position]? with
  | some member => .replaceExpected aspect member.version row
  | none => .insertNew aspect row

/-- The operations of the plan's commit in one aspect epoch. -/
def ops (plan : PreparedPlan) (aspect : AspectName) (epoch : Nat) (createdMs : Int) :
    List IndexOp :=
  -- A kept member is rewritten as itself: a precondition on the version that was read.
  let kept :=
    if plan.keep then
      (plan.members.take 1).map fun member => .replaceExpected aspect member.version member
    else
      []
  let published := (plan.outputs.zip plan.outputIds).zipIdx.map fun ((output, id), position) =>
    plan.outputOp aspect epoch output id position
  let deleted := (plan.members.drop plan.taken).map (·.version)
  kept ++ published ++ (if deleted = [] then [] else [.deleteEveryExpected aspect deleted]) ++
    plan.retired.map (fun name => .journalRetire aspect name epoch createdMs) ++
    plan.outputs.map (fun output => .clearJournal output.name)

end PreparedPlan

/-- Whether an output of `members` under a fresh id would outrank a newer row of their series. -/
def outranks (members : List IndexRow) (extra : List (Option (Int × Int)))
    (rows : List IndexRow) : Bool :=
  match members with
  | [] => false
  | first :: _ =>
      let newest := members.foldl (fun id member => max id member.desc.id) 0
      extra.any fun span =>
        match span with
        | none => false
        | some (low, high) => rows.any fun row =>
            decide (row.seriesId = first.seriesId ∧ newest < row.desc.id) &&
              row.desc.overlapsTime low high

/-- The transaction which journals a swap's outputs as pending, before any of them is written. -/
def journalOutputs (aspect : AspectName) (state : AspectState) (planned : List WrittenOutput)
    (createdMs : Int) : Publication where
  epoch := none
  ops := planned.map (fun output => .journalPending aspect output.name createdMs) ++
    [ seqBump aspect state (planned.foldl (fun gen output => max gen (output.gen + 1)) 0)
        state.epoch ]

/-- Give a plan the fresh ids its outputs need; a plan whose output would outrank a newer row, or
whose ids cannot be handed out, is refused. -/
def allocateFresh (rows : List IndexRow) (state : AspectState) (plan : PreparedPlan) :
    AspectState × Option PreparedPlan :=
  if plan.extra = 0 then
    (state, some { plan with fresh := [] })
  else if outranks plan.members
      ((plan.outputs.drop plan.members.length).map (·.descriptor.timeRange)) rows then
    (state, none)
  else
    let (next, ids) := state.allocateMany plan.extra
    (next, ids.map fun fresh => { plan with fresh })

/-- Allocate for each plan in turn, keeping the plans which are ready to commit. -/
def allocatePlans (rows : List IndexRow) (state : AspectState) :
    List PreparedPlan → AspectState × List PreparedPlan
  | [] => (state, [])
  | plan :: later =>
      let (next, ready) := allocateFresh rows state plan
      let (last, others) := allocatePlans rows next later
      (last, ready.toList ++ others)

/-- Record a descriptor under its id. -/
def putDescriptor (descriptors : List SegmentDescriptor) (descriptor : SegmentDescriptor) :
    List SegmentDescriptor :=
  descriptors.filter (fun other => decide (other.id ≠ descriptor.id)) ++ [descriptor]

/-- Forget the descriptor under an id. -/
def removeDescriptor (descriptors : List SegmentDescriptor) (id : Nat) :
    List SegmentDescriptor :=
  descriptors.filter fun other => decide (other.id ≠ id)

/-- The effect of one operation on the aspect's descriptors. -/
def postSwapStep (descriptors : List SegmentDescriptor) : IndexOp → List SegmentDescriptor
  | .insertNew _ row => putDescriptor descriptors row.desc
  | .upsert _ row => putDescriptor descriptors row.desc
  | .replaceExpected _ _ row => putDescriptor descriptors row.desc
  | .deleteExpected _ expected => removeDescriptor descriptors expected.id
  | .deleteEveryExpected _ expected =>
      expected.foldl (fun descriptors version => removeDescriptor descriptors version.id)
        descriptors
  | .delete _ id => removeDescriptor descriptors id
  | _ => descriptors

/-- The rollup of the rows which remain once the operations are applied to `rows`. -/
def postSwapRollup (rows : List IndexRow) (ops : List IndexOp) : AspectMetadata :=
  .fromIndex ⟨(ops.foldl postSwapStep (rows.map (·.desc))).insertionSort
    fun left right => left.id ≤ right.id⟩

/-- The transaction which commits plans jointly: their operations, one allocator raise and the
rollup which the rows left behind derive. -/
def commitPlans (db : IndexDb) (aspect : AspectName) (state : AspectState)
    (plans : List PreparedPlan) (createdMs : Int) : Publication :=
  let epoch := state.epoch + 1
  let ops := plans.flatMap fun plan => plan.ops aspect epoch createdMs
  let nextGen := (plans.flatMap (·.outputs)).foldl (fun gen output => max gen (output.gen + 1)) 0
  { epoch := some epoch
    ops := ops ++
      [ seqBump aspect state nextGen epoch,
        .putRollup aspect (postSwapRollup (db.rows aspect) ops) ] }

/-- The operations which a plan commits in its aspect. -/
inductive SwapOp (aspect : AspectName) : IndexOp → Prop
  | replace {expected row} : SwapOp aspect (.replaceExpected aspect expected row)
  | insert {row} : SwapOp aspect (.insertNew aspect row)
  | delete {expected} : SwapOp aspect (.deleteEveryExpected aspect expected)
  | retire {name epoch createdMs} : SwapOp aspect (.journalRetire aspect name epoch createdMs)
  | clear {name} : SwapOp aspect (.clearJournal name)

theorem PreparedPlan.ops_swapOp (plan : PreparedPlan) (aspect : AspectName) (epoch : Nat)
    (createdMs : Int) : ∀ op ∈ plan.ops aspect epoch createdMs, SwapOp aspect op := by
  intro op member
  simp only [PreparedPlan.ops, List.mem_append, List.mem_map] at member
  rcases member with (((kept | ⟨_, _, rfl⟩) | deleted) | ⟨_, _, rfl⟩) | ⟨_, _, rfl⟩
  · split at kept
    · obtain ⟨_, _, rfl⟩ := List.mem_map.mp kept
      exact .replace
    · cases kept
  · unfold PreparedPlan.outputOp
    simp only
    split
    · exact .replace
    · exact .insert
  · split at deleted
    · cases deleted
    · rw [List.mem_singleton.mp deleted]
      exact .delete
  · exact .retire
  · exact .clear

theorem mem_commitPlans {db : IndexDb} {plans : List PreparedPlan} {op : IndexOp}
    (member : op ∈ (commitPlans db aspect state plans createdMs).ops) :
    SwapOp aspect op ∨ (∃ nextGen, op = seqBump aspect state nextGen (state.epoch + 1)) ∨
      ∃ rollup, op = .putRollup aspect rollup := by
  rcases List.mem_append.mp member with planned | finished
  · obtain ⟨plan, _, op_mem⟩ := List.mem_flatMap.mp planned
    exact .inl (plan.ops_swapOp aspect _ createdMs op op_mem)
  · rcases List.mem_cons.mp finished with rfl | finished
    · exact .inr (.inl ⟨_, rfl⟩)
    · exact .inr (.inr ⟨_, List.mem_singleton.mp finished⟩)

theorem mem_journalOutputs {planned : List WrittenOutput} {op : IndexOp}
    (member : op ∈ (journalOutputs aspect state planned createdMs).ops) :
    (∃ name, op = .journalPending aspect name createdMs) ∨
      ∃ nextGen, op = seqBump aspect state nextGen state.epoch := by
  rcases List.mem_append.mp member with journaled | bumped
  · obtain ⟨output, _, rfl⟩ := List.mem_map.mp journaled
    exact .inl ⟨_, rfl⟩
  · exact .inr ⟨_, List.mem_singleton.mp bumped⟩

end WeftDb
