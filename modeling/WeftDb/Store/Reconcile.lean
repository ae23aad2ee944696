import WeftDb.Store.SwapEffect

/-!
# Reconciling overlaps

Each overlap component of an aspect is folded into one run, which replaces its members as one
segment or, where the split policy says so, as two; a first member which holds all of it already is
kept instead.  What a swap publishes stays in the span of the component, under the ids of its
members, and does not overlap itself.
-/

namespace WeftDb

/-- Whether late data is merged by writing a segment anew or by splitting it. -/
inductive SplitDecision
  | fullRewrite
  | split
  deriving DecidableEq

/-- The prefix, in bytes, below which a split never pays. -/
structure SplitPolicy where
  minSplitBytes : Nat

/-- A count which stops at the greatest unsigned word. -/
def saturatingCount (count : Nat) : Nat :=
  min count 18446744073709551615

/-- Split where the prefix is large enough and outweighs the rest. -/
def SplitPolicy.decide (policy : SplitPolicy) (prefixBytes suffixBytes newDataBytes : Nat) :
    SplitDecision :=
  let mergeBytes := saturatingCount (suffixBytes + newDataBytes)
  if policy.minSplitBytes ≤ prefixBytes ∧ mergeBytes < prefixBytes then .split else .fullRewrite

/-- Whether two values have the same plain form. -/
def samePlain : Option BigDecimal → Option BigDecimal → Bool
  | none, none => true
  | some left, some right =>
      decide (left = right) || decide (left.toPlainString = right.toPlainString)
  | _, _ => false

/-- Whether two runs are the same, row for row. -/
def sameRows (heldTimestamps : List Int) (heldValues : List (Option BigDecimal))
    (offered : List Row) : Bool :=
  decide (heldTimestamps = offered.map Prod.fst) &&
    (decide (heldValues.length = offered.length) &&
      (heldValues.zip (offered.map Prod.snd)).all fun (left, right) => samePlain left right)

/-- The fold of the members, and whether it is what the first one holds. -/
def mergeMembersAgainstFirst (frames : IndexRow → DecodedFrame) (members : List IndexRow) :
    List Row × Bool :=
  let merged := foldNewestWins (members.map frames)
  let identical :=
    match members with
    | [] => false
    | first :: _ =>
        first.desc.timeSorted && sameRows (frames first).timestamps (frames first).values merged
  (merged, identical)

/-- The swap which reconciles a component. -/
def reconcilePlan (policy : SplitPolicy) (frames : IndexRow → DecodedFrame)
    (component : List IndexRow) : SwapPlan :=
  let members := byId component
  let componentBytes := (members.map fun member => member.desc.byteLen).sum
  let componentRows := (members.map fun member => member.desc.rowCount).sum
  -- Rows before the second start are in one member only.
  let starts := StableOrder.sortBy id (members.filterMap fun member => member.desc.minTs)
  let coldBoundary := starts[1]?.getD Word64.least
  let (rows, identical) := mergeMembersAgainstFirst frames members
  if identical then .keepFirst members
  else
    let prefixLen := (rows.takeWhile fun row => row.1 < coldBoundary).length
    let bytesPerRow := if 0 < componentRows then componentBytes / componentRows else 0
    let prefixBytes := saturatingCount (bytesPerRow * prefixLen)
    let suffixBytes := saturatingCount (bytesPerRow * (rows.length - prefixLen))
    let split := 0 < prefixLen ∧ prefixLen < rows.length ∧
      policy.decide prefixBytes suffixBytes 0 = .split
    .cut members rows (if split then [coldBoundary] else [])

theorem byId_byId (members : List IndexRow) : byId (byId members) = byId members := by
  rw [byId, StableOrder.sortBy, List.mergeSort_of_pairwise]
  exact (StableOrder.sorted_sortBy _ _).imp decide_eq_true

section

variable (policy : SplitPolicy) (frames : IndexRow → DecodedFrame) (component : List IndexRow)

include policy frames component

theorem reconcilePlan_cases :
    reconcilePlan policy frames component = .keepFirst (byId component) ∨
      ∃ cuts, cuts.length ≤ 1 ∧ reconcilePlan policy frames component =
        .cut (byId component) (foldNewestWins ((byId component).map frames)) cuts := by
  unfold reconcilePlan
  simp only
  split
  · exact .inl rfl
  · refine .inr ⟨_, ?_, rfl⟩
    split_ifs <;> simp

theorem members_reconcilePlan : (reconcilePlan policy frames component).members =
      byId component := by
  rcases reconcilePlan_cases policy frames component with kept | ⟨cuts, -, cut⟩
  · rw [kept, SwapPlan.keepFirst, byId_byId]
  · rw [cut, SwapPlan.cut, byId_byId]

theorem length_outputs_reconcilePlan :
    (reconcilePlan policy frames component).outputs.length ≤ 2 := by
  rcases reconcilePlan_cases policy frames component with kept | ⟨cuts, few, cut⟩
  · rw [kept]
    exact Nat.zero_le _
  · rw [cut]
    exact (length_cutRows_le _ _).trans (Nat.succ_le_succ few)

end

/-- Whether a row stays in the span of a component, under the id and the series of a member. -/
def PlacedIn (component : List IndexRow) (row : IndexRow) : Prop :=
  ∃ source ∈ component, source.desc.id = row.desc.id ∧ source.seriesId = row.seriesId ∧
    ∀ range ∈ row.desc.timeRange, ∃ first ∈ component, ∃ last ∈ component,
      first.desc.low ≤ range.1 ∧ range.2 ≤ last.desc.high

/-- What a swap of a component publishes. -/
structure PublishesRuns (component : List IndexRow) (published : List IndexRow) : Prop where
  placed : ∀ row ∈ published, PlacedIn component row
  apart : published.Pairwise fun left right => ¬Overlapping left right ∧ ¬Overlapping right left

theorem placedIn_self {component : List IndexRow} {row : IndexRow} (member : row ∈ component) :
    PlacedIn component row := by
  refine ⟨row, member, rfl, rfl, fun range spanned => ⟨row, member, row, member, ?_⟩⟩
  rw [range_eq (Option.isSome_of_mem spanned), Option.mem_some_iff] at spanned
  subst spanned
  exact ⟨le_rfl, le_rfl⟩

section Published

variable {frames : IndexRow → DecodedFrame} {component : List IndexRow}
  (described : ∀ member ∈ component, Describes member.desc (frames member).timestamps)

include described

theorem exists_bound_of_fold {row : Row}
    (member : row ∈ foldNewestWins ((byId component).map frames)) :
    ∃ held ∈ component, held.desc.low ≤ row.1 ∧ row.1 ≤ held.desc.high := by
  obtain ⟨frame, frame_mem, found⟩ := (foldNewestWins_spec _).2 row member
  obtain ⟨held, held_mem, rfl⟩ := List.mem_map.mp frame_mem
  have inside := (StableOrder.sortBy_perm _ _).subset held_mem
  exact ⟨held, inside, ((described held inside).bounds found).2⟩

theorem publishes_cut {cuts : List Int} {written : List WrittenOutput} {ids : List Nat}
    {seriesId epoch : Nat}
    (matched : List.Forall₂ (fun output rows => Describes output.descriptor (rows.map Prod.fst))
      written (cutRows (foldNewestWins ((byId component).map frames)) cuts))
    (heights : written.length ≤ ids.length)
    (ids_mem : ∀ id ∈ ids, ∃ member ∈ component, member.desc.id = id)
    (series : ∀ member ∈ component, member.seriesId = seriesId) :
    PublishesRuns component ((written.zip ids).map fun (output, id) =>
      output.row id epoch seriesId) := by
  obtain ⟨sorted, -⟩ := foldNewestWins_spec ((byId component).map frames)
  obtain ⟨-, whole, apart, -⟩ := cutRows_spec sorted cuts
  constructor
  · intro row member
    obtain ⟨⟨output, id⟩, inside, rfl⟩ := List.mem_map.mp member
    obtain ⟨output_mem, id_mem⟩ := List.of_mem_zip inside
    obtain ⟨source, source_mem, same⟩ := ids_mem id id_mem
    refine ⟨source, source_mem, same, series source source_mem, fun range spanned => ?_⟩
    obtain ⟨stretch, stretch_mem, describes⟩ := exists_of_forall₂ matched output_mem
    obtain ⟨starts, ends⟩ := describes.range spanned
    obtain ⟨first, first_mem, first_eq⟩ := List.mem_map.mp starts
    obtain ⟨last, last_mem, last_eq⟩ := List.mem_map.mp ends
    have held : ∀ row ∈ stretch, row ∈ foldNewestWins ((byId component).map frames) :=
      fun row inside => whole ▸ List.mem_flatten_of_mem stretch_mem inside
    obtain ⟨low, low_mem, below, -⟩ := exists_bound_of_fold described (held first first_mem)
    obtain ⟨high, high_mem, -, above⟩ := exists_bound_of_fold described (held last last_mem)
    exact ⟨low, low_mem, high, high_mem, first_eq ▸ below, last_eq ▸ above⟩
  · have pairs : written.Pairwise fun left right => ∀ id id',
        ¬Overlapping (left.row id epoch seriesId) (right.row id' epoch seriesId) ∧
          ¬Overlapping (right.row id' epoch seriesId) (left.row id epoch seriesId) :=
      pairwise_of_forall₂ matched apart fun own other earlier id id' =>
        Describes.apart ⟨own.rows, own.first, own.last⟩ ⟨other.rows, other.first, other.last⟩
          earlier
    have zipped : ((written.zip ids).map Prod.fst).Pairwise fun left right => ∀ id id',
        ¬Overlapping (left.row id epoch seriesId) (right.row id' epoch seriesId) ∧
          ¬Overlapping (right.row id' epoch seriesId) (left.row id epoch seriesId) := by
      rwa [List.map_fst_zip heights]
    exact List.pairwise_map.mpr ((List.pairwise_map.mp zipped).imp fun apart => apart _ _)

variable {policy : SplitPolicy} {aspect : AspectName} {db after : IndexDb}

omit described in
theorem committed_reconcilePlan (many : 2 ≤ component.length)
    (distinct : (component.map fun member => member.desc.id).Nodup)
    (swaps : Swaps aspect db (reconcilePlan policy frames component) after) :
    ∃ ready epoch createdMs, SwapCommitted aspect db (reconcilePlan policy frames component) after
      ready epoch createdMs := by
  refine swaps.committed ?_ ?_ fun keep => ?_
  · rw [members_reconcilePlan, byId, (StableOrder.sortBy_perm _ _).length_eq]
    exact (length_outputs_reconcilePlan policy frames component).trans many
  · rw [members_reconcilePlan]
    exact pairwise_byId distinct
  · rcases reconcilePlan_cases policy frames component with kept | ⟨cuts, -, cut⟩
    · rw [kept]
      rfl
    · rw [cut] at keep
      exact absurd keep Bool.false_ne_true

theorem publishes_reconcilePlan {ready : PreparedPlan} {epoch : Nat} {createdMs : Int}
    (committed : SwapCommitted aspect db (reconcilePlan policy frames component) after ready epoch
      createdMs) :
    PublishesRuns component ((ready.ops aspect epoch createdMs).filterMap IndexOp.publishes) := by
  have perm := StableOrder.sortBy_perm (fun member : IndexRow => member.desc.id) component
  have members_eq := committed.members.trans (members_reconcilePlan policy frames component)
  have series := committed.series
  have outputs_described := committed.described
  rw [members_reconcilePlan] at series
  rw [PreparedPlan.publishes_ops, members_eq, committed.keep]
  rcases reconcilePlan_cases policy frames component with kept | ⟨cuts, -, cut⟩
  · rw [kept] at outputs_described ⊢
    have no_outputs := List.forall₂_nil_right_iff.mp outputs_described
    rw [SwapPlan.keepFirst, if_pos rfl, no_outputs, List.zip_nil_left, List.map_nil,
      List.append_nil]
    refine ⟨fun row member => placedIn_self (perm.subset (List.mem_of_mem_take member)), ?_⟩
    cases byId component with
    | nil => exact .nil
    | cons first members => exact List.pairwise_singleton _ _
  · have cut_keep : ready.keep = false := by rw [committed.keep, cut, SwapPlan.cut]
    rw [cut] at outputs_described
    rw [cut, SwapPlan.cut, if_neg Bool.false_ne_true, List.nil_append]
    refine publishes_cut described outputs_described ?_ (fun id member => ?_)
      fun member inside => series member (perm.symm.subset inside)
    · rw [committed.is_ready.length_outputIds cut_keep]
    · rw [PreparedPlan.outputIds, cut_keep, if_neg Bool.false_ne_true, members_eq,
        committed.fresh, List.append_nil] at member
      obtain ⟨source, source_mem, same⟩ := List.mem_map.mp (List.mem_of_mem_take member)
      exact ⟨source, perm.subset source_mem, same⟩

end Published

end WeftDb
