import WeftDb.Foundation.GreedyGroups
import WeftDb.Store.SwapEffect

/-!
# Squashing a fragmented aspect

An aspect with more segments than its rows need is squashed: consecutive segments of a series are
folded into one until it holds the target, and the last ones are left as they are.  A call removes
what its groups have in excess, and leaves the rollup exact.
-/

namespace WeftDb

/-- The rows which some segments hold. -/
def heldRows (rows : List IndexRow) : Nat :=
  (rows.map fun row => row.desc.rowCount).sum

/-- The least number of segments of each series, added up. -/
def seriesIdeal (targetRows : Nat) (rows : List IndexRow) : Nat :=
  ((bySeries rows).map fun members => GreedyGroups.ideal targetRows (heldRows members)).sum

/-- Whether an aspect has more segments than its rows need.  The rollup decides first, and the rows
of each series where some are registered. -/
def fragmented (targetRows : Nat) (db : IndexDb) (aspect : AspectName) : Bool :=
  match db.rollup aspect with
  | none => false
  | some rollup =>
      if rollup.segmentCount ≤ GreedyGroups.ideal targetRows rollup.totalRows then false
      else if 0 < db.seriesCount aspect ∧
          rollup.segmentCount ≤ seriesIdeal targetRows (db.rows aspect) then false
      else true

/-- The groups of segments which are folded into one. -/
def squashGroups (targetRows : Nat) (rows : List IndexRow) : List (List IndexRow) :=
  if rows.length < 2 then []
  else (bySeries rows).flatMap (GreedyGroups.groups (fun row => row.desc.rowCount) targetRows)

/-- The swap which folds a group into one segment. -/
def squashPlan (frames : IndexRow → DecodedFrame) (group : List IndexRow) : SwapPlan :=
  .cut group (foldNewestWins (group.map frames)) []

/-- The swaps of some groups, and how many segments they remove. -/
inductive Squashing (aspect : AspectName) :
    IndexDb → List (List IndexRow) → IndexDb → Nat → Prop
  | done {db} : Squashing aspect db [] db 0
  | alone {db after group groups removed} (few : group.length < 2)
      (later : Squashing aspect db groups after removed) :
      Squashing aspect db (group :: groups) after removed
  | swap {db middle after group groups removed} {frames : IndexRow → DecodedFrame}
      (many : 2 ≤ group.length) (swaps : Swaps aspect db (squashPlan frames group) middle)
      (later : Squashing aspect middle groups after removed) :
      Squashing aspect db (group :: groups) after ((squashPlan frames group).removes + removed)

/-- One call with no other writer: nothing where the aspect is not fragmented, else how many
segments the squash removes. -/
inductive SquashCall (aspect : AspectName) (targetRows : Nat) (db : IndexDb) :
    Option Nat → IndexDb → Prop
  | held (settled : fragmented (max targetRows 1) db aspect = false) :
      SquashCall aspect targetRows db none db
  | ran {after removed} (fires : fragmented (max targetRows 1) db aspect = true)
      (squashing : Squashing aspect db (squashGroups (max targetRows 1) (db.rows aspect)) after
        removed) :
      SquashCall aspect targetRows db (some removed) after

theorem cutRows_nil (rows : List Row) : cutRows rows [] = [rows] := by
  rw [cutRows_eq, List.mergeSort_nil]
  simp

variable {aspect : AspectName} {db middle after : IndexDb} {frames : IndexRow → DecodedFrame}
  {group : List IndexRow}
variable {done rest rows : List IndexRow} {groups : List (List IndexRow)} {removed targetRows : Nat}

theorem removes_squashPlan (frames : IndexRow → DecodedFrame) (group : List IndexRow) :
    (squashPlan frames group).removes = group.length - 1 := by
  rw [squashPlan, SwapPlan.removes, SwapPlan.cut, cutRows_nil, byId,
    (StableOrder.sortBy_perm _ _).length_eq]
  rfl

/-- A swap to one output puts its row in place of the members. -/
theorem stored_of_single {plan : SwapPlan} {ready : PreparedPlan} {epoch : Nat} {createdMs : Int}
    (committed : SwapCommitted aspect db plan after ready epoch createdMs)
    (cut : plan.keep = false) (one : plan.outputs.length = 1) {first : IndexRow}
    {others : List IndexRow} (members_eq : plan.members = first :: others) :
    ∃ row : IndexRow, row.desc.id = first.desc.id ∧ row.seriesId = first.seriesId ∧
      after.stored aspect =
        (db.stored aspect).filter (fun held => decide (held.desc.id ∉
          plan.members.map fun member => member.desc.id)) ++ [row] := by
  have members := committed.members.trans members_eq
  have keep := committed.keep.trans cut
  obtain ⟨output, outputs⟩ : ∃ output, ready.outputs = [output] :=
    List.length_eq_one_iff.mp (committed.described.length_eq.trans one)
  have ids : ready.outputIds = [first.desc.id] := by
    rw [PreparedPlan.outputIds, keep, if_neg Bool.false_ne_true, members, outputs]
    rfl
  have series := committed.series first (by rw [members_eq]; exact List.mem_cons_self)
  refine ⟨output.row first.desc.id epoch ready.seriesId, rfl, series.symm, ?_⟩
  have apart : first.desc.id ∉ others.map fun member => member.desc.id := by
    have ascending := committed.is_ready.ascending
    rw [members, List.map_cons, List.cons_append, List.pairwise_cons] at ascending
    intro member
    exact absurd (ascending.1 _ (List.mem_append_left _ member)) (lt_irrefl _)
  have kept : ready.keeping aspect = [] := by
    rw [PreparedPlan.keeping, keep, if_neg Bool.false_ne_true]
  have replaced : ready.publishing aspect epoch (ready.outputs.zip ready.outputIds) 0 =
      [.replaceExpected aspect first.version
        (output.row first.desc.id epoch ready.seriesId)] := by
    rw [outputs, ids]
    simp [PreparedPlan.publishing, PreparedPlan.outputOp, members]
  have deleted (rows : List IndexRow) :
      (ready.deleting aspect).foldl (fun rows op => op.onStored aspect rows) rows =
        rows.filter fun held =>
          decide (held.desc.id ∉ others.map fun member => member.desc.id) := by
    rw [PreparedPlan.deleting, PreparedPlan.taken, keep, if_neg Bool.false_ne_true, outputs, members]
    cases others with
    | nil => simp
    | cons second others =>
        rw [List.length_singleton, List.drop_one, List.tail_cons, if_neg (by simp),
          List.foldl_cons, List.foldl_nil, IndexOp.onStored, if_pos rfl, List.map_map]
        rfl
  rw [committed.stored, kept, replaced, List.nil_append, List.foldl_append, deleted,
    List.foldl_cons, List.foldl_nil, IndexOp.onStored, if_pos rfl, List.filter_append,
    List.filter_filter, List.filter_singleton, WrittenOutput.row_id, decide_eq_true apart, cond_true]
  refine congrArg (· ++ _) (List.filter_congr fun held _ => ?_)
  rw [members_eq, List.map_cons, ← Bool.decide_and]
  refine decide_eq_decide.mpr ?_
  rw [List.mem_cons, not_or, and_comm]
  rfl

/-- Whether the rollup of an aspect is that of its rows, and the series of its rows are
registered. -/
structure Accounted (aspect : AspectName) (db : IndexDb) : Prop where
  rollup : db.rollup aspect = some (.fromIndex (db.index aspect))
  registered : ∀ row ∈ db.rows aspect, row.seriesId ≠ 0 → 0 < db.seriesCount aspect

theorem nodup_ids_stored (db : IndexDb) (aspect : AspectName) :
    ((db.stored aspect).map fun row => row.desc.id).Nodup := by
  have perm : (db.rows aspect).Perm (db.stored aspect) := List.perm_insertionSort _ _
  exact (perm.map _).nodup_iff.mp (db.nodup_ids_rows aspect)

theorem filter_group (distinct : ((done ++ (group ++ rest)).map fun row => row.desc.id).Nodup) :
    (done ++ (group ++ rest)).filter (fun held => decide (held.desc.id ∉
      group.map fun member => member.desc.id)) = done ++ rest := by
  rw [List.map_append, List.map_append] at distinct
  obtain ⟨-, behind, before⟩ := List.nodup_append.mp distinct
  obtain ⟨-, -, after⟩ := List.nodup_append.mp behind
  rw [List.filter_append, List.filter_append]
  have done_kept : done.filter (fun held => decide (held.desc.id ∉
      group.map fun member => member.desc.id)) = done := by
    refine List.filter_eq_self.mpr fun held member => decide_eq_true fun inside => ?_
    exact before _ (List.mem_map_of_mem member) _ (List.mem_append_left _ inside) rfl
  have rest_kept : rest.filter (fun held => decide (held.desc.id ∉
      group.map fun member => member.desc.id)) = rest := by
    refine List.filter_eq_self.mpr fun held member => decide_eq_true fun inside => ?_
    exact after _ inside _ (List.mem_map_of_mem member) rfl
  have group_gone : group.filter (fun held => decide (held.desc.id ∉
      group.map fun member => member.desc.id)) = [] := by
    refine List.filter_eq_nil_iff.mpr fun held member kept => ?_
    exact of_decide_eq_true kept (List.mem_map_of_mem member)
  rw [done_kept, rest_kept, group_gone, List.nil_append]

/-- The swap of a group leaves one row for it, and the aspect accounted for. -/
theorem Accounted.swap (accounted : Accounted aspect db) (many : 2 ≤ group.length)
    (perm : (db.stored aspect).Perm (done ++ (group ++ rest)))
    (swaps : Swaps aspect db (squashPlan frames group) middle) :
    Accounted aspect middle ∧ ∃ row,
      (middle.stored aspect).Perm ((done ++ [row]) ++ rest) := by
  have distinct := (perm.map fun row => row.desc.id).nodup_iff.mp (nodup_ids_stored db aspect)
  have group_distinct : (group.map fun row => row.desc.id).Nodup :=
    distinct.sublist (((List.sublist_append_left group rest).trans
      (List.sublist_append_right done _)).map _)
  have members : (squashPlan frames group).members = byId group := rfl
  have members_perm : (byId group).Perm group := StableOrder.sortBy_perm _ _
  have one : (squashPlan frames group).outputs.length = 1 := by
    rw [squashPlan, SwapPlan.cut, cutRows_nil]
    rfl
  obtain ⟨ready, epoch, createdMs, committed⟩ := swaps.committed
    (by rw [one, members, members_perm.length_eq]; omega)
    (by rw [members]; exact pairwise_byId group_distinct) (fun keep => by cases keep)
  obtain ⟨first, others, first_eq⟩ : ∃ first others, byId group = first :: others := by
    refine List.exists_cons_of_ne_nil fun empty => ?_
    rw [← members_perm.length_eq, empty] at many
    simp at many
  obtain ⟨row, -, series, stored⟩ := stored_of_single committed rfl one (members.trans first_eq)
  have same_ids : (fun held : IndexRow => decide (held.desc.id ∉
      (squashPlan frames group).members.map fun member => member.desc.id)) =
      fun held => decide (held.desc.id ∉ group.map fun member => member.desc.id) := by
    funext held
    rw [members]
    exact decide_eq_decide.mpr
      (not_congr (members_perm.map fun member => member.desc.id).mem_iff)
  have behind : (middle.stored aspect).Perm ((done ++ [row]) ++ rest) := by
    have kept := perm.filter fun held => decide (held.desc.id ∉
      group.map fun member => member.desc.id)
    rw [filter_group distinct] at kept
    rw [stored, same_ids]
    refine (kept.append_right [row]).trans ?_
    rw [List.append_assoc, List.append_assoc]
    exact List.perm_append_comm.append_left done
  refine ⟨⟨committed.rollup, fun held member tagged => ?_⟩, row, behind⟩
  rw [IndexDb.seriesCount, committed.series_eq]
  rw [IndexDb.mem_rows, ← IndexDb.mem_stored, stored, List.mem_append, List.mem_singleton,
    List.mem_filter] at member
  rcases member with ⟨old, -⟩ | rfl
  · exact accounted.registered held (IndexDb.mem_rows.mpr (IndexDb.mem_stored.mp old)) tagged
  · have first_mem : first ∈ db.stored aspect := by
      refine perm.symm.subset (List.mem_append_right _ (List.mem_append_left _ ?_))
      exact members_perm.subset (first_eq ▸ List.mem_cons_self)
    exact accounted.registered first (IndexDb.mem_rows.mpr (IndexDb.mem_stored.mp first_mem))
      (series ▸ tagged)

theorem Squashing.run (squashing : Squashing aspect db groups after removed)
    (accounted : Accounted aspect db) (perm : (db.stored aspect).Perm (done ++ groups.flatten)) :
    Accounted aspect after ∧ (after.stored aspect).length + removed = (db.stored aspect).length := by
  induction squashing generalizing done with
  | done => exact ⟨accounted, rfl⟩
  | @alone db after group groups removed few _ ih =>
      rw [List.flatten_cons, ← List.append_assoc] at perm
      exact ih accounted perm
  | @swap db middle after group groups removed frames many swaps _ ih =>
      rw [List.flatten_cons] at perm
      obtain ⟨middle_accounted, row, behind⟩ := accounted.swap many perm swaps
      obtain ⟨after_accounted, counted⟩ := ih middle_accounted behind
      refine ⟨after_accounted, ?_⟩
      have before := perm.length_eq
      have later := behind.length_eq
      rw [removes_squashPlan]
      simp only [List.length_append, List.length_singleton] at before later
      omega

theorem Squashing.removed_eq_zero_iff (squashing : Squashing aspect db groups after removed) :
    removed = 0 ↔ ∀ group ∈ groups, group.length < 2 := by
  induction squashing with
  | done => simp
  | alone few _ ih => rw [List.forall_mem_cons, ← ih, and_iff_right few]
  | swap many _ _ _ =>
      rw [List.forall_mem_cons, removes_squashPlan]
      omega

theorem squashing_single (single : ∀ group ∈ groups, group.length < 2) :
    Squashing aspect db groups db 0 := by
  induction groups with
  | nil => exact .done
  | cons group groups ih =>
      obtain ⟨few, others⟩ := List.forall_mem_cons.mp single
      exact .alone few (ih others)

theorem Squashing.eq_of_single (squashing : Squashing aspect db groups after removed)
    (single : ∀ group ∈ groups, group.length < 2) : after = db ∧ removed = 0 := by
  induction squashing with
  | done => exact ⟨rfl, rfl⟩
  | alone _ _ ih => exact ih (List.forall_mem_cons.mp single).2
  | swap many _ _ _ => exact absurd (List.forall_mem_cons.mp single).1 (not_lt.mpr many)

theorem flatten_bySeries (rows : List IndexRow) : (bySeries rows).flatten.Perm rows := by
  have runs := SortedMap.flatten_grouped IndexRow.seriesId id rows
  rwa [List.map_id] at runs

theorem bySeries_of_untagged (untagged : ∀ row ∈ rows, row.seriesId = 0) (filled : rows ≠ []) :
    bySeries rows = [rows] := by
  have whole : KeyedRuns.under IndexRow.seriesId rows 0 = rows := KeyedRuns.under_eq_self untagged
  have keys : ∀ entry ∈ (SortedMap.grouped IndexRow.seriesId id rows).entries,
      entry.1 = 0 ∧ entry.2 = rows := by
    intro entry member
    obtain ⟨held, same⟩ := SortedMap.mem_grouped.mp member
    rw [List.map_id] at same
    obtain ⟨row, row_mem⟩ := List.exists_mem_of_ne_nil _ held
    obtain ⟨inside, series⟩ := mem_under.mp row_mem
    have zero := series.symm.trans (untagged row inside)
    exact ⟨zero, by rw [same, zero, whole]⟩
  have ordered := (SortedMap.grouped IndexRow.seriesId id rows).sorted
  have some_run : (0, rows) ∈ (SortedMap.grouped IndexRow.seriesId id rows).entries :=
    SortedMap.mem_grouped.mpr ⟨by rwa [whole], by rw [List.map_id, whole]⟩
  rw [bySeries]
  cases entries : (SortedMap.grouped IndexRow.seriesId id rows).entries with
  | nil =>
      rw [entries] at some_run
      cases some_run
  | cons entry later =>
      rw [entries] at keys ordered
      cases later with
      | nil => rw [List.map_singleton, (keys entry List.mem_cons_self).2]
      | cons next later =>
          have below := (List.pairwise_cons.mp ordered).1 next List.mem_cons_self
          rw [(keys entry List.mem_cons_self).1, (keys next (by simp)).1] at below
          exact absurd below (lt_irrefl _)

theorem sum_heldRows_bySeries (rows : List IndexRow) :
    ((bySeries rows).map heldRows).sum = heldRows rows := by
  have total := ((flatten_bySeries rows).map fun row => row.desc.rowCount).sum_eq
  rw [List.map_flatten, List.sum_flatten, List.map_map] at total
  exact total

theorem seriesIdeal_eq (targetRows : Nat) (rows : List IndexRow) :
    seriesIdeal targetRows rows =
      (((bySeries rows).map heldRows).map (GreedyGroups.ideal targetRows)).sum := by
  rw [seriesIdeal, List.map_map]
  rfl

theorem fragmented_iff (positive : 0 < targetRows) (accounted : Accounted aspect db) :
    fragmented targetRows db aspect = true ↔
      seriesIdeal targetRows (db.rows aspect) < (db.rows aspect).length := by
  have count : (AspectMetadata.fromIndex (db.index aspect)).segmentCount =
      (db.rows aspect).length := List.length_map _
  have total : (AspectMetadata.fromIndex (db.index aspect)).totalRows =
      heldRows (db.rows aspect) := congrArg List.sum (List.map_map)
  rw [fragmented, accounted.rollup]
  simp only [count, total]
  have split (filled : bySeries (db.rows aspect) ≠ []) :
      GreedyGroups.ideal targetRows (heldRows (db.rows aspect)) ≤
        seriesIdeal targetRows (db.rows aspect) := by
    rw [seriesIdeal_eq, ← sum_heldRows_bySeries]
    exact GreedyGroups.ideal_sum_le positive (by simpa using filled)
  constructor
  · intro fires
    split_ifs at fires with enough settled
    rcases Nat.eq_zero_or_pos (db.seriesCount aspect) with none_registered | registered
    · -- Nothing is tagged, so that the aspect is one series.
      have untagged : ∀ row ∈ db.rows aspect, row.seriesId = 0 := by
        intro row member
        by_contra tagged
        have some_registered := accounted.registered row member tagged
        omega
      have filled : db.rows aspect ≠ [] := by
        intro empty
        rw [empty, List.length_nil] at enough
        exact enough (Nat.zero_le _)
      rw [seriesIdeal, bySeries_of_untagged untagged filled, List.map_singleton,
        List.sum_singleton]
      exact not_le.mp enough
    · exact not_le.mp fun below => settled ⟨registered, below⟩
  · intro more
    have filled : bySeries (db.rows aspect) ≠ [] := by
      intro empty
      have none_held := (flatten_bySeries (db.rows aspect)).length_eq
      rw [empty] at none_held
      simp only [List.flatten_nil, List.length_nil] at none_held
      omega
    rw [if_neg (not_le.mpr ((split filled).trans_lt more)), if_neg]
    exact fun settled => absurd settled.2 (not_le.mpr more)

/-- Whether a squash fires but merges nothing: every segment but the newest of its series holds the
target, and still there are more segments than the ideal of each series. -/
def Stuck (targetRows : Nat) (rows : List IndexRow) : Prop :=
  (∀ members ∈ bySeries rows, ∀ row ∈ members.dropLast, targetRows ≤ row.desc.rowCount) ∧
    seriesIdeal targetRows rows < rows.length

instance (targetRows : Nat) (rows : List IndexRow) : Decidable (Stuck targetRows rows) :=
  inferInstanceAs (Decidable (_ ∧ _))

theorem squashGroups_single_iff (many : 2 ≤ rows.length) :
    (∀ group ∈ squashGroups targetRows rows, group.length < 2) ↔
      ∀ members ∈ bySeries rows, ∀ row ∈ members.dropLast, targetRows ≤ row.desc.rowCount := by
  rw [squashGroups, if_neg (not_lt.mpr many)]
  simp only [List.mem_flatMap, ← GreedyGroups.single_iff]
  constructor
  · exact fun single members member group inside => single group ⟨members, member, inside⟩
  · rintro single group ⟨members, member, inside⟩
    exact single members member group inside

theorem Stuck.exists_empty (positive : 0 < targetRows) (stuck : Stuck targetRows rows) :
    ∃ members ∈ bySeries rows, 2 ≤ members.length ∧
      ∃ newest ∈ members.getLast?, newest.desc.rowCount = 0 := by
  by_contra none_empty
  simp only [not_exists, not_and] at none_empty
  have each : ∀ members ∈ bySeries rows,
      members.length ≤ GreedyGroups.ideal targetRows (heldRows members) := by
    intro members member
    refine GreedyGroups.length_le_ideal positive (stuck.1 members member) fun newest last several =>
      Nat.pos_of_ne_zero (none_empty members member several newest last)
  have lengths := (flatten_bySeries rows).length_eq
  rw [List.length_flatten] at lengths
  have below : ((bySeries rows).map List.length).sum ≤ seriesIdeal targetRows rows :=
    List.sum_le_sum each
  have more := stuck.2
  omega

end WeftDb
