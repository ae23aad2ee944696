import WeftDb.Store.Squash

/-!
# Runs of the fragmentation gate

With no other writer a call which squashes an aspect removes a segment, and the calls come to rest,
exactly when the aspect is not stuck: when it is, every later call squashes and removes nothing.
-/

namespace WeftDb

variable {aspect : AspectName} {targetRows : Nat} {db after : IndexDb} {result : Option Nat}

theorem flatten_squashGroups {rows : List IndexRow} (many : 2 ≤ rows.length) :
    (squashGroups targetRows rows).flatten.Perm rows := by
  rw [squashGroups, if_neg (not_lt.mpr many)]
  refine List.Perm.trans ?_ (flatten_bySeries rows)
  induction bySeries rows with
  | nil => exact .refl _
  | cons members runs ih =>
      rw [List.flatMap_cons, List.flatten_append, List.flatten_cons, GreedyGroups.flatten_groups]
      exact ih.append_left members

theorem SquashCall.run (call : SquashCall aspect targetRows db result after)
    (accounted : Accounted aspect db) :
    Accounted aspect after ∧
      (after.rows aspect).length + result.getD 0 = (db.rows aspect).length := by
  have rows_perm (db : IndexDb) : (db.rows aspect).Perm (db.stored aspect) :=
    List.perm_insertionSort _ _
  cases call with
  | held settled => exact ⟨accounted, rfl⟩
  | @ran after removed fires squashing =>
      have perm : ∃ done, (db.stored aspect).Perm
          (done ++ (squashGroups (max targetRows 1) (db.rows aspect)).flatten) := by
        rcases Nat.lt_or_ge (db.rows aspect).length 2 with few | many
        · refine ⟨db.stored aspect, ?_⟩
          rw [squashGroups, if_pos few, List.flatten_nil, List.append_nil]
        · exact ⟨[], ((rows_perm db).symm.trans (flatten_squashGroups many).symm)⟩
      obtain ⟨done, perm⟩ := perm
      obtain ⟨kept, counted⟩ := squashing.run accounted perm
      rw [← (rows_perm after).length_eq, ← (rows_perm db).length_eq] at counted
      exact ⟨kept, counted⟩

theorem SquashCall.of_stuck (call : SquashCall aspect targetRows db result after)
    (accounted : Accounted aspect db) (stuck : Stuck (max targetRows 1) (db.rows aspect)) :
    result = some 0 ∧ after = db := by
  have positive : 0 < max targetRows 1 := lt_max_of_lt_right Nat.one_pos
  obtain ⟨members, inside, several, -⟩ := stuck.exists_empty positive
  have many : 2 ≤ (db.rows aspect).length := by
    have whole := (flatten_bySeries (db.rows aspect)).length_eq
    have part := (List.sublist_flatten_of_mem inside).length_le
    omega
  have fires := (fragmented_iff positive accounted).mpr stuck.2
  cases call with
  | held settled =>
      rw [settled] at fires
      cases fires
  | ran _ squashing =>
      obtain ⟨rfl, rfl⟩ := squashing.eq_of_single ((squashGroups_single_iff many).mpr stuck.1)
      exact ⟨rfl, rfl⟩

theorem exists_call_of_stuck (accounted : Accounted aspect db)
    (stuck : Stuck (max targetRows 1) (db.rows aspect)) :
    SquashCall aspect targetRows db (some 0) db := by
  have positive : 0 < max targetRows 1 := lt_max_of_lt_right Nat.one_pos
  refine .ran ((fragmented_iff positive accounted).mpr stuck.2) (squashing_single ?_)
  rcases Nat.lt_or_ge (db.rows aspect).length 2 with few | many
  · rw [squashGroups, if_pos few]
    exact List.forall_mem_nil _
  · exact (squashGroups_single_iff many).mpr stuck.1

theorem stuck_of_removed_zero (call : SquashCall aspect targetRows db (some 0) after)
    (accounted : Accounted aspect db) : Stuck (max targetRows 1) (db.rows aspect) := by
  have positive : 0 < max targetRows 1 := lt_max_of_lt_right Nat.one_pos
  cases call with
  | ran fires squashing =>
      have more := (fragmented_iff positive accounted).mp fires
      have single := squashing.removed_eq_zero_iff.mp rfl
      rcases Nat.lt_or_ge (db.rows aspect).length 2 with few | many
      · -- One segment is never more than the ideal of its series.
        refine ⟨fun members inside row member => ?_, more⟩
        have part := (List.sublist_flatten_of_mem inside).length_le
        have whole := (flatten_bySeries (db.rows aspect)).length_eq
        have short : members.dropLast.length = 0 := by
          rw [List.length_dropLast]
          omega
        rw [List.length_eq_zero_iff.mp short] at member
        cases member
      · exact ⟨(squashGroups_single_iff many).mp single, more⟩

section Runs

variable {dbs : Nat → IndexDb} {results : Nat → Option Nat}
  (start : Accounted aspect (dbs 0))
  (calls : ∀ call, SquashCall aspect targetRows (dbs call) (results call) (dbs (call + 1)))
variable {reached : Nat}

include start calls

theorem accounted_of_calls (call : Nat) : Accounted aspect (dbs call) := by
  induction call with
  | zero => exact start
  | succ call ih => exact ((calls call).run ih).1

theorem exists_none_of_not_stuck
    (free : ∀ call, ¬Stuck (max targetRows 1) ((dbs call).rows aspect)) :
    ∃ call ≤ ((dbs 0).rows aspect).length, results call = none := by
  by_contra busy
  simp only [not_exists, not_and] at busy
  have fewer : ∀ call ≤ ((dbs 0).rows aspect).length + 1,
      ((dbs call).rows aspect).length + call ≤ ((dbs 0).rows aspect).length := by
    intro call
    induction call with
    | zero => exact fun _ => Nat.le_refl _
    | succ call ih =>
        intro below
        have before := ih (Nat.le_of_succ_le below)
        have accounted := accounted_of_calls start calls call
        obtain ⟨-, counted⟩ := (calls call).run accounted
        have step := calls call
        cases found : results call with
        | none => exact absurd found (busy call (Nat.le_of_succ_le_succ below))
        | some removed =>
            rw [found] at counted step
            have positive : removed ≠ 0 := by
              rintro rfl
              exact free call (stuck_of_removed_zero step accounted)
            simp only [Option.getD_some] at counted
            omega
  have last := fewer _ (Nat.le_refl _)
  omega

theorem stays_stuck (stuck : Stuck (max targetRows 1) ((dbs reached).rows aspect)) (later : Nat) :
    results (reached + later) = some 0 ∧ dbs (reached + later) = dbs reached := by
  have state : dbs (reached + later) = dbs reached := by
    induction later with
    | zero => rfl
    | succ later ih =>
        have accounted := accounted_of_calls start calls (reached + later)
        obtain ⟨-, same⟩ := (calls (reached + later)).of_stuck accounted (ih ▸ stuck)
        exact same.trans ih
  have accounted := accounted_of_calls start calls (reached + later)
  exact ⟨((calls (reached + later)).of_stuck accounted (state ▸ stuck)).1, state⟩

omit start in
theorem stays_none (none_there : results reached = none) (later : Nat) :
    results (reached + later) = none ∧ dbs (reached + later) = dbs reached := by
  have settled : fragmented (max targetRows 1) (dbs reached) aspect = false := by
    have call := calls reached
    rw [none_there] at call
    generalize dbs (reached + 1) = next at call
    cases call with
    | held settled => exact settled
  have still {db after : IndexDb} {result : Option Nat}
      (call : SquashCall aspect targetRows db result after) (same : db = dbs reached) :
      result = none ∧ after = dbs reached := by
    subst same
    cases call with
    | held _ => exact ⟨rfl, rfl⟩
    | ran fires _ =>
        rw [settled] at fires
        cases fires
  have state : dbs (reached + later) = dbs reached := by
    induction later with
    | zero => rfl
    | succ later ih => exact (still (calls (reached + later)) ih).2
  exact ⟨(still (calls (reached + later)) state).1, state⟩

theorem not_stuck_of_none (none_there : results reached = none) (call : Nat) :
    ¬Stuck (max targetRows 1) ((dbs call).rows aspect) := by
  intro stuck
  rcases Nat.le_total call reached with before | behind
  · obtain ⟨later, rfl⟩ := Nat.exists_eq_add_of_le before
    have busy := (stays_stuck start calls stuck later).1
    rw [none_there] at busy
    cases busy
  · obtain ⟨later, rfl⟩ := Nat.exists_eq_add_of_le behind
    have idle := (stays_none calls none_there later).1
    have busy := (stays_stuck start calls stuck 0).1
    rw [Nat.add_zero, idle] at busy
    cases busy

end Runs

/-- Every call on an aspect which squashes it removes a segment exactly when it is not stuck, and a
run of calls with no other writer comes to rest exactly when no state of it is stuck; a stuck
aspect has a series whose newest segment is empty, behind another. -/
theorem squash_converges_iff (aspect : AspectName) (targetRows : Nat) :
    (∀ db, Accounted aspect db →
      ((∀ removed after, SquashCall aspect targetRows db (some removed) after → 1 ≤ removed) ↔
        ¬Stuck (max targetRows 1) (db.rows aspect))) ∧
    (∀ (dbs : Nat → IndexDb) (results : Nat → Option Nat), Accounted aspect (dbs 0) →
      (∀ call, SquashCall aspect targetRows (dbs call) (results call) (dbs (call + 1))) →
      ((∀ call, ¬Stuck (max targetRows 1) ((dbs call).rows aspect)) →
          ∃ call ≤ ((dbs 0).rows aspect).length, results call = none) ∧
        ((∃ call, results call = none) →
          ∀ call, ¬Stuck (max targetRows 1) ((dbs call).rows aspect))) ∧
    ∀ rows, Stuck (max targetRows 1) rows → ∃ members ∈ bySeries rows, 2 ≤ members.length ∧
      ∃ newest ∈ members.getLast?, newest.desc.rowCount = 0 := by
  refine ⟨fun db accounted => ⟨fun removes stuck => ?_, fun free removed after call => ?_⟩, ?_,
    fun rows stuck => stuck.exists_empty (lt_max_of_lt_right Nat.one_pos)⟩
  · exact absurd (removes 0 db (exists_call_of_stuck accounted stuck)) (by decide)
  · refine Nat.one_le_iff_ne_zero.mpr ?_
    rintro rfl
    exact free (stuck_of_removed_zero call accounted)
  · intro dbs results start calls
    exact ⟨exists_none_of_not_stuck start calls,
      fun ⟨_, none_there⟩ => not_stuck_of_none start calls none_there⟩

/-- A segment of ten rows, and an empty one behind it. -/
def tenRows : IndexRow where
  desc :=
    { id := 1, path := .segments (.writeOnce "a" 1 1), formatVersion := 5, physicalType := none
      timeUnit := none, rowCount := 10, nullCount := 0, timeSorted := true, minTs := some 1
      maxTs := some 10, minValue := none, maxValue := none, byteLen := 100 }
  gen := 1
  prec := some 1
  frameCrc := some 1
  commitEpoch := some 1
  seriesId := 0

def emptyBehind : IndexRow where
  desc :=
    { id := 2, path := .segments (.writeOnce "a" 2 2), formatVersion := 5, physicalType := none
      timeUnit := none, rowCount := 0, nullCount := 0, timeSorted := true, minTs := none
      maxTs := none, minValue := none, maxValue := none, byteLen := 50 }
  gen := 2
  prec := some 2
  frameCrc := some 2
  commitEpoch := some 2
  seriesId := 0

/-- The index of some rows, with their rollup. -/
def indexOf (rows : List IndexRow) (distinct : (rows.map fun row => ("a", row.desc.id)).Nodup) :
    IndexDb :=
  { IndexDb.fresh with
    segments := ⟨rows.map (Prod.mk "a"), by rw [List.map_map]; exact distinct⟩
    rollups := ⟨[("a", .fromIndex ⟨rows.map IndexRow.desc⟩)], List.nodup_singleton _⟩ }

/-- The calls on a segment which holds the target and an empty one never come to rest. -/
theorem squash_never_rests :
    ∃ (dbs : Nat → IndexDb) (results : Nat → Option Nat), Accounted "a" (dbs 0) ∧
      (∀ call, SquashCall "a" 10 (dbs call) (results call) (dbs (call + 1))) ∧
      ∀ call, results call = some 0 := by
  have accounted : Accounted "a" (indexOf [tenRows, emptyBehind] (by decide)) :=
    ⟨by decide, by decide⟩
  have stuck : Stuck (max 10 1) ((indexOf [tenRows, emptyBehind] (by decide)).rows "a") := by
    decide
  exact ⟨fun _ => indexOf [tenRows, emptyBehind] (by decide), fun _ => some 0, accounted,
    fun _ => exists_call_of_stuck accounted stuck, fun _ => rfl⟩

/-- A segment of five rows, and another behind it. -/
def fiveRows : IndexRow :=
  { tenRows with desc := { tenRows.desc with rowCount := 5, maxTs := some 5 } }

def fiveBehind : IndexRow :=
  { emptyBehind with
    desc := { emptyBehind.desc with rowCount := 5, minTs := some 6, maxTs := some 10 } }

def fiveIndex : IndexDb :=
  indexOf [fiveRows, fiveBehind] (by decide)

def fiveFrame (row : IndexRow) : DecodedFrame where
  rowsPerPage := none
  timestamps := if row.desc.id = 1 then [1, 2, 3, 4, 5] else [6, 7, 8, 9, 10]
  values := List.replicate 5 none

/-- The swap which folds both into one. -/
def foldPlan : PreparedPlan where
  members := [fiveRows, fiveBehind]
  keep := false
  retired := [.writeOnce "a" 1 1, .writeOnce "a" 2 2]
  seriesId := 0
  prec := 2
  fresh := []
  outputs :=
    [ { name := .writeOnce "a" 3 2, gen := 3, prec := 2, frameCrc := 3
        descriptor := { tenRows.desc with path := .segments (.writeOnce "a" 3 2) } } ]

def foldedIndex : IndexDb :=
  ((fiveIndex.applyAll (commitPlans fiveIndex "a" ⟨3, 2⟩ [foldPlan] 0).ops).toOption).getD
    fiveIndex

theorem squashCall_fiveRows : SquashCall "a" 10 fiveIndex (some 1) foldedIndex := by
  have members : byId [fiveRows, fiveBehind] = [fiveRows, fiveBehind] := by
    rw [byId, StableOrder.sortBy]
    exact List.mergeSort_of_pairwise (by decide)
  have sorted (row : IndexRow) : (fiveFrame row).sortedRows =
      (fiveFrame row).timestamps.zip (fiveFrame row).values := by
    rw [DecodedFrame.sortedRows, fiveFrame]
    refine List.mergeSort_of_pairwise ?_
    split <;> decide
  have plan : squashPlan fiveFrame [fiveRows, fiveBehind] = ⟨[fiveRows, fiveBehind],
      [[1, 2, 3, 4, 5, 6, 7, 8, 9, 10].map fun timestamp => (timestamp, none)], false⟩ := by
    rw [squashPlan, SwapPlan.cut, cutRows_nil, members, foldNewestWins, List.map_cons,
      List.map_cons, List.map_nil, List.foldl_cons, List.foldl_cons, List.foldl_nil, sorted, sorted]
    simp [mergeNewerWins, fiveFrame, fiveRows, fiveBehind, tenRows, emptyBehind, List.replicate]
  have swaps : Swaps "a" fiveIndex (squashPlan fiveFrame [fiveRows, fiveBehind]) foldedIndex := by
    rw [plan]
    exact @Swaps.intro _ _ _ { foldPlan with outputs := [] } foldPlan foldPlan.outputs
      ⟨3, 2⟩ ⟨3, 2⟩ 0 _ (by decide) (.cons ⟨by decide, by decide, by decide⟩ .nil) (by decide) rfl
  have groups : squashGroups (max 10 1) (fiveIndex.rows "a") = [[fiveRows, fiveBehind]] := by
    decide
  have squashing : Squashing "a" fiveIndex (squashGroups (max 10 1) (fiveIndex.rows "a"))
      foldedIndex ((squashPlan fiveFrame [fiveRows, fiveBehind]).removes + 0) := by
    rw [groups]
    exact .swap le_rfl swaps .done
  rw [plan] at squashing
  exact .ran (by decide) squashing

/-- The first call folds the two segments, and the calls behind it rest. -/
theorem squash_converges_of_two :
    (∀ removed after, SquashCall "a" 10 fiveIndex (some removed) after → 1 ≤ removed) ∧
      SquashCall "a" 10 fiveIndex (some 1) foldedIndex ∧
      SquashCall "a" 10 foldedIndex none foldedIndex ∧
      ∃ call ≤ 2, (fun call : Nat => if call = 0 then some 1 else none) call = none := by
  have accounted : Accounted "a" fiveIndex := ⟨by decide, by decide⟩
  have free : ¬Stuck (max 10 1) (fiveIndex.rows "a") := by decide
  have rests : SquashCall "a" 10 foldedIndex none foldedIndex := .held (by decide)
  have rest_free : ¬Stuck (max 10 1) (foldedIndex.rows "a") := by decide
  have converges := squash_converges_iff "a" 10
  refine ⟨(converges.1 _ accounted).mpr free, squashCall_fiveRows, rests, (converges.2.1
    (fun call => if call = 0 then fiveIndex else foldedIndex) _ accounted fun call => ?_).1
      fun call => ?_⟩
  · cases call with
    | zero => exact squashCall_fiveRows
    | succ call => exact rests
  · cases call with
    | zero => exact free
    | succ call => exact rest_free

end WeftDb
