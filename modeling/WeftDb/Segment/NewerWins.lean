import Mathlib.Data.List.Induction
import WeftDb.Foundation.PartitionPoint
import WeftDb.Foundation.StableOrder
import WeftDb.Segment.Merge

/-!
# Which rows a merge keeps

At each instant a merge keeps the newer side's whole run, if it has one, and otherwise the older
side's.  A split at an instant cuts sorted rows into those before it and the rest.
-/

namespace WeftDb

section

variable {Value : Type*}
variable {row : Int × Value} {instant : Int} {rows older newer : List (Int × Value)}

/-- The number of sorted timestamps before `lateMin`. -/
def splitIndex (existing : List Int) (lateMin : Int) : Nat :=
  partitionPoint (fun timestamp => timestamp < lateMin) existing

/-- The rows at an instant, in order. -/
def runAt (rows : List (Int × Value)) (instant : Int) : List (Int × Value) :=
  rows.filter fun row => row.1 = instant

@[simp] theorem runAt_nil (instant : Int) : runAt ([] : List (Int × Value)) instant = [] :=
  rfl

@[simp] theorem runAt_append (front back : List (Int × Value)) (instant : Int) :
    runAt (front ++ back) instant = runAt front instant ++ runAt back instant :=
  List.filter_append ..

theorem runAt_cons_of_eq (here : row.1 = instant) (rows : List (Int × Value)) :
    runAt (row :: rows) instant = row :: runAt rows instant :=
  List.filter_cons_of_pos (by simpa using here)

theorem runAt_cons_of_ne (elsewhere : row.1 ≠ instant) (rows : List (Int × Value)) :
    runAt (row :: rows) instant = runAt rows instant :=
  List.filter_cons_of_neg (by simpa using elsewhere)

theorem runAt_eq_nil (after : ∀ row ∈ rows, instant < row.1) : runAt rows instant = [] := by
  rw [runAt, List.filter_eq_nil_iff]
  intro row member
  have later := after row member
  simpa using later.ne'

theorem lt_of_mem_dropWhile (sorted : InTimeOrder rows) (reached : ∀ row ∈ rows, instant ≤ row.1)
    (member : row ∈ rows.dropWhile fun row => row.1 = instant) : instant < row.1 := by
  induction rows with
  | nil => cases member
  | cons head tail ih =>
      obtain ⟨first, later⟩ := List.pairwise_cons.mp sorted
      by_cases here : head.1 = instant
      · rw [List.dropWhile_cons_of_pos (by simpa using here)] at member
        exact ih later (fun row inside => reached row (List.mem_cons_of_mem _ inside)) member
      · rw [List.dropWhile_cons_of_neg (by simpa using here)] at member
        have above : instant < head.1 :=
          lt_of_le_of_ne (reached head List.mem_cons_self) (Ne.symm here)
        rcases List.mem_cons.mp member with rfl | behind
        · exact above
        · exact above.trans_le (first row behind)

theorem runAt_first (sorted : InTimeOrder rows) (reached : ∀ row ∈ rows, instant ≤ row.1) :
    runAt rows instant = rows.takeWhile fun row => row.1 = instant := by
  have parts := List.takeWhile_append_dropWhile (p := fun row : Int × Value => row.1 = instant)
    (l := rows)
  have behind : runAt (rows.dropWhile fun row => row.1 = instant) instant = [] :=
    runAt_eq_nil fun row member => lt_of_mem_dropWhile sorted reached member
  calc runAt rows instant
      = runAt ((rows.takeWhile fun row => row.1 = instant) ++
          rows.dropWhile fun row => row.1 = instant) instant := by rw [parts]
    _ = runAt (rows.takeWhile fun row => row.1 = instant) instant := by
          rw [runAt_append, behind, List.append_nil]
    _ = rows.takeWhile fun row => row.1 = instant :=
          List.filter_eq_self.mpr fun row member => by
            simpa using List.mem_takeWhile_imp member

theorem runAt_dropWhile_of_ne {other : Int} (apart : other ≠ instant) (rows : List (Int × Value)) :
    runAt (rows.dropWhile fun row => row.1 = instant) other = runAt rows other := by
  induction rows with
  | nil => rfl
  | cons head tail ih =>
      by_cases here : head.1 = instant
      · rw [List.dropWhile_cons_of_pos (by simpa using here), ih,
          runAt_cons_of_ne (fun same => apart (same.symm.trans here))]
      · rw [List.dropWhile_cons_of_neg (by simpa using here)]

/-- The run of one of two sides at an instant. -/
def newerRun (older newer : List (Int × Value)) (instant : Int) : List (Int × Value) :=
  if (runAt newer instant).isEmpty then runAt older instant else runAt newer instant

theorem newerRun_of_nil (missing : runAt newer instant = []) :
    newerRun older newer instant = runAt older instant := by
  rw [newerRun, missing, List.isEmpty_nil, if_pos rfl]

theorem newerRun_of_older_nil (missing : runAt older instant = []) :
    newerRun older newer instant = runAt newer instant := by
  rw [newerRun, missing]
  split
  · rename_i empty
    exact (List.isEmpty_iff.mp empty).symm
  · rfl

/-- At each instant a merge of sorted sides has the newer side's run, or else the older's. -/
theorem runAt_mergeNewerWins (older_order : InTimeOrder older) (newer_order : InTimeOrder newer)
    (instant : Int) :
    runAt (mergeNewerWins older newer) instant = newerRun older newer instant := by
  induction older, newer using mergeNewerWins.induct with
  | case1 newer =>
      rw [mergeNewerWins, newerRun_of_older_nil (runAt_nil instant)]
  | case2 older filled =>
      rw [mergeNewerWins, newerRun_of_nil (runAt_nil instant)]
      exact filled
  | case3 left older right newer below ih =>
      obtain ⟨-, later⟩ := List.pairwise_cons.mp older_order
      have newer_after : ∀ row ∈ right :: newer, left.1 < row.1 := by
        intro row member
        rcases List.mem_cons.mp member with rfl | behind
        · exact below
        · exact below.trans_le ((List.pairwise_cons.mp newer_order).1 row behind)
      have rest := ih later newer_order
      rw [mergeNewerWins, if_pos below]
      by_cases here : left.1 = instant
      · have missing := runAt_eq_nil (here ▸ newer_after)
        rw [runAt_cons_of_eq here, rest, newerRun_of_nil missing, newerRun_of_nil missing,
          runAt_cons_of_eq here]
      · rw [runAt_cons_of_ne here, rest, newerRun, newerRun, runAt_cons_of_ne here]
  | case4 left older right newer not_below above ih =>
      obtain ⟨-, later⟩ := List.pairwise_cons.mp newer_order
      have older_after : ∀ row ∈ left :: older, right.1 < row.1 := by
        intro row member
        rcases List.mem_cons.mp member with rfl | behind
        · exact above
        · exact above.trans_le ((List.pairwise_cons.mp older_order).1 row behind)
      have rest := ih older_order later
      rw [mergeNewerWins, if_neg not_below, if_pos above]
      by_cases here : right.1 = instant
      · have missing := runAt_eq_nil (here ▸ older_after)
        rw [runAt_cons_of_eq here, rest, newerRun_of_older_nil missing,
          newerRun_of_older_nil missing, runAt_cons_of_eq here]
      · rw [runAt_cons_of_ne here, rest, newerRun, newerRun, runAt_cons_of_ne here]
  | case5 left older right newer not_below not_above ih =>
      have same : right.1 = left.1 := le_antisymm (not_lt.mp not_below) (not_lt.mp not_above)
      obtain ⟨old_first, old_later⟩ := List.pairwise_cons.mp older_order
      obtain ⟨new_first, new_later⟩ := List.pairwise_cons.mp newer_order
      have newer_reached : ∀ row ∈ right :: newer, left.1 ≤ row.1 := by
        intro row member
        rcases List.mem_cons.mp member with rfl | behind
        · exact same.ge
        · exact same.ge.trans (new_first row behind)
      have rest := ih (old_later.sublist (List.dropWhile_sublist _))
        (new_later.sublist (List.dropWhile_sublist _))
      rw [mergeNewerWins, if_neg not_below, if_neg not_above, runAt_append, rest,
        ← runAt_first newer_order newer_reached]
      by_cases here : left.1 = instant
      · subst here
        -- Both sides drop their runs, so the newer one's is all there is.
        have old_gone : runAt (older.dropWhile fun row => row.1 = left.1) left.1 = [] :=
          runAt_eq_nil fun row member => lt_of_mem_dropWhile old_later old_first member
        have new_gone : runAt (newer.dropWhile fun row => row.1 = left.1) left.1 = [] :=
          runAt_eq_nil fun row member => lt_of_mem_dropWhile new_later
            (fun row inside => newer_reached row (List.mem_cons_of_mem _ inside)) member
        have filled : runAt (right :: newer) left.1 = right :: runAt newer left.1 :=
          runAt_cons_of_eq same newer
        rw [newerRun_of_nil new_gone, old_gone, newerRun, filled, runAt, List.filter_eq_self.mpr,
          List.append_nil, List.isEmpty_cons, if_neg Bool.false_ne_true]
        intro row member
        rw [← filled] at member
        exact (List.mem_filter.mp member).2
      · have elsewhere : runAt (runAt (right :: newer) left.1) instant = [] := by
          rw [runAt, List.filter_eq_nil_iff]
          intro row member
          have at_left : row.1 = left.1 := by simpa using (List.mem_filter.mp member).2
          simpa [at_left] using here
        rw [elsewhere, List.nil_append, newerRun, newerRun, runAt_dropWhile_of_ne (Ne.symm here),
          runAt_dropWhile_of_ne (Ne.symm here), runAt_cons_of_ne here,
          runAt_cons_of_ne (fun equal => here (same.symm.trans equal))]

theorem split_at_splitIndex (sorted : InTimeOrder rows) (instant : Int) :
    rows.take (splitIndex (rows.map Prod.fst) instant) = rows.filter (fun row => row.1 < instant) ∧
      rows.drop (splitIndex (rows.map Prod.fst) instant) =
        rows.filter fun row => instant ≤ row.1 := by
  have cut : CutBy (fun row : Int × Value => decide (row.1 < instant)) rows :=
    CutBy.of_sorted sorted instant
  have timestamps_cut : CutBy (fun timestamp => decide (timestamp < instant))
      (rows.map Prod.fst) := List.pairwise_map.mpr cut
  have same : splitIndex (rows.map Prod.fst) instant =
      partitionPoint (fun row : Int × Value => decide (row.1 < instant)) rows := by
    rw [splitIndex, partitionPoint_eq timestamps_cut, partitionPoint_eq cut, List.takeWhile_map,
      List.length_map]
    rfl
  rw [same]
  refine ⟨take_partitionPoint cut, (drop_partitionPoint cut).trans ?_⟩
  refine List.filter_congr fun row member => ?_
  rw [← decide_not]
  exact decide_eq_decide.mpr not_lt

/-- A merge of sorted sides is sorted and has one side's whole run at each instant, and a split of
sorted rows has those before the instant in front of the rest. -/
theorem mergeNewerWins_one_side {older newer : List (Int × Value)}
    (older_order : InTimeOrder older) (newer_order : InTimeOrder newer) (instant : Int) :
    InTimeOrder (mergeNewerWins older newer) ∧
      (mergeNewerWins older newer).filter (fun row => row.1 = instant) =
        (if newer.any fun row => row.1 = instant then newer.filter fun row => row.1 = instant
         else older.filter fun row => row.1 = instant) ∧
      older.take (splitIndex (older.map Prod.fst) instant) =
        older.filter (fun row => row.1 < instant) ∧
      older.drop (splitIndex (older.map Prod.fst) instant) =
        older.filter fun row => instant ≤ row.1 := by
  have run := runAt_mergeNewerWins older_order newer_order instant
  refine ⟨inTimeOrder_mergeNewerWins older_order newer_order, ?_,
    split_at_splitIndex older_order instant⟩
  rw [runAt, newerRun] at run
  rw [run]
  by_cases held : newer.any fun row => row.1 = instant
  · rw [if_pos held, if_neg]
    · rfl
    · obtain ⟨row, member, here⟩ := List.any_eq_true.mp held
      exact fun empty => (List.filter_eq_nil_iff.mp (List.isEmpty_iff.mp empty)) row member here
  · rw [if_neg held, if_pos]
    · rfl
    · refine List.isEmpty_iff.mpr (List.filter_eq_nil_iff.mpr fun row member here => held ?_)
      exact List.any_eq_true.mpr ⟨row, member, here⟩

/-- Two runs at one instant, of which the newer side's stands. -/
theorem mergeNewerWins_one_side_runs :
    InTimeOrder (mergeNewerWins [(1, 10), (2, 20), (2, 21)] [(2, 30), (2, 31), (2, 32), (4, 40)]) ∧
      (mergeNewerWins [(1, 10), (2, 20), (2, 21)] [(2, 30), (2, 31), (2, 32), (4, 40)]).filter
        (fun row => row.1 = 2) = [((2 : Int), 30), (2, 31), (2, 32)] := by
  have older_order : InTimeOrder [((1 : Int), 10), (2, 20), (2, 21)] := by simp [InTimeOrder]
  have newer_order : InTimeOrder [((2 : Int), 30), (2, 31), (2, 32), (4, 40)] := by
    simp [InTimeOrder]
  have kept := mergeNewerWins_one_side older_order newer_order 2
  exact ⟨kept.1, kept.2.1.trans (by decide)⟩

end

theorem runAt_sortedRows (frame : DecodedFrame) (instant : Int) :
    runAt frame.sortedRows instant = runAt (frame.timestamps.zip frame.values) instant :=
  StableOrder.within_sortBy Prod.fst (frame.timestamps.zip frame.values) instant

/-- A fold has at each instant the run of its newest member with one there, in the order in which
that member holds it. -/
theorem runAt_foldNewestWins (frames : List DecodedFrame) (instant : Int) :
    runAt (foldNewestWins frames) instant =
      ((frames.reverse.map fun frame => runAt (frame.timestamps.zip frame.values) instant).find?
        fun run => !run.isEmpty).getD [] := by
  induction frames using List.reverseRecOn with
  | nil => rfl
  | append_singleton frames frame ih =>
      have folded : foldNewestWins (frames ++ [frame]) =
          mergeNewerWins (foldNewestWins frames) frame.sortedRows := by
        rw [foldNewestWins, List.foldl_append]
        rfl
      rw [folded, runAt_mergeNewerWins (foldNewestWins_spec frames).1
        (inTimeOrder_sortedRows frame), newerRun, ih, List.reverse_append, List.reverse_singleton,
        List.singleton_append, List.map_cons, runAt_sortedRows]
      by_cases missing : (runAt (frame.timestamps.zip frame.values) instant).isEmpty
      · rw [if_pos missing, List.find?_cons_of_neg (by simp [missing])]
      · rw [if_neg missing, List.find?_cons_of_pos (by simp [missing]), Option.getD_some]

end WeftDb
