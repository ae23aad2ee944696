import Mathlib.Data.List.Dedup
import Mathlib.Data.List.TakeWhile
import WeftDb.Segment.Frame

/-!
# Merging and cutting segments

Maintenance folds the rows of several segments, oldest first, into one run sorted by time.  At an
instant which two of them share, the whole run of the newer one supersedes the older one's.  The
stretches of sorted rows between some timestamps hold the rows in order, and each ends before the
next begins.
-/

namespace WeftDb

/-- One row: its instant, and its value unless it is null. -/
abbrev Row := Int × Option BigDecimal

variable {Value : Type*} {rows : List Row} {state : List Row × List (List Row)}
  {older newer : List (Int × Value)}

/-- Merge two runs sorted by time, the newer winning at a shared instant. -/
def mergeNewerWins (older newer : List (Int × Value)) : List (Int × Value) :=
  match older, newer with
  | [], newer => newer
  | older, [] => older
  | left :: older, right :: newer =>
      if left.1 < right.1 then
        left :: mergeNewerWins older (right :: newer)
      else if right.1 < left.1 then
        right :: mergeNewerWins (left :: older) newer
      else
        (right :: newer).takeWhile (fun row => row.1 = left.1) ++
          mergeNewerWins (older.dropWhile fun row => row.1 = left.1)
            (newer.dropWhile fun row => row.1 = left.1)
termination_by older.length + newer.length
decreasing_by
  all_goals simp only [List.length_cons]
  · omega
  · omega
  · have front : (older.dropWhile fun row => row.1 = left.1).length ≤ older.length :=
      (List.dropWhile_sublist _).length_le
    have back : (newer.dropWhile fun row => row.1 = left.1).length ≤ newer.length :=
      (List.dropWhile_sublist _).length_le
    omega

/-- A decoded frame. -/
structure DecodedFrame where
  rowsPerPage : Option Nat
  timestamps : List Int
  values : List (Option BigDecimal)

/-- The rows of a frame, sorted stably by time. -/
def DecodedFrame.sortedRows (frame : DecodedFrame) : List Row :=
  (frame.timestamps.zip frame.values).mergeSort fun left right => left.1 ≤ right.1

/-- Fold the members of a merge, oldest first. -/
def foldNewestWins (frames : List DecodedFrame) : List Row :=
  frames.foldl (fun merged frame => mergeNewerWins merged frame.sortedRows) []

/-- Whether rows are in time order. -/
def InTimeOrder (rows : List (Int × Value)) : Prop :=
  rows.Pairwise fun before after => before.1 ≤ after.1

theorem mem_mergeNewerWins {row : Int × Value} (member : row ∈ mergeNewerWins older newer) :
    row ∈ older ∨ row ∈ newer := by
  induction older, newer using mergeNewerWins.induct with
  | case1 newer =>
      rw [mergeNewerWins] at member
      exact .inr member
  | case2 older filled =>
      rw [mergeNewerWins] at member
      · exact .inl member
      · exact filled
  | case3 left older right newer below ih =>
      rw [mergeNewerWins, if_pos below] at member
      rcases List.mem_cons.mp member with rfl | behind
      · exact .inl List.mem_cons_self
      · exact (ih behind).imp_left (List.mem_cons_of_mem _)
  | case4 left older right newer not_below above ih =>
      rw [mergeNewerWins, if_neg not_below, if_pos above] at member
      rcases List.mem_cons.mp member with rfl | behind
      · exact .inr List.mem_cons_self
      · exact (ih behind).imp_right (List.mem_cons_of_mem _)
  | case5 left older right newer not_below not_above ih =>
      rw [mergeNewerWins, if_neg not_below, if_neg not_above] at member
      rcases List.mem_append.mp member with run | behind
      · exact .inr ((List.takeWhile_sublist _).subset run)
      · rcases ih behind with old | new
        · exact .inl (List.mem_cons_of_mem _ ((List.dropWhile_sublist _).subset old))
        · exact .inr (List.mem_cons_of_mem _ ((List.dropWhile_sublist _).subset new))

theorem inTimeOrder_mergeNewerWins (older_order : InTimeOrder older)
    (newer_order : InTimeOrder newer) : InTimeOrder (mergeNewerWins older newer) := by
  induction older, newer using mergeNewerWins.induct with
  | case1 newer => rwa [mergeNewerWins]
  | case2 older filled =>
      rw [mergeNewerWins]
      · exact older_order
      · exact filled
  | case3 left older right newer below ih =>
      rw [mergeNewerWins, if_pos below]
      obtain ⟨first, later⟩ := List.pairwise_cons.mp older_order
      refine .cons (fun row member => ?_) (ih later newer_order)
      rcases mem_mergeNewerWins member with old | new
      · exact first row old
      · rcases List.mem_cons.mp new with rfl | behind
        · exact below.le
        · exact below.le.trans ((List.pairwise_cons.mp newer_order).1 row behind)
  | case4 left older right newer not_below above ih =>
      rw [mergeNewerWins, if_neg not_below, if_pos above]
      obtain ⟨first, later⟩ := List.pairwise_cons.mp newer_order
      refine .cons (fun row member => ?_) (ih older_order later)
      rcases mem_mergeNewerWins member with old | new
      · rcases List.mem_cons.mp old with rfl | behind
        · exact above.le
        · exact above.le.trans ((List.pairwise_cons.mp older_order).1 row behind)
      · exact first row new
  | case5 left older right newer not_below not_above ih =>
      rw [mergeNewerWins, if_neg not_below, if_neg not_above]
      obtain ⟨old_first, old_later⟩ := List.pairwise_cons.mp older_order
      obtain ⟨new_first, new_later⟩ := List.pairwise_cons.mp newer_order
      have same : left.1 = right.1 := le_antisymm (not_lt.mp not_above) (not_lt.mp not_below)
      refine List.pairwise_append.mpr ⟨newer_order.sublist (List.takeWhile_sublist _),
        ih (old_later.sublist (List.dropWhile_sublist _))
          (new_later.sublist (List.dropWhile_sublist _)), ?_⟩
      -- The run of the newer one is at the shared instant, and all else is later.
      intro row run other behind
      have here : row.1 = left.1 := by simpa using List.mem_takeWhile_imp run
      rw [here]
      rcases mem_mergeNewerWins behind with old | new
      · exact old_first other ((List.dropWhile_sublist _).subset old)
      · exact same.le.trans (new_first other ((List.dropWhile_sublist _).subset new))

theorem inTimeOrder_sortedRows (frame : DecodedFrame) : InTimeOrder frame.sortedRows := by
  have sorted := @List.pairwise_mergeSort Row (fun left right => decide (left.1 ≤ right.1))
    (fun _ _ _ first second => decide_eq_true
      ((of_decide_eq_true first).trans (of_decide_eq_true second)))
    (fun left right => by simpa using le_total left.1 right.1)
    (frame.timestamps.zip frame.values)
  exact sorted.imp of_decide_eq_true

theorem timestamp_of_mem_sortedRows {frame : DecodedFrame} {row : Row}
    (member : row ∈ frame.sortedRows) : row.1 ∈ frame.timestamps := by
  rw [DecodedFrame.sortedRows, List.mem_mergeSort] at member
  exact (List.of_mem_zip member).1

theorem foldNewestWins_spec (frames : List DecodedFrame) :
    InTimeOrder (foldNewestWins frames) ∧
      ∀ row ∈ foldNewestWins frames, ∃ frame ∈ frames, row.1 ∈ frame.timestamps := by
  suffices folded : ∀ merged : List Row, InTimeOrder merged →
      InTimeOrder (frames.foldl (fun merged frame => mergeNewerWins merged frame.sortedRows)
        merged) ∧
      ∀ row ∈ frames.foldl (fun merged frame => mergeNewerWins merged frame.sortedRows) merged,
        row ∈ merged ∨ ∃ frame ∈ frames, row.1 ∈ frame.timestamps by
    obtain ⟨sorted, held⟩ := folded [] .nil
    exact ⟨sorted, fun row member => (held row member).resolve_left List.not_mem_nil⟩
  induction frames with
  | nil => exact fun merged sorted => ⟨sorted, fun row member => .inl member⟩
  | cons frame frames ih =>
      intro merged sorted
      obtain ⟨later_sorted, held⟩ := ih (mergeNewerWins merged frame.sortedRows)
        (inTimeOrder_mergeNewerWins sorted (inTimeOrder_sortedRows frame))
      refine ⟨later_sorted, fun row member => ?_⟩
      rcases held row member with now | ⟨other, inside, found⟩
      · rcases mem_mergeNewerWins now with old | new
        · exact .inl old
        · exact .inr ⟨frame, List.mem_cons_self, timestamp_of_mem_sortedRows new⟩
      · exact .inr ⟨other, List.mem_cons_of_mem _ inside, found⟩

/-- Rows per page of a merge's output, once it holds more than one page. -/
def mergeRowsPerPageHeight : Nat := 4096

/-- The frame kind of a merge of `rows` rows. -/
def mergeRowsPerPage (rows : Nat) : Option Nat :=
  if mergeRowsPerPageHeight < rows then some mergeRowsPerPageHeight else none

/-- Cut sorted rows into the stretches between the timestamps `cuts`.  A stretch without rows is
dropped, but one always remains. -/
def cutRows (rows : List Row) (cuts : List Int) : List (List Row) :=
  let split (state : List Row × List (List Row)) (cut : Int) :=
    let tail := state.1.dropWhile (fun row => row.1 < cut)
    (state.1.takeWhile (fun row => row.1 < cut), if tail.isEmpty then state.2 else tail :: state.2)
  let (front, outputs) := ((cuts.mergeSort (· ≤ ·)).dedup.reverse).foldl split (rows, [])
  if front.isEmpty && !outputs.isEmpty then outputs else front :: outputs

/-- Whether every row of one stretch is earlier than every row of another. -/
def Earlier (first second : List Row) : Prop :=
  ∀ row ∈ first, ∀ other ∈ second, row.1 < other.1

/-- Take the rows from a timestamp on off the front. -/
def carve (state : List Row × List (List Row)) (cut : Int) : List Row × List (List Row) :=
  let tail := state.1.dropWhile fun row => row.1 < cut
  (state.1.takeWhile fun row => row.1 < cut, if tail.isEmpty then state.2 else tail :: state.2)

theorem cutRows_eq (rows : List Row) (cuts : List Int) :
    cutRows rows cuts =
      let carved := ((cuts.mergeSort (· ≤ ·)).dedup.reverse).foldl carve (rows, [])
      if carved.1.isEmpty && !carved.2.isEmpty then carved.2 else carved.1 :: carved.2 :=
  rfl

/-- Rows of which some stretches have been taken off. -/
structure Carved (rows : List Row) (state : List Row × List (List Row)) : Prop where
  whole : state.1 ++ state.2.flatten = rows
  filled : ∀ stretch ∈ state.2, stretch ≠ []
  ordered : (state.1 :: state.2).Pairwise Earlier

theorem earlier_takeWhile_dropWhile (sorted : rows.Pairwise fun before after => before.1 ≤ after.1)
    (cut : Int) :
    Earlier (rows.takeWhile fun row => row.1 < cut) (rows.dropWhile fun row => row.1 < cut) := by
  intro row taken other left
  have below : row.1 < cut := by simpa using List.mem_takeWhile_imp taken
  refine below.trans_le ?_
  cases rest : rows.dropWhile fun row => row.1 < cut with
  | nil =>
      rw [rest] at left
      cases left
  | cons first later =>
      have reached : cut ≤ first.1 := by
        have head := List.head_dropWhile_not (fun row : Row => decide (row.1 < cut))
          (l := rows) (by simp [rest])
        simpa [rest] using head
      have tail := sorted.sublist (List.dropWhile_sublist fun row : Row => decide (row.1 < cut))
      rw [rest] at tail left
      rcases List.mem_cons.mp left with rfl | behind
      · exact reached
      · exact reached.trans ((List.pairwise_cons.mp tail).1 other behind)

theorem Carved.carve (carved : Carved rows state)
    (sorted : rows.Pairwise fun before after => before.1 ≤ after.1) (cut : Int) :
    Carved rows (carve state cut) := by
  obtain ⟨front, stretches⟩ := state
  have split : (front.takeWhile fun row => row.1 < cut) ++
      (front.dropWhile fun row => row.1 < cut) = front := List.takeWhile_append_dropWhile
  have front_sorted : front.Pairwise fun before after => before.1 ≤ after.1 := by
    have whole := carved.whole ▸ sorted
    exact (List.pairwise_append.mp whole).1
  have cut_apart := earlier_takeWhile_dropWhile front_sorted cut
  obtain ⟨before, apart⟩ := List.pairwise_cons.mp carved.ordered
  have shorter : ∀ part : List Row, part.Sublist front → ∀ stretch ∈ stretches,
      Earlier part stretch :=
    fun part inside stretch member row held => before stretch member row (inside.subset held)
  unfold WeftDb.carve
  simp only
  split
  · rename_i empty
    have none_left := List.isEmpty_iff.mp empty
    rw [none_left, List.append_nil] at split
    exact ⟨split.symm ▸ carved.whole, carved.filled,
      .cons (shorter _ (List.takeWhile_sublist _)) apart⟩
  · rename_i some_left
    refine ⟨?_, List.forall_mem_cons.mpr ⟨fun none_left => some_left (by simp [none_left]),
      carved.filled⟩, ?_⟩
    · rw [List.flatten_cons, ← List.append_assoc, split]
      exact carved.whole
    · exact .cons (List.forall_mem_cons.mpr ⟨cut_apart, shorter _ (List.takeWhile_sublist _)⟩)
        (.cons (shorter _ (List.dropWhile_sublist _)) apart)

theorem carved_foldl (sorted : rows.Pairwise fun before after => before.1 ≤ after.1)
    (cuts : List Int) (carved : Carved rows state) : Carved rows (cuts.foldl carve state) := by
  induction cuts generalizing state with
  | nil => exact carved
  | cons cut cuts ih => exact ih (carved.carve sorted cut)

theorem length_foldl_carve (cuts : List Int) (state : List Row × List (List Row)) :
    (cuts.foldl carve state).2.length ≤ state.2.length + cuts.length := by
  induction cuts generalizing state with
  | nil => exact Nat.le_refl _
  | cons cut cuts ih =>
      refine (ih (carve state cut)).trans ?_
      unfold carve
      simp only
      split
      · rw [List.length_cons]
        omega
      · rw [List.length_cons, List.length_cons]
        omega

theorem length_cutRows_le (rows : List Row) (cuts : List Int) :
    (cutRows rows cuts).length ≤ cuts.length + 1 := by
  have shorter : (cuts.mergeSort (· ≤ ·)).dedup.reverse.length ≤ cuts.length := by
    rw [List.length_reverse]
    exact (List.dedup_sublist _).length_le.trans (List.length_mergeSort _).le
  have carved := length_foldl_carve ((cuts.mergeSort (· ≤ ·)).dedup.reverse) (rows, [])
  rw [cutRows_eq]
  simp only [List.length_nil, Nat.zero_add] at carved ⊢
  split
  · omega
  · rw [List.length_cons]
    omega

theorem cutRows_spec (sorted : rows.Pairwise fun before after => before.1 ≤ after.1)
    (cuts : List Int) :
    cutRows rows cuts ≠ [] ∧ (cutRows rows cuts).flatten = rows ∧
      (cutRows rows cuts).Pairwise Earlier ∧
      (rows ≠ [] → ∀ stretch ∈ cutRows rows cuts, stretch ≠ []) := by
  have start : Carved rows (rows, []) :=
    ⟨List.append_nil _, List.forall_mem_nil _, List.pairwise_singleton _ _⟩
  have carved := carved_foldl sorted ((cuts.mergeSort (· ≤ ·)).dedup.reverse) start
  rw [cutRows_eq]
  simp only
  generalize List.foldl WeftDb.carve (rows, []) _ = state at carved
  obtain ⟨front, stretches⟩ := state
  split
  · rename_i dropped
    obtain ⟨empty, some_left⟩ := Bool.and_eq_true_iff.mp dropped
    obtain rfl := List.isEmpty_iff.mp empty
    exact ⟨by simpa using some_left, carved.whole,
      (List.pairwise_cons.mp carved.ordered).2, fun _ => carved.filled⟩
  · rename_i held
    refine ⟨List.cons_ne_nil _ _, carved.whole, carved.ordered, fun filled =>
      List.forall_mem_cons.mpr ⟨fun empty => ?_, carved.filled⟩⟩
    subst empty
    cases stretches with
    | nil => exact filled carved.whole.symm
    | cons stretch stretches => exact held rfl

end WeftDb
