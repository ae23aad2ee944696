import WeftDb.Physical.Segment

/-!
# Point lookups

The search which a header chooses finds the first present value of an instant, in row order, whether
the rows are sorted or not.
-/

namespace WeftDb.Physical

variable {decimals : Decimals} {timestamps : List Int} {values : List (Option BigDecimal)}
  {tolerance : BigDecimal} {instant start stop : Int}

/-- The first value which is present, in row order, among the rows of an instant. -/
def firstPresentAt (instant : Int) (rows : List (Int × Option BigDecimal)) : Option BigDecimal :=
  rows.findSome? fun row => if row.1 = instant then row.2 else none

theorem firstPresentAt_eq_none {rows : List (Int × Option BigDecimal)}
    (apart : ∀ row ∈ rows, row.1 ≠ instant) : firstPresentAt instant rows = none :=
  List.findSome?_eq_none_iff.mpr fun row member => if_neg (apart row member)

theorem firstOfRun_eq {rows : List (Int × Option BigDecimal)}
    (sorted : rows.Pairwise fun before after => before.1 ≤ after.1)
    (late : ∀ row ∈ rows, instant ≤ row.1) :
    firstOfRun instant rows = firstPresentAt instant rows := by
  induction rows with
  | nil => rfl
  | cons row rows ih =>
      obtain ⟨timestamp, value⟩ := row
      obtain ⟨least, later⟩ := List.pairwise_cons.mp sorted
      obtain ⟨reached, others⟩ := List.forall_mem_cons.mp late
      by_cases here : timestamp = instant
      · simp only [firstOfRun, firstPresentAt, List.findSome?_cons, if_pos here]
        cases value with
        | none => exact ih later others
        | some value => rfl
      · simp only [firstOfRun, if_neg here]
        refine (firstPresentAt_eq_none (List.forall_mem_cons.mpr ⟨here, ?_⟩)).symm
        intro row member same
        exact here (le_antisymm (same ▸ least row member) reached)

theorem pairwise_zip (values : List (Option BigDecimal)) (sorted : timestamps.Pairwise (· ≤ ·)) :
    (timestamps.zip values).Pairwise fun before after => before.1 ≤ after.1 := by
  induction timestamps generalizing values with
  | nil => exact .nil
  | cons first timestamps ih =>
      cases values with
      | nil => exact .nil
      | cons value values =>
          obtain ⟨least, later⟩ := List.pairwise_cons.mp sorted
          exact .cons (fun row member => least _ (List.of_mem_zip member).1) (ih values later)

theorem firstOfRun_drop (values : List (Option BigDecimal)) (sorted : timestamps.Pairwise (· ≤ ·)) :
    firstOfRun instant
        ((timestamps.zip values).drop (timestamps.takeWhile (· < instant)).length) =
      firstPresentAt instant (timestamps.zip values) := by
  induction timestamps generalizing values with
  | nil => rfl
  | cons first timestamps ih =>
      cases values with
      | nil => simp [firstOfRun, firstPresentAt]
      | cons value values =>
          obtain ⟨least, later⟩ := List.pairwise_cons.mp sorted
          by_cases early : first < instant
          · rw [List.takeWhile_cons_of_pos (by simpa using early), List.length_cons,
              List.zip_cons_cons, List.drop_succ_cons, ih values later, firstPresentAt,
              firstPresentAt, List.findSome?_cons, if_neg early.ne]
          · rw [List.takeWhile_cons_of_neg (by simpa using early), List.length_nil,
              List.drop_zero]
            refine firstOfRun_eq ?_ fun row member => ?_
            · exact pairwise_zip _ sorted
            · have inside := (List.of_mem_zip member).1
              rcases List.mem_cons.mp inside with same | after
              · exact same ▸ not_lt.mp early
              · exact (not_lt.mp early).trans (least _ after)

theorem pointLookup_eq {sorted : Bool}
    (ordered : sorted = true → timestamps.Pairwise (· ≤ ·)) :
    pointLookup timestamps values sorted instant =
      firstPresentAt instant (timestamps.zip values) := by
  unfold pointLookup
  split
  · exact firstOfRun_drop values (ordered ‹_›)
  · rfl

theorem pairwise_of_timeSorted
    (sorted : ((timestamps.zip timestamps.tail).all fun step => step.1 ≤ step.2) = true) :
    timestamps.Pairwise (· ≤ ·) := by
  refine List.isChain_iff_pairwise.mp ?_
  induction timestamps with
  | nil => exact .nil
  | cons first timestamps ih =>
      cases timestamps with
      | nil => exact .singleton _
      | cons second timestamps =>
          rw [List.tail_cons, List.zip_cons_cons, List.all_cons, Bool.and_eq_true] at sorted
          exact .cons_cons (of_decide_eq_true sorted.1) (ih sorted.2)

namespace Page

theorem outside_of_overlapsTime
    (apart : (buildNullable timestamps values tolerance : Page decimals).overlapsTime start stop =
      false)
    {timestamp : Int} (member : timestamp ∈ timestamps) :
    ¬(start ≤ timestamp ∧ timestamp ≤ stop) := by
  have nonempty : timestamps ≠ [] := List.ne_nil_of_mem member
  have low := List.min?_eq_some_min nonempty
  have high := List.max?_eq_some_max nonempty
  have least := (List.min?_eq_some_iff.mp low).2 timestamp member
  have greatest := (List.max?_eq_some_iff.mp high).2 timestamp member
  simp only [overlapsTime, timeRange, buildNullable, SegmentStats.fromColumnsNullable, low, high,
    Bool.and_eq_false_iff, decide_eq_false_iff_not] at apart
  omega

/-- The rows of a page. -/
def rows (page : Page decimals) : List (Int × Option BigDecimal) :=
  page.decodeNullable.1.zip page.decodeNullable.2

theorem valueAt_buildNullable (fits : ∀ timestamp ∈ timestamps, Word64.Fits timestamp)
    (instant : Int) :
    (buildNullable timestamps values tolerance : Page decimals).valueAt instant =
      firstPresentAt instant
        (buildNullable timestamps values tolerance : Page decimals).rows := by
  have times : (buildNullable timestamps values tolerance : Page decimals).decodeNullable.1 =
      timestamps := decodeTimestamps_buildNullable fits
  unfold valueAt
  split
  · refine pointLookup_eq fun sorted => ?_
    rw [times]
    exact pairwise_of_timeSorted sorted
  · rename_i apart
    refine (firstPresentAt_eq_none fun row member same => ?_).symm
    have inside := (List.of_mem_zip member).1
    rw [times] at inside
    exact outside_of_overlapsTime (eq_false_of_ne_true apart) inside ⟨same.ge, same.le⟩

end Page

theorem Segment.valueAt_eq (segment : Segment decimals) (instant : Int) :
    segment.valueAt instant = segment.toPage.valueAt instant :=
  rfl

end WeftDb.Physical
