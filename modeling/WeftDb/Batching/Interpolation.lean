import Mathlib
import WeftDb.Batching.AnalyzeRange
import WeftDb.Batching.ChangeSound

/-!
# Points of the grid and the batches cut out of them

A point depends on the rows next before and next after it which its chunk reads.  With a row stored
at the end of the range, and one in the range by the point, those are the rows next to it among all
rows.  So the windows cut out of a range, or out of the whole one, are the same batches, and a batch
depends on no row after its window.
-/

namespace WeftDb.Outputs

variable {Value : Type} {rows : List (Point Value)}

theorem sorted_inOrder (rows : List (Point Value)) :
    (inOrder rows).Pairwise fun left right => left.1 ≤ right.1 :=
  List.pairwise_insertionSort _ _

/-- Points in order which are kept are those up to an instant, and then those after it. -/
theorem filter_split {points : List (Point Value)}
    (sorted : points.Pairwise fun left right => left.1 ≤ right.1) (keep : Point Value → Bool)
    (instant : Int) :
    (points.filter fun point => keep point && decide (point.1 ≤ instant)) ++
      (points.filter fun point => keep point && decide (instant < point.1)) =
        points.filter keep := by
  induction points with
  | nil => rfl
  | cons point points ih =>
      obtain ⟨first, rest⟩ := List.pairwise_cons.mp sorted
      by_cases early : point.1 ≤ instant
      · rw [List.filter_cons, List.filter_cons, List.filter_cons, ← ih rest]
        by_cases kept : keep point <;> simp [kept, early]
      · have none_early : points.filter (fun point => keep point && decide (point.1 ≤ instant)) =
            [] := by
          refine List.filter_eq_nil_iff.mpr fun later member both => early ?_
          have below := of_decide_eq_true (Bool.and_eq_true_iff.mp both).2
          exact (first later member).trans below
        have split := ih rest
        rw [none_early, List.nil_append] at split
        rw [List.filter_cons_of_neg (by simp [early]), none_early, List.nil_append,
          List.filter_cons, List.filter_cons, split]
        simp [not_le.mp early]

theorem fetch_append {first middle last : Int} (from_first : first ≤ middle)
    (to_last : middle ≤ last) :
    fetchMeasurementsForChunk rows first middle ++
      ((fetchMeasurementsForChunk rows middle last).filter fun row => decide (middle < row.1)) =
        fetchMeasurementsForChunk rows first last := by
  have split := filter_split (sorted_inOrder rows)
    (fun row => decide (first ≤ row.1) && decide (row.1 ≤ last)) middle
  rw [fetchMeasurementsForChunk, fetchMeasurementsForChunk, List.filter_filter,
    fetchMeasurementsForChunk, ← split]
  congr 1
  · refine List.filter_congr fun row _ => ?_
    grind
  · refine List.filter_congr fun row _ => ?_
    grind

theorem append_fetch {first middle last : Int} (from_first : first ≤ middle)
    (to_last : middle ≤ last) :
    ((fetchMeasurementsForChunk rows first middle).filter fun row => decide (row.1 < middle)) ++
      fetchMeasurementsForChunk rows middle last = fetchMeasurementsForChunk rows first last := by
  have split := filter_split (sorted_inOrder rows)
    (fun row => decide (first ≤ row.1) && decide (row.1 ≤ last)) (middle - 1)
  rw [fetchMeasurementsForChunk, fetchMeasurementsForChunk, List.filter_filter,
    fetchMeasurementsForChunk, ← split]
  congr 1
  · refine List.filter_congr fun row _ => ?_
    grind
  · refine List.filter_congr fun row _ => ?_
    grind

theorem fetch_widenAfter (knots fuel after : Nat) {rangeEnd first low width : Int}
    (from_first : first ≤ low) (to_end : low ≤ rangeEnd) (positive : 0 < width) :
    ∃ last, low ≤ last ∧ fetchMeasurementsForChunk rows first low ++
      widenAfter rows knots rangeEnd fuel after low width =
        fetchMeasurementsForChunk rows first last := by
  induction fuel generalizing after low width with
  | zero => exact ⟨low, le_rfl, List.append_nil _⟩
  | succ fuel ih =>
      rw [widenAfter]
      split
      · obtain ⟨last, above, whole⟩ := ih
          (after + ((fetchMeasurementsForChunk rows low (min (low + width) rangeEnd)).filter
            fun row => decide (low < row.1)).length)
          (show first ≤ min (low + width) rangeEnd by omega) (by omega)
          (show 0 < width + width by omega)
        refine ⟨last, by omega, ?_⟩
        dsimp only
        rw [← List.append_assoc, fetch_append from_first (by omega), whole]
      · exact ⟨low, le_rfl, List.append_nil _⟩

theorem fetch_widenBefore (knots fuel before : Nat) {rangeStart last high width : Int}
    (to_last : high ≤ last) (from_start : rangeStart ≤ high)
    (positive : 0 < width) :
    ∃ first, first ≤ high ∧ widenBefore rows knots rangeStart fuel before high width ++
      fetchMeasurementsForChunk rows high last = fetchMeasurementsForChunk rows first last := by
  induction fuel generalizing before high width with
  | zero => exact ⟨high, le_rfl, List.nil_append _⟩
  | succ fuel ih =>
      rw [widenBefore]
      split
      · obtain ⟨first, below, whole⟩ := ih
          (before + ((fetchMeasurementsForChunk rows (max (high - width) rangeStart) high).filter
            fun row => decide (row.1 < high)).length)
          (show max (high - width) rangeStart ≤ last by omega) (by omega)
          (show 0 < width + width by omega)
        refine ⟨first, by omega, ?_⟩
        dsimp only
        rw [List.append_assoc, append_fetch (by omega) to_last, whole]
      · exact ⟨high, le_rfl, List.nil_append _⟩

theorem exists_mem_widenBefore {knots : Nat} {rangeStart : Int} {row : Point Value}
    (stored : row ∈ rows) (inside : rangeStart ≤ row.1) (fuel before : Nat) {high width : Int}
    (few : before < knots) (earlier : row.1 < high) (positive : 0 < width)
    (enough : (high - rangeStart).toNat ≤ fuel) :
    ∃ found ∈ widenBefore rows knots rangeStart fuel before high width,
      row.1 ≤ found.1 ∧ found.1 < high := by
  induction fuel generalizing before high width with
  | zero => omega
  | succ fuel ih =>
      rw [widenBefore, if_pos ⟨few, by omega⟩]
      simp only [List.mem_append]
      by_cases reached : max (high - width) rangeStart ≤ row.1
      · refine ⟨row, .inr (List.mem_filter.mpr ⟨mem_fetch.mpr ⟨stored, reached, earlier.le⟩, ?_⟩),
          le_rfl, earlier⟩
        exact decide_eq_true earlier
      · generalize found : (fetchMeasurementsForChunk rows (max (high - width) rangeStart) high).filter
          (fun row => decide (row.1 < high)) = more
        cases more with
        | nil =>
            obtain ⟨next, member, above, below⟩ :=
              ih (before + 0) few (not_le.mp reached) (by omega : 0 < width + width) (by omega)
            exact ⟨next, .inl (by simpa using member), above, by omega⟩
        | cons next others =>
            have member : next ∈ next :: others := List.mem_cons_self
            rw [← found] at member
            obtain ⟨fetched, below⟩ := List.mem_filter.mp member
            refine ⟨next, .inr List.mem_cons_self, ?_, of_decide_eq_true below⟩
            exact (not_le.mp reached).le.trans (mem_fetch.mp fetched).2.1

section Chunk

variable (method : Interpolator Value) {stepMillis : Int} {range chunk : Int × Int} (span : Int)

/-- The rows of a chunk hold the row next before each of its instants. -/
theorem exists_mem_before (positive : 0 ≤ stepMillis) (ends : chunk.2 ≤ range.2) {row : Point Value}
    (stored : row ∈ rows) (inside : range.1 ≤ row.1) {instant : Int} (from_start : chunk.1 ≤ instant)
    (to_end : instant ≤ chunk.2) (earlier : row.1 ≤ instant) :
    ∃ found ∈ chunkMeasurements method stepMillis rows range chunk span,
      row.1 ≤ found.1 ∧ found.1 ≤ instant := by
  have overlap : 0 ≤ stepMillis * (if method.degree < 2 ^ 31 then (method.degree : Int) else 3) :=
    mul_nonneg positive (by split <;> omega)
  simp only [chunkMeasurements, widenToBrackets, List.mem_append]
  generalize stepMillis * (if method.degree < 2 ^ 31 then (method.degree : Int) else 3) = reach
    at overlap ⊢
  by_cases fetched : max (chunk.1 - reach) range.1 ≤ row.1
  · exact ⟨row, .inl (.inr (mem_fetch.mpr ⟨stored, fetched, by omega⟩)), le_rfl, earlier⟩
  · by_cases few : (fetchMeasurementsForChunk rows (max (chunk.1 - reach) range.1)
        (min (chunk.2 + reach) range.2)).countP (fun row => decide (row.1 < chunk.1)) <
          max method.degree 1
    · obtain ⟨found, member, above, below⟩ := exists_mem_widenBefore stored inside
        (max (chunk.1 - reach) range.1 - range.1).toNat _ few (not_le.mp fetched)
          (show 0 < max span 1 by omega) le_rfl
      exact ⟨found, .inl (.inl member), above, by omega⟩
    · obtain ⟨found, member, below⟩ := List.countP_pos_iff.mp
        (show 0 < _ from lt_of_lt_of_le (by omega) (not_lt.mp few))
      refine ⟨found, .inl (.inr member), ?_, (of_decide_eq_true below).le.trans from_start⟩
      exact (not_le.mp fetched).le.trans (mem_fetch.mp member).2.1

/-- The rows of a chunk are all rows from some instant before it to some instant after it. -/
theorem chunkMeasurements_eq (positive : 0 ≤ stepMillis) (starts : range.1 ≤ chunk.1)
    (less : chunk.1 < chunk.2) (ends : chunk.2 ≤ range.2) :
    ∃ first last, first ≤ chunk.1 ∧ chunk.2 ≤ last ∧
      chunkMeasurements method stepMillis rows range chunk span =
        fetchMeasurementsForChunk rows first last := by
  have overlap : 0 ≤ stepMillis * (if method.degree < 2 ^ 31 then (method.degree : Int) else 3) :=
    mul_nonneg positive (by split <;> omega)
  simp only [chunkMeasurements, widenToBrackets]
  generalize stepMillis * (if method.degree < 2 ^ 31 then (method.degree : Int) else 3) = reach
    at overlap ⊢
  obtain ⟨last, above, after⟩ := @fetch_widenAfter Value rows (max method.degree 1)
    (range.2 - min (chunk.2 + reach) range.2).toNat
    ((fetchMeasurementsForChunk rows (max (chunk.1 - reach) range.1)
      (min (chunk.2 + reach) range.2)).countP fun row => decide (chunk.2 < row.1))
    range.2 (max (chunk.1 - reach) range.1) (min (chunk.2 + reach) range.2) (max span 1)
    (by omega) (by omega) (by omega)
  obtain ⟨first, below, before⟩ := @fetch_widenBefore Value rows (max method.degree 1)
    (max (chunk.1 - reach) range.1 - range.1).toNat
    ((fetchMeasurementsForChunk rows (max (chunk.1 - reach) range.1)
      (min (chunk.2 + reach) range.2)).countP fun row => decide (row.1 < chunk.1))
    range.1 last (max (chunk.1 - reach) range.1) (max span 1) (by omega) (by omega) (by omega)
  exact ⟨first, last, by omega, by omega, by rw [List.append_assoc, after, before]⟩

end Chunk

/-- Rows next to an instant which are read are those next to it among all rows. -/
theorem valueAt_fetch (bracketing : Bracketing Value) {first last instant : Int}
    (before : ∃ row ∈ fetchMeasurementsForChunk rows first last, row.1 ≤ instant)
    (after : ∃ row ∈ fetchMeasurementsForChunk rows first last, instant ≤ row.1)
    (from_first : first ≤ instant) (to_last : instant ≤ last) :
    bracketing.valueAt (fetchMeasurementsForChunk rows first last) instant =
      bracketing.valueAt (inOrder rows) instant := by
  have previous : nextBefore (fetchMeasurementsForChunk rows first last) instant =
      nextBefore (inOrder rows) instant := by
    obtain ⟨row, member, earlier⟩ := before
    have nonempty : (fetchMeasurementsForChunk rows first last).filter
        (fun point => decide (point.1 ≤ instant)) ≠ [] :=
      List.ne_nil_of_mem (List.mem_filter.mpr ⟨member, decide_eq_true earlier⟩)
    have same : (fetchMeasurementsForChunk rows first last).filter
        (fun point => decide (point.1 ≤ instant)) =
          (inOrder rows).filter fun row => decide (row.1 ≤ instant) && decide (first - 1 < row.1) := by
      rw [fetchMeasurementsForChunk, List.filter_filter]
      refine List.filter_congr fun row _ => ?_
      grind
    rw [nextBefore, nextBefore, ← filter_split (sorted_inOrder rows) _ (first - 1), ← same,
      List.getLast?_append_of_ne_nil _ nonempty]
  have next : nextAfter (fetchMeasurementsForChunk rows first last) instant =
      nextAfter (inOrder rows) instant := by
    obtain ⟨row, member, later⟩ := after
    have nonempty : (fetchMeasurementsForChunk rows first last).filter
        (fun point => decide (instant ≤ point.1)) ≠ [] :=
      List.ne_nil_of_mem (List.mem_filter.mpr ⟨member, decide_eq_true later⟩)
    have same : (fetchMeasurementsForChunk rows first last).filter
        (fun point => decide (instant ≤ point.1)) =
          (inOrder rows).filter fun row => decide (instant ≤ row.1) && decide (row.1 ≤ last) := by
      rw [fetchMeasurementsForChunk, List.filter_filter]
      refine List.filter_congr fun row _ => ?_
      grind
    rw [nextAfter, nextAfter, ← filter_split (sorted_inOrder rows) _ last, ← same,
      List.head?_append_of_ne_nil _ nonempty]
  rw [Bracketing.valueAt, previous, next, Bracketing.valueAt]

theorem keepLater_subset (points : List (Point Value)) (last : Option Int) :
    ∀ point ∈ keepLater last points, point ∈ points := by
  induction points generalizing last with
  | nil => exact fun point member => member
  | cons first points ih =>
      intro point member
      rw [keepLater] at member
      split at member
      · exact (List.mem_cons.mp member).elim (· ▸ List.mem_cons_self)
          fun later => .tail _ (ih _ point later)
      · exact .tail _ (ih _ point member)

/-- With a row stored at the end of the range, each point behind a row of the range has the value
which all rows give it. -/
theorem analyzeRange_values {bracketing : Bracketing Value} {stepMillis : Int}
    (positive : 0 < stepMillis) {start finish : Int} (stored : finish ∈ rows.map Prod.fst)
    {point : Point Value}
    (member : point ∈ analyzeRange (bracketing.interpolator stepMillis) stepMillis rows start finish)
    (behind : ∃ row ∈ rows, start ≤ row.1 ∧ row.1 ≤ point.1) :
    point.2 = bracketing.valueAt (inOrder rows) point.1 := by
  obtain ⟨final, final_mem, final_at⟩ := List.mem_map.mp stored
  obtain ⟨row, row_mem, from_start, earlier⟩ := behind
  have long : 0 < chunkMillis stepMillis (finish - start) :=
    mul_pos positive (lt_of_lt_of_le one_pos (le_max_right _ _))
  obtain ⟨chunk, chunk_mem, point_mem⟩ :=
    List.mem_flatMap.mp (keepLater_subset _ _ point member)
  obtain ⟨starts, less, ends⟩ :
      (start, finish).1 ≤ chunk.1 ∧ chunk.1 < chunk.2 ∧ chunk.2 ≤ (start, finish).2 :=
    chunk_bounds long _ chunk_mem
  obtain ⟨-, reached⟩ := chunkPoints_eq (bracketing.interpolator_everyStep stepMillis)
    (chunkMillis stepMillis (finish - start)) positive.le starts less ends stored
  rw [reached] at point_mem
  obtain ⟨instant, inside, rfl⟩ := List.mem_map.mp point_mem
  obtain ⟨offset, same, to_end⟩ := (mem_stepsOf positive less.le).mp inside
  have from_chunk : chunk.1 ≤ instant := by
    have forward : 0 ≤ (offset : Int) * stepMillis := mul_nonneg (by omega) positive.le
    omega
  obtain ⟨before, before_mem, -, before_le⟩ := exists_mem_before _ _ positive.le ends row_mem
    from_start from_chunk to_end earlier
  obtain ⟨after, after_mem, after_le, -⟩ := exists_mem_after _ positive.le _ starts final_mem
    final_at.le from_chunk to_end (final_at ▸ to_end.trans ends)
  obtain ⟨first, last, first_le, last_le, measurements⟩ :=
    chunkMeasurements_eq (bracketing.interpolator stepMillis)
      (chunkMillis stepMillis (finish - start)) positive.le starts less ends
  rw [measurements] at before_mem after_mem
  dsimp only
  rw [measurements, valueAt_fetch bracketing ⟨before, before_mem, before_le⟩
    ⟨after, after_mem, after_le⟩ (first_le.trans from_chunk) (to_end.trans last_le)]

end WeftDb.Outputs

namespace WeftDb.Rebuild

open ChangeConsumer Outputs

variable {Value : Type}

/-- The batch which starts at an instant, interpolated from all rows. -/
def batchAt (bracketing : Bracketing Value) (grid : WindowGrid) (rows : List (Point Value))
    (start : Int) : Batch Value :=
  (List.range grid.batchSize).map fun offset : Nat =>
    (start + offset * grid.stepMillis,
      bracketing.valueAt (inOrder rows) (start + offset * grid.stepMillis))

variable {bracketing : Bracketing Value} {grid : WindowGrid} {rows later : List (Point Value)}
  {start finish instant : Int}

theorem orderedInsert_append (point : Point Value) (first : List (Point Value))
    (past : ∀ next ∈ later, point.1 ≤ next.1) :
    (first ++ later).orderedInsert (fun left right => left.1 ≤ right.1) point =
      first.orderedInsert (fun left right => left.1 ≤ right.1) point ++ later := by
  induction first with
  | nil =>
      cases later with
      | nil => rfl
      | cons next others =>
          rw [List.nil_append, List.orderedInsert_cons, if_pos (past next List.mem_cons_self)]
          rfl
  | cons head first ih =>
      rw [List.cons_append, List.orderedInsert_cons, List.orderedInsert_cons]
      split
      · rfl
      · rw [ih, List.cons_append]

theorem inOrder_append (past : ∀ row ∈ rows, ∀ next ∈ later, row.1 < next.1) :
    inOrder (rows ++ later) = inOrder rows ++ inOrder later := by
  induction rows with
  | nil => rfl
  | cons row rows ih =>
      obtain ⟨first, rest⟩ := List.forall_mem_cons.mp past
      have inserted := @orderedInsert_append Value (inOrder later) row (inOrder rows)
        fun next member => (first next ((List.mem_insertionSort _).mp member)).le
      rw [inOrder, List.cons_append, List.insertionSort_cons, ← inOrder, ih rest, inserted]
      rfl

theorem valueAt_append (bounded : ∃ row ∈ rows, instant ≤ row.1)
    (past : ∀ row ∈ rows, ∀ next ∈ later, row.1 < next.1) :
    bracketing.valueAt (inOrder (rows ++ later)) instant =
      bracketing.valueAt (inOrder rows) instant := by
  obtain ⟨bound, bound_mem, below⟩ := bounded
  have none_before : (inOrder later).filter (fun row => decide (row.1 ≤ instant)) = [] := by
    refine List.filter_eq_nil_iff.mpr fun next member reached => ?_
    have after := past bound bound_mem next ((List.mem_insertionSort _).mp member)
    exact after.not_ge ((of_decide_eq_true reached).trans below)
  have some_after : (inOrder rows).filter (fun row => decide (instant ≤ row.1)) ≠ [] :=
    List.ne_nil_of_mem (List.mem_filter.mpr
      ⟨(List.mem_insertionSort _).mpr bound_mem, decide_eq_true below⟩)
  rw [Bracketing.valueAt, nextBefore, nextAfter, inOrder_append past, List.filter_append, none_before,
    List.append_nil, List.filter_append, List.head?_append_of_ne_nil _ some_after]
  rfl

theorem eq_map_of_values {points : List (Point Value)} {value : Int → Value}
    (values : ∀ point ∈ points, point.2 = value point.1) :
    points = (points.map Prod.fst).map fun instant => (instant, value instant) := by
  rw [List.map_map]
  refine (List.map_id _).symm.trans (List.map_congr_left fun point member => ?_)
  exact Prod.ext rfl (values point member)

theorem instant_lt (step : 0 < grid.stepMillis) {first second : Nat} :
    start + first * grid.stepMillis < start + second * grid.stepMillis ↔ first < second := by
  rw [add_lt_add_iff_left, Int.mul_lt_mul_right step, Nat.cast_lt]

theorem instant_le (step : 0 < grid.stepMillis) {first second : Nat} :
    start + first * grid.stepMillis ≤ start + second * grid.stepMillis ↔ first ≤ second := by
  rw [add_le_add_iff_left, Int.mul_le_mul_right step, Nat.cast_le]

variable {base : Int} {window : BatchWindow}

theorem exists_index (isWindow : grid.IsWindow base window) :
    ∃ index : Nat, window.start = base + index * grid.stepMillis ∧
      window.finish = window.start + (grid.batchSize - 1 : Nat) * grid.stepMillis := by
  obtain ⟨⟨positive, -, -⟩, index, nonneg, found⟩ := isWindow
  obtain ⟨index, rfl⟩ := Int.eq_ofNat_of_zero_le nonneg
  obtain ⟨starts, ends⟩ := WindowGrid.eq_of_windowAt found
  refine ⟨index, starts, ?_⟩
  rw [ends, starts, WindowGrid.windowDurationMillis, Nat.cast_sub positive, Nat.cast_one]

theorem windowOf_batchAt (isWindow : grid.IsWindow base window) :
    windowOf (batchAt bracketing grid rows window.start) = some window := by
  obtain ⟨index, -, ends⟩ := exists_index isWindow
  obtain ⟨count, size⟩ : ∃ count, grid.batchSize = count + 1 :=
    ⟨grid.batchSize - 1, (Nat.sub_add_cancel isWindow.1.1).symm⟩
  rw [size, Nat.add_sub_cancel] at ends
  have first : (batchAt bracketing grid rows window.start).head? =
      some (window.start, bracketing.valueAt (inOrder rows) window.start) := by
    rw [batchAt, size, List.head?_map, List.range_succ_eq_map, List.head?_cons]
    simp
  have last : (batchAt bracketing grid rows window.start).getLast? =
      some (window.finish, bracketing.valueAt (inOrder rows) window.finish) := by
    rw [batchAt, size, List.getLast?_map, List.range_succ, List.getLast?_concat, ends]
    rfl
  simp only [windowOf, first, last]

theorem cutWindow_append {before inside behind : List (Point Value)}
    (early : ∀ point ∈ before, point.1 < window.start)
    (within : ∀ point ∈ inside, window.start ≤ point.1 ∧ point.1 ≤ window.finish)
    (late : ∀ point ∈ behind, window.finish < point.1) (nonempty : inside ≠ []) :
    cutWindow inside.length (before ++ (inside ++ behind)) window = some inside := by
  have dropped : (before ++ (inside ++ behind)).dropWhile
      (fun point => decide (point.1 < window.start)) = inside ++ behind := by
    rw [List.dropWhile_append_of_pos fun point member => decide_eq_true (early point member)]
    cases inside with
    | nil => exact absurd rfl nonempty
    | cons first inside =>
        have reached := (within first List.mem_cons_self).1
        rw [List.cons_append, List.dropWhile_cons_of_neg (by simpa using reached)]
  have taken : (inside ++ behind).takeWhile (fun point => decide (point.1 ≤ window.finish)) =
      inside := by
    rw [List.takeWhile_append_of_pos fun point member => decide_eq_true (within point member).2]
    cases behind with
    | nil => rw [List.takeWhile_nil, List.append_nil]
    | cons first behind =>
        have past := late first List.mem_cons_self
        rw [List.takeWhile_cons_of_neg (by simpa using past), List.append_nil]
  rw [cutWindow, dropped, taken, if_neg (lt_irrefl _), List.take_length]

/-- A window is cut out of a range which starts a whole number of steps early, behind a row of the
range, and ends at a stored row. -/
theorem cutWindow_analyzeRange (isWindow : grid.IsWindow base window)
    (behind : ∃ row ∈ rows, start ≤ row.1 ∧ row.1 ≤ window.start)
    (stored : finish ∈ rows.map Prod.fst) {steps : Nat}
    (aligned : start + steps * grid.stepMillis = window.start) (nonempty : start < finish)
    (inside : window.finish ≤ finish) :
    cutWindow grid.batchSize (analyzeRange (bracketing.interpolator grid.stepMillis) grid.stepMillis
        rows start finish) window = some (batchAt bracketing grid rows window.start) := by
  obtain ⟨positive, -, step⟩ := isWindow.1
  obtain ⟨index, -, ends⟩ := exists_index isWindow
  have reach : (steps + (grid.batchSize - 1 : Nat) : Int) ≤ (finish - start) / grid.stepMillis := by
    refine (Int.le_ediv_iff_mul_le step).mpr ?_
    rw [add_mul]
    omega
  obtain ⟨rest, count⟩ : ∃ rest, ((finish - start) / grid.stepMillis).toNat + 1 =
      steps + (grid.batchSize + rest) :=
    ⟨((finish - start) / grid.stepMillis).toNat + 1 - (steps + grid.batchSize), by omega⟩
  have instants := analyzeRange_instants (bracketing.interpolator_everyStep grid.stepMillis) step
    nonempty stored
  rw [stepsOf, count, List.range_add, List.map_append, List.map_map, List.range_add,
    List.map_append, List.map_map] at instants
  obtain ⟨before, others, points, before_at, others_at⟩ := List.map_eq_append_iff.mp instants
  obtain ⟨cut, after, rfl, cut_at, after_at⟩ := List.map_eq_append_iff.mp others_at
  have of_instant {points : List (Point Value)} {count : Nat} {at_offset : Nat → Int}
      (same : points.map Prod.fst = (List.range count).map at_offset) {point : Point Value}
      (member : point ∈ points) : ∃ offset < count, point.1 = at_offset offset := by
    obtain ⟨offset, below, found⟩ := List.mem_map.mp (same ▸ List.mem_map_of_mem member)
    exact ⟨offset, List.mem_range.mp below, found.symm⟩
  have cut_instant {point : Point Value} (member : point ∈ cut) :
      ∃ offset < grid.batchSize, point.1 = window.start + offset * grid.stepMillis := by
    obtain ⟨offset, below, same⟩ := of_instant cut_at member
    refine ⟨offset, below, same.trans ?_⟩
    rw [Function.comp_apply, ← aligned, Nat.cast_add, add_mul, add_assoc]
  have batch : cut = batchAt bracketing grid rows window.start := by
    obtain ⟨row, row_mem, from_start, earlier⟩ := behind
    have values : ∀ point ∈ cut, point.2 = bracketing.valueAt (inOrder rows) point.1 := by
      intro point member
      obtain ⟨offset, -, same⟩ := cut_instant member
      have forward : 0 ≤ (offset : Int) * grid.stepMillis := mul_nonneg (by omega) step.le
      refine analyzeRange_values step stored ?_ ⟨row, row_mem, from_start, by omega⟩
      rw [points]
      exact List.mem_append_right _ (List.mem_append_left _ member)
    rw [eq_map_of_values values, cut_at, batchAt, List.map_map]
    refine List.map_congr_left fun offset _ => ?_
    rw [Function.comp_apply, Function.comp_apply, ← aligned, Nat.cast_add, add_mul, add_assoc]
  have length : cut.length = grid.batchSize := by rw [batch, batchAt, List.length_map,
    List.length_range]
  rw [points, ← batch, ← length]
  refine cutWindow_append ?_ ?_ ?_ ?_
  · intro point member
    obtain ⟨offset, below, same⟩ := of_instant before_at member
    rw [same, ← aligned]
    exact (instant_lt step).mpr below
  · intro point member
    obtain ⟨offset, below, same⟩ := cut_instant member
    have forward : 0 ≤ (offset : Int) * grid.stepMillis := mul_nonneg (by omega) step.le
    refine ⟨by omega, ?_⟩
    rw [same, ends]
    exact (instant_le step).mpr (by omega)
  · intro point member
    obtain ⟨offset, -, same⟩ := of_instant after_at member
    have last : window.finish = start + (steps + (grid.batchSize - 1) : Nat) * grid.stepMillis := by
      rw [ends, ← aligned, Nat.cast_add, add_mul, add_assoc]
    rw [same, last]
    refine (instant_lt step).mpr ?_
    dsimp only [Function.comp_apply]
    omega
  · intro empty
    rw [empty, List.length_nil] at length
    omega

theorem take_drop_range {Item : Type} (at_offset : Nat → Item) {first count total : Nat}
    (inside : first + count ≤ total) :
    (((List.range total).map at_offset).drop first).take count =
      (List.range count).map fun offset => at_offset (first + offset) := by
  obtain ⟨rest, rfl⟩ := Nat.exists_eq_add_of_le inside
  rw [Nat.add_assoc, List.range_add, List.map_append, List.drop_left' (by simp), List.range_add,
    List.map_append, List.map_append, List.take_left' (by simp), List.map_map]
  rfl

/-- The sliding windows over all points are the windows of the grid which end by the latest row. -/
theorem mem_slidingWindowBatches {latest : Int} (step : 0 < grid.stepMillis)
    (calendar : (grid.lastMillis - grid.firstMillis).toNat + 1 < 2 ^ 63)
    (first : base ∈ rows.map Prod.fst) (last : latest ∈ rows.map Prod.fst)
    (base_representable : grid.Representable base) (representable : grid.Representable latest)
    (nonempty : base < latest) {batch : Batch Value} :
    batch ∈ slidingWindowBatches grid.batchSize (analyzeRange
        (bracketing.interpolator grid.stepMillis) grid.stepMillis rows base latest) ↔
      ∃ window, grid.IsWindow base window ∧ window.finish ≤ latest ∧
        batch = batchAt bracketing grid rows window.start := by
  set total := ((latest - base) / grid.stepMillis).toNat + 1 with total_eq
  have reached {offset : Nat} : offset < total ↔ base + offset * grid.stepMillis ≤ latest := by
    have quotient : (offset : Int) ≤ (latest - base) / grid.stepMillis ↔
        offset * grid.stepMillis ≤ latest - base := Int.le_ediv_iff_mul_le step
    have nonneg : 0 ≤ (latest - base) / grid.stepMillis :=
      Int.ediv_nonneg (by omega) step.le
    omega
  have points : analyzeRange (bracketing.interpolator grid.stepMillis) grid.stepMillis rows base
      latest = (List.range total).map fun offset : Nat => (base + offset * grid.stepMillis,
        bracketing.valueAt (inOrder rows) (base + offset * grid.stepMillis)) := by
    have instants := analyzeRange_instants (bracketing.interpolator_everyStep grid.stepMillis) step
      nonempty last
    obtain ⟨low, low_mem, low_eq⟩ := List.mem_map.mp first
    have values : ∀ point ∈ analyzeRange (bracketing.interpolator grid.stepMillis) grid.stepMillis
        rows base latest, point.2 = bracketing.valueAt (inOrder rows) point.1 := by
      intro point member
      have inside : point.1 ∈ stepsOf grid.stepMillis base latest :=
        instants ▸ List.mem_map_of_mem member
      obtain ⟨offset, same, -⟩ := (mem_stepsOf step nonempty.le).mp inside
      have forward : 0 ≤ (offset : Int) * grid.stepMillis := mul_nonneg (by omega) step.le
      exact analyzeRange_values step last member ⟨low, low_mem, low_eq.ge, by omega⟩
    rw [eq_map_of_values values, instants, stepsOf, List.map_map]
    rfl
  have cut {offset : Nat} (inside : offset + grid.batchSize ≤ total) :
      (((List.range total).map fun offset : Nat => (base + offset * grid.stepMillis,
        bracketing.valueAt (inOrder rows) (base + offset * grid.stepMillis))).drop offset).take
          grid.batchSize = batchAt bracketing grid rows (base + offset * grid.stepMillis) := by
    rw [take_drop_range _ inside, batchAt]
    refine List.map_congr_left fun more _ => ?_
    rw [Nat.cast_add, add_mul, add_assoc]
  rw [points, slidingWindowBatches, List.length_map, List.length_range]
  constructor
  · intro member
    split at member
    · next enough =>
        obtain ⟨positive, enough⟩ := enough
        obtain ⟨offset, inside, rfl⟩ := List.mem_map.mp member
        have inside := List.mem_range.mp inside
        have ends : base + offset * grid.stepMillis + grid.windowDurationMillis ≤ latest := by
          have last := reached.mp (show offset + (grid.batchSize - 1) < total by omega)
          rwa [Nat.cast_add, add_mul, ← add_assoc, Nat.cast_sub positive, Nat.cast_one] at last
        have small : total ≤ (grid.lastMillis - grid.firstMillis).toNat + 1 := by
          have quotient : (latest - base) / grid.stepMillis ≤ latest - base :=
            Int.ediv_le_self _ (by omega)
          have := base_representable.1
          have := representable.2
          omega
        have past : 0 ≤ offset * grid.stepMillis := mul_nonneg (Int.natCast_nonneg offset) step.le
        have long : 0 ≤ grid.windowDurationMillis := mul_nonneg (by omega) step.le
        have found : grid.windowAt base offset = some ⟨base + offset * grid.stepMillis,
            base + offset * grid.stepMillis + grid.windowDurationMillis⟩ := by
          have := base_representable.1
          have := representable.2
          exact if_pos ⟨⟨by omega, by omega⟩, ⟨by omega, by omega⟩⟩
        exact ⟨_, ⟨⟨positive, by omega, step⟩, offset, Int.natCast_nonneg offset, found⟩, ends,
          cut (by omega)⟩
    · cases member
  · rintro ⟨window, isWindow, ends, rfl⟩
    obtain ⟨index, starts, finish_eq⟩ := exists_index isWindow
    have positive := isWindow.1.1
    have inside : index + (grid.batchSize - 1) < total := by
      refine reached.mpr ?_
      rw [Nat.cast_add, add_mul, ← add_assoc, ← starts, ← finish_eq]
      exact ends
    rw [if_pos ⟨positive, by omega⟩]
    exact List.mem_map.mpr ⟨index, List.mem_range.mpr (by omega), starts ▸ cut (by omega)⟩

end WeftDb.Rebuild
