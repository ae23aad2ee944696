import Mathlib.Algebra.Order.Ring.Rat
import Mathlib.Data.List.Sort
import Mathlib.Tactic.Ring
import WeftDb.Batching.Windows

/-!
# Interpolating a range chunk by chunk

`analyze_range` cuts its range into chunks of whole steps, and interpolates each from the rows next
to it.  It reads no row outside the range, and yields no point after the last row it reads: the
chunk's fetch is widened until enough knots lie past each edge, or the range runs out.  So a row
stored at the end of the range gives a point at every step.

Instants are milliseconds, a resolution is at least a millisecond, and all chunks read the same
rows.
-/

namespace WeftDb.Outputs

/-- A row, or an interpolated point. -/
abbrev Point (Value : Type) := Int × Value

/-- An interpolation method at a resolution: the degree of its splines, the value where no row is
known, and the points from one instant to another. -/
structure Interpolator (Value : Type) where
  degree : Nat
  zero : Value
  run : List (Point Value) → Int → Int → List (Point Value)

variable {Value : Type}
variable {rows : List (Point Value)} {row : Point Value}
  {rangeEnd stepMillis instant start finish : Int} {chunk : Int × Int} {method : Interpolator Value}

/-- The rows in the order of their instants. -/
def inOrder (rows : List (Point Value)) : List (Point Value) :=
  rows.insertionSort fun left right => left.1 ≤ right.1

/-- The rows from one instant to another, in order. -/
def fetchMeasurementsForChunk (rows : List (Point Value)) (first last : Int) :
    List (Point Value) :=
  (inOrder rows).filter fun row => decide (first ≤ row.1) && decide (row.1 ≤ last)

/-- The windows after the fetched rows, doubling, until enough rows are known after the chunk. -/
def widenAfter (rows : List (Point Value)) (knots : Nat) (rangeEnd : Int) :
    Nat → Nat → Int → Int → List (Point Value)
  | 0, _, _, _ => []
  | fuel + 1, after, low, width =>
      if after < knots ∧ low < rangeEnd then
        let high := min (low + width) rangeEnd
        let more := (fetchMeasurementsForChunk rows low high).filter fun row => decide (low < row.1)
        more ++ widenAfter rows knots rangeEnd fuel (after + more.length) high (width + width)
      else []

/-- The windows before the fetched rows. -/
def widenBefore (rows : List (Point Value)) (knots : Nat) (rangeStart : Int) :
    Nat → Nat → Int → Int → List (Point Value)
  | 0, _, _, _ => []
  | fuel + 1, before, high, width =>
      if before < knots ∧ rangeStart < high then
        let low := max (high - width) rangeStart
        let more := (fetchMeasurementsForChunk rows low high).filter fun row => decide (row.1 < high)
        widenBefore rows knots rangeStart fuel (before + more.length) low (width + width) ++ more
      else []

/-- The rows of a chunk, with enough knots past each of its edges. -/
def widenToBrackets (rows : List (Point Value)) (chunk fetch range : Int × Int) (knots : Nat)
    (span : Int) : List (Point Value) :=
  let measurements := fetchMeasurementsForChunk rows fetch.1 fetch.2
  let width := max span 1
  let after := measurements.countP fun row => decide (chunk.2 < row.1)
  let before := measurements.countP fun row => decide (row.1 < chunk.1)
  widenBefore rows knots range.1 (fetch.1 - range.1).toNat before fetch.1 width ++ measurements ++
    widenAfter rows knots range.2 (range.2 - fetch.2).toNat after fetch.2 width

section Range

variable (method : Interpolator Value) (stepMillis : Int) (rows : List (Point Value))

/-- How long a chunk lasts: whole steps, about 50,000 points. -/
def chunkMillis (totalMillis : Int) : Int :=
  let totalNanos := min (totalMillis * 1000000) (2 ^ 63 - 1)
  let stepNanos := stepMillis * 1000000
  let expectedPoints := if 0 < stepNanos then totalNanos / stepNanos + 1 else 1
  let chunkCount := max ((expectedPoints + 50000 - 1) / 50000) 1
  let stepsPerChunk := max ((expectedPoints - 1 + chunkCount - 1) / chunkCount) 1
  stepMillis * stepsPerChunk

/-- The rows which a chunk is interpolated from. -/
def chunkMeasurements (range chunk : Int × Int) (span : Int) : List (Point Value) :=
  let overlap := stepMillis * if method.degree < 2 ^ 31 then (method.degree : Int) else 3
  let fetch := (max (chunk.1 - overlap) range.1, min (chunk.2 + overlap) range.2)
  widenToBrackets rows chunk fetch range (max method.degree 1) span

/-- The points of a chunk.  A chunk without rows, or with none after its start, gives one point. -/
def chunkPoints (range chunk : Int × Int) (span : Int) : List (Point Value) :=
  let points := chunkMeasurements method stepMillis rows range chunk span
  let placeholder := if range.2 ≤ chunk.2 then [] else [(chunk.1, method.zero)]
  match points.getLast? with
  | none => placeholder
  | some newest =>
      let dataEnd := ((points.map Prod.fst).max?).getD chunk.2
      let effectiveEnd := min chunk.2 dataEnd
      if effectiveEnd ≤ chunk.1 then [(chunk.1, newest.2)]
      else
        match method.run points chunk.1 effectiveEnd with
        | [] => placeholder
        | interpolated => interpolated

/-- The chunks from an instant on. -/
def chunksFrom (duration rangeEnd : Int) : Nat → Int → List (Int × Int)
  | 0, _ => []
  | fuel + 1, start =>
      if start < rangeEnd then
        let finish := min (start + duration) rangeEnd
        (start, finish) :: chunksFrom duration rangeEnd fuel finish
      else []

/-- The points after the last one emitted. -/
def keepLater : Option Int → List (Point Value) → List (Point Value)
  | _, [] => []
  | last, point :: points =>
      if ∀ emitted ∈ last, emitted < point.1 then point :: keepLater (some point.1) points
      else keepLater last points

/-- The interpolated points from one instant to another. -/
def analyzeRange (start finish : Int) : List (Point Value) :=
  let span := chunkMillis stepMillis (finish - start)
  keepLater none ((chunksFrom span finish (finish - start).toNat start).flatMap fun chunk =>
    chunkPoints method stepMillis rows (start, finish) chunk span)

end Range

/-- The instants at every step from one instant to another. -/
def stepsOf (stepMillis start finish : Int) : List Int :=
  (List.range (((finish - start) / stepMillis).toNat + 1)).map fun offset : Nat =>
    start + offset * stepMillis

/-- Interpolating some rows yields a point at every step, both ends included. -/
def Interpolator.EveryStep (method : Interpolator Value) (stepMillis : Int) : Prop :=
  ∀ points start finish, points ≠ [] → start < finish →
    (method.run points start finish).map Prod.fst = stepsOf stepMillis start finish

/-- Interpolation which depends on the points next before and next after an instant only, with the
value where no row is known. -/
structure Bracketing (Value : Type) where
  zero : Value
  between : Option (Point Value) → Option (Point Value) → Int → Value

def nextBefore (points : List (Point Value)) (instant : Int) : Option (Point Value) :=
  (points.filter fun point => decide (point.1 ≤ instant)).getLast?

def nextAfter (points : List (Point Value)) (instant : Int) : Option (Point Value) :=
  (points.filter fun point => decide (instant ≤ point.1)).head?

namespace Bracketing

/-- The value at an instant, from points in order. -/
def valueAt (bracketing : Bracketing Value) (points : List (Point Value)) (instant : Int) : Value :=
  bracketing.between (nextBefore points instant) (nextAfter points instant) instant

def interpolator (bracketing : Bracketing Value) (stepMillis : Int) : Interpolator Value where
  degree := 1
  zero := bracketing.zero
  run points start finish := (stepsOf stepMillis start finish).map fun instant =>
    (instant, bracketing.valueAt points instant)

theorem interpolator_everyStep (bracketing : Bracketing Value) (stepMillis : Int) :
    (bracketing.interpolator stepMillis).EveryStep stepMillis := by
  intro points start finish _ _
  simp [interpolator, Function.comp_def]

/-- The line through two points. -/
def linear : Bracketing Rat where
  zero := 0
  between
    | some left, some right, instant =>
        if right.1 ≤ left.1 then left.2
        else left.2 + (right.2 - left.2) * ((instant - left.1 : Int) / (right.1 - left.1 : Int) : Rat)
    | some point, none, _ | none, some point, _ => point.2
    | none, none, _ => 0

end Bracketing

theorem mem_fetch {first last : Int} :
    row ∈ fetchMeasurementsForChunk rows first last ↔ row ∈ rows ∧ first ≤ row.1 ∧ row.1 ≤ last := by
  rw [fetchMeasurementsForChunk, List.mem_filter, inOrder, List.mem_insertionSort,
    Bool.and_eq_true, decide_eq_true_iff, decide_eq_true_iff]

/-- Without enough knots after the chunk, widening finds a row no later than any stored one. -/
theorem exists_mem_widenAfter {knots : Nat} (stored : row ∈ rows) (inside : row.1 ≤ rangeEnd)
    (fuel after : Nat) {low width : Int} (few : after < knots) (later : low < row.1)
    (positive : 0 < width) (enough : (rangeEnd - low).toNat ≤ fuel) :
    ∃ found ∈ widenAfter rows knots rangeEnd fuel after low width,
      low < found.1 ∧ found.1 ≤ row.1 := by
  induction fuel generalizing after low width with
  | zero => omega
  | succ fuel ih =>
      rw [widenAfter, if_pos ⟨few, by omega⟩]
      simp only [List.mem_append]
      by_cases reached : row.1 ≤ min (low + width) rangeEnd
      · refine ⟨row, .inl (List.mem_filter.mpr ⟨mem_fetch.mpr ⟨stored, later.le, reached⟩, ?_⟩),
          later, le_rfl⟩
        exact decide_eq_true later
      · generalize found : (fetchMeasurementsForChunk rows low (min (low + width) rangeEnd)).filter
          (fun row => decide (low < row.1)) = more
        cases more with
        | nil =>
            have past : low < min (low + width) rangeEnd := by omega
            obtain ⟨next, member, above, below⟩ :=
              ih (after + 0) few (not_le.mp reached) (by omega : 0 < width + width) (by omega)
            exact ⟨next, .inr (by simpa using member), past.trans above, below⟩
        | cons next others =>
            have member : next ∈ next :: others := List.mem_cons_self
            rw [← found] at member
            obtain ⟨fetched, above⟩ := List.mem_filter.mp member
            refine ⟨next, .inl List.mem_cons_self, of_decide_eq_true above, ?_⟩
            exact (mem_fetch.mp fetched).2.2.trans (not_le.mp reached).le

/-- The rows of a chunk hold the row next after each of its instants. -/
theorem exists_mem_after (method : Interpolator Value) (positive : 0 ≤ stepMillis)
    {range : Int × Int} (span : Int) (starts : range.1 ≤ chunk.1) (stored : row ∈ rows)
    (inside : row.1 ≤ range.2) (from_start : chunk.1 ≤ instant) (to_end : instant ≤ chunk.2)
    (later : instant ≤ row.1) :
    ∃ found ∈ chunkMeasurements method stepMillis rows range chunk span,
      instant ≤ found.1 ∧ found.1 ≤ row.1 := by
  have overlap : 0 ≤ stepMillis * (if method.degree < 2 ^ 31 then (method.degree : Int) else 3) :=
    mul_nonneg positive (by split <;> omega)
  simp only [chunkMeasurements, widenToBrackets, List.mem_append]
  generalize stepMillis * (if method.degree < 2 ^ 31 then (method.degree : Int) else 3) = reach
    at overlap ⊢
  by_cases fetched : row.1 ≤ min (chunk.2 + reach) range.2
  · exact ⟨row, .inl (.inr (mem_fetch.mpr ⟨stored, by omega, fetched⟩)), later, le_rfl⟩
  · by_cases few : (fetchMeasurementsForChunk rows (max (chunk.1 - reach) range.1)
        (min (chunk.2 + reach) range.2)).countP (fun row => decide (chunk.2 < row.1)) <
          max method.degree 1
    · obtain ⟨found, member, above, below⟩ := exists_mem_widenAfter stored inside
        (range.2 - min (chunk.2 + reach) range.2).toNat _ few (not_le.mp fetched)
          (show 0 < max span 1 by omega) le_rfl
      exact ⟨found, .inr member, by omega, below⟩
    · obtain ⟨found, member, above⟩ := List.countP_pos_iff.mp
        (show 0 < _ from lt_of_lt_of_le (by omega) (not_lt.mp few))
      refine ⟨found, .inl (.inr member), to_end.trans (of_decide_eq_true above).le, ?_⟩
      exact (mem_fetch.mp member).2.2.trans (not_le.mp fetched).le

section Reached

variable {method : Interpolator Value} {stepMillis : Int} (everyStep : method.EveryStep stepMillis)
  {rows : List (Point Value)} {range chunk : Int × Int} (span : Int)

include everyStep

variable (positive : 0 ≤ stepMillis) (starts : range.1 ≤ chunk.1) (less : chunk.1 < chunk.2)
  (ends : chunk.2 ≤ range.2) (stored : range.2 ∈ rows.map Prod.fst)

include positive starts less ends stored

/-- With a row stored at the end of its range, a chunk is interpolated up to its own end. -/
theorem chunkPoints_eq :
    chunkMeasurements method stepMillis rows range chunk span ≠ [] ∧
      chunkPoints method stepMillis rows range chunk span =
        method.run (chunkMeasurements method stepMillis rows range chunk span) chunk.1 chunk.2 := by
  obtain ⟨row, row_mem, row_at⟩ := List.mem_map.mp stored
  obtain ⟨found, found_mem, later, -⟩ := exists_mem_after method positive span starts row_mem
    row_at.le less.le le_rfl (row_at ▸ ends)
  have nonempty := List.ne_nil_of_mem found_mem
  refine ⟨nonempty, ?_⟩
  rw [chunkPoints]
  generalize chunkMeasurements method stepMillis rows range chunk span = points at found_mem nonempty
  have newest := List.getLast?_eq_some_getLast nonempty
  cases greatest : (points.map Prod.fst).max? with
  | none => simp_all
  | some dataEnd =>
      have reaches : chunk.2 ≤ dataEnd :=
        later.trans ((List.max?_eq_some_iff.mp greatest).2 _ (List.mem_map_of_mem found_mem))
      have steps := everyStep points chunk.1 chunk.2 nonempty less
      simp only [newest, Option.getD_some, min_eq_left reaches, if_neg (not_le.mpr less)]
      cases interpolated : method.run points chunk.1 chunk.2 with
      | nil => simp [interpolated, stepsOf] at steps
      | cons first others => rfl

theorem chunkPoints_instants :
    (chunkPoints method stepMillis rows range chunk span).map Prod.fst =
      stepsOf stepMillis chunk.1 chunk.2 := by
  obtain ⟨nonempty, reached⟩ := chunkPoints_eq everyStep span positive starts less ends stored
  rw [reached, everyStep _ _ _ nonempty less]

end Reached

theorem mem_stepsOf (positive : 0 < stepMillis) (le : start ≤ finish) :
    instant ∈ stepsOf stepMillis start finish ↔
      ∃ offset : Nat, instant = start + offset * stepMillis ∧ instant ≤ finish := by
  have ratio : 0 ≤ (finish - start) / stepMillis := Int.ediv_nonneg (by omega) positive.le
  simp only [stepsOf, List.mem_map, List.mem_range]
  refine exists_congr fun offset => ?_
  have within : (offset : Int) ≤ (finish - start) / stepMillis ↔
      offset * stepMillis ≤ finish - start := Int.le_ediv_iff_mul_le positive
  constructor
  · rintro ⟨below, rfl⟩
    exact ⟨rfl, by omega⟩
  · rintro ⟨rfl, below⟩
    exact ⟨by omega, rfl⟩

theorem pairwise_stepsOf (positive : 0 < stepMillis) :
    (stepsOf stepMillis start finish).Pairwise (· < ·) := by
  refine List.pairwise_map.mpr (List.pairwise_lt_range.imp fun less => ?_)
  have scaled := (Int.mul_lt_mul_right positive).mpr (Int.ofNat_lt.mpr less)
  omega

theorem keepLater_instants (points : List (Point Value)) (last : Option Int)
    (sorted : (points.map Prod.fst).Pairwise (· ≤ ·)) :
    ((keepLater last points).map Prod.fst).Pairwise (· < ·) ∧
      ∀ instant, instant ∈ (keepLater last points).map Prod.fst ↔
        instant ∈ points.map Prod.fst ∧ ∀ emitted ∈ last, emitted < instant := by
  induction points generalizing last with
  | nil => simp [keepLater]
  | cons point points ih =>
      obtain ⟨first, rest⟩ := List.pairwise_cons.mp sorted
      rw [keepLater]
      split
      · next later =>
          obtain ⟨rising, members⟩ := ih (some point.1) rest
          refine ⟨List.pairwise_cons.mpr ⟨fun instant member => ?_, rising⟩, fun instant => ?_⟩
          · exact ((members instant).mp member).2 _ rfl
          · rw [List.map_cons, List.mem_cons, members, List.map_cons, List.mem_cons]
            constructor
            · rintro (rfl | ⟨member, past⟩)
              · exact ⟨.inl rfl, later⟩
              · exact ⟨.inr member, fun emitted same => (later emitted same).trans (past _ rfl)⟩
            · rintro ⟨rfl | member, past⟩
              · exact .inl rfl
              · rcases eq_or_lt_of_le (first instant member) with same | less
                · exact .inl same.symm
                · exact .inr ⟨member, fun emitted same => by cases same; exact less⟩
      · next early =>
          obtain ⟨rising, members⟩ := ih last rest
          refine ⟨rising, fun instant => ?_⟩
          rw [members, List.map_cons, List.mem_cons]
          constructor
          · exact fun found => ⟨.inr found.1, found.2⟩
          · rintro ⟨rfl | member, past⟩
            · exact absurd past early
            · exact ⟨member, past⟩

/-- The chunks from an instant on have the steps from it on, up to the end of the range. -/
theorem chunksFrom_instants {steps : Int} (positive : 0 < stepMillis) (whole : 0 < steps)
    (fuel : Nat) (start : Int) (enough : (rangeEnd - start).toNat ≤ fuel) :
    ((chunksFrom (stepMillis * steps) rangeEnd fuel start).flatMap fun chunk =>
      stepsOf stepMillis chunk.1 chunk.2).Pairwise (· ≤ ·) ∧
    ∀ instant, instant ∈ (chunksFrom (stepMillis * steps) rangeEnd fuel start).flatMap
        (fun chunk => stepsOf stepMillis chunk.1 chunk.2) ↔
      start < rangeEnd ∧ instant ∈ stepsOf stepMillis start rangeEnd := by
  have long : 0 < stepMillis * steps := mul_pos positive whole
  induction fuel generalizing start with
  | zero =>
      refine ⟨List.Pairwise.nil, fun instant => ⟨fun member => absurd member List.not_mem_nil, ?_⟩⟩
      omega
  | succ fuel ih =>
      rw [chunksFrom]
      split
      · next less =>
          obtain ⟨sorted, members⟩ :=
            ih (min (start + stepMillis * steps) rangeEnd) (by omega)
          simp only [List.flatMap_cons, List.mem_append, members, less, true_and]
          constructor
          · refine List.pairwise_append.mpr ⟨(pairwise_stepsOf positive).imp le_of_lt, sorted, ?_⟩
            intro left left_mem right right_mem
            obtain ⟨-, -, left_le⟩ := (mem_stepsOf positive (by omega)).mp left_mem
            obtain ⟨offset, rfl, -⟩ :=
              (mem_stepsOf positive (by omega)).mp ((members right).mp right_mem).2
            have forward : 0 ≤ (offset : Int) * stepMillis := mul_nonneg (by omega) positive.le
            omega
          · intro instant
            rw [mem_stepsOf positive (by omega), mem_stepsOf positive (by omega),
              mem_stepsOf positive less.le]
            by_cases last : rangeEnd ≤ start + stepMillis * steps
            · rw [min_eq_right last]
              simp
            · rw [min_eq_left (not_le.mp last).le]
              obtain ⟨count, rfl⟩ := Int.eq_ofNat_of_zero_le whole.le
              constructor
              · rintro (⟨offset, rfl, below⟩ | ⟨-, offset, rfl, below⟩)
                · exact ⟨offset, rfl, by omega⟩
                · refine ⟨count + offset, ?_, below⟩
                  push_cast
                  ring
              · rintro ⟨offset, rfl, below⟩
                by_cases front : offset ≤ count
                · have scaled : (offset : Int) * stepMillis ≤ count * stepMillis :=
                    mul_le_mul_of_nonneg_right (by omega) positive.le
                  refine .inl ⟨offset, rfl, ?_⟩
                  rw [mul_comm stepMillis]
                  omega
                · obtain ⟨more, rfl⟩ := Nat.exists_eq_add_of_le (not_le.mp front).le
                  refine .inr ⟨not_le.mp last, more, ?_, below⟩
                  push_cast
                  ring
      · next past => simp [past]

theorem chunk_bounds {duration : Int} (positive : 0 < duration) (fuel : Nat)
    (member : chunk ∈ chunksFrom duration rangeEnd fuel start) :
    start ≤ chunk.1 ∧ chunk.1 < chunk.2 ∧ chunk.2 ≤ rangeEnd := by
  induction fuel generalizing start with
  | zero => cases member
  | succ fuel ih =>
      rw [chunksFrom] at member
      split at member
      · rcases List.mem_cons.mp member with rfl | later
        · dsimp only
          omega
        · have bounds := ih later
          omega
      · cases member

/-- With a row stored at its end, a range gives a point at every step. -/
theorem analyzeRange_instants (everyStep : method.EveryStep stepMillis) (positive : 0 < stepMillis)
    (less : start < finish) (stored : finish ∈ rows.map Prod.fst) :
    (analyzeRange method stepMillis rows start finish).map Prod.fst =
      stepsOf stepMillis start finish := by
  obtain ⟨steps, whole, span⟩ : ∃ steps, 0 < steps ∧
      chunkMillis stepMillis (finish - start) = stepMillis * steps :=
    ⟨_, lt_of_lt_of_le one_pos (le_max_right _ _), rfl⟩
  have long : 0 < stepMillis * steps := mul_pos positive whole
  have instants : (((chunksFrom (stepMillis * steps) finish (finish - start).toNat start).flatMap
      fun chunk => chunkPoints method stepMillis rows (start, finish) chunk
        (stepMillis * steps)).map Prod.fst) =
      (chunksFrom (stepMillis * steps) finish (finish - start).toNat start).flatMap fun chunk =>
        stepsOf stepMillis chunk.1 chunk.2 := by
    rw [List.map_flatMap]
    refine List.flatMap_congr fun chunk member => ?_
    obtain ⟨starts, lasts, ends⟩ := chunk_bounds long _ member
    exact chunkPoints_instants everyStep _ positive.le starts lasts ends stored
  obtain ⟨sorted, members⟩ :=
    chunksFrom_instants positive whole (finish - start).toNat start le_rfl
  rw [← instants] at sorted members
  obtain ⟨rising, kept⟩ := keepLater_instants _ none sorted
  rw [analyzeRange, span]
  refine List.Pairwise.eq_of_mem_iff rising (pairwise_stepsOf positive) fun instant => ?_
  rw [kept, members]
  simp [less]

theorem analyzeRange_of_le (le : finish ≤ start) :
    analyzeRange method stepMillis rows start finish = [] := by
  rw [analyzeRange, Int.toNat_of_nonpos (by omega)]
  rfl

/-- The measurements of a batch. -/
abbrev Batch (Value : Type) := List (Point Value)

/-- Cut the batch of a window out of the points, when there are enough of them. -/
def cutWindow (batchSize : Nat) (points : List (Point Value)) (window : BatchWindow) :
    Option (Batch Value) :=
  let inside := (points.dropWhile fun point => decide (point.1 < window.start)).takeWhile
    fun point => decide (point.1 ≤ window.finish)
  if inside.length < batchSize then none else some (inside.take batchSize)

/-- Where the interpolation of a run of windows starts: a window's length early, and not before
the base. -/
def leadIn (grid : WindowGrid) (base : Int) (window : BatchWindow) : Int :=
  let lead := window.start - max (window.finish - window.start) grid.stepMillis
  if grid.Representable lead then max lead base else base

/-- The last end of a run of windows. -/
def reachOf (window : BatchWindow) (run : List BatchWindow) : Int :=
  run.foldl (fun reach window => max reach window.finish) window.finish

/-- The windows of a run of overlapping ones which reach `batchSize` points, with their batches,
interpolated from the rows once. -/
def buildRun (method : Interpolator Value) (grid : WindowGrid) (rows : List (Point Value))
    (base : Int) (window : BatchWindow) (run : List BatchWindow) :
    List (BatchWindow × Batch Value) :=
  let points := analyzeRange method grid.stepMillis rows (leadIn grid base window)
    (reachOf window run)
  (window :: run).filterMap fun window =>
    (cutWindow grid.batchSize points window).map fun batch => (window, batch)

theorem mem_of_mem_buildRun {grid : WindowGrid} {base : Int} {window : BatchWindow}
    {run : List BatchWindow} {built : BatchWindow × Batch Value}
    (member : built ∈ buildRun method grid rows base window run) : built.1 ∈ window :: run := by
  obtain ⟨found, found_mem, cut⟩ := List.mem_filterMap.mp member
  obtain ⟨batch, -, rfl⟩ := Option.map_eq_some_iff.mp cut
  exact found_mem

end WeftDb.Outputs
