import Mathlib.Data.List.Dedup
import WeftDb.Foundation.Integers

/-!
# The windows which a timestamp touches

Batch windows lie on a grid: window `i` starts `i` steps after the earliest stored instant and
lasts one step less than a batch has points.  The windows of a timestamp are computed from two
truncating divisions.  They are exactly the grid windows which contain it, except when it lies
within a step of the end of the first window: then the truncation loses that window.
-/

namespace WeftDb

/-- A batch window, from its start up to, and without, its end. -/
structure BatchWindow where
  start : Int
  finish : Int
  deriving DecidableEq

/-- Whether a timestamp falls within the window. -/
def BatchWindow.Contains (window : BatchWindow) (timestamp : Int) : Prop :=
  window.start ≤ timestamp ∧ timestamp < window.finish

instance (window : BatchWindow) (timestamp : Int) : Decidable (window.Contains timestamp) :=
  inferInstanceAs (Decidable (_ ∧ _))

/-- The spacing of windows, in milliseconds, the points of a batch, and the first and the last
instant which the calendar represents. -/
structure WindowGrid where
  stepMillis : Int
  batchSize : Nat
  firstMillis : Int
  lastMillis : Int

namespace WindowGrid

variable (grid : WindowGrid)
variable {index timestamp : Int} {timestamps : List Int}

/-- Whether the calendar represents an instant. -/
def Representable (millis : Int) : Prop := grid.firstMillis ≤ millis ∧ millis ≤ grid.lastMillis

instance (millis : Int) : Decidable (grid.Representable millis) :=
  inferInstanceAs (Decidable (_ ∧ _))

/-- How long a window lasts. -/
def windowDurationMillis : Int := ((grid.batchSize : Int) - 1) * grid.stepMillis

/-- The step and the batch size give windows at all. -/
def Sized : Prop := 0 < grid.batchSize ∧ grid.batchSize < 2 ^ 63 ∧ 0 < grid.stepMillis

instance : Decidable grid.Sized := inferInstanceAs (Decidable (_ ∧ _ ∧ _))

/-- Window `index` of the grid which is aligned on `base`. -/
def windowAt (base index : Int) : Option BatchWindow :=
  let start := base + index * grid.stepMillis
  let finish := start + grid.windowDurationMillis
  if grid.Representable start ∧ grid.Representable finish then some ⟨start, finish⟩ else none

/-- The windows with indices from `first` to `last`. -/
def windowsBetween (base first last : Int) : List BatchWindow :=
  (List.range (last + 1 - first).toNat).filterMap fun offset : Nat =>
    grid.windowAt base (first + offset)

/-- The index after the last window which ends too early for a timestamp, as the code computes it:
the division truncates. -/
def earliestWindowIndex (base timestamp : Int) : Int :=
  max ((timestamp - base - grid.windowDurationMillis).tdiv grid.stepMillis + 1) 0

/-- The last window which starts by a timestamp. -/
def latestWindowIndex (base timestamp : Int) : Int :=
  (timestamp - base).tdiv grid.stepMillis

/-- The windows which these timestamps affect. -/
def calculateAffectedWindows (timestamps : List Int) (base : Int) : List BatchWindow :=
  if grid.Sized then
    (timestamps.flatMap fun timestamp =>
      grid.windowsBetween base (grid.earliestWindowIndex base timestamp)
        (grid.latestWindowIndex base timestamp)).dedup
  else []

/-- The windows which the timestamps from `minTs` to `maxTs` affect. -/
def calculateAffectedWindowsForRange (minTs maxTs base : Int) : List BatchWindow :=
  if grid.Sized ∧ minTs ≤ maxTs then
    grid.windowsBetween base (grid.earliestWindowIndex base minTs)
      (grid.latestWindowIndex base maxTs)
  else []

/-- The windows of the grid aligned on `base`. -/
def IsWindow (base : Int) (window : BatchWindow) : Prop :=
  grid.Sized ∧ ∃ index, 0 ≤ index ∧ grid.windowAt base index = some window

/-- A timestamp within a step of the end of the first window, and before it. -/
def AtEdge (base timestamp : Int) : Prop :=
  base + grid.windowDurationMillis - grid.stepMillis < timestamp ∧
    timestamp < base + grid.windowDurationMillis

instance (base timestamp : Int) : Decidable (grid.AtEdge base timestamp) :=
  inferInstanceAs (Decidable (_ ∧ _))

variable {grid} {base : Int} {window : BatchWindow}

theorem mem_windowsBetween {first last : Int} :
    window ∈ grid.windowsBetween base first last ↔
      ∃ index, first ≤ index ∧ index ≤ last ∧ grid.windowAt base index = some window := by
  simp only [windowsBetween, List.mem_filterMap, List.mem_range]
  constructor
  · rintro ⟨offset, within, found⟩
    exact ⟨first + offset, by omega, by omega, found⟩
  · rintro ⟨index, from_first, to_last, found⟩
    refine ⟨(index - first).toNat, by omega, ?_⟩
    rwa [Int.toNat_of_nonneg (by omega), add_sub_cancel]

theorem eq_of_windowAt (found : grid.windowAt base index = some window) :
    window.start = base + index * grid.stepMillis ∧
      window.finish = base + index * grid.stepMillis + grid.windowDurationMillis := by
  simp only [windowAt] at found
  split at found
  · cases found
    exact ⟨rfl, rfl⟩
  · cases found

theorem representable_of_windowAt (found : grid.windowAt base index = some window) :
    grid.Representable window.start ∧ grid.Representable window.finish := by
  simp only [windowAt] at found
  split at found
  · next both =>
      cases found
      exact both
  · cases found

theorem IsWindow.representable (isWindow : grid.IsWindow base window)
    (contains : window.Contains timestamp) : grid.Representable timestamp := by
  obtain ⟨-, index, -, found⟩ := isWindow
  obtain ⟨first, last⟩ := representable_of_windowAt found
  exact ⟨first.1.trans contains.1, contains.2.le.trans last.2⟩

theorem index_le_latest (sized : grid.Sized) (nonneg : 0 ≤ index)
    (starts : base + index * grid.stepMillis ≤ timestamp) :
    index ≤ grid.latestWindowIndex base timestamp :=
  (TruncatedDiv.le_tdiv_iff sized.2.2 nonneg).mpr (by omega)

/-- The windows which are computed for the timestamps from `low` to `high`: those which end behind
`low` and start by `high`, but the first window neither within its last step nor only once `high` is
past its start. -/
theorem mem_windowsTouched (sized : grid.Sized) {low high : Int} :
    window ∈ grid.windowsBetween base (grid.earliestWindowIndex base low)
        (grid.latestWindowIndex base high) ↔
      ∃ index, 0 ≤ index ∧ grid.windowAt base index = some window ∧
        (low < window.finish ∧ ¬(index = 0 ∧ grid.AtEdge base low)) ∧
          (window.start ≤ high ∨ index = 0 ∧ base - grid.stepMillis < high) := by
  have positive := sized.2.2
  rw [mem_windowsBetween]
  refine exists_congr fun index => ⟨?_, ?_⟩
  · rintro ⟨from_first, to_last, found⟩
    obtain ⟨starts, ends⟩ := eq_of_windowAt found
    have nonneg : 0 ≤ index := (le_max_right _ _).trans from_first
    have behind := (TruncatedDiv.tdiv_lt_iff positive nonneg).mp
      (Int.lt_of_add_one_le ((le_max_left _ _).trans from_first))
    have by_high := (TruncatedDiv.le_tdiv_iff positive nonneg).mp to_last
    refine ⟨nonneg, found, ⟨?_, ?_⟩, ?_⟩
    · omega
    · unfold AtEdge
      omega
    · omega
  · rintro ⟨nonneg, found, ⟨behind, away⟩, by_high⟩
    obtain ⟨starts, ends⟩ := eq_of_windowAt found
    have at_zero : index = 0 → index * grid.stepMillis = 0 := by
      rintro rfl
      exact zero_mul _
    unfold AtEdge at away
    refine ⟨max_le (Int.add_one_le_of_lt ?_) nonneg, ?_, found⟩
    · exact (TruncatedDiv.tdiv_lt_iff positive nonneg).mpr (by omega)
    · exact (TruncatedDiv.le_tdiv_iff positive nonneg).mpr (by omega)

/-- Past the base these are the windows which the span touches, but the first one within its last
step. -/
theorem mem_windowsTouched_of_le (sized : grid.Sized) {low high : Int} (after : base ≤ high) :
    window ∈ grid.windowsBetween base (grid.earliestWindowIndex base low)
        (grid.latestWindowIndex base high) ↔
      grid.IsWindow base window ∧ low < window.finish ∧ window.start ≤ high ∧
        ¬(window.start = base ∧ grid.AtEdge base low) := by
  rw [mem_windowsTouched sized]
  constructor
  · rintro ⟨index, nonneg, found, ⟨behind, away⟩, by_high⟩
    have starts := (eq_of_windowAt found).1
    refine ⟨⟨sized, index, nonneg, found⟩, behind, by_high.elim id ?_, fun edge => away ⟨?_, edge.2⟩⟩
    · rintro ⟨rfl, -⟩
      rwa [starts, zero_mul, add_zero]
    · exact (mul_eq_zero.mp (by omega)).resolve_right sized.2.2.ne'
  · rintro ⟨⟨-, index, nonneg, found⟩, behind, by_high, away⟩
    refine ⟨index, nonneg, found, ⟨behind, fun edge => away ⟨?_, edge.2⟩⟩, .inl by_high⟩
    rw [(eq_of_windowAt found).1, edge.1, zero_mul, add_zero]

theorem mem_calculateAffectedWindows (sized : grid.Sized) :
    window ∈ grid.calculateAffectedWindows timestamps base ↔ ∃ timestamp ∈ timestamps,
      window ∈ grid.windowsBetween base (grid.earliestWindowIndex base timestamp)
        (grid.latestWindowIndex base timestamp) := by
  rw [calculateAffectedWindows, if_pos sized, List.mem_dedup, List.mem_flatMap]

theorem IsWindow.affected (isWindow : grid.IsWindow base window) (member : timestamp ∈ timestamps)
    (contains : window.Contains timestamp) (away : ¬grid.AtEdge base timestamp) :
    window ∈ grid.calculateAffectedWindows timestamps base := by
  obtain ⟨sized, index, nonneg, found⟩ := isWindow
  exact (mem_calculateAffectedWindows sized).mpr ⟨timestamp, member, (mem_windowsTouched sized).mpr
    ⟨index, nonneg, found, ⟨contains.2, fun edge => away edge.2⟩, .inl contains.1⟩⟩

theorem IsWindow.affected_range (isWindow : grid.IsWindow base window) {minTs maxTs : Int}
    (after : minTs ≤ timestamp) (before : timestamp ≤ maxTs) (contains : window.Contains timestamp)
    (away : ¬grid.AtEdge base minTs) :
    window ∈ grid.calculateAffectedWindowsForRange minTs maxTs base := by
  obtain ⟨sized, index, nonneg, found⟩ := isWindow
  rw [calculateAffectedWindowsForRange, if_pos ⟨sized, after.trans before⟩]
  exact (mem_windowsTouched sized).mpr ⟨index, nonneg, found,
    ⟨after.trans_lt contains.2, fun edge => away edge.2⟩, .inl (contains.1.trans before)⟩

end WindowGrid

/-- The windows from the front which overlap or touch those before them, and the rest. -/
def overlapRun (reach : Int) : List BatchWindow → List BatchWindow × List BatchWindow
  | [] => ([], [])
  | window :: windows =>
      if window.start ≤ reach then
        let (run, rest) := overlapRun (max reach window.finish) windows
        (window :: run, rest)
      else ([], window :: windows)

theorem append_overlapRun (reach : Int) (windows : List BatchWindow) :
    (overlapRun reach windows).1 ++ (overlapRun reach windows).2 = windows := by
  induction windows generalizing reach with
  | nil => rfl
  | cons window windows ih =>
      unfold overlapRun
      split
      · exact congrArg (window :: ·) (ih (max reach window.finish))
      · rfl

theorem mem_overlapRun {reach : Int} {windows : List BatchWindow} {window : BatchWindow} :
    window ∈ windows ↔
      window ∈ (overlapRun reach windows).1 ∨ window ∈ (overlapRun reach windows).2 := by
  rw [← List.mem_append, append_overlapRun]

/-- A window whose batch was built from a read of the rows which began behind that many
commits. -/
structure BuiltBatch where
  window : BatchWindow
  readAfter : Nat
  deriving DecidableEq

/-- How many batches one transaction queues. -/
def queueBatchChunk : Nat := 500

end WeftDb
