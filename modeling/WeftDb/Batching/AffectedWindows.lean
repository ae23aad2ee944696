import Mathlib.Tactic.Ring
import WeftDb.Batching.Windows
import WeftDb.Reduce.Grid

/-!
# The windows which changed instants affect

Instants are nanoseconds since the epoch.  The windows of a list of changed instants, and those of a
span of them, are computed in whole milliseconds with machine integers.  An overflow is an outcome
of its own: a checked build stops at it.
-/

namespace WeftDb

/-- A machine integer ran over. -/
inductive Overflow
  | overflow
  deriving DecidableEq

/-- A millisecond, in nanoseconds. -/
def nanosPerMilli : Int := 1000000

/-- The whole milliseconds of an instant. -/
def timestampMillis (timestamp : Int) : Int := timestamp / nanosPerMilli

/-- The window whose bounds are given in milliseconds. -/
def BatchWindow.inNanos (window : BatchWindow) : BatchWindow where
  start := window.start * nanosPerMilli
  finish := window.finish * nanosPerMilli

/-- A value of a machine integer, or an overflow. -/
def checked (value : Int) : Except Overflow Int :=
  if Word64.Fits value then .ok value else .error .overflow

theorem checked_eq_ok {value result : Int} :
    checked value = .ok result ↔ Word64.Fits value ∧ value = result := by
  unfold checked
  split <;> simp_all

/-- The resolution of an aspect's batches, their points, and the first and the last millisecond which
the calendar represents. -/
structure BatchGrid where
  resolution : Reduce.Resolution
  batchSize : Nat
  firstMillis : Int
  lastMillis : Int

namespace BatchGrid

variable (grid : BatchGrid)
variable {index timestamp minTs maxTs : Int} {found : List BatchWindow} {timestamps : List Int}

/-- The step in whole milliseconds: below a millisecond it is none. -/
def stepMillis : Int := grid.resolution.stepNanos / nanosPerMilli

/-- The windows in milliseconds. -/
def windows : WindowGrid where
  stepMillis := grid.stepMillis
  batchSize := grid.batchSize
  firstMillis := grid.firstMillis
  lastMillis := grid.lastMillis

/-- A window of the grid, each of whose bounds is computed in a machine integer. -/
def checkedWindow (base index : Int) : Except Overflow (Option BatchWindow) := do
  let start ← checked (base + (← checked (index * grid.stepMillis)))
  let _ ← checked (start + grid.windows.windowDurationMillis)
  return grid.windows.windowAt base index

/-- The windows from the first which may hold the millisecond `low` to the last which starts by
`high`. -/
def windowsTouched (base low high : Int) : Except Overflow (List BatchWindow) := do
  let duration ← checked grid.windows.windowDurationMillis
  let latest := (← checked (high - base)).tdiv grid.stepMillis
  let ended ← checked ((← checked (low - base)) - duration)
  let earliest := max (← checked (ended.tdiv grid.stepMillis + 1)) 0
  let found ← (List.range (latest + 1 - earliest).toNat).mapM fun offset : Nat =>
    grid.checkedWindow base (earliest + offset)
  return found.reduceOption

/-- The windows which changed instants affect. -/
def calculateAffectedWindows (timestamps : List Int) (base : Int) :
    Except Overflow (List BatchWindow) :=
  if timestamps = [] ∨ grid.batchSize = 0 then .ok []
  else if grid.stepMillis ≤ 0 ∨ 2 ^ 63 ≤ grid.batchSize then .ok []
  else do
    let found ← timestamps.mapM fun timestamp =>
      grid.windowsTouched (timestampMillis base) (timestampMillis timestamp)
        (timestampMillis timestamp)
    return (found.flatten.map BatchWindow.inNanos).dedup

/-- The windows which the instants from `minTs` to `maxTs` affect. -/
def calculateAffectedWindowsForRange (minTs maxTs base : Int) :
    Except Overflow (List BatchWindow) :=
  if grid.batchSize = 0 ∨ maxTs < minTs then .ok []
  else if grid.stepMillis ≤ 0 ∨ 2 ^ 63 ≤ grid.batchSize then .ok []
  else do
    let found ← grid.windowsTouched (timestampMillis base) (timestampMillis minTs)
      (timestampMillis maxTs)
    return found.map BatchWindow.inNanos

/-- Whether the calendar represents an instant. -/
def Representable (timestamp : Int) : Prop := grid.windows.Representable (timestampMillis timestamp)

instance (timestamp : Int) : Decidable (grid.Representable timestamp) :=
  inferInstanceAs (Decidable (grid.windows.Representable _))

/-- The window from the first to the last of a batch's points, of which point zero is `index` steps
after the base. -/
def windowAt (base index : Int) : Option BatchWindow :=
  let start := base + index * grid.resolution.stepNanos
  let finish := start + ((grid.batchSize : Int) - 1) * grid.resolution.stepNanos
  if grid.Representable start ∧ grid.Representable finish then some ⟨start, finish⟩ else none

/-- Whether the points of a batch span an instant, the first and the last included. -/
def Spans (base : Int) (window : BatchWindow) (timestamp : Int) : Prop :=
  (∃ index, 0 ≤ index ∧ grid.windowAt base index = some window) ∧
    window.start ≤ timestamp ∧ timestamp ≤ window.finish

/-- The affected windows of instants are those which span one of them. -/
def AffectedExact (timestamps : List Int) (base : Int) : Prop :=
  ∃ found, grid.calculateAffectedWindows timestamps base = .ok found ∧
    ∀ window, window ∈ found ↔ ∃ timestamp ∈ timestamps, grid.Spans base window timestamp

/-- Whether a window spans a whole millisecond from `low` to `high`. -/
def SpansWithin (base low high : Int) (window : BatchWindow) : Prop :=
  ∃ timestamp, nanosPerMilli ∣ timestamp ∧ low ≤ timestamp ∧ timestamp ≤ high ∧
    grid.Spans base window timestamp

/-- The affected windows of a span of instants are those which span one of its milliseconds. -/
def RangeExact (minTs maxTs base : Int) : Prop :=
  ∃ found, grid.calculateAffectedWindowsForRange minTs maxTs base = .ok found ∧
    ∀ window, window ∈ found ↔ grid.SpansWithin base minTs maxTs window

/-- No machine integer runs over between the millisecond `low` and `high`. -/
structure Unoverflowed (base low high : Int) : Prop where
  duration : Word64.Fits grid.windows.windowDurationMillis
  latest : Word64.Fits (high - base)
  relative : Word64.Fits (low - base)
  ended : Word64.Fits (low - base - grid.windows.windowDurationMillis)
  next : Word64.Fits
    ((low - base - grid.windows.windowDurationMillis).tdiv grid.stepMillis + 1)
  bounds : ∀ index, grid.windows.earliestWindowIndex base low ≤ index →
    index ≤ grid.windows.latestWindowIndex base high →
      Word64.Fits (index * grid.stepMillis) ∧ Word64.Fits (base + index * grid.stepMillis) ∧
        Word64.Fits (base + index * grid.stepMillis + grid.windows.windowDurationMillis)

variable {grid} {base low high : Int} {window : BatchWindow}

theorem checkedWindow_eq_ok {found : Option BatchWindow} :
    grid.checkedWindow base index = .ok found ↔
      (Word64.Fits (index * grid.stepMillis) ∧ Word64.Fits (base + index * grid.stepMillis) ∧
        Word64.Fits (base + index * grid.stepMillis + grid.windows.windowDurationMillis)) ∧
      grid.windows.windowAt base index = found := by
  simp only [checkedWindow, bind_eq_ok, checked_eq_ok, pure_eq_ok]
  constructor
  · rintro ⟨_, ⟨offset, rfl⟩, _, ⟨start, rfl⟩, _, ⟨finish, -⟩, same⟩
    exact ⟨⟨offset, start, finish⟩, same⟩
  · rintro ⟨⟨offset, start, finish⟩, same⟩
    exact ⟨_, ⟨offset, rfl⟩, _, ⟨start, rfl⟩, _, ⟨finish, rfl⟩, same⟩

theorem checkedWindows_eq_ok {first last : Int} {found : List (Option BatchWindow)} :
    (List.range (last + 1 - first).toNat).mapM (fun offset : Nat =>
        grid.checkedWindow base (first + offset)) = .ok found ↔
      (∀ index, first ≤ index → index ≤ last →
        Word64.Fits (index * grid.stepMillis) ∧ Word64.Fits (base + index * grid.stepMillis) ∧
          Word64.Fits
            (base + index * grid.stepMillis + grid.windows.windowDurationMillis)) ∧
      ((List.range (last + 1 - first).toNat).map fun offset : Nat =>
        grid.windows.windowAt base (first + offset)) = found := by
  rw [mapM_checked_eq_ok fun (offset : Nat) _ => checkedWindow_eq_ok]
  refine and_congr_left fun _ =>
    ⟨fun bounds index from_first to_last => ?_, fun bounds offset member => ?_⟩
  · have at_offset := bounds (index - first).toNat (List.mem_range.mpr (by omega))
    rwa [Int.toNat_of_nonneg (by omega), add_sub_cancel] at at_offset
  · have below := List.mem_range.mp member
    exact bounds (first + offset) (by omega) (by omega)

theorem windowsTouched_eq_ok :
    grid.windowsTouched base low high = .ok found ↔
      grid.Unoverflowed base low high ∧
        grid.windows.windowsBetween base (grid.windows.earliestWindowIndex base low)
          (grid.windows.latestWindowIndex base high) = found := by
  simp only [windowsTouched, bind_eq_ok, checked_eq_ok, pure_eq_ok, checkedWindows_eq_ok]
  constructor
  · rintro ⟨_, ⟨duration, rfl⟩, _, ⟨latest, rfl⟩, _, ⟨relative, rfl⟩, _, ⟨ended, rfl⟩, _,
      ⟨next, rfl⟩, _, ⟨bounds, rfl⟩, rfl⟩
    exact ⟨⟨duration, latest, relative, ended, next, bounds⟩, (List.filterMap_map (g := id)).symm⟩
  · rintro ⟨⟨duration, latest, relative, ended, next, bounds⟩, rfl⟩
    exact ⟨_, ⟨duration, rfl⟩, _, ⟨latest, rfl⟩, _, ⟨relative, rfl⟩, _, ⟨ended, rfl⟩, _,
      ⟨next, rfl⟩, _, ⟨bounds, rfl⟩, List.filterMap_map (g := id)⟩

theorem sized_iff : grid.windows.Sized ↔
    0 < grid.batchSize ∧ grid.batchSize < 2 ^ 63 ∧ 0 < grid.stepMillis := Iff.rfl

theorem stepNanos_eq (sized : grid.windows.Sized) :
    grid.resolution.stepNanos = grid.stepMillis * nanosPerMilli := by
  have positive := sized.2.2
  change 0 < grid.resolution.stepNanos / nanosPerMilli at positive
  unfold stepMillis
  generalize grid.resolution = resolution at positive ⊢
  cases resolution <;> first | rfl | exact absurd positive (by decide)

theorem timestampMillis_mul (millis : Int) : timestampMillis (millis * nanosPerMilli) = millis :=
  Int.mul_ediv_cancel millis (by decide)

theorem le_timestampMillis {millis : Int} :
    millis ≤ timestampMillis timestamp ↔ millis * nanosPerMilli ≤ timestamp :=
  Int.le_ediv_iff_mul_le (by decide)

theorem timestampMillis_lt {millis : Int} :
    timestampMillis timestamp < millis ↔ timestamp < millis * nanosPerMilli :=
  Int.ediv_lt_iff_lt_mul (by decide)

theorem windowAt_millis (sized : grid.windows.Sized) (base index : Int) :
    grid.windowAt (base * nanosPerMilli) index =
      (grid.windows.windowAt base index).map BatchWindow.inNanos := by
  have start : base * nanosPerMilli + index * grid.resolution.stepNanos =
      (base + index * grid.stepMillis) * nanosPerMilli := by
    rw [stepNanos_eq sized]
    ring
  have finish : (base + index * grid.stepMillis) * nanosPerMilli +
        ((grid.batchSize : Int) - 1) * grid.resolution.stepNanos =
      (base + index * grid.stepMillis + grid.windows.windowDurationMillis) * nanosPerMilli := by
    rw [stepNanos_eq sized, WindowGrid.windowDurationMillis]
    simp only [windows]
    ring
  simp only [windowAt, WindowGrid.windowAt, Representable, start, finish, timestampMillis_mul]
  change _ = Option.map _ (if
      grid.windows.Representable (base + index * grid.stepMillis) ∧ grid.windows.Representable
        (base + index * grid.stepMillis + grid.windows.windowDurationMillis) then
      some (⟨base + index * grid.stepMillis,
        base + index * grid.stepMillis + grid.windows.windowDurationMillis⟩ : BatchWindow)
    else none)
  split
  · rfl
  · rfl

variable (grid) in
/-- The windows which the code finds for the instants from `low` to `high`: those which end behind
`low` and start by `high`, but the first window neither within its last step nor only once `high` is
past its start. -/
def Reached (base low high : Int) (window : BatchWindow) : Prop :=
  ∃ index, 0 ≤ index ∧ grid.windowAt base index = some window ∧
    (low < window.finish ∧
      ¬(index = 0 ∧ grid.windows.AtEdge (timestampMillis base) (timestampMillis low))) ∧
    (window.start ≤ high ∨
      index = 0 ∧ timestampMillis base - grid.stepMillis < timestampMillis high)

theorem mem_windowsBetween_iff (sized : grid.windows.Sized) :
    window ∈ (grid.windows.windowsBetween base
        (grid.windows.earliestWindowIndex base (timestampMillis low))
        (grid.windows.latestWindowIndex base (timestampMillis high))).map BatchWindow.inNanos ↔
      grid.Reached (base * nanosPerMilli) low high window := by
  simp only [List.mem_map, WindowGrid.mem_windowsTouched sized, Reached, windowAt_millis sized,
    Option.map_eq_some_iff, timestampMillis_mul, timestampMillis_lt, le_timestampMillis]
  constructor
  · rintro ⟨millis, ⟨index, nonneg, found, ends, starts⟩, rfl⟩
    exact ⟨index, nonneg, ⟨millis, found, rfl⟩, ends, starts⟩
  · rintro ⟨index, nonneg, ⟨millis, found, rfl⟩, ends, starts⟩
    exact ⟨millis, ⟨index, nonneg, found, ends, starts⟩, rfl⟩

/-- The base which the code aligns the windows on. -/
def wholeMillis (timestamp : Int) : Int := timestampMillis timestamp * nanosPerMilli

theorem not_unsized (sized : grid.windows.Sized) :
    ¬(grid.stepMillis ≤ 0 ∨ 2 ^ 63 ≤ grid.batchSize) :=
  not_or.mpr ⟨sized.2.2.not_ge, sized.2.1.not_ge⟩

theorem inNanos_injective : Function.Injective BatchWindow.inNanos := by
  rintro ⟨start, finish⟩ ⟨start', finish'⟩ same
  obtain ⟨starts, ends⟩ := BatchWindow.mk.inj same
  have positive : nanosPerMilli ≠ 0 := by decide
  exact congrArg₂ BatchWindow.mk (Int.eq_of_mul_eq_mul_right positive starts)
    (Int.eq_of_mul_eq_mul_right positive ends)

section

variable (sized : grid.windows.Sized)

include sized

theorem mem_affected_iff :
    window ∈ (grid.windows.calculateAffectedWindows (timestamps.map timestampMillis)
        (timestampMillis base)).map BatchWindow.inNanos ↔
      ∃ timestamp ∈ timestamps, grid.Reached (wholeMillis base) timestamp timestamp window := by
  rw [WindowGrid.calculateAffectedWindows, if_pos sized]
  simp only [wholeMillis, ← mem_windowsBetween_iff sized, List.mem_map, List.mem_dedup,
    List.mem_flatMap]
  constructor
  · rintro ⟨millis, ⟨_, ⟨timestamp, given, rfl⟩, touched⟩, rfl⟩
    exact ⟨timestamp, given, millis, touched, rfl⟩
  · rintro ⟨timestamp, given, millis, touched, rfl⟩
    exact ⟨millis, ⟨_, ⟨timestamp, given, rfl⟩, touched⟩, rfl⟩

/-- Where no machine integer runs over, the windows of instants are those of their milliseconds. -/
theorem calculateAffectedWindows_eq_ok :
    grid.calculateAffectedWindows timestamps base = .ok found ↔
      (∀ timestamp ∈ timestamps, grid.Unoverflowed (timestampMillis base)
        (timestampMillis timestamp) (timestampMillis timestamp)) ∧
      (grid.windows.calculateAffectedWindows (timestamps.map timestampMillis)
        (timestampMillis base)).map BatchWindow.inNanos = found := by
  have some_points : grid.batchSize ≠ 0 := sized.1.ne'
  rw [calculateAffectedWindows, if_neg (not_unsized sized), WindowGrid.calculateAffectedWindows,
    if_pos sized, ← List.dedup_map_of_injective inNanos_injective, List.flatMap_map]
  split
  · next empty =>
      rw [empty.resolve_right some_points]
      simp [eq_comm]
  · simp only [bind_eq_ok, pure_eq_ok, mapM_checked_eq_ok fun _ _ => windowsTouched_eq_ok]
    constructor
    · rintro ⟨_, ⟨fits, rfl⟩, rfl⟩
      exact ⟨fits, rfl⟩
    · rintro ⟨fits, rfl⟩
      exact ⟨_, ⟨fits, rfl⟩, rfl⟩

theorem calculateAffectedWindowsForRange_eq_ok (ordered : minTs ≤ maxTs) :
    grid.calculateAffectedWindowsForRange minTs maxTs base = .ok found ↔
      grid.Unoverflowed (timestampMillis base) (timestampMillis minTs) (timestampMillis maxTs) ∧
      (grid.windows.calculateAffectedWindowsForRange (timestampMillis minTs)
        (timestampMillis maxTs) (timestampMillis base)).map BatchWindow.inNanos = found := by
  have some_points : ¬(grid.batchSize = 0 ∨ maxTs < minTs) :=
    not_or.mpr ⟨sized.1.ne', ordered.not_gt⟩
  have ordered_millis : timestampMillis minTs ≤ timestampMillis maxTs :=
    Int.ediv_le_ediv (by decide) ordered
  simp only [calculateAffectedWindowsForRange, if_neg some_points, if_neg (not_unsized sized),
    bind_eq_ok, pure_eq_ok, windowsTouched_eq_ok, WindowGrid.calculateAffectedWindowsForRange,
    if_pos (And.intro sized ordered_millis)]
  constructor
  · rintro ⟨_, ⟨fits, rfl⟩, rfl⟩
    exact ⟨fits, rfl⟩
  · rintro ⟨fits, rfl⟩
    exact ⟨_, ⟨fits, rfl⟩, rfl⟩

theorem affectedExact_iff_reached :
    grid.AffectedExact timestamps base ↔
      (∀ timestamp ∈ timestamps, grid.Unoverflowed (timestampMillis base)
        (timestampMillis timestamp) (timestampMillis timestamp)) ∧
      ∀ window, (∃ timestamp ∈ timestamps,
          grid.Reached (wholeMillis base) timestamp timestamp window) ↔
        ∃ timestamp ∈ timestamps, grid.Spans base window timestamp := by
  simp only [AffectedExact, calculateAffectedWindows_eq_ok sized, ← mem_affected_iff sized]
  constructor
  · rintro ⟨_, ⟨fits, rfl⟩, exact_windows⟩
    exact ⟨fits, exact_windows⟩
  · rintro ⟨fits, exact_windows⟩
    exact ⟨_, ⟨fits, rfl⟩, exact_windows⟩

theorem rangeExact_iff_reached (ordered : minTs ≤ maxTs) :
    grid.RangeExact minTs maxTs base ↔
      grid.Unoverflowed (timestampMillis base) (timestampMillis minTs) (timestampMillis maxTs) ∧
      ∀ window, grid.Reached (wholeMillis base) minTs maxTs window ↔
        grid.SpansWithin base minTs maxTs window := by
  have ordered_millis : timestampMillis minTs ≤ timestampMillis maxTs :=
    Int.ediv_le_ediv (by decide) ordered
  simp only [RangeExact, calculateAffectedWindowsForRange_eq_ok sized ordered, wholeMillis,
    ← mem_windowsBetween_iff sized, WindowGrid.calculateAffectedWindowsForRange,
    if_pos (And.intro sized ordered_millis)]
  constructor
  · rintro ⟨_, ⟨fits, rfl⟩, exact_windows⟩
    exact ⟨fits, exact_windows⟩
  · rintro ⟨fits, exact_windows⟩
    exact ⟨_, ⟨fits, rfl⟩, exact_windows⟩

end

variable (grid)

/-- A window which spans an instant and which the code does not find for it: it ends there, or it is
the first window and the instant lies within its last step. -/
def Overlooked (base timestamp : Int) (window : BatchWindow) : Prop :=
  grid.Spans base window timestamp ∧
    (timestamp = window.finish ∨ window.start = base ∧
      grid.windows.AtEdge (timestampMillis base) (timestampMillis timestamp))

/-- The first window, which the code finds for an instant less than a step before it. -/
def Invented (base timestamp : Int) (window : BatchWindow) : Prop :=
  grid.windowAt base 0 = some window ∧ 1 < grid.batchSize ∧ timestamp < base ∧
    timestampMillis base - grid.stepMillis < timestampMillis timestamp

/-- The lists of instants whose affected windows are exact.  Without a step of a millisecond, or
with a base between two milliseconds, it is where there are no windows at all.  Otherwise each
window which one instant overlooks is found for another, and each which one invents spans another. -/
def ExactFor (timestamps : List Int) (base : Int) : Prop :=
  if grid.windows.Sized then
    (∀ timestamp ∈ timestamps, grid.Unoverflowed (timestampMillis base)
      (timestampMillis timestamp) (timestampMillis timestamp)) ∧
    if nanosPerMilli ∣ base then
      (∀ window, ∀ timestamp ∈ timestamps, grid.Overlooked base timestamp window →
        ∃ other ∈ timestamps, grid.Spans base window other ∧ ¬grid.Overlooked base other window ∨
          grid.Invented base other window) ∧
      ∀ window, ∀ timestamp ∈ timestamps, grid.Invented base timestamp window →
        ∃ other ∈ timestamps, grid.Spans base window other
    else
      ∀ timestamp ∈ timestamps, ∀ window,
        ¬grid.Reached (wholeMillis base) timestamp timestamp window ∧
          ¬grid.Spans base window timestamp
  else ∀ timestamp ∈ timestamps, ∀ window, ¬grid.Spans base window timestamp

variable {grid}

theorem wholeMillis_of_dvd (aligned : nanosPerMilli ∣ base) : wholeMillis base = base :=
  Int.ediv_mul_cancel aligned

theorem eq_of_windowAt (found : grid.windowAt base index = some window) :
    window.start = base + index * grid.resolution.stepNanos ∧
      window.finish = window.start + ((grid.batchSize : Int) - 1) * grid.resolution.stepNanos := by
  simp only [windowAt] at found
  split at found
  · cases found
    exact ⟨rfl, rfl⟩
  · cases found

theorem start_eq_base_iff (found : grid.windowAt base index = some window) :
    window.start = base ↔ index = 0 := by
  have step := grid.resolution.stepNanos_pos.ne'
  rw [(eq_of_windowAt found).1, add_eq_left, mul_eq_zero, or_iff_left step]

theorem start_le_finish (some_points : 0 < grid.batchSize)
    (found : grid.windowAt base index = some window) : window.start ≤ window.finish := by
  have duration : 0 ≤ ((grid.batchSize : Int) - 1) * grid.resolution.stepNanos :=
    mul_nonneg (by omega) grid.resolution.stepNanos_pos.le
  have finish := (eq_of_windowAt found).2
  omega

theorem atEdge_before_iff (sized : grid.windows.Sized) (before : timestamp < base) :
    grid.windows.AtEdge base timestamp ↔ grid.batchSize = 1 ∧ base - grid.stepMillis < timestamp := by
  have positive : 0 < grid.stepMillis := sized.2.2
  have some_points : 0 < grid.batchSize := sized.1
  change base + ((grid.batchSize : Int) - 1) * grid.stepMillis - grid.stepMillis < timestamp ∧
    timestamp < base + ((grid.batchSize : Int) - 1) * grid.stepMillis ↔ _
  rcases Nat.lt_or_ge 1 grid.batchSize with many | few
  · have longer : 1 * grid.stepMillis ≤ ((grid.batchSize : Int) - 1) * grid.stepMillis :=
      mul_le_mul_of_nonneg_right (by omega) positive.le
    omega
  · have one : grid.batchSize = 1 := by omega
    simp only [one, Nat.cast_one, sub_self, zero_mul, true_and]
    omega

theorem timestampMillis_lt_of_lt (aligned : nanosPerMilli ∣ base) :
    timestampMillis timestamp < timestampMillis base ↔ timestamp < base := by
  have same : timestampMillis base * nanosPerMilli = base := wholeMillis_of_dvd aligned
  rw [timestampMillis_lt, same]

theorem reached_iff (sized : grid.windows.Sized) (aligned : nanosPerMilli ∣ base) :
    grid.Reached base timestamp timestamp window ↔
      grid.Spans base window timestamp ∧ ¬grid.Overlooked base timestamp window ∨
        grid.Invented base timestamp window := by
  constructor
  · rintro ⟨index, nonneg, found, ⟨behind, away⟩, by_timestamp⟩
    by_cases starts : window.start ≤ timestamp
    · have spans : grid.Spans base window timestamp := ⟨⟨index, nonneg, found⟩, starts, behind.le⟩
      refine .inl ⟨spans, ?_⟩
      rintro ⟨-, ends | ⟨first, edge⟩⟩
      · exact behind.ne ends
      · exact away ⟨(start_eq_base_iff found).mp first, edge⟩
    · obtain ⟨rfl, near⟩ := by_timestamp.resolve_left starts
      rw [(start_eq_base_iff found).mpr rfl, not_le] at starts
      have before := (timestampMillis_lt_of_lt aligned).mpr starts
      have several : grid.batchSize ≠ 1 := fun one =>
        away ⟨rfl, (atEdge_before_iff sized before).mpr ⟨one, near⟩⟩
      have some_points : 0 < grid.batchSize := sized.1
      exact .inr ⟨found, by omega, starts, near⟩
  · rintro (⟨⟨⟨index, nonneg, found⟩, starts, ends⟩, seen⟩ | ⟨found, many, before, near⟩)
    · refine ⟨index, nonneg, found, ⟨lt_of_le_of_ne ends fun last => seen ?_, ?_⟩, .inl starts⟩
      · exact ⟨⟨⟨index, nonneg, found⟩, starts, ends⟩, .inl last⟩
      · rintro ⟨first, edge⟩
        exact seen ⟨⟨⟨index, nonneg, found⟩, starts, ends⟩,
          .inr ⟨(start_eq_base_iff found).mpr first, edge⟩⟩
    · refine ⟨0, le_rfl, found, ⟨?_, ?_⟩, .inr ⟨rfl, near⟩⟩
      · have ordered := start_le_finish sized.1 found
        rw [(start_eq_base_iff found).mpr rfl] at ordered
        exact before.trans_le ordered
      · rintro ⟨-, edge⟩
        have one := (atEdge_before_iff sized ((timestampMillis_lt_of_lt aligned).mpr before)).mp edge
        omega

theorem not_spans_of_reached (sized : grid.windows.Sized) (between : ¬nanosPerMilli ∣ base)
    (reached : grid.Reached (wholeMillis base) low high window) :
    ¬grid.Spans base window timestamp := by
  rintro ⟨⟨index, -, spanning⟩, -⟩
  obtain ⟨other, -, found, -⟩ := reached
  refine between ?_
  have same := (eq_of_windowAt spanning).1.symm.trans (eq_of_windowAt found).1
  rw [stepNanos_eq sized, wholeMillis] at same
  exact ⟨timestampMillis base + other * grid.stepMillis - index * grid.stepMillis, by linarith⟩

theorem calculateAffectedWindows_of_not_sized (unsized : ¬grid.windows.Sized)
    (timestamps : List Int) (base : Int) :
    grid.calculateAffectedWindows timestamps base = .ok [] := by
  rw [sized_iff] at unsized
  unfold calculateAffectedWindows
  split
  · rfl
  · rw [if_pos (by omega)]

theorem affectedExact_iff (timestamps : List Int) (base : Int) :
    grid.AffectedExact timestamps base ↔ grid.ExactFor timestamps base := by
  by_cases sized : grid.windows.Sized
  · rw [affectedExact_iff_reached sized, ExactFor, if_pos sized]
    refine and_congr_right fun _ => ?_
    split
    · next aligned =>
        simp only [wholeMillis_of_dvd aligned, reached_iff sized aligned]
        constructor
        · intro same
          refine ⟨fun window timestamp given overlooked => ?_,
            fun window timestamp given invented => ?_⟩
          · exact (same window).mpr ⟨timestamp, given, overlooked.1⟩
          · exact (same window).mp ⟨timestamp, given, .inr invented⟩
        · rintro ⟨found_elsewhere, spans_other⟩ window
          constructor
          · rintro ⟨timestamp, given, ⟨spans, -⟩ | invented⟩
            · exact ⟨timestamp, given, spans⟩
            · exact spans_other window timestamp given invented
          · rintro ⟨timestamp, given, spans⟩
            by_cases overlooked : grid.Overlooked base timestamp window
            · exact found_elsewhere window timestamp given overlooked
            · exact ⟨timestamp, given, .inl ⟨spans, overlooked⟩⟩
    · next between =>
        constructor
        · refine fun same timestamp given window => ⟨fun reached => ?_, fun spans => ?_⟩
          · obtain ⟨other, -, spans⟩ := (same window).mp ⟨timestamp, given, reached⟩
            exact not_spans_of_reached sized between reached spans
          · obtain ⟨other, -, reached⟩ := (same window).mpr ⟨timestamp, given, spans⟩
            exact not_spans_of_reached sized between reached spans
        · intro neither window
          constructor
          · rintro ⟨timestamp, given, reached⟩
            exact absurd reached (neither timestamp given window).1
          · rintro ⟨timestamp, given, spans⟩
            exact absurd spans (neither timestamp given window).2
  · rw [AffectedExact, calculateAffectedWindows_of_not_sized sized, ExactFor, if_neg sized]
    constructor
    · rintro ⟨_, ⟨⟩, exact_windows⟩ timestamp given window spans
      exact absurd ((exact_windows window).mpr ⟨timestamp, given, spans⟩) List.not_mem_nil
    · intro none
      refine ⟨[], rfl, fun window => ⟨fun member => absurd member List.not_mem_nil, ?_⟩⟩
      rintro ⟨timestamp, given, spans⟩
      exact absurd spans (none timestamp given window)

/-- Whether a whole millisecond lies from `low` to `high`. -/
def HoldsMillis (low high : Int) : Prop :=
  ∃ timestamp, nanosPerMilli ∣ timestamp ∧ low ≤ timestamp ∧ timestamp ≤ high

variable (grid) in
/-- The spans of instants whose affected windows are exact.  Without a step of a millisecond, with a
base between two milliseconds or with a span between two, it is where there are no windows at all.
Otherwise no window ends on the first instant, and where the first window is representable that
instant is not within its last step with the base by the last, nor the last instant less than a step
before the base. -/
def RangeExactFor (low high base : Int) : Prop :=
  if grid.windows.Sized ∧ low ≤ high then
    grid.Unoverflowed (timestampMillis base) (timestampMillis low) (timestampMillis high) ∧
    (nanosPerMilli ∣ base → HoldsMillis low high →
      (∀ index window, 0 ≤ index → grid.windowAt base index = some window →
        window.finish ≠ low) ∧
      ∀ window, grid.windowAt base 0 = some window →
        ¬(grid.windows.AtEdge (timestampMillis base) (timestampMillis low) ∧ base ≤ high) ∧
        ¬(timestampMillis base - grid.stepMillis < timestampMillis high ∧ high < base ∧
          ¬grid.windows.AtEdge (timestampMillis base) (timestampMillis low))) ∧
    (¬(nanosPerMilli ∣ base ∧ HoldsMillis low high) →
      ∀ window, ¬grid.Reached (wholeMillis base) low high window ∧
        ¬grid.SpansWithin base low high window)
  else ∀ window, ¬grid.SpansWithin base low high window

section

variable (sized : grid.windows.Sized)

include sized

theorem dvd_bounds (aligned : nanosPerMilli ∣ base)
    (found : grid.windowAt base index = some window) :
    nanosPerMilli ∣ window.start ∧ nanosPerMilli ∣ window.finish := by
  obtain ⟨starts, ends⟩ := eq_of_windowAt found
  have step : nanosPerMilli ∣ grid.resolution.stepNanos := ⟨_, (stepNanos_eq sized).trans (mul_comm _ _)⟩
  have start : nanosPerMilli ∣ window.start := starts ▸ Int.dvd_add aligned (step.mul_left _)
  exact ⟨start, ends ▸ Int.dvd_add start (step.mul_left _)⟩

theorem spansWithin_iff (aligned : nanosPerMilli ∣ base) (holds : HoldsMillis low high) :
    grid.SpansWithin base low high window ↔
      ∃ index, 0 ≤ index ∧ grid.windowAt base index = some window ∧
        window.start ≤ high ∧ low ≤ window.finish := by
  constructor
  · rintro ⟨timestamp, -, after, before, ⟨index, nonneg, found⟩, starts, ends⟩
    exact ⟨index, nonneg, found, starts.trans before, after.trans ends⟩
  · rintro ⟨index, nonneg, found, starts, ends⟩
    obtain ⟨held, whole, after, before⟩ := holds
    obtain ⟨whole_start, whole_finish⟩ := dvd_bounds sized aligned found
    have ordered := start_le_finish sized.1 found
    have grid_window : ∃ index, 0 ≤ index ∧ grid.windowAt base index = some window :=
      ⟨index, nonneg, found⟩
    rcases lt_or_ge held window.start with early | late
    · exact ⟨_, whole_start, after.trans early.le, starts, grid_window, le_rfl, ordered⟩
    · rcases le_or_gt held window.finish with within | past
      · exact ⟨held, whole, after, before, grid_window, late, within⟩
      · exact ⟨_, whole_finish, ends, past.le.trans before, grid_window, ordered, le_rfl⟩

theorem lt_finish_of_atEdge (aligned : nanosPerMilli ∣ base)
    (found : grid.windowAt base 0 = some window)
    (edge : grid.windows.AtEdge (timestampMillis base) (timestampMillis timestamp)) :
    timestamp < window.finish := by
  have finish : window.finish =
      (timestampMillis base + grid.windows.windowDurationMillis) * nanosPerMilli := by
    rw [(eq_of_windowAt found).2, (start_eq_base_iff found).mpr rfl, stepNanos_eq sized, add_mul]
    exact congrArg₂ (· + ·) (wholeMillis_of_dvd aligned).symm (mul_assoc _ _ _).symm
  exact finish ▸ timestampMillis_lt.mp edge.2

theorem reached_range_iff (ordered : low ≤ high) (aligned : nanosPerMilli ∣ base)
    (holds : HoldsMillis low high) :
    (∀ window, grid.Reached base low high window ↔ grid.SpansWithin base low high window) ↔
      (∀ index window, 0 ≤ index → grid.windowAt base index = some window →
        window.finish ≠ low) ∧
      ∀ window, grid.windowAt base 0 = some window →
        ¬(grid.windows.AtEdge (timestampMillis base) (timestampMillis low) ∧ base ≤ high) ∧
        ¬(timestampMillis base - grid.stepMillis < timestampMillis high ∧ high < base ∧
          ¬grid.windows.AtEdge (timestampMillis base) (timestampMillis low)) := by
  simp only [spansWithin_iff sized aligned holds]
  constructor
  · intro same
    refine ⟨fun index window nonneg found ends => ?_, fun window found => ⟨?_, ?_⟩⟩
    · have starts := (start_le_finish sized.1 found).trans (ends.le.trans ordered)
      obtain ⟨_, -, -, ⟨behind, -⟩, -⟩ :=
        (same window).mpr ⟨index, nonneg, found, starts, ends.ge⟩
      exact behind.ne' ends
    · rintro ⟨edge, by_high⟩
      have first := (start_eq_base_iff found).mpr rfl
      have ends : low ≤ window.finish := (lt_finish_of_atEdge sized aligned found edge).le
      obtain ⟨index, -, again, ⟨-, away⟩, -⟩ :=
        (same window).mpr ⟨0, le_rfl, found, first.le.trans by_high, ends⟩
      exact away ⟨(start_eq_base_iff again).mp first, edge⟩
    · rintro ⟨near, before, away⟩
      have first := (start_eq_base_iff found).mpr rfl
      have behind : low < window.finish :=
        (ordered.trans_lt before).trans_le (first.ge.trans (start_le_finish sized.1 found))
      obtain ⟨_, -, -, starts, -⟩ :=
        (same window).mp ⟨0, le_rfl, found, ⟨behind, fun edge => away edge.2⟩, .inr ⟨rfl, near⟩⟩
      exact absurd starts (first ▸ before.not_ge)
  · rintro ⟨no_end, first_window⟩ window
    constructor
    · rintro ⟨index, nonneg, found, ⟨behind, away⟩, starts | ⟨rfl, near⟩⟩
      · exact ⟨index, nonneg, found, starts, behind.le⟩
      · refine ⟨0, le_rfl, found, ?_, behind.le⟩
        by_contra late
        rw [(start_eq_base_iff found).mpr rfl, not_le] at late
        exact (first_window window found).2 ⟨near, late, fun edge => away ⟨rfl, edge⟩⟩
    · rintro ⟨index, nonneg, found, starts, ends⟩
      refine ⟨index, nonneg, found,
        ⟨lt_of_le_of_ne ends (no_end index window nonneg found).symm, ?_⟩, .inl starts⟩
      rintro ⟨rfl, edge⟩
      rw [(start_eq_base_iff found).mpr rfl] at starts
      exact (first_window window found).1 ⟨edge, starts⟩

end

theorem calculateAffectedWindowsForRange_of_not_sized (base : Int)
    (empty : ¬(grid.windows.Sized ∧ minTs ≤ maxTs)) :
    grid.calculateAffectedWindowsForRange minTs maxTs base = .ok [] := by
  rw [sized_iff] at empty
  unfold calculateAffectedWindowsForRange
  split
  · rfl
  · rw [if_pos (by omega)]

theorem of_reached_of_spansWithin (sized : grid.windows.Sized)
    (reached : grid.Reached (wholeMillis base) low high window)
    (spans : grid.SpansWithin base low high window) :
    nanosPerMilli ∣ base ∧ HoldsMillis low high := by
  obtain ⟨timestamp, whole, after, before, spanning⟩ := spans
  refine ⟨?_, timestamp, whole, after, before⟩
  by_contra between
  exact not_spans_of_reached sized between reached spanning

theorem rangeExact_iff (minTs maxTs base : Int) :
    grid.RangeExact minTs maxTs base ↔ grid.RangeExactFor minTs maxTs base := by
  unfold RangeExactFor
  split
  · next proper =>
      obtain ⟨sized, ordered⟩ := proper
      rw [rangeExact_iff_reached sized ordered]
      refine and_congr_right fun _ => ?_
      by_cases both : nanosPerMilli ∣ base ∧ HoldsMillis minTs maxTs
      · obtain ⟨aligned, holds⟩ := both
        simp only [wholeMillis_of_dvd aligned, reached_range_iff sized ordered aligned holds,
          aligned, holds, and_self, not_true_eq_false, forall_true_left, false_implies, and_true]
      · constructor
        · refine fun same => ⟨fun aligned holds => absurd ⟨aligned, holds⟩ both, fun _ window => ?_⟩
          refine ⟨fun reached => ?_, fun spans => ?_⟩
          · exact both (of_reached_of_spansWithin sized reached ((same window).mp reached))
          · exact both (of_reached_of_spansWithin sized ((same window).mpr spans) spans)
        · rintro ⟨-, neither⟩ window
          have none := neither both window
          exact iff_of_false none.1 none.2
  · next empty =>
      rw [RangeExact, calculateAffectedWindowsForRange_of_not_sized base empty]
      constructor
      · rintro ⟨_, ⟨⟩, exact_windows⟩ window spans
        exact absurd ((exact_windows window).mpr spans) List.not_mem_nil
      · intro none
        exact ⟨[], rfl, fun window => iff_of_false List.not_mem_nil (none window)⟩

/-- **Affected windows.**  Those of a list of instants are the windows of the grid which span one of
them, and those of a span of instants are the windows which span one of its milliseconds, exactly
for the lists and the spans described. -/
theorem affectedWindows_exact_iff (grid : BatchGrid) (timestamps : List Int)
    (minTs maxTs base : Int) :
    (grid.AffectedExact timestamps base ↔ grid.ExactFor timestamps base) ∧
      (grid.RangeExact minTs maxTs base ↔ grid.RangeExactFor minTs maxTs base) :=
  ⟨affectedExact_iff timestamps base, rangeExact_iff minTs maxTs base⟩

/-- At three points a minute, the window of minutes three to five is overlooked for minute five. -/
theorem window_ending_on_its_instant_is_overlooked :
    ¬BatchGrid.AffectedExact ⟨.minutes, 3, -8334601228800000, 8210266876799999⟩
      [300000000000] 0 := by
  rintro ⟨_, found, same⟩
  have spans : BatchGrid.Spans ⟨.minutes, 3, -8334601228800000, 8210266876799999⟩ 0
      ⟨180000000000, 300000000000⟩ 300000000000 :=
    ⟨⟨3, by decide, by decide⟩, by decide, by decide⟩
  have member := (same _).mpr ⟨_, List.mem_singleton_self _, spans⟩
  have computed : BatchGrid.calculateAffectedWindows
      ⟨.minutes, 3, -8334601228800000, 8210266876799999⟩ [300000000000] 0 =
      .ok [⟨240000000000, 360000000000⟩, ⟨300000000000, 420000000000⟩] := by
    rfl
  cases found.symm.trans computed
  exact absurd member (by decide)

end BatchGrid

end WeftDb
