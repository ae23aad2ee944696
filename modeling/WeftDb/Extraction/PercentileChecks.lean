import WeftDb.Extraction.Dictionary
import Mathlib.Algebra.BigOperators.Ring.List
import Mathlib.Algebra.Order.BigOperators.Group.List
import Mathlib.Algebra.Order.Ring.Abs
import Mathlib.Tactic.FieldSimp
import Mathlib.Tactic.Linarith
import Mathlib.Tactic.NormNum

/-!
# The percentile constraints of a dictionary

Two patterns of one length are similar under a percentile constraint when they differ by so many
percent: at the worst point, on the average over the points, or in their sums, with the signs of the
amplitudes or without.  A difference from zero counts as ten thousand percent.
-/

namespace WeftDb.Extraction

/-- A check stopped. -/
inductive Panic
  /-- "Division by zero" -/
  | divisionByZero
  deriving DecidableEq

/-- The quotient of two decimals. -/
def dividedBy (dividend divisor : ℚ) : Except Panic ℚ :=
  if divisor = 0 then .error .divisionByZero else .ok (dividend / divisor)

namespace Pattern

def sum (pattern : Pattern) : ℚ := pattern.amplitudes.sum

def absSum (pattern : Pattern) : ℚ := (pattern.amplitudes.map (|·|)).sum

end Pattern

/-- A difference in percent of a denominator. -/
def percentile (difference denominator : ℚ) : Except Panic ℚ :=
  if denominator = 0 then .ok (if difference = 0 then 0 else 10000)
  else do return (← dividedBy difference denominator) * 100

/-- The differences of two patterns at each point, in percent of the second. -/
def elementPercents (difference : ℚ → ℚ → ℚ) (first second : Pattern) : Except Panic (List ℚ) :=
  (first.amplitudes.zip second.amplitudes).mapM fun (a1, a2) => percentile (difference a1 a2) |a2|

/-- Whether the greatest difference is within a threshold. -/
def maximumWithin (difference : ℚ → ℚ → ℚ) (first second : Pattern) (threshold : ℚ) :
    Except Panic Bool := do
  let percents ← elementPercents difference first second
  return percents.max?.getD 0 ≤ threshold

/-- Whether the average difference is within a threshold. -/
def averageWithin (difference : ℚ → ℚ → ℚ) (first second : Pattern) (threshold : ℚ) :
    Except Panic Bool := do
  let percents ← elementPercents difference first second
  return (← dividedBy percents.sum first.amplitudes.length) ≤ threshold

/-- Whether two sums are within a threshold.  The second is taken with its sign. -/
def sumWithin (sum : Pattern → ℚ) (first second : Pattern) (threshold : ℚ) :
    Except Panic Bool :=
  if first.amplitudes = [] ∨ second.amplitudes = [] then .ok true
  else do return (← percentile |sum first - sum second| (sum second)) ≤ threshold

/-- The difference of two amplitudes. -/
def signedDifference (a1 a2 : ℚ) : ℚ := |a1 - a2|

/-- The difference of two amplitudes without their signs. -/
def absoluteDifference (a1 a2 : ℚ) : ℚ := abs (|a1| - |a2|)

def checkMaximumPercentile : Pattern → Pattern → ℚ → Except Panic Bool :=
  maximumWithin signedDifference

def checkAbsoluteMaximumPercentile : Pattern → Pattern → ℚ → Except Panic Bool :=
  maximumWithin absoluteDifference

def checkAveragePercentile : Pattern → Pattern → ℚ → Except Panic Bool :=
  averageWithin signedDifference

/-- Empty patterns are similar here. -/
def checkAbsoluteAveragePercentile (first second : Pattern) (threshold : ℚ) :
    Except Panic Bool :=
  if first.amplitudes = [] ∨ second.amplitudes = [] then .ok true
  else averageWithin absoluteDifference first second threshold

def checkSumPercentile : Pattern → Pattern → ℚ → Except Panic Bool := sumWithin Pattern.sum

def checkAbsoluteSumPercentile : Pattern → Pattern → ℚ → Except Panic Bool :=
  sumWithin Pattern.absSum

/-- The percentile constraints. -/
inductive PercentileType
  | maximumPercentile
  | averagePercentile
  | absoluteMaximumPercentile
  | absoluteAveragePercentile
  | sumPercentile
  | absoluteSumPercentile
  deriving DecidableEq

/-- Check a percentile constraint between two patterns. -/
def checkPercentile : PercentileType → Pattern → Pattern → ℚ → Except Panic Bool
  | .maximumPercentile => checkMaximumPercentile
  | .averagePercentile => checkAveragePercentile
  | .absoluteMaximumPercentile => checkAbsoluteMaximumPercentile
  | .absoluteAveragePercentile => checkAbsoluteAveragePercentile
  | .sumPercentile => checkSumPercentile
  | .absoluteSumPercentile => checkAbsoluteSumPercentile

/-- A difference in percent of a magnitude, ten thousand for one from zero. -/
def relativeDistance (difference magnitude : ℚ) : ℚ :=
  if magnitude = 0 then if difference = 0 then 0 else 10000 else difference / magnitude * 100

/-- Whether a difference is within so many percent of a magnitude.  A difference from zero is within
ten thousand percent. -/
def Near (difference magnitude threshold : ℚ) : Prop :=
  difference ≤ threshold / 100 * magnitude ∨
    magnitude = 0 ∧ difference ≠ 0 ∧ 10000 ≤ threshold

/-- What a constraint asks of two patterns: their sums are near, or the amplitudes at each point, or
those at all points on the average. -/
def Similar : PercentileType → Pattern → Pattern → ℚ → Prop
  | .maximumPercentile, first, second, threshold =>
      ∀ pair ∈ first.amplitudes.zip second.amplitudes,
        Near (signedDifference pair.1 pair.2) |pair.2| threshold
  | .absoluteMaximumPercentile, first, second, threshold =>
      ∀ pair ∈ first.amplitudes.zip second.amplitudes,
        Near (absoluteDifference pair.1 pair.2) |pair.2| threshold
  | .averagePercentile, first, second, threshold =>
      ((first.amplitudes.zip second.amplitudes).map fun pair =>
        relativeDistance (signedDifference pair.1 pair.2) |pair.2|).sum ≤
          threshold * first.amplitudes.length
  | .absoluteAveragePercentile, first, second, threshold =>
      ((first.amplitudes.zip second.amplitudes).map fun pair =>
        relativeDistance (absoluteDifference pair.1 pair.2) |pair.2|).sum ≤
          threshold * first.amplitudes.length
  | .sumPercentile, first, second, threshold =>
      Near |first.sum - second.sum| |second.sum| threshold
  | .absoluteSumPercentile, first, second, threshold =>
      Near |first.absSum - second.absSum| second.absSum threshold

theorem percentile_eq (difference denominator : ℚ) :
    percentile difference denominator = .ok (relativeDistance difference denominator) := by
  unfold percentile relativeDistance dividedBy
  split
  · rfl
  · rfl

theorem elementPercents_eq (difference : ℚ → ℚ → ℚ) (first second : Pattern) :
    elementPercents difference first second =
      .ok ((first.amplitudes.zip second.amplitudes).map fun pair =>
        relativeDistance (difference pair.1 pair.2) |pair.2|) := by
  simp only [elementPercents, percentile_eq]
  exact List.mapM_pure

theorem near_of_relativeDistance_le {difference magnitude threshold : ℚ} (nonneg : 0 ≤ magnitude)
    (within : relativeDistance difference magnitude ≤ threshold) :
    Near difference magnitude threshold := by
  unfold relativeDistance at within
  split at within
  · next zero =>
      split at within
      · next same => exact .inl (by rw [zero, same, mul_zero])
      · next differ => exact .inr ⟨zero, differ, within⟩
  · next nonzero =>
      have positive : 0 < magnitude := lt_of_le_of_ne nonneg (Ne.symm nonzero)
      refine .inl ?_
      have quotient : difference / magnitude ≤ threshold / 100 := by linarith
      exact (div_le_iff₀ positive).mp quotient

@[simp]
theorem relativeDistance_zero (magnitude : ℚ) : relativeDistance 0 magnitude = 0 := by
  simp [relativeDistance]

theorem relativeDistance_mul {scale : ℚ} (nonzero : scale ≠ 0) (difference magnitude : ℚ) :
    relativeDistance (scale * difference) (scale * magnitude) =
      relativeDistance difference magnitude := by
  unfold relativeDistance
  simp only [mul_eq_zero, nonzero, false_or, mul_div_mul_left _ _ nonzero]

variable (difference : ℚ → ℚ → ℚ) (first second : Pattern) (threshold : ℚ)
variable {pattern scaled : Pattern}

theorem maximumWithin_eq :
    maximumWithin difference first second threshold =
      .ok (decide ((((first.amplitudes.zip second.amplitudes).map fun pair =>
        relativeDistance (difference pair.1 pair.2) |pair.2|).max?.getD 0) ≤ threshold)) := by
  rw [maximumWithin, elementPercents_eq]
  rfl

theorem averageWithin_eq (some_points : first.amplitudes ≠ []) :
    averageWithin difference first second threshold =
      .ok (decide (((first.amplitudes.zip second.amplitudes).map fun pair =>
        relativeDistance (difference pair.1 pair.2) |pair.2|).sum / first.amplitudes.length ≤
          threshold)) := by
  have counted : (first.amplitudes.length : ℚ) ≠ 0 := by
    simpa using some_points
  rw [averageWithin, elementPercents_eq]
  simp only [dividedBy, if_neg counted]
  rfl

theorem sumWithin_eq (sum : Pattern → ℚ) (some_points : first.amplitudes ≠ [])
    (some_points' : second.amplitudes ≠ []) :
    sumWithin sum first second threshold =
      .ok (decide (relativeDistance |sum first - sum second| (sum second) ≤ threshold)) := by
  rw [sumWithin, if_neg (not_or.mpr ⟨some_points, some_points'⟩), percentile_eq]
  rfl

variable {difference first second threshold}

theorem signedDifference_self (value : ℚ) : signedDifference value value = 0 := by
  simp [signedDifference]

theorem absoluteDifference_self (value : ℚ) : absoluteDifference value value = 0 := by
  simp [absoluteDifference]

section

variable (same : ∀ value, difference value value = 0)

include same

theorem distances_self (amplitudes : List ℚ) :
    (amplitudes.zip amplitudes).map (fun pair =>
      relativeDistance (difference pair.1 pair.2) |pair.2|) = amplitudes.map fun _ => 0 := by
  induction amplitudes with
  | nil => rfl
  | cons amplitude amplitudes ih =>
      simp only [List.zip_cons_cons, List.map_cons, ih, same, relativeDistance_zero]

theorem maximumWithin_self (nonneg : 0 ≤ threshold) :
    maximumWithin difference first first threshold = .ok true := by
  rw [maximumWithin_eq, distances_self same]
  congr 1
  rw [decide_eq_true_iff]
  cases largest : (first.amplitudes.map fun _ => (0 : ℚ)).max? with
  | none => exact nonneg
  | some value =>
      obtain ⟨_, -, rfl⟩ := List.mem_map.mp (List.max?_mem largest)
      exact nonneg

theorem averageWithin_self (nonneg : 0 ≤ threshold) (some_points : first.amplitudes ≠ []) :
    averageWithin difference first first threshold = .ok true := by
  rw [averageWithin_eq _ _ _ _ some_points, distances_self same]
  simpa using nonneg

end

theorem sumWithin_self {sum : Pattern → ℚ} (nonneg : 0 ≤ threshold) :
    sumWithin sum first first threshold = .ok true := by
  by_cases empty : first.amplitudes = []
  · rw [sumWithin, if_pos (.inl empty)]
  · rw [sumWithin_eq _ _ _ _ empty empty, sub_self, abs_zero, relativeDistance_zero]
    simpa using nonneg

theorem near_of_maximumWithin
    (accepted : maximumWithin difference first second threshold = .ok true) :
    ∀ pair ∈ first.amplitudes.zip second.amplitudes,
      Near (difference pair.1 pair.2) |pair.2| threshold := by
  intro pair member
  rw [maximumWithin_eq, Except.ok.injEq, decide_eq_true_iff] at accepted
  have listed := List.mem_map_of_mem (f := fun pair : ℚ × ℚ =>
    relativeDistance (difference pair.1 pair.2) |pair.2|) member
  obtain ⟨largest, found⟩ := Option.isSome_iff_exists.mp (List.isSome_max?_of_mem listed)
  rw [found, Option.getD_some] at accepted
  exact near_of_relativeDistance_le (abs_nonneg _)
    ((List.max?_eq_some_iff.mp found).2 _ listed |>.trans accepted)

theorem sum_le_of_averageWithin (some_points : first.amplitudes ≠ [])
    (accepted : averageWithin difference first second threshold = .ok true) :
    ((first.amplitudes.zip second.amplitudes).map fun pair =>
      relativeDistance (difference pair.1 pair.2) |pair.2|).sum ≤
        threshold * first.amplitudes.length := by
  rw [averageWithin_eq _ _ _ _ some_points, Except.ok.injEq, decide_eq_true_iff] at accepted
  have counted : (0 : ℚ) < first.amplitudes.length := by
    exact_mod_cast List.length_pos_iff.mpr some_points
  exact (div_le_iff₀ counted).mp accepted

theorem near_of_sumWithin {sum : Pattern → ℚ} (same : first.amplitudes.length = second.amplitudes.length)
    (empty_sum : ∀ pattern : Pattern, pattern.amplitudes = [] → sum pattern = 0)
    (nonneg : 0 ≤ sum second) (accepted : sumWithin sum first second threshold = .ok true) :
    Near |sum first - sum second| (sum second) threshold := by
  by_cases empty : first.amplitudes = []
  · have empty' : second.amplitudes = [] := by
      rw [← List.length_eq_zero_iff, ← same, empty, List.length_nil]
    exact .inl (by rw [empty_sum _ empty, empty_sum _ empty']; simp)
  · have some_points' : second.amplitudes ≠ [] := by
      rwa [ne_eq, ← List.length_eq_zero_iff, ← same, List.length_eq_zero_iff]
    rw [sumWithin_eq _ _ _ _ empty some_points', Except.ok.injEq, decide_eq_true_iff] at accepted
    exact near_of_relativeDistance_le nonneg accepted

/-- The amplitudes of one pattern are those of another, scaled. -/
def Scaled (scale : ℚ) (pattern scaled : Pattern) : Prop :=
  scaled.amplitudes = pattern.amplitudes.map (scale * ·)

variable {scale : ℚ} {first' second' : Pattern}

theorem signedDifference_mul (a1 a2 : ℚ) :
    signedDifference (scale * a1) (scale * a2) = |scale| * signedDifference a1 a2 := by
  rw [signedDifference, ← mul_sub, abs_mul]
  rfl

theorem absoluteDifference_mul (a1 a2 : ℚ) :
    absoluteDifference (scale * a1) (scale * a2) = |scale| * absoluteDifference a1 a2 := by
  rw [absoluteDifference, abs_mul, abs_mul, ← mul_sub, abs_mul, abs_abs]
  rfl

section

variable (by_scale : Scaled scale pattern scaled)

include by_scale

theorem Scaled.nil_iff : scaled.amplitudes = [] ↔ pattern.amplitudes = [] := by
  rw [by_scale, List.map_eq_nil_iff]

theorem Scaled.sum : scaled.sum = scale * pattern.sum := by
  rw [Pattern.sum, by_scale, Pattern.sum, List.sum_map_mul_left, List.map_id']

theorem Scaled.absSum : scaled.absSum = |scale| * pattern.absSum := by
  rw [Pattern.absSum, by_scale, Pattern.absSum, List.map_map, ← List.sum_map_mul_left]
  simp only [Function.comp_def, abs_mul]

end

section

variable (nonzero : scale ≠ 0)
  (homogeneous : ∀ a1 a2, difference (scale * a1) (scale * a2) = |scale| * difference a1 a2)
  (by_scale : Scaled scale first first') (by_scale' : Scaled scale second second')

include nonzero homogeneous by_scale by_scale'

theorem Scaled.distances :
    (first'.amplitudes.zip second'.amplitudes).map (fun pair =>
        relativeDistance (difference pair.1 pair.2) |pair.2|) =
      (first.amplitudes.zip second.amplitudes).map fun pair =>
        relativeDistance (difference pair.1 pair.2) |pair.2| := by
  rw [by_scale, by_scale', List.zip_map, List.map_map]
  refine List.map_congr_left fun pair _ => ?_
  simp only [Function.comp_apply, Prod.map_fst, Prod.map_snd, homogeneous, abs_mul]
  exact relativeDistance_mul (abs_ne_zero.mpr nonzero) _ _

theorem maximumWithin_scaled :
    maximumWithin difference first' second' threshold =
      maximumWithin difference first second threshold := by
  rw [maximumWithin_eq, maximumWithin_eq, Scaled.distances nonzero homogeneous by_scale by_scale']

theorem averageWithin_scaled :
    averageWithin difference first' second' threshold =
      averageWithin difference first second threshold := by
  have lengths : first'.amplitudes.length = first.amplitudes.length := by
    rw [by_scale, List.length_map]
  rw [averageWithin, averageWithin, elementPercents_eq, elementPercents_eq,
    Scaled.distances nonzero homogeneous by_scale by_scale', lengths]

end

theorem sumWithin_scaled {sum : Pattern → ℚ} {factor : ℚ} (positive : 0 < factor)
    (scaled_sum : ∀ {pattern scaled}, Scaled scale pattern scaled → sum scaled = factor * sum pattern)
    (by_scale : Scaled scale first first') (by_scale' : Scaled scale second second') :
    sumWithin sum first' second' threshold = sumWithin sum first second threshold := by
  have distance :
      relativeDistance |sum first' - sum second'| (sum second') =
        relativeDistance |sum first - sum second| (sum second) := by
    rw [scaled_sum by_scale, scaled_sum by_scale', ← mul_sub, abs_mul, abs_of_pos positive,
      relativeDistance_mul positive.ne']
  simp only [sumWithin, by_scale.nil_iff, by_scale'.nil_iff, percentile_eq, distance]

theorem absSum_nonneg (pattern : Pattern) : 0 ≤ pattern.absSum := by
  refine List.sum_nonneg fun value listed => ?_
  obtain ⟨amplitude, -, rfl⟩ := List.mem_map.mp listed
  exact abs_nonneg amplitude

theorem absoluteAverage_completes :
    ∃ verdict, checkAbsoluteAveragePercentile first second threshold = .ok verdict := by
  unfold checkAbsoluteAveragePercentile
  split
  · exact ⟨true, rfl⟩
  · next some_points => exact ⟨_, averageWithin_eq _ _ _ _ (not_or.mp some_points).1⟩

theorem absoluteAverage_self (nonneg : 0 ≤ threshold) :
    checkAbsoluteAveragePercentile first first threshold = .ok true := by
  unfold checkAbsoluteAveragePercentile
  split
  · rfl
  · next some_points =>
      exact averageWithin_self absoluteDifference_self nonneg (not_or.mp some_points).1

theorem sum_le_of_absoluteAverage (same : first.amplitudes.length = second.amplitudes.length)
    (accepted : checkAbsoluteAveragePercentile first second threshold = .ok true) :
    ((first.amplitudes.zip second.amplitudes).map fun pair =>
      relativeDistance (absoluteDifference pair.1 pair.2) |pair.2|).sum ≤
        threshold * first.amplitudes.length := by
  unfold checkAbsoluteAveragePercentile at accepted
  split at accepted
  · next empty =>
      have nothing : first.amplitudes = [] := by
        rcases empty with empty | empty
        · exact empty
        · rw [← List.length_eq_zero_iff, same, empty, List.length_nil]
      simp [nothing]
  · next some_points => exact sum_le_of_averageWithin (not_or.mp some_points).1 accepted

theorem absoluteAverage_scaled (nonzero : scale ≠ 0) (by_scale : Scaled scale first first')
    (by_scale' : Scaled scale second second') :
    checkAbsoluteAveragePercentile first' second' threshold =
      checkAbsoluteAveragePercentile first second threshold := by
  simp only [checkAbsoluteAveragePercentile, by_scale.nil_iff, by_scale'.nil_iff,
    averageWithin_scaled nonzero absoluteDifference_mul by_scale by_scale']

/-- **The percentile constraints are relative.**  Every check completes, accepts a pattern against
itself under each threshold from zero up, accepts only patterns which are similar as it asks, and
gives one verdict on all common multiples of two patterns.  The signed sum is described for second
sums which are not negative and for positive multiples, the signed average for patterns with
points. -/
theorem percentileChecks_relative (constraint : PercentileType)
    (same : first.amplitudes.length = second.amplitudes.length) (threshold : ℚ)
    (averaged : constraint = .averagePercentile → first.amplitudes ≠ []) :
    (∃ verdict, checkPercentile constraint first second threshold = .ok verdict) ∧
    (0 ≤ threshold → checkPercentile constraint first first threshold = .ok true) ∧
    ((constraint = .sumPercentile → 0 ≤ second.sum) →
      checkPercentile constraint first second threshold = .ok true →
        Similar constraint first second threshold) ∧
    ∀ scale first' second', scale ≠ 0 → (constraint = .sumPercentile → 0 < scale) →
      Scaled scale first first' → Scaled scale second second' →
        checkPercentile constraint first' second' threshold =
          checkPercentile constraint first second threshold := by
  have summed (sum : Pattern → ℚ) :
      ∃ verdict, sumWithin sum first second threshold = .ok verdict := by
    unfold sumWithin
    split
    · exact ⟨true, rfl⟩
    · rw [percentile_eq]
      exact ⟨_, rfl⟩
  cases constraint with
  | maximumPercentile =>
      exact ⟨⟨_, maximumWithin_eq ..⟩, maximumWithin_self signedDifference_self,
        fun _ => near_of_maximumWithin,
        fun _ _ _ nonzero _ => maximumWithin_scaled nonzero signedDifference_mul⟩
  | absoluteMaximumPercentile =>
      exact ⟨⟨_, maximumWithin_eq ..⟩, maximumWithin_self absoluteDifference_self,
        fun _ => near_of_maximumWithin,
        fun _ _ _ nonzero _ => maximumWithin_scaled nonzero absoluteDifference_mul⟩
  | averagePercentile =>
      have some_points := averaged rfl
      exact ⟨⟨_, averageWithin_eq _ _ _ _ some_points⟩,
        fun nonneg => averageWithin_self signedDifference_self nonneg some_points,
        fun _ => sum_le_of_averageWithin some_points,
        fun _ _ _ nonzero _ => averageWithin_scaled nonzero signedDifference_mul⟩
  | absoluteAveragePercentile =>
      exact ⟨absoluteAverage_completes, absoluteAverage_self,
        fun _ => sum_le_of_absoluteAverage same,
        fun _ _ _ nonzero _ => absoluteAverage_scaled nonzero⟩
  | sumPercentile =>
      refine ⟨summed _, sumWithin_self, fun nonneg accepted => ?_,
        fun _ _ _ _ positive => sumWithin_scaled (positive rfl) Scaled.sum⟩
      rw [Similar, abs_of_nonneg (nonneg rfl)]
      exact near_of_sumWithin same (fun _ empty => by rw [Pattern.sum, empty]; rfl) (nonneg rfl)
        accepted
  | absoluteSumPercentile =>
      exact ⟨summed _, sumWithin_self,
        fun _ => near_of_sumWithin same (fun _ empty => by rw [Pattern.absSum, empty]; rfl)
          (absSum_nonneg second),
        fun _ _ _ nonzero _ => sumWithin_scaled (abs_pos.mpr nonzero) Scaled.absSum⟩

def steep : Pattern := ⟨0, [], [⟨⟨0, 11 / 10⟩, 1, 1⟩, ⟨⟨1, -3⟩, 1, 1⟩]⟩

def level : Pattern := ⟨0, [], [⟨⟨0, 1⟩, 1, 1⟩, ⟨⟨1, -2⟩, 1, 1⟩]⟩

theorem percentileChecks_relative_of_two :
    (∃ verdict, checkPercentile .averagePercentile steep level 30 = .ok verdict) ∧
    ((0 : ℚ) ≤ 30 → checkPercentile .averagePercentile steep steep 30 = .ok true) ∧
    ((PercentileType.averagePercentile = .sumPercentile → 0 ≤ level.sum) →
      checkPercentile .averagePercentile steep level 30 = .ok true →
        Similar .averagePercentile steep level 30) ∧
    ∀ scale first' second', scale ≠ 0 →
      (PercentileType.averagePercentile = .sumPercentile → 0 < scale) →
      Scaled scale steep first' → Scaled scale level second' →
        checkPercentile .averagePercentile first' second' 30 =
          checkPercentile .averagePercentile steep level 30 :=
  percentileChecks_relative .averagePercentile
    (show steep.amplitudes.length = level.amplitudes.length from rfl) 30
    fun _ => List.cons_ne_nil _ _

/-- The average constraint averages the distances at the points, so it accepts averages of which the
second is zero and the first is not; and a point against zero is accepted under ten thousand
percent. -/
theorem distances_are_averaged_and_bounded :
    (checkPercentile .averagePercentile
        ⟨0, [], [⟨⟨0, 11 / 10⟩, 1, 1⟩, ⟨⟨1, -1⟩, 1, 1⟩]⟩
        ⟨0, [], [⟨⟨0, 1⟩, 1, 1⟩, ⟨⟨1, -1⟩, 1, 1⟩]⟩ 10 = .ok true ∧
      ¬|((11 / 10 : ℚ) + -1) / 2 - (1 + -1) / 2| ≤ 10 / 100 * |((1 : ℚ) + -1) / 2|) ∧
    (checkPercentile .maximumPercentile ⟨0, [], [⟨⟨0, 1⟩, 1, 1⟩]⟩ ⟨0, [], [⟨⟨0, 0⟩, 1, 1⟩]⟩ 10000 =
        .ok true ∧
      ¬|(1 : ℚ) - 0| ≤ 10000 / 100 * |(0 : ℚ)|) := by
  refine ⟨⟨?_, by norm_num⟩, ?_, by norm_num⟩
  · rw [checkPercentile, checkAveragePercentile, averageWithin_eq _ _ _ _ (by simp [Pattern.amplitudes])]
    norm_num [Pattern.amplitudes, relativeDistance, signedDifference, abs_of_pos, abs_of_nonneg]
  · rw [checkPercentile, checkMaximumPercentile, maximumWithin_eq]
    norm_num [Pattern.amplitudes, relativeDistance, signedDifference]

end WeftDb.Extraction
