import Mathlib.Algebra.BigOperators.Group.Finset.Piecewise
import WeftDb.Reduce.TimeWeighted

/-!
# The shares of samples in a time-weighted average

With exact division a time-weighted average is a linear function of the values, in which every
sample has a share that depends on the instants alone.  The integer average and the decimal one
agree for all values exactly when the shares by nanoseconds are those by instants, as they are
outside leap seconds.
-/

namespace WeftDb.Reduce

open StableOrder SignificantDigits Option

/-- The reducer which divides exactly. -/
def Reducer.exactly (reducer : Reducer) : Reducer :=
  { reducer with divide := fun total count => total / count }

/-- Samples with the value of each place. -/
def valuedAt (values : Nat → Rat) (places : List (Instant × Nat)) : List (Instant × Rat) :=
  places.map fun place => (place.1, values place.2)

/-- The milliseconds from one instant to another, none if it is not later. -/
def clippedSpan (reducer : Reducer) (earlier later : Instant) : Int :=
  max (reducer.milliseconds earlier later) 0

/-- The milliseconds from the last instant to the end of the bucket. -/
def lastDwell (reducer : Reducer) (bucketEnd last : Option Instant) : Int :=
  match bucketEnd, last with
  | some finish, some last => clippedSpan reducer last finish
  | _, _ => 0

/-- The time which falls to a sample between two spans: the span behind it, or half of either. -/
def portion (method : TwaMethod) (before after : Int) : Rat :=
  match method with
  | .locf => after
  | .linear => (before + after) / 2

/-- The time which falls to a place, of places in the order of their instants and behind a span.
The last of them also has the time to the end of the bucket. -/
def timeAt (reducer : Reducer) (method : TwaMethod) (dwell : Int) (place : Nat) (before : Int) :
    List (Instant × Nat) → Rat
  | [] => 0
  | [last] => if last.2 = place then portion method before 0 + dwell else 0
  | first :: second :: later =>
      let span := clippedSpan reducer first.1 second.1
      (if first.2 = place then portion method before span else 0) +
        timeAt reducer method dwell place span (second :: later)

/-- The time of all spans between neighbours. -/
def spanTime (reducer : Reducer) : List (Instant × Nat) → Int
  | first :: second :: later =>
      spanTime reducer (second :: later) + clippedSpan reducer first.1 second.1
  | _ => 0

/-- The time of all spans, and to the end of the bucket. -/
def wholeTime (reducer : Reducer) (bucketEnd : Option Instant) (ordered : List (Instant × Nat)) :
    Int :=
  spanTime reducer ordered + lastDwell reducer bucketEnd (ordered.getLast?.map Prod.fst)

/-- The share of a place in the average: its part of the time, or of the number of samples if they
span no time. -/
def share (reducer : Reducer) (method : TwaMethod) (stamps : List Instant)
    (bucketEnd : Option Instant) (place : Nat) : Rat :=
  let ordered := sortBy Prod.fst stamps.zipIdx
  let dwell := lastDwell reducer bucketEnd (ordered.getLast?.map Prod.fst)
  let time := wholeTime reducer bucketEnd ordered
  if time = 0 then 1 / stamps.length
  else timeAt reducer method dwell place 0 ordered / time

variable {places : List (Instant × Nat)} {first second : Instant × Nat}

section Linear

variable {reducer : Reducer} {method : TwaMethod} {stamps : List Instant}
  {bucketEnd : Option Instant}
variable {other : Reducer}

theorem spanWeights_time (values : Nat → Rat) (places : List (Instant × Nat)) :
    (spanWeights reducer method (valuedAt values places)).2 = spanTime reducer places := by
  induction places with
  | nil => rfl
  | cons first rest ih =>
      cases rest with
      | nil => rfl
      | cons second later =>
          simp only [valuedAt, List.map_cons] at ih ⊢
          rw [spanWeights_cons, ih]
          rfl

/-- Clocks which agree on the instants of places. -/
def SameClock (reducer other : Reducer) (places : List (Instant × Nat)) : Prop :=
  ∀ earlier ∈ places, ∀ later ∈ places,
    clippedSpan reducer earlier.1 later.1 = clippedSpan other earlier.1 later.1

theorem SameClock.later (same : SameClock reducer other (first :: places)) :
    SameClock reducer other places :=
  fun earlier earlier_mem later later_mem =>
    same earlier (List.mem_cons_of_mem _ earlier_mem) later (List.mem_cons_of_mem _ later_mem)

theorem SameClock.span (same : SameClock reducer other (first :: second :: places)) :
    clippedSpan reducer first.1 second.1 = clippedSpan other first.1 second.1 :=
  same first List.mem_cons_self second (List.mem_cons_of_mem _ List.mem_cons_self)

theorem SameClock.spanTime_eq (same : SameClock reducer other places) :
    spanTime reducer places = spanTime other places := by
  induction places with
  | nil => rfl
  | cons first rest ih =>
      cases rest with
      | nil => rfl
      | cons second later => rw [spanTime, spanTime, ih same.later, same.span]

theorem SameClock.timeAt_eq (same : SameClock reducer other places) (dwell : Int) (place : Nat)
    (before : Int) :
    timeAt reducer method dwell place before places =
      timeAt other method dwell place before places := by
  induction places generalizing before with
  | nil => rfl
  | cons first rest ih =>
      cases rest with
      | nil => rfl
      | cons second later => rw [timeAt, timeAt, same.span, ih same.later]

theorem sortBy_valuedAt (values : Nat → Rat) (places : List (Instant × Nat)) :
    sortBy Prod.fst (valuedAt values places) = valuedAt values (sortBy Prod.fst places) :=
  sortBy_map places fun _ _ => Iff.rfl

theorem dwellOf_valuedAt (values : Nat → Rat) (places : List (Instant × Nat)) :
    dwellOf reducer bucketEnd (valuedAt values places).getLast? =
      lastDwell reducer bucketEnd (places.getLast?.map Prod.fst) := by
  rw [valuedAt, List.getLast?_map]
  cases bucketEnd with
  | none => rfl
  | some finish => cases places.getLast? <;> rfl

/-- A span between two values counts for each of them as much as it falls to its place. -/
theorem mean_of_portions (first second : Rat) (before span : Int) :
    first * portion method before span + second * portion method span 0 =
      first * portion method before 0 + methodMean reducer.exactly method first second * span := by
  cases method with
  | locf =>
      simp only [portion, methodMean, Int.cast_zero]
      ring
  | linear =>
      simp only [portion, methodMean, Reducer.exactly, Int.cast_zero]
      ring

/-- The values, each by the time which falls to its place, sum to the weighted sum. -/
theorem sum_timeAt (values : Nat → Rat) {count : Nat} {dwell before : Int}
    {first : Instant × Nat} {later : List (Instant × Nat)}
    (within : ∀ listed ∈ first :: later, listed.2 < count) :
    ∑ place ∈ Finset.range count,
        values place * timeAt reducer method dwell place before (first :: later) =
      values first.2 * portion method before 0 +
        (spanWeights reducer.exactly method (valuedAt values (first :: later))).1 +
          heldOf (valuedAt values (first :: later)).getLast? * dwell := by
  have only (time : Rat) : ∑ place ∈ Finset.range count,
      values place * (if first.2 = place then time else 0) = values first.2 * time := by
    simp only [mul_ite, mul_zero]
    rw [Finset.sum_ite_eq,
      if_pos (Finset.mem_range.mpr (within first List.mem_cons_self))]
  induction later generalizing first before with
  | nil =>
      simp only [timeAt, only, valuedAt, List.map_cons, List.map_nil, spanWeights, heldOf,
        List.getLast?_singleton, map_some, getD_some]
      ring
  | cons second later ih =>
      have rest := @ih (clippedSpan reducer first.1 second.1) second
        (List.forall_mem_cons.mp within).2
      have held : (valuedAt values (first :: second :: later)).getLast? =
          (valuedAt values (second :: later)).getLast? := by
        simp only [valuedAt, List.map_cons, List.getLast?_cons_cons]
      have weights : (spanWeights reducer.exactly method
          (valuedAt values (first :: second :: later))).1 =
            (spanWeights reducer.exactly method (valuedAt values (second :: later))).1 +
              methodMean reducer.exactly method (values first.2) (values second.2) *
                clippedSpan reducer first.1 second.1 := by
        simp only [valuedAt, List.map_cons, spanWeights_cons]
        rfl
      have both := @mean_of_portions reducer method (values first.2) (values second.2) before
        (clippedSpan reducer first.1 second.1)
      simp only [timeAt, mul_add, Finset.sum_add_distrib, only]
      rw [rest ?_, held, weights]
      · linarith
      · intro time
        simp only [mul_ite, mul_zero]
        rw [Finset.sum_ite_eq, if_pos (Finset.mem_range.mpr
          (within second (List.mem_cons_of_mem _ List.mem_cons_self)))]

theorem sum_valuedAt (values : Nat → Rat) (stamps : List Instant) :
    ((valuedAt values stamps.zipIdx).map Prod.snd).sum =
      ∑ place ∈ Finset.range stamps.length, values place := by
  have places : (valuedAt values stamps.zipIdx).map Prod.snd =
      (List.range stamps.length).map values := by
    rw [List.range_eq_range', ← List.zipIdx_map_snd 0 stamps, valuedAt, List.map_map,
      List.map_map]
    rfl
  rw [places]
  rfl

/-- With exact division the average is the sum of the values, each by its share. -/
theorem average_eq_sum (values : Nat → Rat) :
    twaDecimal reducer.exactly (valuedAt values stamps.zipIdx) method bucketEnd =
      ∑ place ∈ Finset.range stamps.length,
        values place * share reducer method stamps bucketEnd place := by
  have count : (valuedAt values stamps.zipIdx).length = stamps.length := by
    rw [valuedAt, List.length_map, List.length_zipIdx]
  have within : ∀ listed ∈ sortBy Prod.fst stamps.zipIdx, listed.2 < stamps.length :=
    fun listed member => (List.mem_zipIdx' ((sortBy_perm _ _).mem_iff.mp member)).1
  have exactly_clock : SameClock reducer.exactly reducer (sortBy Prod.fst stamps.zipIdx) :=
    fun _ _ _ _ => rfl
  rw [twaDecimal_eq_of_sorted, sortBy_valuedAt, count]
  simp only [spanWeights_time, dwellOf_valuedAt, exactly_clock.spanTime_eq, share]
  have dwell : lastDwell reducer.exactly bucketEnd
        ((sortBy Prod.fst stamps.zipIdx).getLast?.map Prod.fst) =
      lastDwell reducer bucketEnd ((sortBy Prod.fst stamps.zipIdx).getLast?.map Prod.fst) := rfl
  rw [dwell, ← wholeTime]
  split
  · rw [sum_valuedAt, ← Finset.sum_mul]
    exact div_eq_mul_one_div _ _
  · rename_i some_time
    cases ordered : sortBy Prod.fst stamps.zipIdx with
    | nil =>
        rw [ordered] at some_time
        exact absurd (by cases bucketEnd <;> rfl) some_time
    | cons first later =>
        rw [ordered] at within
        have sum := @sum_timeAt reducer method values stamps.length
          (lastDwell reducer bucketEnd ((first :: later).getLast?.map Prod.fst)) 0 first later
          within
        have none : portion method 0 0 = 0 := by cases method <;> norm_num [portion]
        rw [none, mul_zero, zero_add] at sum
        simp only [div_eq_mul_inv, ← mul_assoc]
        rw [← Finset.sum_mul, sum]
        exact div_eq_mul_inv _ _

end Linear

/-- Whether a number is a value which the integer path takes. -/
def OnWords (number : Rat) : Prop :=
  ∃ value, LiftedValue value ∧ number = value.toRat

section Rounded

variable {reducer : Reducer} {linear : Bool} {samples : List (Instant × Rat)}

theorem hasDigits_half {first second : Rat} (first_words : OnWords first)
    (second_words : OnWords second) : HasDigits divPrecision ((first + second) / 2) := by
  obtain ⟨first, first_lifted, rfl⟩ := first_words
  obtain ⟨second, second_lifted, rfl⟩ := second_words
  have raised {value : BigDecimal} (lifted : LiftedValue value) :
      ∃ mantissa : Int, |mantissa| ≤ 2 ^ 63 * 10 ^ 17 ∧
        value.toRat = mantissa * (10 : Rat) ^ (-17 : Int) := by
    obtain ⟨places, is_places⟩ := Int.eq_ofNat_of_zero_le (Int.sub_nonneg_of_le lifted.scale_le)
    have few : places ≤ 17 := by
      have nonneg := lifted.scale_nonneg
      omega
    refine ⟨value.mantissa * 10 ^ places, ?_, ?_⟩
    · rw [abs_mul, abs_of_pos (by positivity : (0 : Int) < 10 ^ places)]
      have magnitude : |value.mantissa| ≤ 2 ^ 63 := by
        have fits := lifted.mantissa
        simp only [Word64.Fits, Word64.least, Word64.greatest] at fits
        rw [abs_le]
        constructor <;> omega
      exact mul_le_mul magnitude (pow_le_pow_right₀ (by norm_num) few) (by positivity)
        (by positivity)
    · rw [BigDecimal.toRat, Int.cast_mul, Int.cast_pow, Int.cast_ofNat, ← zpow_natCast, mul_assoc,
        ← zpow_add₀ (by norm_num)]
      congr 2
      omega
  obtain ⟨left, left_small, left_eq⟩ := raised first_lifted
  obtain ⟨right, right_small, right_eq⟩ := raised second_lifted
  refine ⟨(left + right) * 5, -18, ?_, ?_⟩
  · rw [abs_mul]
    calc
      |left + right| * |5| ≤ (2 ^ 63 * 10 ^ 17 + 2 ^ 63 * 10 ^ 17) * 5 := by
        have sum := abs_add_le left right
        rw [abs_of_pos (by norm_num : (0 : Int) < 5)]
        linarith
      _ < 10 ^ divPrecision := by decide
  · rw [left_eq, right_eq]
    push_cast
    rw [show (-17 : Int) = -18 + 1 by norm_num, zpow_add₀ (by norm_num), zpow_one]
    ring

variable (divides : reducer.Divides)

include divides

theorem methodMean_exact {first second : Rat} (first_words : OnWords first)
    (second_words : OnWords second) :
    methodMean reducer (methodOf linear) first second =
      methodMean reducer.exactly (methodOf linear) first second := by
  cases linear with
  | false => rfl
  | true =>
      have rounded := divides (first + second) 2
      rw [Int.cast_ofNat, (hasDigits_half first_words second_words).roundTo_eq] at rounded
      exact rounded

theorem spanWeights_exact (words : ∀ sample ∈ samples, OnWords sample.2) :
    spanWeights reducer (methodOf linear) samples =
      spanWeights reducer.exactly (methodOf linear) samples := by
  induction samples with
  | nil => rfl
  | cons first rest ih =>
      cases rest with
      | nil => rfl
      | cons second later =>
          obtain ⟨first_words, rest_words⟩ := List.forall_mem_cons.mp words
          rw [spanWeights_cons, spanWeights_cons, ih rest_words,
            methodMean_exact divides first_words (rest_words second List.mem_cons_self)]
          rfl

theorem twaDecimal_rounded (words : ∀ sample ∈ samples, OnWords sample.2)
    (bucketEnd : Option Instant) :
    twaDecimal reducer samples (methodOf linear) bucketEnd =
      roundTo divPrecision
        (twaDecimal reducer.exactly samples (methodOf linear) bucketEnd) := by
  have sorted_words : ∀ sample ∈ sortBy Prod.fst samples, OnWords sample.2 :=
    fun sample member => words sample ((sortBy_perm _ _).mem_iff.mp member)
  rw [twaDecimal_eq_of_sorted, twaDecimal_eq_of_sorted]
  dsimp only
  rw [spanWeights_exact divides sorted_words]
  have dwell : dwellOf reducer.exactly bucketEnd (sortBy Prod.fst samples).getLast? =
      dwellOf reducer bucketEnd (sortBy Prod.fst samples).getLast? := rfl
  rw [dwell]
  split
  · rw [divides]
    rfl
  · rw [divides]
    rfl

end Rounded

/-- Every sample has the same share by nanoseconds as by instants. -/
def SameShares (reducer : Reducer) (linear : Bool) (stamps : List Instant)
    (bucketEnd : Option Instant) : Prop :=
  ∀ place < stamps.length,
    share reducer.byNanos (methodOf linear) (stamps.map plainInstant)
        (bucketEnd.map plainInstant) place =
      share reducer (methodOf linear) stamps bucketEnd place

/-- The number of the value at a place. -/
def numberAt (samples : List (Instant × BigDecimal)) (place : Nat) : Rat :=
  (samples[place]?.map fun sample => sample.2.toRat).getD 0

section Shares

variable {reducer : Reducer} {linear : Bool} {samples : List (Instant × BigDecimal)}
  {bucketEnd : Option Instant} {average : BigDecimal}

theorem map_eq_valuedAt (image : Instant → Instant) (samples : List (Instant × BigDecimal)) :
    samples.map (fun sample => (image sample.1, sample.2.toRat)) =
      valuedAt (numberAt samples) ((samples.map Prod.fst).map image).zipIdx := by
  refine List.ext_getElem (by simp [valuedAt]) fun place first second => ?_
  rw [List.length_map] at first
  simp [valuedAt, numberAt, List.getElem?_eq_getElem first]

theorem measured_eq_valuedAt (samples : List (Instant × BigDecimal)) :
    samples.map measuredSample =
      valuedAt (numberAt samples) (samples.map Prod.fst).zipIdx := by
  have same := map_eq_valuedAt id samples
  rw [List.map_id] at same
  exact same

theorem onWords_measured (lifted : ∀ sample ∈ samples, LiftedValue sample.2) :
    ∀ sample ∈ samples.map measuredSample, OnWords sample.2 := by
  intro sample member
  obtain ⟨original, listed, rfl⟩ := List.mem_map.mp member
  exact ⟨original.2, lifted original listed, rfl⟩

theorem onWords_counted (lifted : ∀ sample ∈ samples, LiftedValue sample.2) :
    ∀ sample ∈ samples.map countedSample, OnWords sample.2 := by
  intro sample member
  obtain ⟨original, listed, rfl⟩ := List.mem_map.mp member
  exact ⟨original.2, lifted original listed, rfl⟩

variable (divides : reducer.Divides)

include divides

theorem twaScaled_eq_sum (done : twaScaled samples linear bucketEnd = some average) :
    average.toRat = roundTo divPrecision
      (∑ place ∈ Finset.range (samples.map Prod.fst).length, numberAt samples place *
        share reducer.byNanos (methodOf linear) ((samples.map Prod.fst).map plainInstant)
          (bucketEnd.map plainInstant) place) := by
  have lifted := (twaScaled_spec divides done).1
  have nanos_divides : reducer.byNanos.Divides := divides
  rw [twaScaled_eq divides done, twaDecimal_rounded nanos_divides (onWords_counted lifted),
    show samples.map countedSample = _ from map_eq_valuedAt plainInstant samples, average_eq_sum,
    List.length_map]

theorem twaDecimal_eq_sum (lifted : ∀ sample ∈ samples, LiftedValue sample.2) :
    twaDecimal reducer (samples.map measuredSample) (methodOf linear) bucketEnd =
      roundTo divPrecision
        (∑ place ∈ Finset.range (samples.map Prod.fst).length, numberAt samples place *
          share reducer (methodOf linear) (samples.map Prod.fst) bucketEnd place) := by
  rw [twaDecimal_rounded divides (onWords_measured lifted), measured_eq_valuedAt, average_eq_sum]

theorem SameShares.eq (same : SameShares reducer linear (samples.map Prod.fst) bucketEnd)
    (done : twaScaled samples linear bucketEnd = some average) :
    average.toRat =
      twaDecimal reducer (samples.map measuredSample) (methodOf linear) bucketEnd := by
  rw [twaScaled_eq_sum divides done, twaDecimal_eq_sum divides (twaScaled_spec divides done).1]
  refine congrArg (roundTo divPrecision) (Finset.sum_congr rfl fun place member => ?_)
  rw [same place (Finset.mem_range.mp member)]

end Shares

/-- Zero or one. -/
def Flag (value : BigDecimal) : Prop :=
  value = ⟨0, 0⟩ ∨ value = ⟨1, 0⟩

/-- A decimal of at most one place between zero and a bound. -/
structure Light (bound : Int) (value : BigDecimal) : Prop where
  scale : value.scale = 0 ∨ value.scale = 1
  nonneg : 0 ≤ value.mantissa
  le : value.mantissa ≤ bound * 10 ^ value.scale.toNat

/-- Sums of zeros and ones beside those of other samples. -/
structure Beside (state other : Weighing) : Prop where
  light : Light other.total other.weighted
  total : other.total = state.total
  total_nonneg : 0 ≤ state.total
  total_le : state.total ≤ Word64.greatest

/-- A sample of a place. -/
def liftedAt (values : Nat → BigDecimal) (place : Instant × Nat) : LiftedSample where
  nanos := place.1.timestampNanos
  value := values place.2

section Flags

variable {linear : Bool} {value weighted term : BigDecimal} {bound : Int}

theorem wide_of_light {number : Int} (nonneg : 0 ≤ number)
    (le : number ≤ 200 * Word64.greatest) : wide number = some number := by
  refine if_pos ?_
  simp only [Word64.greatest] at le
  simp only [Fits128]
  omega

theorem up_of_light {number places : Int} (few : places = 0 ∨ places = 1) (nonneg : 0 ≤ number)
    (le : number * 10 ^ places.toNat ≤ 200 * Word64.greatest) :
    up number places = some (number * 10 ^ places.toNat) := by
  have power : wide (10 ^ places.toNat) = some (10 ^ places.toNat) := by
    rcases few with rfl | rfl <;> decide
  have places_nonneg : 0 ≤ places := by omega
  rw [up, if_pos places_nonneg, power]
  exact wide_of_light (mul_nonneg nonneg (by positivity)) le

theorem spanValue_flag {first second : BigDecimal} (first_flag : Flag first)
    (second_flag : Flag second) :
    ∃ value, spanValue linear first second = some value ∧ Light 1 value := by
  cases linear with
  | false =>
      refine ⟨first, rfl, ?_⟩
      rcases first_flag with rfl | rfl
      · exact ⟨.inl rfl, by decide, by decide⟩
      · exact ⟨.inl rfl, by decide, by decide⟩
  | true =>
      rcases first_flag with rfl | rfl
      · rcases second_flag with rfl | rfl
        · exact ⟨⟨0, 0⟩, by decide, .inl rfl, by decide, by decide⟩
        · exact ⟨⟨5, 1⟩, by decide, .inr rfl, by decide, by decide⟩
      · rcases second_flag with rfl | rfl
        · exact ⟨⟨5, 1⟩, by decide, .inr rfl, by decide, by decide⟩
        · exact ⟨⟨1, 0⟩, by decide, .inl rfl, by decide, by decide⟩

theorem spanTerm_light {span : Int} (light : Light 1 value) (positive : 0 < span)
    (span_le : span ≤ Word64.greatest) :
    ∃ term, spanTerm value span = some term ∧ Light span term := by
  by_cases one : up 1 value.scale = some value.mantissa
  · refine ⟨⟨span, 0⟩, if_pos one, .inl rfl, positive.le, ?_⟩
    simp
  · have scaled : value.mantissa * span ≤ span * 10 ^ value.scale.toNat := by
      have le := light.le
      rw [one_mul] at le
      rw [mul_comm span]
      exact mul_le_mul_of_nonneg_right le positive.le
    have few : (10 : Int) ^ value.scale.toNat ≤ 10 := by
      rcases light.scale with bare | tenth
      · rw [bare]
        decide
      · rw [tenth]
        decide
    have product : wide (value.mantissa * span) = some (value.mantissa * span) := by
      refine wide_of_light (mul_nonneg light.nonneg positive.le) ?_
      nlinarith
    refine ⟨⟨value.mantissa * span, value.scale⟩, ?_, light.scale,
      mul_nonneg light.nonneg positive.le, scaled⟩
    rw [spanTerm, if_neg one, product]
    rfl

theorem addTerm_light {further : Int} (light : Light bound weighted)
    (term_light : Light further term) (bound_nonneg : 0 ≤ bound) (further_nonneg : 0 ≤ further)
    (bound_le : bound ≤ Word64.greatest) (further_le : further ≤ Word64.greatest) :
    ∃ sum, addTerm weighted term = some sum ∧ Light (bound + further) sum := by
  obtain ⟨scale, nonneg, le⟩ := light
  obtain ⟨term_scale, term_nonneg, term_le⟩ := term_light
  unfold addTerm
  split
  · refine ⟨weighted, rfl, scale, nonneg, le.trans ?_⟩
    exact mul_le_mul_of_nonneg_right (by omega) (by positivity)
  split
  · refine ⟨term, rfl, term_scale, term_nonneg, term_le.trans ?_⟩
    exact mul_le_mul_of_nonneg_right (by omega) (by positivity)
  split
  · have bare : weighted.scale = 0 := by omega
    have tenth : term.scale = 1 := by omega
    rw [bare] at le
    rw [tenth] at term_le
    norm_num at le term_le
    rw [bare, tenth, up_of_light (.inr (by norm_num)) nonneg (by norm_num; omega)]
    norm_num
    refine ⟨⟨weighted.mantissa * 10 + term.mantissa, 1⟩, ?_, .inr rfl, by dsimp only; omega, ?_⟩
    · rw [wide_of_light (by omega) (by omega)]
      rfl
    · norm_num
      omega
  split
  · have bare : term.scale = 0 := by omega
    have tenth : weighted.scale = 1 := by omega
    rw [tenth] at le
    rw [bare] at term_le
    norm_num at le term_le
    rw [bare, tenth, up_of_light (.inr (by norm_num)) term_nonneg (by norm_num; omega)]
    norm_num
    refine ⟨⟨weighted.mantissa + term.mantissa * 10, 1⟩, ?_, .inr rfl, by dsimp only; omega, ?_⟩
    · rw [wide_of_light (by omega) (by omega)]
      rfl
    · norm_num
      omega
  · have level : term.scale = weighted.scale := by omega
    have few : (10 : Int) ^ weighted.scale.toNat ≤ 10 := by
      rcases scale with bare | tenth
      · rw [bare]
        decide
      · rw [tenth]
        decide
    rw [level] at term_le
    have sum :
        weighted.mantissa + term.mantissa ≤ (bound + further) * 10 ^ weighted.scale.toNat := by
      rw [add_mul]
      exact add_le_add le term_le
    have small : weighted.mantissa + term.mantissa ≤ 200 * Word64.greatest := by
      have power : (0 : Int) ≤ 10 ^ weighted.scale.toNat := by positivity
      nlinarith
    rw [wide_of_light (by omega) small]
    refine ⟨_, rfl, term_scale, by dsimp only; omega, ?_⟩
    rw [level]
    exact sum

section Runs

variable {state other after : Weighing} {values flags : Nat → BigDecimal}
  {bucketEnd : Option Instant}

theorem Beside.weigh {span total : Int} (beside : Beside state other) (term_light : Light span term)
    (positive : 0 < span) (span_le : span ≤ Word64.greatest)
    (counted : checked (state.total + span) = some total) (sum : BigDecimal) :
    ∃ light_sum, addTerm other.weighted term = some light_sum ∧
      checked (other.total + span) = some total ∧ Beside ⟨sum, total⟩ ⟨light_sum, total⟩ := by
  obtain ⟨light, same, nonneg, le⟩ := beside
  obtain ⟨fits, is_total⟩ := checked_eq_some.mp counted
  rw [same] at light
  obtain ⟨light_sum, added, light_after⟩ :=
    addTerm_light light term_light nonneg positive.le le span_le
  rw [is_total] at light_after fits
  have total_nonneg : 0 ≤ total := by omega
  exact ⟨light_sum, added, by rw [same, counted], light_after, rfl, total_nonneg, fits.2⟩

theorem addSpan_beside (flag : ∀ place, Flag (flags place)) (beside : Beside state other)
    (weighed : addSpan linear state (liftedAt values first) (liftedAt values second) =
      some after) :
    ∃ light_after,
      addSpan linear other (liftedAt flags first) (liftedAt flags second) = some light_after ∧
        Beside after light_after := by
  simp only [addSpan, liftedAt, bind_eq_bind, bind_eq_some_iff] at weighed ⊢
  obtain ⟨span, is_span, weighed⟩ := weighed
  have span_fits := (spanMillis_eq is_span).2
  split at weighed
  · rename_i positive
    obtain ⟨value, _, weighed⟩ := bind_eq_some_iff.mp weighed
    split at weighed
    · cases weighed
    · simp only [bind_eq_some_iff, pure_def, some.injEq] at weighed
      obtain ⟨_, _, sum, _, total, counted, rfl⟩ := weighed
      obtain ⟨mean, valued, mean_light⟩ :=
        @spanValue_flag linear _ _ (flag first.2) (flag second.2)
      obtain ⟨term, product, term_light⟩ := spanTerm_light mean_light positive span_fits.2
      obtain ⟨light_sum, added, light_counted, light_after⟩ :=
        beside.weigh term_light positive span_fits.2 counted sum
      have within : ¬oneScaleLimit < mean.scale := by
        have scale := mean_light.scale
        simp only [oneScaleLimit]
        omega
      refine ⟨⟨light_sum, total⟩, ⟨span, is_span, ?_⟩, light_after⟩
      rw [if_pos positive, valued, bind_some, if_neg within, product, bind_some,
        added, bind_some, light_counted]
      rfl
  · rename_i none
    cases weighed
    exact ⟨other, ⟨span, is_span, if_neg none⟩, beside⟩

theorem addSpans_beside (flag : ∀ place, Flag (flags place)) (beside : Beside state other)
    (weighed : addSpans linear state (places.map (liftedAt values)) = some after) :
    ∃ light_after, addSpans linear other (places.map (liftedAt flags)) = some light_after ∧
      Beside after light_after := by
  induction places generalizing state other with
  | nil =>
      cases weighed
      exact ⟨other, rfl, beside⟩
  | cons first rest ih =>
      cases rest with
      | nil =>
          cases weighed
          exact ⟨other, rfl, beside⟩
      | cons second later =>
          obtain ⟨middle, one, others⟩ := bind_eq_some_iff.mp weighed
          obtain ⟨light_middle, light_one, middle_beside⟩ := addSpan_beside flag beside one
          obtain ⟨light_after, light_others, after_beside⟩ := ih middle_beside others
          exact ⟨light_after, bind_eq_some_iff.mpr ⟨light_middle, light_one, light_others⟩,
            after_beside⟩

theorem beside_nil : Beside ⟨.zero, 0⟩ ⟨.zero, 0⟩ where
  light := ⟨.inl rfl, by decide, by decide⟩
  total := rfl
  total_nonneg := le_rfl
  total_le := by decide

theorem addDwell_beside (flag : ∀ place, Flag (flags place)) {last : Option (Instant × Nat)}
    (weighed : addDwell bucketEnd (last.map (liftedAt values)) ⟨.zero, 0⟩ = some after) :
    ∃ light_after,
      addDwell bucketEnd (last.map (liftedAt flags)) ⟨.zero, 0⟩ = some light_after ∧
        Beside after light_after := by
  cases bucketEnd with
  | none =>
      cases weighed
      exact ⟨_, rfl, beside_nil⟩
  | some finish =>
      cases last with
      | none =>
          cases weighed
          exact ⟨_, rfl, beside_nil⟩
      | some last =>
          simp only [addDwell, liftedAt, map_some, bind_eq_bind,
            bind_eq_some_iff] at weighed ⊢
          obtain ⟨nanos, counted_end, span, is_span, weighed⟩ := weighed
          have span_fits := (spanMillis_eq is_span).2
          split at weighed
          · rename_i positive
            simp only [bind_eq_some_iff, pure_def, some.injEq] at weighed
            obtain ⟨_, _, sum, _, total, counted, rfl⟩ := weighed
            have product : wide ((flags last.2).mantissa * span) =
                  some ((flags last.2).mantissa * span) ∧
                Light span ⟨(flags last.2).mantissa * span, (flags last.2).scale⟩ := by
              have high := span_fits.2
              rcases flag last.2 with zero | one
              · rw [zero]
                exact ⟨wide_of_light (by simp) (by simp; decide), .inl rfl, by simp,
                  by simpa using positive.le⟩
              · rw [one]
                simp only [one_mul]
                exact ⟨wide_of_light positive.le (by omega), .inl rfl, positive.le, by simp⟩
            obtain ⟨light_sum, added, light_counted, light_after⟩ :=
              beside_nil.weigh product.2 positive span_fits.2 counted sum
            refine ⟨⟨light_sum, total⟩, ⟨nanos, counted_end, span, is_span, ?_⟩, light_after⟩
            rw [if_pos positive, product.1, bind_some, added, bind_some,
              light_counted]
            rfl
          · rename_i none
            cases weighed
            exact ⟨_, ⟨nanos, counted_end, span, is_span, if_neg none⟩, beside_nil⟩

end Runs

end Flags

section Whole

variable {reducer : Reducer} {linear : Bool} {samples : List (Instant × BigDecimal)}
  {bucketEnd : Option Instant} {average : BigDecimal} {flags : Nat → BigDecimal}

/-- Other values at the instants of samples. -/
def flagged (flags : Nat → BigDecimal) (samples : List (Instant × BigDecimal)) :
    List (Instant × BigDecimal) :=
  (samples.map Prod.fst).zipIdx.map fun place => (place.1, flags place.2)

theorem map_fst_flagged (flags : Nat → BigDecimal) (samples : List (Instant × BigDecimal)) :
    (flagged flags samples).map Prod.fst = samples.map Prod.fst := by
  rw [flagged, List.map_map]
  exact List.zipIdx_map_fst _ _

/-- The value at a place. -/
def valueAt (samples : List (Instant × BigDecimal)) (place : Nat) : BigDecimal :=
  (samples[place]?.map Prod.snd).getD .zero

theorem flagged_valueAt (samples : List (Instant × BigDecimal)) :
    flagged (valueAt samples) samples = samples := by
  refine List.ext_getElem (by simp [flagged]) fun place _ within => ?_
  simp [flagged, valueAt, List.getElem?_eq_getElem within]

/-- The places in the order of their nanoseconds. -/
def placesOf (samples : List (Instant × BigDecimal)) : List (Instant × Nat) :=
  sortBy (fun place => place.1.timestampNanos) (samples.map Prod.fst).zipIdx

theorem sortBy_flagged (flags : Nat → BigDecimal) (samples : List (Instant × BigDecimal)) :
    sortBy LiftedSample.nanos ((flagged flags samples).map rawSample) =
      (placesOf samples).map (liftedAt flags) := by
  rw [flagged, List.map_map]
  exact sortBy_map _ fun _ _ => Iff.rfl

theorem liftSample_flag {sample : Instant × BigDecimal} {lifted : LiftedSample}
    (done : liftSample sample = some lifted) {flag : BigDecimal} (is_flag : Flag flag) :
    liftSample (sample.1, flag) = some (rawSample (sample.1, flag)) := by
  unfold liftSample at done
  split at done
  · simp only [bind_eq_bind, bind_eq_some_iff] at done
    obtain ⟨nanos, counted, _⟩ := done
    have same := (timestampNanosOpt_eq_some counted).1
    rcases is_flag with rfl | rfl
    · rw [liftSample, if_pos ⟨le_rfl, by norm_num⟩, counted, rawSample, ← same]
      rfl
    · rw [liftSample, if_pos ⟨le_rfl, by norm_num⟩, counted, rawSample, ← same]
      rfl
  · cases done

theorem mapM_of_forall {Item Image : Type} {step : Item → Option Image} {image : Item → Image}
    {items : List Item} (all : ∀ item ∈ items, step item = some (image item)) :
    items.mapM step = some (items.map image) := by
  induction items with
  | nil => rfl
  | cons item items ih =>
      obtain ⟨first, later⟩ := List.forall_mem_cons.mp all
      rw [List.mapM_cons, first, ih later]
      rfl

theorem exists_of_mapM {Item Image : Type} {step : Item → Option Image} {items : List Item}
    {images : List Image} (done : items.mapM step = some images) :
    ∀ item ∈ items, ∃ image, step item = some image := by
  induction items generalizing images with
  | nil => exact fun _ member => absurd member List.not_mem_nil
  | cons item items ih =>
      simp only [List.mapM_cons, bind_eq_bind, bind_eq_some_iff] at done
      obtain ⟨first, found, later, rest, _⟩ := done
      exact List.forall_mem_cons.mpr ⟨⟨first, found⟩, ih rest⟩

/-- Samples of zero and one are averaged on integers where others at their instants are. -/
theorem exists_twaScaled_flagged (flag : ∀ place, Flag (flags place))
    (done : twaScaled samples linear bucketEnd = some average) :
    ∃ other, twaScaled (flagged flags samples) linear bucketEnd = some other := by
  have length : (flagged flags samples).length = samples.length := by simp [flagged]
  unfold twaScaled at done ⊢
  split at done
  · cases done
  rename_i enough
  rw [length, if_neg enough]
  simp only [bind_eq_bind, bind_eq_some_iff] at done ⊢
  obtain ⟨lifted, is_lifted, dwelt, dwell, state, spans, done⟩ := done
  have flagged_lifted : (flagged flags samples).mapM liftSample =
      some ((flagged flags samples).map rawSample) := by
    refine mapM_of_forall fun sample member => ?_
    obtain ⟨⟨timestamp, place⟩, listed, rfl⟩ := List.mem_map.mp member
    have stamp : timestamp ∈ samples.map Prod.fst := by
      obtain ⟨within, found⟩ := List.mem_zipIdx' listed
      exact List.mem_of_getElem found.symm
    obtain ⟨original, original_mem, rfl⟩ := List.mem_map.mp stamp
    obtain ⟨one, found⟩ := exists_of_mapM is_lifted original original_mem
    exact liftSample_flag found (flag place)
  obtain ⟨rfl, _⟩ := mapM_eq_map (fun sample result => liftSample_eq_some) is_lifted
  have given := sortBy_flagged (valueAt samples) samples
  rw [flagged_valueAt] at given
  rw [given] at dwell spans
  rw [List.getLast?_map] at dwell
  obtain ⟨light_dwelt, light_dwell, dwelt_beside⟩ := addDwell_beside flag dwell
  obtain ⟨light_state, light_spans, beside⟩ := addSpans_beside flag dwelt_beside spans
  split at done
  · rename_i positive
    have light := beside.light
    rw [beside.total] at light
    have high := beside.total_le
    have scale_fits : Word64.Fits light_state.weighted.scale := by
      have scale := light.scale
      simp only [Word64.Fits, Word64.least, Word64.greatest]
      omega
    have sum_fits : Fits128 light_state.weighted.mantissa := by
      have few : (10 : Int) ^ light_state.weighted.scale.toNat ≤ 10 := by
        rcases light.scale with bare | tenth
        · rw [bare]
          decide
        · rw [tenth]
          decide
      have le : light_state.weighted.mantissa ≤ state.total * 10 :=
        light.le.trans (mul_le_mul_of_nonneg_left few beside.total_nonneg)
      have nonneg := light.nonneg
      simp only [Word64.greatest] at high
      simp only [Fits128]
      omega
    have room : light_state.weighted.scale + 119 ≤ Word64.greatest := by
      have scale := light.scale
      simp only [Word64.greatest]
      omega
    have count_fits : FitsCount light_state.total.toNat := by
      rw [beside.total]
      simp only [Word64.greatest] at high
      simp only [FitsCount]
      omega
    obtain ⟨other, averaged⟩ := exists_avg sum_fits scale_fits room count_fits
    refine ⟨other, _, flagged_lifted, light_dwelt, ?_, light_state, ?_, ?_⟩
    · rw [sortBy_flagged, List.getLast?_map, light_dwell]
    · rw [sortBy_flagged, light_spans]
    · rw [if_pos (by rw [beside.total]; exact positive), averaged]
  · cases done

end Whole

end WeftDb.Reduce
