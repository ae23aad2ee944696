import WeftDb.Reduce.Average
import WeftDb.Reduce.PathAgreement

/-!
# The time-weighted average on integers

Samples whose values fit words are weighed on integers, their instants counted in nanoseconds.  The
result is the decimal average of the samples at the instants which their nanoseconds count to: a
leap second then coincides with the second after it.
-/

namespace WeftDb.Reduce

open StableOrder SignificantDigits Option

/-- A result of signed arithmetic on 128 bits, unless it overflows. -/
def wide (value : Int) : Option Int :=
  if Fits128 value then some value else none

/-- Raise the scale of a mantissa. -/
def up (value places : Int) : Option Int :=
  if 0 ≤ places then do
    let power ← wide (10 ^ places.toNat)
    wide (value * power)
  else none

/-- Add a term to a sum: the one of the lower scale is raised to the higher one. -/
def addTerm (weighted term : BigDecimal) : Option BigDecimal :=
  if term.mantissa = 0 then some weighted
  else if weighted.mantissa = 0 then some term
  else if weighted.scale < term.scale then do
    let raised ← up weighted.mantissa (term.scale - weighted.scale)
    let sum ← wide (raised + term.mantissa)
    pure ⟨sum, term.scale⟩
  else if term.scale < weighted.scale then do
    let raised ← up term.mantissa (weighted.scale - term.scale)
    let sum ← wide (weighted.mantissa + raised)
    pure ⟨sum, weighted.scale⟩
  else do
    let sum ← wide (weighted.mantissa + term.mantissa)
    pure ⟨sum, term.scale⟩

/-- A sample with its instant in nanoseconds and a value of one word. -/
structure LiftedSample where
  nanos : Int
  value : BigDecimal

def liftSample (sample : Instant × BigDecimal) : Option LiftedSample :=
  if 0 ≤ sample.2.scale ∧ sample.2.scale ≤ 17 then do
    let nanos ← timestampNanosOpt sample.1
    let mantissa ← checked sample.2.mantissa
    pure ⟨nanos, mantissa, sample.2.scale⟩
  else none

/-- How much the scale of a value beside a zero is raised: by the excess of the zero's, at most
fifteen. -/
def zeroExcess (value zero : BigDecimal) : Int :=
  max 0 (min (zero.scale - value.scale) 15)

/-- The sum of the values of two samples. -/
def endpointSum (first second : BigDecimal) : Option BigDecimal :=
  if second.mantissa = 0 then do
    let sum ← up first.mantissa (zeroExcess first second)
    pure ⟨sum, first.scale + zeroExcess first second⟩
  else if first.mantissa = 0 then do
    let sum ← up second.mantissa (zeroExcess second first)
    pure ⟨sum, second.scale + zeroExcess second first⟩
  else if second.scale ≤ first.scale then do
    let raised ← up second.mantissa (first.scale - second.scale)
    let sum ← wide (first.mantissa + raised)
    pure ⟨sum, first.scale⟩
  else do
    let raised ← up first.mantissa (second.scale - first.scale)
    let sum ← wide (raised + second.mantissa)
    pure ⟨sum, second.scale⟩

/-- The value for the span between two samples. -/
def spanValue (linear : Bool) (first second : BigDecimal) : Option BigDecimal :=
  if linear then do
    let sum ← endpointSum first second
    let half ← avgLikeBigdecimal sum.mantissa sum.scale 2
    let mantissa ← wide half.mantissa
    pure ⟨mantissa, half.scale⟩
  else some first

/-- The weighted sum and the milliseconds which it spans. -/
structure Weighing where
  weighted : BigDecimal
  total : Int

/-- The whole milliseconds from one instant to a later one, both in nanoseconds. -/
def spanMillis (earlier later : Int) : Option Int := do
  let span ← checked (later - earlier)
  pure (max (span.tdiv 1000000) 0)

/-- Weigh the span from the last sample to the end of the bucket. -/
def addDwell (bucketEnd : Option Instant) (last : Option LiftedSample) (state : Weighing) :
    Option Weighing :=
  match bucketEnd, last with
  | some finish, some last => do
      let finish ← timestampNanosOpt finish
      let span ← spanMillis last.nanos finish
      if 0 < span then do
        let product ← wide (last.value.mantissa * span)
        let weighted ← addTerm state.weighted ⟨product, last.value.scale⟩
        let total ← checked (state.total + span)
        pure ⟨weighted, total⟩
      else pure state
  | _, _ => some state

/-- The product of a value and a span: a value of one gives the span itself. -/
def spanTerm (value : BigDecimal) (span : Int) : Option BigDecimal :=
  if up 1 value.scale = some value.mantissa then some ⟨span, 0⟩
  else do
    let product ← wide (value.mantissa * span)
    pure ⟨product, value.scale⟩

/-- The scale up to which a value is recognised as one. -/
def oneScaleLimit : Int := 19

/-- Weigh the span between two samples. -/
def addSpan (linear : Bool) (state : Weighing) (first second : LiftedSample) :
    Option Weighing := do
  let span ← spanMillis first.nanos second.nanos
  if 0 < span then do
    let value ← spanValue linear first.value second.value
    if oneScaleLimit < value.scale then none
    else do
      let term ← spanTerm value span
      let weighted ← addTerm state.weighted term
      let total ← checked (state.total + span)
      pure ⟨weighted, total⟩
  else pure state

/-- Weigh the spans between all neighbours. -/
def addSpans (linear : Bool) (state : Weighing) : List LiftedSample → Option Weighing
  | first :: second :: later => do
      let state ← addSpan linear state first second
      addSpans linear state (second :: later)
  | _ => some state

/-- The time-weighted average on integers; nothing where it is left to decimal arithmetic. -/
def twaScaled (samples : List (Instant × BigDecimal)) (linear : Bool)
    (bucketEnd : Option Instant) : Option BigDecimal :=
  if samples.length < 2 ∧ bucketEnd.isNone then none
  else do
    let lifted ← samples.mapM liftSample
    let ordered := sortBy LiftedSample.nanos lifted
    let state ← addDwell bucketEnd ordered.getLast? ⟨.zero, 0⟩
    let state ← addSpans linear state ordered
    if 0 < state.total then
      avgLikeBigdecimal state.weighted.mantissa state.weighted.scale state.total.toNat
    else none

section Sums

variable {weighted term sum first second value : BigDecimal} {scale : Int}
variable {result : Int}

theorem wide_eq_some {value : Int} : wide value = some result ↔ Fits128 value ∧ value = result := by
  unfold wide
  split <;> simp_all

theorem up_eq_some {value places : Int} (raised : up value places = some result) :
    0 ≤ places ∧ result = value * 10 ^ places.toNat ∧ Fits128 result := by
  unfold up at raised
  split at raised
  · rename_i nonneg
    simp only [bind_eq_bind, bind_eq_some_iff, wide_eq_some] at raised
    obtain ⟨_, ⟨_, rfl⟩, fits, rfl⟩ := raised
    exact ⟨nonneg, rfl, fits⟩
  · cases raised

theorem toRat_raised {value places : Int} (raised : up value places = some result) (scale : Int) :
    (⟨result, scale + places⟩ : BigDecimal).toRat = (⟨value, scale⟩ : BigDecimal).toRat := by
  obtain ⟨nonneg, rfl, _⟩ := up_eq_some raised
  have power : ((10 : Rat) ^ places.toNat) = 10 ^ places := by
    rw [← zpow_natCast, Int.toNat_of_nonneg nonneg]
  rw [BigDecimal.toRat, BigDecimal.toRat, Int.cast_mul, Int.cast_pow, Int.cast_ofNat, power,
    mul_assoc, ← zpow_add₀ (by norm_num)]
  congr 2
  dsimp only
  omega

theorem toRat_of_zero (none : value.mantissa = 0) : value.toRat = 0 := by
  rw [BigDecimal.toRat, none, Int.cast_zero, zero_mul]

theorem toRat_add (left right scale : Int) :
    (⟨left + right, scale⟩ : BigDecimal).toRat =
      (⟨left, scale⟩ : BigDecimal).toRat + (⟨right, scale⟩ : BigDecimal).toRat := by
  rw [BigDecimal.toRat, BigDecimal.toRat, BigDecimal.toRat, Int.cast_add, add_mul]

/-- A decimal on integers: its mantissa fits 128 bits, and its scale is one of the few which
arise. -/
structure Narrow (value : BigDecimal) : Prop where
  mantissa : Fits128 value.mantissa
  scale_nonneg : 0 ≤ value.scale
  scale_le : value.scale ≤ 32

theorem addTerm_spec (weighted_narrow : Narrow weighted) (term_narrow : Narrow term)
    (added : addTerm weighted term = some sum) :
    sum.toRat = weighted.toRat + term.toRat ∧ Narrow sum := by
  unfold addTerm at added
  split at added
  · rename_i none
    cases added
    exact ⟨by rw [toRat_of_zero none, add_zero], weighted_narrow⟩
  split at added
  · rename_i none
    cases added
    exact ⟨by rw [toRat_of_zero none, zero_add], term_narrow⟩
  split at added
  · simp only [bind_eq_bind, bind_eq_some_iff, wide_eq_some, pure_def,
      some.injEq] at added
    obtain ⟨raised, is_raised, _, ⟨fits, rfl⟩, rfl⟩ := added
    have same := toRat_raised is_raised weighted.scale
    rw [add_sub_cancel] at same
    exact ⟨by rw [toRat_add, same], fits, term_narrow.scale_nonneg, term_narrow.scale_le⟩
  split at added
  · simp only [bind_eq_bind, bind_eq_some_iff, wide_eq_some, pure_def,
      some.injEq] at added
    obtain ⟨raised, is_raised, _, ⟨fits, rfl⟩, rfl⟩ := added
    have same := toRat_raised is_raised term.scale
    rw [add_sub_cancel] at same
    exact ⟨by rw [toRat_add, same], fits, weighted_narrow.scale_nonneg, weighted_narrow.scale_le⟩
  · rename_i not_below not_above
    simp only [bind_eq_bind, bind_eq_some_iff, wide_eq_some, pure_def,
      some.injEq] at added
    obtain ⟨_, ⟨fits, rfl⟩, rfl⟩ := added
    have level : weighted.scale = term.scale := by omega
    refine ⟨?_, fits, term_narrow.scale_nonneg, term_narrow.scale_le⟩
    rw [toRat_add]
    congr 1
    rw [← level]

theorem endpointSum_spec (first_narrow : 0 ≤ first.scale ∧ first.scale ≤ 17)
    (second_narrow : 0 ≤ second.scale ∧ second.scale ≤ 17)
    (added : endpointSum first second = some sum) :
    sum.toRat = first.toRat + second.toRat ∧ Narrow sum := by
  unfold endpointSum at added
  split at added
  · rename_i none
    simp only [bind_eq_bind, bind_eq_some_iff, pure_def,
      some.injEq] at added
    obtain ⟨raised, is_raised, rfl⟩ := added
    refine ⟨?_, (up_eq_some is_raised).2.2, ?_, ?_⟩
    · rw [toRat_raised is_raised, toRat_of_zero none, add_zero]
    all_goals
      simp only [zeroExcess]
      omega
  split at added
  · rename_i none
    simp only [bind_eq_bind, bind_eq_some_iff, pure_def,
      some.injEq] at added
    obtain ⟨raised, is_raised, rfl⟩ := added
    refine ⟨?_, (up_eq_some is_raised).2.2, ?_, ?_⟩
    · rw [toRat_raised is_raised, toRat_of_zero none, zero_add]
    all_goals
      simp only [zeroExcess]
      omega
  split at added
  · simp only [bind_eq_bind, bind_eq_some_iff, wide_eq_some, pure_def,
      some.injEq] at added
    obtain ⟨raised, is_raised, _, ⟨fits, rfl⟩, rfl⟩ := added
    have same := toRat_raised is_raised second.scale
    rw [add_sub_cancel] at same
    exact ⟨by rw [toRat_add, same], fits, first_narrow.1, first_narrow.2.trans (by decide)⟩
  · simp only [bind_eq_bind, bind_eq_some_iff, wide_eq_some, pure_def,
      some.injEq] at added
    obtain ⟨raised, is_raised, _, ⟨fits, rfl⟩, rfl⟩ := added
    have same := toRat_raised is_raised first.scale
    rw [add_sub_cancel] at same
    exact ⟨by rw [toRat_add, same], fits, second_narrow.1, second_narrow.2.trans (by decide)⟩

theorem toRat_avg {count : Nat} {average : BigDecimal} (narrow : Narrow value)
    (count_fits : FitsCount count)
    (computed : avgLikeBigdecimal value.mantissa value.scale count = some average) :
    average.toRat = roundTo divPrecision (value.toRat / count) ∧ 0 ≤ average.scale := by
  have scale_fits : Word64.Fits value.scale := by
    have low := narrow.scale_nonneg
    have high := narrow.scale_le
    simp only [Word64.Fits, Word64.least, Word64.greatest]
    omega
  have quotient : quotientOf value.mantissa value.scale count = value.toRat / count := by
    rw [quotientOf, BigDecimal.toRat, zpow_neg, div_mul_eq_div_div, div_eq_mul_inv _ (10 ^ _)]
    ring
  obtain ⟨places, fewest, few, result⟩ :=
    avgLikeBigdecimal_broughtOut narrow.mantissa scale_fits count_fits
  rw [result, fitting] at computed
  split at computed
  · cases computed
    refine ⟨by rw [signedDecimal_toRat count_fits.1 fewest few, quotient], ?_⟩
    have low := narrow.scale_nonneg
    simp only [signedDecimal]
    omega
  · cases computed

end Sums

/-- The decimal division which keeps a hundred significant digits. -/
def Reducer.Divides (reducer : Reducer) : Prop :=
  ∀ total count, reducer.divide total count = roundTo divPrecision (total / count)

/-- The milliseconds between the nanoseconds of two instants. -/
def nanosMillis (earlier later : Instant) : Int :=
  (later.timestampNanos - earlier.timestampNanos).tdiv 1000000

/-- The instant to which the nanoseconds of another count: a leap second coincides with the second
after it. -/
def plainInstant (timestamp : Instant) : Instant :=
  .ofNanos timestamp.timestampNanos

/-- The reducer whose clock counts nanoseconds since the epoch. -/
def Reducer.byNanos (reducer : Reducer) : Reducer :=
  { reducer with milliseconds := nanosMillis }

theorem Reducer.Divides.byNanos {reducer : Reducer} (divides : reducer.Divides) (total : Rat)
    (count : Int) : reducer.byNanos.divide total count = roundTo divPrecision (total / count) :=
  divides total count

/-- The method of a time-weighted average. -/
def methodOf (linear : Bool) : TwaMethod :=
  if linear then .linear else .locf

/-- A sample at the instant to which its nanoseconds count. -/
def LiftedSample.counted (sample : LiftedSample) : Instant × Rat :=
  (.ofNanos sample.nanos, sample.value.toRat)

section Spans

variable {reducer : Reducer} {linear : Bool} {first second : LiftedSample} {value : BigDecimal}
  {state after : Weighing}
variable {span : Int} {term : BigDecimal}

theorem timestampNanos_ofNanos (nanos : Int) : (Instant.ofNanos nanos).timestampNanos = nanos := by
  simp only [Instant.ofNanos, Instant.timestampNanos]
  omega

theorem ofNanos_le_iff {left right : Int} :
    Instant.ofNanos left ≤ Instant.ofNanos right ↔ left ≤ right := by
  simp only [Instant.le_iff, Instant.ofNanos]
  omega

theorem spanMillis_eq {earlier later : Int} (counted : spanMillis earlier later = some span) :
    span = max (nanosMillis (.ofNanos earlier) (.ofNanos later)) 0 ∧ Word64.Fits span := by
  simp only [spanMillis, bind_eq_bind, bind_eq_some_iff, checked_eq_some,
    pure_def, some.injEq] at counted
  obtain ⟨_, ⟨fits, rfl⟩, rfl⟩ := counted
  rw [nanosMillis, timestampNanos_ofNanos, timestampNanos_ofNanos]
  have less : (later - earlier).tdiv 1000000 ≤ max (later - earlier) 0 := by
    rcases le_total 0 (later - earlier) with forth | back
    · exact (Int.tdiv_le_self _ forth).trans (le_max_left _ _)
    · exact (Int.tdiv_le_tdiv (by decide) back).trans (le_max_right _ _)
  refine ⟨rfl, ?_⟩
  simp only [Word64.Fits, Word64.least, Word64.greatest] at fits ⊢
  omega

/-- A value of one word, at a scale which the integer path takes. -/
structure LiftedValue (value : BigDecimal) : Prop where
  mantissa : Word64.Fits value.mantissa
  scale_nonneg : 0 ≤ value.scale
  scale_le : value.scale ≤ 17

theorem fits128_of_fits {value : Int} (fits : Word64.Fits value) : Fits128 value := by
  simp only [Word64.Fits, Word64.least, Word64.greatest] at fits
  simp only [Fits128]
  omega

/-- What a span is valued at. -/
def spanMean (linear : Bool) (first second : Rat) : Rat :=
  if linear then roundTo divPrecision ((first + second) / 2) else first

theorem spanValue_spec {first second : BigDecimal} (first_lifted : LiftedValue first)
    (second_lifted : LiftedValue second) (valued : spanValue linear first second = some value) :
    value.toRat = spanMean linear first.toRat second.toRat ∧ 0 ≤ value.scale := by
  unfold spanValue at valued
  cases linear with
  | false =>
      cases valued
      exact ⟨rfl, first_lifted.scale_nonneg⟩
  | true =>
      simp only [if_true, bind_eq_bind, bind_eq_some_iff, wide_eq_some,
        pure_def, some.injEq] at valued
      obtain ⟨sum, added, half, halved, _, ⟨_, rfl⟩, rfl⟩ := valued
      obtain ⟨total, narrow⟩ := endpointSum_spec
        ⟨first_lifted.scale_nonneg, first_lifted.scale_le⟩
        ⟨second_lifted.scale_nonneg, second_lifted.scale_le⟩ added
      obtain ⟨mean, scale_nonneg⟩ := toRat_avg narrow (by decide) halved
      rw [total] at mean
      exact ⟨mean, scale_nonneg⟩

theorem spanTerm_spec (scale_nonneg : 0 ≤ value.scale) (scale_le : value.scale ≤ oneScaleLimit)
    (span_fits : Word64.Fits span) (product : spanTerm value span = some term) :
    term.toRat = value.toRat * span ∧ Narrow term := by
  unfold spanTerm at product
  split at product
  · rename_i one
    cases product
    have same := toRat_raised one 0
    rw [zero_add] at same
    have unit : value.toRat = 1 := same.trans (by simp [BigDecimal.toRat])
    refine ⟨?_, fits128_of_fits span_fits, le_rfl, by norm_num⟩
    rw [unit, one_mul]
    simp [BigDecimal.toRat]
  · simp only [bind_eq_bind, bind_eq_some_iff, wide_eq_some, pure_def,
      some.injEq] at product
    obtain ⟨_, ⟨fits, rfl⟩, rfl⟩ := product
    refine ⟨?_, fits, scale_nonneg, scale_le.trans (by decide)⟩
    rw [BigDecimal.toRat, BigDecimal.toRat, Int.cast_mul]
    ring

/-- Sums which are still on integers. -/
structure Weighing.Sound (state : Weighing) : Prop where
  narrow : Narrow state.weighted
  total_nonneg : 0 ≤ state.total
  total_le : state.total ≤ Word64.greatest

theorem weigh_spec {sum : BigDecimal} {total : Int} (sound : state.Sound)
    (term_narrow : Narrow term) (positive : 0 < span)
    (added : addTerm state.weighted term = some sum)
    (counted : checked (state.total + span) = some total) :
    sum.toRat = state.weighted.toRat + term.toRat ∧ total = state.total + span ∧
      Weighing.Sound ⟨sum, total⟩ := by
  obtain ⟨exactly, narrow⟩ := addTerm_spec sound.narrow term_narrow added
  obtain ⟨fits, rfl⟩ := checked_eq_some.mp counted
  have nonneg := sound.total_nonneg
  exact ⟨exactly, rfl, narrow, by dsimp only; omega, fits.2⟩

theorem addSpan_spec (sound : state.Sound) (first_lifted : LiftedValue first.value)
    (second_lifted : LiftedValue second.value)
    (weighed : addSpan linear state first second = some after) :
    ∃ span, span = max (nanosMillis first.counted.1 second.counted.1) 0 ∧
      after.weighted.toRat = state.weighted.toRat +
        spanMean linear first.value.toRat second.value.toRat * span ∧
      after.total = state.total + span ∧ after.Sound := by
  simp only [addSpan, bind_eq_bind, bind_eq_some_iff] at weighed
  obtain ⟨span, is_span, weighed⟩ := weighed
  obtain ⟨span_eq, span_fits⟩ := spanMillis_eq is_span
  refine ⟨span, span_eq, ?_⟩
  split at weighed
  · rename_i positive
    obtain ⟨value, valued, weighed⟩ := bind_eq_some_iff.mp weighed
    split at weighed
    · cases weighed
    · rename_i within
      simp only [bind_eq_some_iff, pure_def, some.injEq] at weighed
      obtain ⟨term, product, sum, added, total, counted, rfl⟩ := weighed
      obtain ⟨mean, scale_nonneg⟩ := spanValue_spec first_lifted second_lifted valued
      obtain ⟨is_product, term_narrow⟩ :=
        spanTerm_spec scale_nonneg (not_lt.mp within) span_fits product
      obtain ⟨exactly, total_eq, sound⟩ := weigh_spec sound term_narrow positive added counted
      exact ⟨by rw [exactly, is_product, mean], total_eq, sound⟩
  · rename_i none
    cases weighed
    have zero : span = 0 := le_antisymm (not_lt.mp none) (span_eq ▸ le_max_right _ _)
    rw [zero, Int.cast_zero, mul_zero, add_zero, add_zero]
    exact ⟨rfl, rfl, sound⟩

/-- What a span is valued at by a method. -/
def methodMean (reducer : Reducer) (method : TwaMethod) (first second : Rat) : Rat :=
  match method with
  | .locf => first
  | .linear => reducer.divide (first + second) 2

theorem spanWeights_cons_cons (reducer : Reducer) (method : TwaMethod)
    (first second : Instant × Rat) (later : List (Instant × Rat)) :
    spanWeights reducer method (first :: second :: later) =
      let (weighted, total) := spanWeights reducer method (second :: later)
      let duration := max (reducer.milliseconds first.1 second.1) 0
      let value :=
        match method with
        | .locf => first.2
        | .linear => reducer.divide (first.2 + second.2) 2
      if 0 < duration then (weighted + value * duration, total + duration)
      else (weighted, total) :=
  rfl

theorem spanWeights_cons (reducer : Reducer) (method : TwaMethod)
    (first second : Instant × Rat) (later : List (Instant × Rat)) :
    spanWeights reducer method (first :: second :: later) =
      ((spanWeights reducer method (second :: later)).1 +
          methodMean reducer method first.2 second.2 *
            max (reducer.milliseconds first.1 second.1) 0,
        (spanWeights reducer method (second :: later)).2 +
          max (reducer.milliseconds first.1 second.1) 0) := by
  rw [spanWeights_cons_cons]
  generalize duration_eq : max (reducer.milliseconds first.1 second.1) 0 = duration
  have nonneg : 0 ≤ duration := duration_eq ▸ le_max_right _ _
  by_cases positive : 0 < duration
  · simp only [if_pos positive]
    rfl
  · have zero : duration = 0 := by omega
    simp only [zero, lt_irrefl, if_false, Int.cast_zero, mul_zero, add_zero]

theorem methodMean_eq (divides : reducer.Divides) (linear : Bool) (first second : Rat) :
    methodMean reducer (methodOf linear) first second = spanMean linear first second := by
  cases linear with
  | false => rfl
  | true => exact divides (first + second) 2

theorem addSpans_spec (divides : reducer.Divides) {samples : List LiftedSample}
    (lifted : ∀ sample ∈ samples, LiftedValue sample.value) (sound : state.Sound)
    (weighed : addSpans linear state samples = some after) :
    after.weighted.toRat = state.weighted.toRat +
        (spanWeights reducer.byNanos (methodOf linear)
          (samples.map LiftedSample.counted)).1 ∧
      after.total = state.total +
        (spanWeights reducer.byNanos (methodOf linear)
          (samples.map LiftedSample.counted)).2 ∧
      after.Sound := by
  induction samples generalizing state with
  | nil =>
      cases weighed
      exact ⟨(add_zero _).symm, (add_zero _).symm, sound⟩
  | cons first rest ih =>
      cases rest with
      | nil =>
          cases weighed
          exact ⟨(add_zero _).symm, (add_zero _).symm, sound⟩
      | cons second later =>
          obtain ⟨first_lifted, rest_lifted⟩ := List.forall_mem_cons.mp lifted
          obtain ⟨middle, one, others⟩ := bind_eq_some_iff.mp weighed
          obtain ⟨span, span_eq, weighted_eq, total_eq, middle_sound⟩ :=
            addSpan_spec sound first_lifted (rest_lifted second List.mem_cons_self) one
          obtain ⟨weighted_rest, total_rest, after_sound⟩ := ih rest_lifted middle_sound others
          have same_divides : reducer.byNanos.Divides := divides
          have duration : max (reducer.byNanos.milliseconds first.counted.1 second.counted.1) 0 =
              span := span_eq.symm
          rw [List.map_cons, List.map_cons, spanWeights_cons, methodMean_eq same_divides, duration,
            weighted_rest, total_rest, weighted_eq, total_eq, List.map_cons]
          refine ⟨?_, ?_, after_sound⟩
          · simp only [LiftedSample.counted]
            ring
          · dsimp only
            ring

end Spans

/-- The milliseconds from the last sample to the end of the bucket. -/
def dwellOf (reducer : Reducer) : Option Instant → Option (Instant × Rat) → Int
  | some finish, some last => max (reducer.milliseconds last.1 finish) 0
  | _, _ => 0

/-- The value which is held to the end of the bucket. -/
def heldOf (last : Option (Instant × Rat)) : Rat :=
  (last.map Prod.snd).getD 0

section Averages

variable {reducer : Reducer} {linear : Bool} {samples : List (Instant × BigDecimal)}
  {bucketEnd : Option Instant} {average : BigDecimal}

theorem twaDecimal_eq_of_sorted (samples : List (Instant × Rat)) (method : TwaMethod)
    (bucketEnd : Option Instant) :
    twaDecimal reducer samples method bucketEnd =
      let ordered := sortBy Prod.fst samples
      let weights := spanWeights reducer method ordered
      let dwell := dwellOf reducer bucketEnd ordered.getLast?
      if weights.2 + dwell = 0 then
        reducer.divide (samples.map Prod.snd).sum samples.length
      else
        reducer.divide (weights.1 + heldOf ordered.getLast? * dwell) (weights.2 + dwell) := by
  unfold twaDecimal dwellOf heldOf
  cases bucketEnd with
  | none => rfl
  | some finish => cases (sortBy Prod.fst samples).getLast? <;> rfl

/-- A sample with its instant in nanoseconds. -/
def rawSample (sample : Instant × BigDecimal) : LiftedSample where
  nanos := sample.1.timestampNanos
  value := sample.2

theorem liftSample_eq_some {sample : Instant × BigDecimal} {lifted : LiftedSample}
    (done : liftSample sample = some lifted) :
    LiftedValue sample.2 ∧ lifted = rawSample sample := by
  unfold liftSample at done
  split at done
  · rename_i within
    simp only [bind_eq_bind, bind_eq_some_iff, checked_eq_some, pure_def,
      some.injEq] at done
    obtain ⟨nanos, counted, _, ⟨fits, rfl⟩, rfl⟩ := done
    rw [(timestampNanosOpt_eq_some counted).1]
    exact ⟨⟨fits, within.1, within.2⟩, rfl⟩
  · cases done

/-- A sample with the number of its value. -/
def measuredSample (sample : Instant × BigDecimal) : Instant × Rat :=
  (sample.1, sample.2.toRat)

/-- A sample at the instant to which its nanoseconds count. -/
def countedSample (sample : Instant × BigDecimal) : Instant × Rat :=
  (plainInstant sample.1, sample.2.toRat)

theorem sound_nil : Weighing.Sound ⟨.zero, 0⟩ where
  narrow := ⟨by decide, by decide, by decide⟩
  total_nonneg := le_rfl
  total_le := by decide

/-- The dwell of the last sample is weighed as in decimal arithmetic. -/
theorem addDwell_spec {last : Option LiftedSample} {state : Weighing}
    (lifted : ∀ sample ∈ last, LiftedValue sample.value)
    (weighed : addDwell bucketEnd last ⟨.zero, 0⟩ = some state) :
    state.weighted.toRat = heldOf (last.map LiftedSample.counted) *
        dwellOf reducer.byNanos (bucketEnd.map plainInstant)
          (last.map LiftedSample.counted) ∧
      state.total =
        dwellOf reducer.byNanos (bucketEnd.map plainInstant)
          (last.map LiftedSample.counted) ∧
      state.Sound := by
  have nothing : BigDecimal.zero.toRat = 0 := toRat_of_zero rfl
  cases bucketEnd with
  | none =>
      cases weighed
      exact ⟨by simp [nothing, dwellOf], rfl, sound_nil⟩
  | some finish =>
      cases last with
      | none =>
          cases weighed
          exact ⟨by simp [nothing, dwellOf], rfl, sound_nil⟩
      | some last =>
          simp only [addDwell, bind_eq_bind, bind_eq_some_iff] at weighed
          obtain ⟨nanos, counted, span, is_span, weighed⟩ := weighed
          obtain ⟨span_eq, span_fits⟩ := spanMillis_eq is_span
          rw [(timestampNanosOpt_eq_some counted).1] at span_eq
          have dwell : dwellOf reducer.byNanos
              ((some finish).map plainInstant)
              ((some last).map LiftedSample.counted) = span := span_eq.symm
          have held : heldOf ((some last).map LiftedSample.counted) = last.value.toRat := rfl
          rw [dwell, held]
          split at weighed
          · rename_i positive
            simp only [bind_eq_some_iff, pure_def, some.injEq,
              wide_eq_some] at weighed
            obtain ⟨_, ⟨fits, rfl⟩, sum, added, total, is_total, rfl⟩ := weighed
            have last_lifted := lifted last rfl
            have narrow : Narrow ⟨last.value.mantissa * span, last.value.scale⟩ :=
              ⟨fits, last_lifted.scale_nonneg, last_lifted.scale_le.trans (by norm_num)⟩
            obtain ⟨exactly, total_eq, sound⟩ :=
              weigh_spec sound_nil narrow positive added is_total
            refine ⟨?_, total_eq.trans (zero_add _), sound⟩
            rw [exactly, nothing, zero_add, BigDecimal.toRat, BigDecimal.toRat, Int.cast_mul]
            ring
          · rename_i none
            cases weighed
            have zero : span = 0 := le_antisymm (not_lt.mp none) (span_eq ▸ le_max_right _ _)
            exact ⟨by rw [nothing, zero, Int.cast_zero, mul_zero], zero.symm, sound_nil⟩

/-- An integer average is the weighted sum of its samples, on words, over a positive time. -/
theorem twaScaled_spec (divides : reducer.Divides)
    (done : twaScaled samples linear bucketEnd = some average) :
    (∀ sample ∈ samples, LiftedValue sample.2) ∧
      ∃ ordered, ordered = sortBy Prod.fst (samples.map countedSample) ∧
      ∃ total, total = (spanWeights reducer.byNanos (methodOf linear) ordered).2 +
          dwellOf reducer.byNanos (bucketEnd.map plainInstant) ordered.getLast? ∧
        0 < total ∧ total ≤ Word64.greatest ∧
        average.toRat = roundTo divPrecision
          (((spanWeights reducer.byNanos (methodOf linear) ordered).1 +
              heldOf ordered.getLast? *
                dwellOf reducer.byNanos (bucketEnd.map plainInstant) ordered.getLast?) /
            total) := by
  unfold twaScaled at done
  split at done
  · cases done
  simp only [bind_eq_bind, bind_eq_some_iff] at done
  obtain ⟨lifted, is_lifted, dwelt, dwell, state, spans, done⟩ := done
  obtain ⟨rfl, good⟩ := mapM_eq_map (fun sample result => liftSample_eq_some) is_lifted
  refine ⟨good, _, rfl, ?_⟩
  split at done
  · rename_i positive
    have ordered_lifted : ∀ sample ∈ sortBy LiftedSample.nanos (samples.map rawSample),
        LiftedValue sample.value := by
      intro sample member
      obtain ⟨original, original_mem, rfl⟩ :=
        List.mem_map.mp ((sortBy_perm _ _).mem_iff.mp member)
      exact good original original_mem
    have sorted : sortBy Prod.fst ((samples.map rawSample).map LiftedSample.counted) =
        (sortBy LiftedSample.nanos (samples.map rawSample)).map LiftedSample.counted :=
      sortBy_map _ fun _ _ => ofNanos_le_iff
    have same : (samples.map rawSample).map LiftedSample.counted = samples.map countedSample :=
      List.map_map
    rw [same] at sorted
    obtain ⟨held, dwell_total, dwelt_sound⟩ := @addDwell_spec reducer bucketEnd _ dwelt
      (fun sample last => ordered_lifted sample (List.mem_of_getLast? last)) dwell
    obtain ⟨weighted, total, sound⟩ := addSpans_spec divides ordered_lifted dwelt_sound spans
    have count_fits : FitsCount state.total.toNat := by
      have high := sound.total_le
      simp only [Word64.greatest] at high
      simp only [FitsCount]
      omega
    have count_eq : ((state.total.toNat : ℕ) : Rat) = (state.total : Int) := by
      exact_mod_cast congrArg (Int.cast (R := Rat)) (Int.toNat_of_nonneg sound.total_nonneg)
    refine ⟨state.total, ?_, positive, sound.total_le, ?_⟩
    · rw [sorted, List.getLast?_map, total, dwell_total, add_comm]
    · rw [(toRat_avg sound.narrow count_fits done).1, count_eq, sorted, List.getLast?_map, weighted,
        held, add_comm]
  · cases done

theorem twaScaled_eq (divides : reducer.Divides)
    (done : twaScaled samples linear bucketEnd = some average) :
    average.toRat = twaDecimal reducer.byNanos (samples.map countedSample) (methodOf linear)
      (bucketEnd.map plainInstant) := by
  obtain ⟨_, ordered, is_ordered, total, is_total, positive, _, value⟩ :=
    twaScaled_spec divides done
  rw [value, twaDecimal_eq_of_sorted, ← is_ordered]
  dsimp only
  rw [← is_total, if_neg positive.ne', divides.byNanos]

end Averages

end WeftDb.Reduce
