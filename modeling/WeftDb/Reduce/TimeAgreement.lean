import WeftDb.Reduce.TimeShares

/-!
# Where the integer average is the decimal one

Both averages are fractions whose denominators are far below the hundred digits which are kept, so
rounding hides no difference between them.  They agree where the values, each by the change of its
share, sum to zero; they agree for all values where no share changes.
-/

namespace WeftDb.Reduce

open StableOrder SignificantDigits Option

/-- A clock which is within three seconds of the whole seconds of two instants: two of their
fractions, one of a leap second. -/
def Reducer.KeepsPace (reducer : Reducer) : Prop :=
  ∀ earlier later : Instant,
    reducer.milliseconds earlier later ≤ 1000 * (later.timestamp - earlier.timestamp) + 3000

section Clock

variable {reducer : Reducer} {method : TwaMethod} {low high : Int}

theorem spanWeights_time_nonneg (reducer : Reducer) (method : TwaMethod)
    (samples : List (Instant × Rat)) : 0 ≤ (spanWeights reducer method samples).2 := by
  induction samples with
  | nil => exact le_rfl
  | cons first rest ih =>
      cases rest with
      | nil => exact le_rfl
      | cons second later =>
          rw [spanWeights_cons]
          exact add_nonneg ih (le_max_right _ _)

theorem spanWeights_time_exactly (samples : List (Instant × Rat)) :
    (spanWeights reducer.exactly method samples).2 = (spanWeights reducer method samples).2 := by
  induction samples with
  | nil => rfl
  | cons first rest ih =>
      cases rest with
      | nil => rfl
      | cons second later =>
          rw [spanWeights_cons, spanWeights_cons, ih]
          rfl

theorem dwellOf_nonneg (reducer : Reducer) (bucketEnd : Option Instant)
    (last : Option (Instant × Rat)) : 0 ≤ dwellOf reducer bucketEnd last := by
  cases bucketEnd with
  | none => exact le_rfl
  | some finish =>
      cases last with
      | none => exact le_rfl
      | some last => exact le_max_right _ _

theorem spanWeights_time_le (pace : reducer.KeepsPace) (method : TwaMethod)
    {first : Instant × Rat} {later : List (Instant × Rat)}
    (sorted : (first :: later).Pairwise fun left right => left.1 ≤ right.1)
    (within : ∀ sample ∈ first :: later, sample.1.timestamp ≤ high) :
    (spanWeights reducer method (first :: later)).2 ≤
      1000 * (high - first.1.timestamp) + 3000 * later.length := by
  induction later generalizing first with
  | nil =>
      have last := within first List.mem_cons_self
      simp only [spanWeights, List.length_nil]
      omega
  | cons second later ih =>
      obtain ⟨ahead, rest_sorted⟩ := List.pairwise_cons.mp sorted
      have rest := ih rest_sorted (List.forall_mem_cons.mp within).2
      have forth : first.1.timestamp ≤ second.1.timestamp := by
        rcases Instant.le_iff.mp (ahead second List.mem_cons_self) with before | ⟨level, _⟩
        · exact before.le
        · exact level.le
      have span := pace first.1 second.1
      rw [spanWeights_cons]
      simp only [List.length_cons, Nat.cast_add, Nat.cast_one] at rest ⊢
      omega

theorem dwellOf_le (pace : reducer.KeepsPace) {bucketEnd : Option Instant}
    {last : Option (Instant × Rat)} (forth : low ≤ high)
    (from_low : ∀ sample ∈ last, low ≤ sample.1.timestamp)
    (to_high : last.isSome → ∀ finish ∈ bucketEnd, finish.timestamp ≤ high) :
    dwellOf reducer bucketEnd last ≤ 1000 * (high - low) + 3000 := by
  cases bucketEnd with
  | none =>
      simp only [dwellOf]
      omega
  | some finish =>
      cases last with
      | none =>
          simp only [dwellOf]
          omega
      | some last =>
          have start := from_low last rfl
          have stop := to_high rfl finish rfl
          have span := pace last.1 finish
          simp only [dwellOf]
          omega

end Clock

/-- A number on the grid of the sums of values on words, and of their halves. -/
def Grained (number : Rat) : Prop :=
  ∃ count : Int, number = count / (2 * 10 ^ 17)

/-- A sum of values on words, each by a weight of the total. -/
structure Weighed (total : Int) (sum : Rat) : Prop where
  grained : Grained sum
  magnitude : |sum| ≤ 2 ^ 63 * total

section Fractions

variable {first second sum : Rat} {total further : Int}

theorem Grained.add (left : Grained first) (right : Grained second) :
    Grained (first + second) := by
  obtain ⟨count, rfl⟩ := left
  obtain ⟨other, rfl⟩ := right
  exact ⟨count + other, by push_cast; ring⟩

theorem Grained.mul (left : Grained first) (factor : Int) : Grained (first * factor) := by
  obtain ⟨count, rfl⟩ := left
  exact ⟨count * factor, by push_cast; ring⟩

theorem Weighed.add (left : Weighed total first) (right : Weighed further second) :
    Weighed (total + further) (first + second) where
  grained := left.grained.add right.grained
  magnitude := by
    have sum := abs_add_le first second
    have left_le := left.magnitude
    have right_le := right.magnitude
    push_cast
    linarith

theorem Weighed.mul (one : Weighed 1 first) {factor : Int} (nonneg : 0 ≤ factor) :
    Weighed factor (first * factor) where
  grained := one.grained.mul factor
  magnitude := by
    have le := one.magnitude
    have factor_nonneg : (0 : Rat) ≤ factor := by exact_mod_cast nonneg
    rw [Int.cast_one, mul_one] at le
    rw [abs_mul, abs_of_nonneg factor_nonneg]
    exact mul_le_mul_of_nonneg_right le factor_nonneg

theorem weighed_zero : Weighed 0 0 where
  grained := ⟨0, by norm_num⟩
  magnitude := by norm_num

theorem OnWords.exists_count (words : OnWords first) :
    ∃ count : Int, first = count / 10 ^ 17 ∧ |first| ≤ 2 ^ 63 := by
  obtain ⟨value, lifted, rfl⟩ := words
  obtain ⟨places, is_places⟩ := Int.eq_ofNat_of_zero_le lifted.scale_nonneg
  obtain ⟨rest, is_rest⟩ := Int.eq_ofNat_of_zero_le (Int.sub_nonneg_of_le lifted.scale_le)
  have number : value.toRat = value.mantissa / 10 ^ places := by
    rw [BigDecimal.toRat, is_places, zpow_neg, zpow_natCast, div_eq_mul_inv]
  have seventeen : places + rest = 17 := by omega
  refine ⟨value.mantissa * 10 ^ rest, ?_, ?_⟩
  · have split : (10 : Rat) ^ 17 = 10 ^ places * 10 ^ rest := by rw [← pow_add, seventeen]
    rw [number, split, Int.cast_mul, Int.cast_pow, Int.cast_ofNat, mul_div_mul_right]
    positivity
  · have fits := lifted.mantissa
    have magnitude : |(value.mantissa : Rat)| ≤ 2 ^ 63 := by
      simp only [Word64.Fits, Word64.least, Word64.greatest] at fits
      have whole : |value.mantissa| ≤ 2 ^ 63 := by
        rw [abs_le]
        constructor <;> omega
      exact_mod_cast whole
    have least : (1 : Rat) ≤ 10 ^ places := one_le_pow₀ (by norm_num)
    rw [number, abs_div, abs_of_pos (by positivity : (0 : Rat) < 10 ^ places)]
    exact (div_le_self (abs_nonneg _) least).trans magnitude

theorem OnWords.weighed (words : OnWords first) : Weighed 1 first := by
  obtain ⟨count, is_count, magnitude⟩ := words.exists_count
  refine ⟨⟨count * 2, ?_⟩, by rw [Int.cast_one, mul_one]; exact magnitude⟩
  rw [is_count]
  push_cast
  ring

theorem weighed_mean (reducer : Reducer) (linear : Bool) (first_words : OnWords first)
    (second_words : OnWords second) :
    Weighed 1 (methodMean reducer.exactly (methodOf linear) first second) := by
  cases linear with
  | false => exact first_words.weighed
  | true =>
      obtain ⟨count, first_eq, first_le⟩ := first_words.exists_count
      obtain ⟨other, second_eq, second_le⟩ := second_words.exists_count
      have mean : methodMean reducer.exactly (methodOf true) first second =
          (first + second) / 2 := rfl
      rw [mean]
      refine ⟨⟨count + other, ?_⟩, ?_⟩
      · rw [first_eq, second_eq]
        push_cast
        ring
      · have both := abs_add_le first second
        rw [abs_div, abs_two, Int.cast_one, mul_one]
        linarith

end Fractions

/-- A fraction of few parts, no greater than a word. -/
structure Coarse (parts : Int) (value : Rat) : Prop where
  fraction : ∃ num den : Int, 0 < den ∧ den ≤ 2 * 10 ^ 17 * parts ∧ value = num / den
  magnitude : |value| ≤ 2 ^ 63

section Averages

variable {reducer : Reducer} {linear : Bool} {samples : List (Instant × Rat)} {parts : Int}
variable {bucketEnd : Option Instant}

theorem Weighed.coarse {total : Int} {sum : Rat} (weighed : Weighed total sum)
    (positive : 0 < total) (total_le : total ≤ parts) : Coarse parts (sum / total) := by
  obtain ⟨⟨count, is_count⟩, magnitude⟩ := weighed
  have total_pos : (0 : Rat) < total := by exact_mod_cast positive
  refine ⟨⟨count, 2 * 10 ^ 17 * total, by positivity, ?_, ?_⟩, ?_⟩
  · exact mul_le_mul_of_nonneg_left total_le (by norm_num)
  · rw [is_count, div_div, Int.cast_mul, Int.cast_mul, Int.cast_pow, Int.cast_ofNat,
      Int.cast_ofNat]
  · rw [abs_div, abs_of_pos total_pos, div_le_iff₀ total_pos]
    exact magnitude

theorem weighed_spans (words : ∀ sample ∈ samples, OnWords sample.2) :
    Weighed (spanWeights reducer.exactly (methodOf linear) samples).2
      (spanWeights reducer.exactly (methodOf linear) samples).1 := by
  induction samples with
  | nil => exact weighed_zero
  | cons first rest ih =>
      cases rest with
      | nil => exact weighed_zero
      | cons second later =>
          obtain ⟨first_words, rest_words⟩ := List.forall_mem_cons.mp words
          rw [spanWeights_cons]
          have span := (weighed_mean reducer linear first_words
            (rest_words second List.mem_cons_self)).mul
              (le_max_right (reducer.milliseconds first.1 second.1) 0)
          exact (ih rest_words).add span

theorem weighed_dwell {last : Option (Instant × Rat)} (words : ∀ sample ∈ last, OnWords sample.2) :
    Weighed (dwellOf reducer bucketEnd last)
      (heldOf last * dwellOf reducer bucketEnd last) := by
  cases last with
  | none =>
      have none : dwellOf reducer bucketEnd none = 0 := by
        cases bucketEnd <;> rfl
      rw [none, Int.cast_zero, mul_zero]
      exact weighed_zero
  | some last => exact (words last rfl).weighed.mul (dwellOf_nonneg _ _ _)

theorem weighed_sum (words : ∀ sample ∈ samples, OnWords sample.2) :
    Weighed samples.length (samples.map Prod.snd).sum := by
  induction samples with
  | nil => exact weighed_zero
  | cons first rest ih =>
      obtain ⟨first_words, rest_words⟩ := List.forall_mem_cons.mp words
      rw [List.map_cons, List.sum_cons, List.length_cons, add_comm first.2, Nat.cast_add,
        Nat.cast_one]
      exact (ih rest_words).add first_words.weighed

theorem coarse_average (words : ∀ sample ∈ samples, OnWords sample.2)
    (few : (samples.length : Int) ≤ parts)
    (short : (spanWeights reducer (methodOf linear) (sortBy Prod.fst samples)).2 +
      dwellOf reducer bucketEnd (sortBy Prod.fst samples).getLast? ≤ parts)
    (some_part : 0 < parts) :
    Coarse parts (twaDecimal reducer.exactly samples (methodOf linear) bucketEnd) := by
  have sorted_words : ∀ sample ∈ sortBy Prod.fst samples, OnWords sample.2 :=
    fun sample member => words sample ((sortBy_perm _ _).mem_iff.mp member)
  have spans := @weighed_spans reducer linear _ sorted_words
  have dwell := @weighed_dwell reducer bucketEnd _ fun sample last =>
    sorted_words sample (List.mem_of_getLast? last)
  rw [twaDecimal_eq_of_sorted]
  dsimp only
  split
  · rename_i no_time
    cases samples with
    | nil =>
        refine ⟨⟨0, 1, by norm_num, by omega, ?_⟩, ?_⟩
        · simp [Reducer.exactly]
        · simp [Reducer.exactly]
    | cons first rest =>
        exact (weighed_sum words).coarse (by simp only [List.length_cons]; omega) few
  · rename_i some_time
    have time_nonneg := add_nonneg
      (spanWeights_time_nonneg reducer.exactly (methodOf linear) (sortBy Prod.fst samples))
      (dwellOf_nonneg reducer.exactly bucketEnd (sortBy Prod.fst samples).getLast?)
    rw [← spanWeights_time_exactly] at short
    exact (spans.add dwell).coarse (lt_of_le_of_ne time_nonneg (Ne.symm some_time)) short

end Averages

/-- The values, each by the change of its share, sum to zero. -/
def Balanced (reducer : Reducer) (linear : Bool) (samples : List (Instant × BigDecimal))
    (bucketEnd : Option Instant) : Prop :=
  ∑ place ∈ Finset.range (samples.map Prod.fst).length, numberAt samples place *
    (share reducer.byNanos (methodOf linear) ((samples.map Prod.fst).map plainInstant)
        (bucketEnd.map plainInstant) place -
      share reducer (methodOf linear) (samples.map Prod.fst) bucketEnd place) = 0

/-- The milliseconds of all spans between few samples are fewer than this. -/
def mostParts : Int := 10 ^ 23

section Agreement

variable {reducer : Reducer} {linear : Bool} {samples : List (Instant × BigDecimal)}
  {bucketEnd : Option Instant} {average : BigDecimal}

theorem instants_of_twaScaled (done : twaScaled samples linear bucketEnd = some average) :
    (∀ sample ∈ samples, Word64.Fits sample.1.timestampNanos) ∧
      (samples ≠ [] → ∀ finish ∈ bucketEnd, Word64.Fits finish.timestampNanos) := by
  unfold twaScaled at done
  split at done
  · cases done
  simp only [bind_eq_bind, bind_eq_some_iff] at done
  obtain ⟨lifted, is_lifted, dwelt, dwell, _⟩ := done
  constructor
  · intro sample member
    obtain ⟨one, found⟩ := exists_of_mapM is_lifted sample member
    unfold liftSample at found
    split at found
    · simp only [bind_eq_bind, bind_eq_some_iff] at found
      obtain ⟨nanos, counted, _⟩ := found
      obtain ⟨rfl, fits⟩ := timestampNanosOpt_eq_some counted
      exact fits
    · cases found
  · rintro some_sample finish ⟨⟩
    obtain ⟨rfl, _⟩ := mapM_eq_map (fun sample result => liftSample_eq_some) is_lifted
    have some_lifted : sortBy LiftedSample.nanos (samples.map rawSample) ≠ [] := by
      intro none
      have length := (sortBy_perm LiftedSample.nanos (samples.map rawSample)).length_eq
      rw [none, List.length_map, List.length_nil] at length
      exact some_sample (List.length_eq_zero_iff.mp length.symm)
    rw [List.getLast?_eq_some_getLast some_lifted] at dwell
    simp only [addDwell, bind_eq_bind, bind_eq_some_iff] at dwell
    obtain ⟨nanos, counted, _⟩ := dwell
    obtain ⟨rfl, fits⟩ := timestampNanosOpt_eq_some counted
    exact fits

theorem timestamp_of_fits {instant : Instant} (fits : Word64.Fits instant.timestampNanos) :
    -10 ^ 10 ≤ instant.timestamp ∧ instant.timestamp ≤ 10 ^ 10 := by
  have bounded := instant.bounded
  simp only [Word64.Fits, Word64.least, Word64.greatest, Instant.timestampNanos] at fits
  omega

theorem time_le_of_twaScaled (pace : reducer.KeepsPace) (few : samples.length < 2 ^ 64)
    (done : twaScaled samples linear bucketEnd = some average) :
    (spanWeights reducer (methodOf linear)
        (sortBy Prod.fst (samples.map measuredSample))).2 +
      dwellOf reducer bucketEnd
        (sortBy Prod.fst (samples.map measuredSample)).getLast? ≤ mostParts := by
  obtain ⟨stamps_fit, finish_fits⟩ := instants_of_twaScaled done
  have within : ∀ sample ∈ sortBy Prod.fst (samples.map measuredSample),
      -10 ^ 10 ≤ sample.1.timestamp ∧ sample.1.timestamp ≤ 10 ^ 10 := by
    intro sample member
    obtain ⟨original, listed, rfl⟩ := List.mem_map.mp ((sortBy_perm _ _).mem_iff.mp member)
    exact timestamp_of_fits (stamps_fit original listed)
  have length := (sortBy_perm Prod.fst (samples.map measuredSample)).length_eq
  have sorted := sorted_sortBy Prod.fst (samples.map measuredSample)
  rw [List.length_map] at length
  have dwell : dwellOf reducer bucketEnd
      (sortBy Prod.fst (samples.map measuredSample)).getLast? ≤
        1000 * (10 ^ 10 - -10 ^ 10) + 3000 := by
    refine dwellOf_le pace (by norm_num)
      (fun sample last => (within sample (List.mem_of_getLast? last)).1)
      fun some_last finish is_finish => (timestamp_of_fits (finish_fits ?_ finish is_finish)).2
    rintro rfl
    simp [sortBy] at some_last
  cases ordered : sortBy Prod.fst (samples.map measuredSample) with
  | nil =>
      rw [ordered] at dwell
      simp only [spanWeights, mostParts]
      omega
  | cons first later =>
      rw [ordered] at dwell sorted length within
      have spans := spanWeights_time_le pace (methodOf linear) sorted
        fun sample member => (within sample member).2
      have start := (within first List.mem_cons_self).1
      rw [List.length_cons] at length
      simp only [mostParts]
      omega

theorem twaScaled_eq_iff (divides : reducer.Divides) (pace : reducer.KeepsPace)
    (few : samples.length < 2 ^ 64) (done : twaScaled samples linear bucketEnd = some average) :
    average.toRat =
        twaDecimal reducer (samples.map measuredSample) (methodOf linear) bucketEnd ↔
      Balanced reducer linear samples bucketEnd := by
  obtain ⟨lifted, _, rfl, total, is_total, positive, total_le, _⟩ := twaScaled_spec divides done
  have few_parts : (samples.length : Int) ≤ 2 ^ 64 := by exact_mod_cast few.le
  have by_nanos : Coarse (2 ^ 64) (twaDecimal reducer.byNanos.exactly (samples.map countedSample)
      (methodOf linear) (bucketEnd.map plainInstant)) := by
    refine coarse_average (onWords_counted lifted) (by rwa [List.length_map]) ?_ (by decide)
    rw [← is_total]
    exact total_le.trans (by decide)
  have by_instants : Coarse mostParts (twaDecimal reducer.exactly (samples.map measuredSample)
      (methodOf linear) bucketEnd) :=
    coarse_average (onWords_measured lifted)
      (by rw [List.length_map]; exact few_parts.trans (by decide))
      (time_le_of_twaScaled pace few done) (by decide)
  rw [show samples.map countedSample = _ from map_eq_valuedAt plainInstant samples, average_eq_sum,
    List.length_map] at by_nanos
  rw [measured_eq_valuedAt, average_eq_sum] at by_instants
  obtain ⟨⟨num, den, den_pos, den_le, nanos_eq⟩, nanos_le⟩ := by_nanos
  obtain ⟨⟨num', den', den'_pos, den'_le, instants_eq⟩, instants_le⟩ := by_instants
  have few_digits : (2 ^ 63 : Rat) * (den * den') < (10 : Rat) ^ (divPrecision - 1 : Int) := by
    have den_few : (den : Rat) ≤ 2 * 10 ^ 17 * 2 ^ 64 := by exact_mod_cast den_le
    have den'_few : (den' : Rat) ≤ 2 * 10 ^ 17 * 10 ^ 23 := by exact_mod_cast den'_le
    have den'_nonneg : (0 : Rat) ≤ den' := by exact_mod_cast den'_pos.le
    calc
      (2 ^ 63 : Rat) * (den * den') ≤
          2 ^ 63 * (2 * 10 ^ 17 * 2 ^ 64 * (2 * 10 ^ 17 * 10 ^ 23)) :=
        mul_le_mul_of_nonneg_left (mul_le_mul den_few den'_few den'_nonneg (by norm_num))
          (by norm_num)
      _ < (10 : Rat) ^ (divPrecision - 1 : Int) := by
        norm_num [divPrecision]
  rw [twaScaled_eq_sum divides done, twaDecimal_eq_sum divides lifted, Balanced]
  simp only [mul_sub, Finset.sum_sub_distrib, sub_eq_zero]
  exact ⟨eq_of_roundTo_eq den_pos den'_pos nanos_eq instants_eq nanos_le instants_le few_digits,
    congrArg (roundTo divPrecision)⟩

/-- Samples which are one at a place and zero elsewhere. -/
def markedAt (place : Nat) (samples : List (Instant × BigDecimal)) :
    List (Instant × BigDecimal) :=
  flagged (fun other => if other = place then ⟨1, 0⟩ else ⟨0, 0⟩) samples

theorem numberAt_markedAt {place other : Nat} (within : other < (samples.map Prod.fst).length) :
    numberAt (markedAt place samples) other = if other = place then 1 else 0 := by
  rw [List.length_map] at within
  simp only [numberAt, markedAt, flagged, List.getElem?_map, List.getElem?_zipIdx,
    List.getElem?_eq_getElem within, map_some, getD_some]
  by_cases here : other = place
  · simp [here, BigDecimal.toRat]
  · simp [here, BigDecimal.toRat]

theorem balanced_markedAt {place : Nat} (within : place < (samples.map Prod.fst).length) :
    Balanced reducer linear (markedAt place samples) bucketEnd ↔
      share reducer.byNanos (methodOf linear) ((samples.map Prod.fst).map plainInstant)
          (bucketEnd.map plainInstant) place =
        share reducer (methodOf linear) (samples.map Prod.fst) bucketEnd place := by
  have stamps : (markedAt place samples).map Prod.fst = samples.map Prod.fst :=
    map_fst_flagged _ samples
  rw [Balanced, stamps, Finset.sum_eq_single_of_mem place (Finset.mem_range.mpr within)]
  · rw [numberAt_markedAt within, if_pos rfl, one_mul, sub_eq_zero]
  · intro other member apart
    rw [numberAt_markedAt (Finset.mem_range.mp member), if_neg apart, zero_mul]

/-- The integer average is the decimal one exactly where the values, each by the change of its
share, sum to zero; for all values at its instants exactly where no share changes. -/
theorem twaScaled_agrees (divides : reducer.Divides) (pace : reducer.KeepsPace)
    (few : samples.length < 2 ^ 64) (done : twaScaled samples linear bucketEnd = some average) :
    (average.toRat =
        twaDecimal reducer (samples.map measuredSample) (methodOf linear) bucketEnd ↔
      Balanced reducer linear samples bucketEnd) ∧
    ((∀ others : List (Instant × BigDecimal), others.map Prod.fst = samples.map Prod.fst →
      ∀ other, twaScaled others linear bucketEnd = some other →
        other.toRat =
          twaDecimal reducer (others.map measuredSample) (methodOf linear) bucketEnd) ↔
      SameShares reducer linear (samples.map Prod.fst) bucketEnd) := by
  refine ⟨twaScaled_eq_iff divides pace few done, fun agrees => ?_, fun same => ?_⟩
  · intro place within
    have flag : ∀ other : Nat, Flag (if other = place then (⟨1, 0⟩ : BigDecimal) else ⟨0, 0⟩) := by
      intro other
      by_cases here : other = place
      · exact .inr (if_pos here)
      · exact .inl (if_neg here)
    obtain ⟨other, marked_done⟩ := exists_twaScaled_flagged flag done
    have stamps : (markedAt place samples).map Prod.fst = samples.map Prod.fst :=
      map_fst_flagged _ samples
    have length : (markedAt place samples).length = samples.length := by
      simpa using congrArg List.length stamps
    rw [← length] at few
    exact (balanced_markedAt within).mp ((twaScaled_eq_iff divides pace few marked_done).mp
      (agrees (markedAt place samples) stamps other marked_done))
  · intro others stamps other others_done
    rw [← stamps] at same
    exact same.eq divides others_done

end Agreement

/-- A clock which counts nanoseconds between instants outside leap seconds. -/
def Reducer.CountsPlain (reducer : Reducer) : Prop :=
  ∀ earlier later : Instant, ¬earlier.IsLeap → ¬later.IsLeap →
    reducer.milliseconds earlier later = nanosMillis earlier later

section Plain

variable {reducer : Reducer} {stamps : List Instant} {bucketEnd : Option Instant}

theorem plainInstant_of_plain {timestamp : Instant} (plain : ¬timestamp.IsLeap) :
    plainInstant timestamp = timestamp := by
  simp only [Instant.IsLeap] at plain
  simp only [plainInstant, Instant.ofNanos, Instant.timestampNanos, Instant.ext_iff]
  omega

theorem clippedSpan_byNanos (counts : reducer.CountsPlain) {earlier later : Instant}
    (earlier_plain : ¬earlier.IsLeap) (later_plain : ¬later.IsLeap) :
    clippedSpan reducer.byNanos earlier later = clippedSpan reducer earlier later :=
  congrArg (max · 0) (counts earlier later earlier_plain later_plain).symm

theorem sameShares_of_plain (counts : reducer.CountsPlain) (linear : Bool)
    (plain : ∀ timestamp ∈ stamps, ¬timestamp.IsLeap)
    (end_plain : ∀ finish ∈ bucketEnd, ¬finish.IsLeap) :
    SameShares reducer linear stamps bucketEnd := by
  have same_stamps : stamps.map plainInstant = stamps :=
    (List.map_congr_left fun timestamp member =>
      plainInstant_of_plain (plain timestamp member)).trans (List.map_id _)
  have same_end : bucketEnd.map plainInstant = bucketEnd := by
    cases bucketEnd with
    | none => rfl
    | some finish => exact congrArg some (plainInstant_of_plain (end_plain finish rfl))
  have ordered_plain : ∀ listed ∈ sortBy Prod.fst stamps.zipIdx, ¬listed.1.IsLeap :=
    fun listed member => plain _ (List.fst_mem_of_mem_zipIdx ((sortBy_perm _ _).mem_iff.mp member))
  have clock : SameClock reducer.byNanos reducer (sortBy Prod.fst stamps.zipIdx) :=
    fun earlier earlier_mem later later_mem => clippedSpan_byNanos counts
      (ordered_plain earlier earlier_mem) (ordered_plain later later_mem)
  have dwell : lastDwell reducer.byNanos bucketEnd
        ((sortBy Prod.fst stamps.zipIdx).getLast?.map Prod.fst) =
      lastDwell reducer bucketEnd ((sortBy Prod.fst stamps.zipIdx).getLast?.map Prod.fst) := by
    cases bucketEnd with
    | none => rfl
    | some finish =>
        cases last : (sortBy Prod.fst stamps.zipIdx).getLast? with
        | none => rfl
        | some listed =>
            exact clippedSpan_byNanos counts
              (ordered_plain listed (List.mem_of_getLast? last)) (end_plain finish rfl)
  have time : wholeTime reducer.byNanos bucketEnd (sortBy Prod.fst stamps.zipIdx) =
      wholeTime reducer bucketEnd (sortBy Prod.fst stamps.zipIdx) := by
    rw [wholeTime, wholeTime, clock.spanTime_eq, dwell]
  intro place _
  rw [same_stamps, same_end, share, share, time, dwell, clock.timeAt_eq]

end Plain

/-- The milliseconds between two instants by a clock which knows that a leap second has passed when
the earlier instant of a day lies in it. -/
def leapMillis (earlier later : Instant) : Int :=
  let leap : Int :=
    if earlier.timestamp % 86400 < later.timestamp % 86400 ∧ earlier.IsLeap then 1
    else if later.timestamp % 86400 < earlier.timestamp % 86400 ∧ later.IsLeap then -1
    else 0
  ((later.timestamp - earlier.timestamp + leap) * 1000000000 +
    (later.subsecNanos - earlier.subsecNanos)).tdiv 1000000

/-- A reducer whose division keeps a hundred digits, by that clock. -/
def leapReducer : Reducer :=
  { exactReducer with
    divide := fun total count => roundTo divPrecision (total / count)
    milliseconds := leapMillis }

theorem leapReducer_divides : leapReducer.Divides := fun _ _ => rfl

theorem leapReducer_keepsPace : leapReducer.KeepsPace := by
  intro earlier later
  have earlier_bounded := earlier.bounded
  have later_bounded := later.bounded
  have clock : leapReducer.milliseconds earlier later = leapMillis earlier later := rfl
  rw [clock, leapMillis]
  generalize leap_eq : (if earlier.timestamp % 86400 < later.timestamp % 86400 ∧ earlier.IsLeap
    then (1 : Int) else if later.timestamp % 86400 < earlier.timestamp % 86400 ∧ later.IsLeap
    then -1 else 0) = leap
  have few : leap ≤ 1 := by
    rw [← leap_eq]
    split
    · exact le_rfl
    · split <;> decide
  rw [Int.tdiv_eq_ediv]
  split
  · omega
  · rw [Int.sign_eq_one_of_pos (by decide)]
    omega

section Cases

variable {linear : Bool} {samples : List (Instant × BigDecimal)} {bucketEnd : Option Instant}

theorem twaScaled_of_sorted (enough : ¬(samples.length < 2 ∧ bucketEnd.isNone))
    (lifted : samples.mapM liftSample = some (samples.map rawSample))
    (sorted : (samples.map rawSample).Pairwise fun first second => first.nanos ≤ second.nanos) :
    twaScaled samples linear bucketEnd =
      (do
        let state ← addDwell bucketEnd (samples.map rawSample).getLast? ⟨.zero, 0⟩
        let state ← addSpans linear state (samples.map rawSample)
        if 0 < state.total then
          avgLikeBigdecimal state.weighted.mantissa state.weighted.scale state.total.toNat
        else none) := by
  rw [twaScaled, if_neg enough, lifted]
  simp only [bind_eq_bind, bind_some, sortBy_of_sorted sorted]

theorem leapReducer_countsPlain : leapReducer.CountsPlain := by
  intro earlier later earlier_plain later_plain
  have clock : leapReducer.milliseconds earlier later = leapMillis earlier later := rfl
  have no_leap (first second : Instant) (plain : ¬first.IsLeap) :
      ¬(first.timestamp % 86400 < second.timestamp % 86400 ∧ first.IsLeap) :=
    fun leap => plain leap.2
  rw [clock, leapMillis, if_neg (no_leap earlier later earlier_plain),
    if_neg (no_leap later earlier later_plain), nanosMillis, Instant.timestampNanos,
    Instant.timestampNanos]
  congr 1
  ring

/-- Two measurements, a second apart. -/
def plainSamples : List (Instant × BigDecimal) :=
  [(.ofSeconds 0, ⟨1, 0⟩), (.ofSeconds 1, ⟨2, 0⟩)]

theorem scaled_plainSamples : twaScaled plainSamples true none = some ⟨15, 1⟩ := by
  rw [twaScaled_of_sorted (by decide) rfl (by decide)]
  decide +kernel

/-- Outside leap seconds the averages agree. -/
theorem plain_seconds_agree :
    (⟨15, 1⟩ : BigDecimal).toRat =
      twaDecimal leapReducer (plainSamples.map measuredSample) (methodOf true) none := by
  have same : SameShares leapReducer true (plainSamples.map Prod.fst) none :=
    sameShares_of_plain leapReducer_countsPlain true (by decide) (by simp)
  exact (twaScaled_agrees leapReducer_divides leapReducer_keepsPace (by decide)
    scaled_plainSamples).2.mpr same plainSamples rfl ⟨15, 1⟩ scaled_plainSamples

theorem leap_bounded : 1000000000 < 2000000000 := by decide

/-- A leap second, and the two seconds after it. -/
def leapSamples : List (Instant × BigDecimal) :=
  [(⟨59, 1000000000, leap_bounded⟩, ⟨1, 0⟩), (.ofSeconds 60, ⟨2, 0⟩), (.ofSeconds 61, ⟨3, 0⟩)]

theorem scaled_leapSamples : twaScaled leapSamples false none = some ⟨2, 0⟩ := by
  rw [twaScaled_of_sorted (by decide) rfl (by decide)]
  decide

theorem decimal_leapSamples :
    twaDecimal leapReducer (leapSamples.map measuredSample) .locf none = 3 / 2 := by
  have sorted : (leapSamples.map measuredSample).Pairwise
      fun first second => first.1 ≤ second.1 := by
    simp only [leapSamples]
    decide
  have half : roundTo divPrecision (3 / 2) = 3 / 2 :=
    HasDigits.roundTo_eq ⟨15, -1, by decide, by norm_num⟩
  rw [twaDecimal_eq_of_sorted, sortBy_of_sorted sorted]
  have first_span : leapReducer.milliseconds ⟨59, 1000000000, leap_bounded⟩ (.ofSeconds 60) =
      1000 := by decide
  have second_span : leapReducer.milliseconds (.ofSeconds 60) (.ofSeconds 61) = 1000 := by decide
  simp only [leapSamples, List.map_cons, List.map_nil, measuredSample, spanWeights_cons,
    first_span, second_span, dwellOf, methodMean, spanWeights, BigDecimal.toRat]
  rw [if_neg (by decide), leapReducer_divides]
  refine Eq.trans (congrArg (roundTo divPrecision) ?_) half
  norm_num [heldOf]

/-- A leap second which ends within the average is not weighed. -/
theorem leap_second_unweighed :
    leapReducer.Divides ∧ leapReducer.KeepsPace ∧
      twaScaled leapSamples false none = some ⟨2, 0⟩ ∧
      twaDecimal leapReducer (leapSamples.map measuredSample) (methodOf false) none ≠
        (⟨2, 0⟩ : BigDecimal).toRat := by
  refine ⟨leapReducer_divides, leapReducer_keepsPace, scaled_leapSamples, ?_⟩
  have decimal : twaDecimal leapReducer (leapSamples.map measuredSample) (methodOf false) none =
      3 / 2 := decimal_leapSamples
  rw [decimal]
  norm_num [BigDecimal.toRat]

end Cases

end WeftDb.Reduce
