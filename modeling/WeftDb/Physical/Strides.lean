import WeftDb.Physical.PointPlaces

/-!
# Evenly spaced timestamps

Differences are taken as words, and a column whose differences agree as words is evenly spaced.  Its
rows lie on the grid of its stride, and a division finds them, exactly when its span is a word.
-/

namespace WeftDb.Physical

variable {decimals : Decimals} {timestamps : List Int}
variable {later : List Int} {first second gap step : Int}

/-- Whether each timestamp is a gap after the one before it. -/
def EvenlySpaced (gap : Int) (timestamps : List Int) : Prop :=
  timestamps.IsChain fun before after => after - before = gap

theorem fits_range {low high : Int} (low_fits : Word64.Fits low) (high_fits : Word64.Fits high) :
    high - low ≤ 2 ^ 64 - 1 := by
  simp only [Word64.Fits, Word64.least, Word64.greatest] at low_fits high_fits
  omega

theorem gap_eq_of_dod {low mid high : Int} (low_fits : Word64.Fits low) (mid_fits : Word64.Fits mid)
    (high_fits : Word64.Fits high) (below : low ≤ mid) (above : mid ≤ high)
    (same : wrappingSub (wrappingSub high mid) (wrappingSub mid low) = 0) :
    high - mid = mid - low := by
  simp only [wrappingSub, Int.bmod_sub_bmod, Int.sub_bmod_bmod] at same
  obtain ⟨turns, rounds⟩ := Int.dvd_of_bmod_eq_zero same
  simp only [Word64.Fits, Word64.least, Word64.greatest] at low_fits mid_fits high_fits
  omega

theorem evenlySpaced_of_dods (sorted : (first :: second :: later).Pairwise (· ≤ ·))
    (fits : ∀ timestamp ∈ first :: second :: later, Word64.Fits timestamp)
    (regular : ∀ dod ∈ deltas (deltas (first :: second :: later)), dod = 0) :
    EvenlySpaced (second - first) (first :: second :: later) := by
  induction later generalizing first second with
  | nil => exact .cons_cons rfl (.singleton _)
  | cons third later ih =>
      obtain ⟨least, rest⟩ := List.pairwise_cons.mp sorted
      obtain ⟨first_fits, rest_fits⟩ := List.forall_mem_cons.mp fits
      obtain ⟨same, others⟩ := List.forall_mem_cons.mp regular
      have gap := gap_eq_of_dod first_fits (rest_fits second (by simp)) (rest_fits third (by simp))
        (least second (by simp)) ((List.pairwise_cons.mp rest).1 third (by simp)) same
      have spaced := ih rest rest_fits others
      rw [gap] at spaced
      exact .cons_cons rfl spaced

theorem deltas_of_evenlySpaced (spaced : EvenlySpaced gap timestamps) :
    ∀ delta ∈ deltas timestamps, delta = Int.bmod gap (2 ^ 64) := by
  induction timestamps using deltas.induct with
  | case1 first second later ih =>
      obtain ⟨own, rest⟩ := List.isChain_cons_cons.mp spaced
      rw [deltas, wrappingSub, own]
      exact List.forall_mem_cons.mpr ⟨rfl, ih rest⟩
  | case2 short shape =>
      rw [deltas]
      · exact List.forall_mem_nil _
      · exact shape

theorem deltas_of_constant {values : List Int} {value : Int}
    (constant : ∀ held ∈ values, held = value) : ∀ delta ∈ deltas values, delta = 0 := by
  induction values using deltas.induct with
  | case1 first second later ih =>
      obtain ⟨own, rest⟩ := List.forall_mem_cons.mp constant
      rw [deltas]
      refine List.forall_mem_cons.mpr ⟨?_, ih rest⟩
      rw [own, rest second List.mem_cons_self, wrappingSub, Int.sub_self]
      rfl
  | case2 short shape =>
      rw [deltas]
      · exact List.forall_mem_nil _
      · exact shape

theorem arithmeticStride_of_evenlySpaced (spaced : EvenlySpaced gap (first :: second :: later))
    (moves : Int.bmod gap (2 ^ 64) ≠ 0) :
    arithmeticStride (encodeDeltaOfDelta (first :: second :: later)) =
      some (first, Int.bmod gap (2 ^ 64)) := by
  have gaps := deltas_of_evenlySpaced spaced
  have flat := deltas_of_constant gaps
  have own : wrappingSub second first = Int.bmod gap (2 ^ 64) := gaps _ List.mem_cons_self
  exact if_pos ⟨own ▸ moves, flat⟩ |>.trans (by rw [← own]; rfl)

theorem step_ne_zero
    (stride : arithmeticStride (encodeDeltaOfDelta timestamps) = some (first, step)) :
    step ≠ 0 := by
  unfold arithmeticStride at stride
  split at stride
  · obtain ⟨moves, same⟩ := Option.ite_none_right_eq_some.mp stride
    obtain ⟨-, rfl⟩ := Prod.mk.inj (Option.some.inj same)
    exact moves.1
  · cases stride

theorem gap_of_arithmeticStride (sorted : timestamps.Pairwise (· ≤ ·))
    (fits : ∀ timestamp ∈ timestamps, Word64.Fits timestamp)
    (stride : arithmeticStride (encodeDeltaOfDelta timestamps) = some (first, step)) :
    ∃ gap, 0 < gap ∧ EvenlySpaced gap timestamps := by
  have moves := step_ne_zero stride
  obtain ⟨second, later, rfl, rfl, regular⟩ := regular_of_arithmeticStride stride
  refine ⟨second - first, ?_, evenlySpaced_of_dods sorted fits regular⟩
  have below := (List.pairwise_cons.mp sorted).1 second List.mem_cons_self
  have apart : second - first ≠ 0 := by
    intro same
    rw [wrappingSub, same] at moves
    exact moves rfl
  omega

theorem timeSorted_of_pairwise (sorted : timestamps.Pairwise (· ≤ ·)) :
    ((timestamps.zip timestamps.tail).all fun step => step.1 ≤ step.2) = true := by
  induction timestamps with
  | nil => rfl
  | cons first timestamps ih =>
      obtain ⟨least, rest⟩ := List.pairwise_cons.mp sorted
      cases timestamps with
      | nil => rfl
      | cons second timestamps =>
          rw [List.tail_cons, List.zip_cons_cons, List.all_cons, Bool.and_eq_true]
          exact ⟨decide_eq_true (least second List.mem_cons_self), ih rest⟩

theorem placeOnGrid_of_wide {nulls : NullMask} {rowCount : Nat} {instant : Int}
    (positive : 0 < step) (first_fits : Word64.Fits first) (fits : Word64.Fits instant)
    (wide : Word64.greatest < instant - first) :
    placeOnGrid nulls rowCount first step instant = none := by
  have wraps : wrappingSub instant first < 0 := by
    have range := fits_range first_fits fits
    have turned := Int.sub_mul_bmod_self_right (instant - first) 1 (2 ^ 64)
    have same : wrappingSub instant first = instant - first - 1 * (2 ^ 64 : Nat) := by
      rw [wrappingSub, ← turned]
      simp only [Word64.greatest] at wide
      exact Int.bmod_eq_of_le (by omega) (by omega)
    omega
  refine if_neg fun hit => ?_
  obtain ⟨whole, least, -⟩ := hit
  have product := Int.mul_tdiv_add_tmod (wrappingSub instant first) step
  rw [whole, Int.add_zero] at product
  have above := Int.mul_nonneg positive.le least
  omega

/-- What a stride says of a column, of its rows and of the lookup which divides by it. -/
structure StrideExact (decimals : Decimals) (timestamps : List Int) (first step : Int) : Prop where
  positive : timestamps.Pairwise (· < ·) → 0 < step
  exact : ∀ row (inside : row < timestamps.length), timestamps[row] = first + row * step
  found : ∀ (values : List (Option BigDecimal)) (column : ColumnEncoding decimals),
    timestamps.length = values.length → ∀ instant,
      (columnsOf timestamps values column).resolve instant =
        (placeOf instant (timestamps.zip values)).map
          (denseRank (NullMask.fromPresence (values.map Option.isSome)))

theorem strideExact_of_narrow (sorted : timestamps.Pairwise (· ≤ ·))
    (fits : ∀ timestamp ∈ timestamps, Word64.Fits timestamp) (narrow : NarrowSpan timestamps)
    (stride : arithmeticStride (encodeDeltaOfDelta timestamps) = some (first, step)) :
    StrideExact decimals timestamps first step := by
  have moves := step_ne_zero stride
  refine ⟨fun _ => ?_, ?_, fun values column heights => resolve_columnsOf heights fits narrow⟩
  · obtain ⟨second, later, rfl, rfl, -⟩ := regular_of_arithmeticStride stride
    have below := (List.pairwise_cons.mp sorted).1 second List.mem_cons_self
    have near := wrappingSub_of_fits (narrow.fits List.mem_cons_self (by simp) below)
    omega
  · obtain ⟨second, later, rfl, gap, regular⟩ := regular_of_arithmeticStride stride
    exact getElem_of_regular sorted narrow gap regular

/-- An evenly spaced column of two or more rows whose stride says what is so spans a word. -/
theorem narrow_of_strideExact (sorted : (first :: second :: later).Pairwise (· ≤ ·))
    (fits : ∀ timestamp ∈ first :: second :: later, Word64.Fits timestamp) (positive : 0 < gap)
    (spaced : EvenlySpaced gap (first :: second :: later))
    (holds : ∀ step, arithmeticStride (encodeDeltaOfDelta (first :: second :: later)) =
      some (first, step) → StrideExact decimals (first :: second :: later) first step) :
    NarrowSpan (first :: second :: later) := by
  have own : second - first = gap := (List.isChain_cons_cons.mp spaced).1
  have moves : Int.bmod gap (2 ^ 64) ≠ 0 := by
    intro same
    obtain ⟨turns, rounds⟩ := Int.dvd_of_bmod_eq_zero same
    have range := fits_range (fits first (by simp)) (fits second (by simp))
    omega
  have stride := arithmeticStride_of_evenlySpaced spaced moves
  have held := holds _ stride
  have step_eq : Int.bmod gap (2 ^ 64) = gap := by
    have next := held.exact 1 (by simp)
    simp only [List.getElem_cons_succ, List.getElem_cons_zero] at next
    omega
  by_contra wide
  simp only [NarrowSpan, not_forall, not_le, exists_prop] at wide
  obtain ⟨low, low_mem, high, high_mem, wide⟩ := wide
  have first_least : first ≤ low := by
    rcases List.mem_cons.mp low_mem with rfl | behind
    · exact le_rfl
    · exact (List.pairwise_cons.mp sorted).1 low behind
  have beyond : Word64.greatest < high - first := by omega
  -- The far end is one of the rows, and the division misses it.
  obtain ⟨place, inside, there⟩ := List.getElem_of_mem high_mem
  let values : List (Option BigDecimal) :=
    List.replicate (first :: second :: later).length (some ⟨0, 0⟩)
  have lookup := held.found values (.empty .bigDecimalText) List.length_replicate.symm high
  have missed : (columnsOf (first :: second :: later) values
      (.empty .bigDecimalText : ColumnEncoding decimals)).resolve high = none := by
    have within : (columnsOf (first :: second :: later) values
        (.empty .bigDecimalText : ColumnEncoding decimals)).stats.contains high = true :=
      contains_fromColumnsNullable.mpr ⟨⟨high, high_mem, le_rfl⟩, high, high_mem, le_rfl⟩
    have strided : (columnsOf (first :: second :: later) values
        (.empty .bigDecimalText : ColumnEncoding decimals)).stride = some (first, gap) := by
      have flag : (columnsOf (first :: second :: later) values
          (.empty .bigDecimalText : ColumnEncoding decimals)).stats.timeSorted = true :=
        timeSorted_of_pairwise sorted
      rw [Page.stride, if_pos flag]
      change Option.filter _ (arithmeticStride (encodeDeltaOfDelta (first :: second :: later))) = _
      rw [stride, step_eq]
      exact Option.filter_some_pos (decide_eq_true positive)
    rw [Page.resolve, if_pos within, strided]
    exact placeOnGrid_of_wide positive (fits first (by simp)) (fits high high_mem) beyond
  rw [missed, eq_comm, Option.map_eq_none_iff] at lookup
  have row := List.findIdx?_eq_none_iff.mp lookup (high, some ⟨0, 0⟩) (by
    refine List.mem_iff_getElem.mpr ⟨place, by simpa [values] using inside, ?_⟩
    rw [List.getElem_zip, there]
    simp [values])
  simp at row

/-- Of a sorted column the stride is exact, and the lookup by it finds what a scan finds, exactly
when the column, if it is evenly spaced, spans a word. -/
theorem arithmeticStride_exact_iff (decimals : Decimals) {timestamps : List Int}
    (sorted : timestamps.Pairwise (· ≤ ·))
    (fits : ∀ timestamp ∈ timestamps, Word64.Fits timestamp) :
    (∀ first step, arithmeticStride (encodeDeltaOfDelta timestamps) = some (first, step) →
        StrideExact decimals timestamps first step) ↔
      ∀ gap, 0 < gap → EvenlySpaced gap timestamps → NarrowSpan timestamps := by
  constructor
  · intro holds gap positive spaced
    match timestamps with
    | [] => exact fun low member => (List.not_mem_nil member).elim
    | [only] =>
        intro low low_mem high high_mem
        rw [List.mem_singleton.mp low_mem, List.mem_singleton.mp high_mem, Int.sub_self]
        decide
    | first :: second :: later =>
        exact narrow_of_strideExact sorted fits positive spaced fun step => holds first step
  · intro narrow first step stride
    obtain ⟨gap, positive, spaced⟩ := gap_of_arithmeticStride sorted fits stride
    exact strideExact_of_narrow sorted fits (narrow gap positive spaced) stride

/-- A column at every tenth instant. -/
theorem arithmeticStride_exact_tens : StrideExact wholeNumbers [0, 10, 20] 0 10 := by
  have narrow : NarrowSpan [0, 10, 20] := by
    unfold NarrowSpan
    decide
  have sorted : [(0 : Int), 10, 20].Pairwise (· ≤ ·) := by decide
  exact (arithmeticStride_exact_iff wholeNumbers sorted (by decide)).mpr (fun _ _ _ => narrow) 0 10
    (by decide)

/-- Two rising timestamps may have a negative stride. -/
theorem wide_pair_has_negative_stride :
    ¬∀ timestamps : List Int, timestamps.Pairwise (· ≤ ·) →
      (∀ timestamp ∈ timestamps, Word64.Fits timestamp) → ∀ first step,
        arithmeticStride (encodeDeltaOfDelta timestamps) = some (first, step) →
          StrideExact wholeNumbers timestamps first step := by
  intro exact
  have held := exact [Word64.least, 0] (by decide) (by decide) Word64.least Word64.least (by decide)
  exact absurd (held.positive (by decide)) (by decide)

end WeftDb.Physical
