import WeftDb.Physical.Declared
import WeftDb.Physical.FrameReads

/-!
# The places of point reads

A point read does not decode the values: it finds the row of an instant, counts the present rows
before it, and takes the value of that place.  On a grid the row is found by a division.  Where the
span of the timestamps is a word, the value is the first present one of the instant.
-/

namespace WeftDb.Physical

open NullMask Option

variable {decimals : Decimals} {timestamps : List Int} {values : List (Option BigDecimal)}
  {instant : Int}
variable {row : Nat} {first step : Int}

/-- The first row of an instant with a value. -/
def placeOf (instant : Int) (rows : List (Int × Option BigDecimal)) : Option Nat :=
  rows.findIdx? fun row => decide (row.1 = instant) && row.2.isSome

theorem firstPresentAt_eq_bind (instant : Int) (rows : List (Int × Option BigDecimal)) :
    firstPresentAt instant rows = (placeOf instant rows).bind fun row => rows[row]?.bind Prod.snd := by
  induction rows with
  | nil => rfl
  | cons row rows ih =>
      obtain ⟨timestamp, value⟩ := row
      rw [firstPresentAt, placeOf, List.findSome?_cons, List.findIdx?_cons, ← firstPresentAt,
        ← placeOf, ih]
      by_cases here : timestamp = instant
      · cases value with
        | some value => simp [here]
        | none => simp [here, bind_map]
      · simp [here, bind_map]

theorem placeOf_eq_some {rows : List (Int × Option BigDecimal)}
    (found : placeOf instant rows = some row) :
    ∃ value, rows[row]? = some (instant, some value) := by
  obtain ⟨inside, here, -⟩ := List.findIdx?_eq_some_iff_getElem.mp found
  rw [Bool.and_eq_true, decide_eq_true_eq] at here
  obtain ⟨value, present⟩ := isSome_iff_exists.mp here.2
  exact ⟨value, by rw [List.getElem?_eq_getElem inside, ← here.1, ← present]⟩

theorem presentValues_append (left right : List (Option BigDecimal)) :
    presentValues (left ++ right) = presentValues left ++ presentValues right :=
  List.filterMap_append

theorem presentValues_getElem? {value : BigDecimal} (found : values[row]? = some (some value)) :
    (presentValues values)[(presentValues (values.take row)).length]? = some value := by
  obtain ⟨inside, same⟩ := List.getElem?_eq_some_iff.mp found
  have split : values = values.take row ++ some value :: values.drop (row + 1) := by
    rw [← same, List.getElem_cons_drop, List.take_append_drop]
  have present : presentValues values =
      presentValues (values.take row) ++ value :: presentValues (values.drop (row + 1)) := by
    conv_lhs => rw [split, presentValues_append]
    rfl
  rw [present, List.getElem?_append_right le_rfl, Nat.sub_self, List.getElem?_cons_zero]

theorem denseRank_fromPresence (inside : row ≤ values.length) :
    denseRank (fromPresence (values.map Option.isSome)) row =
      (presentValues (values.take row)).length := by
  have counted : ((List.range row).filter
      (fromPresence (values.map Option.isSome)).isPresent).length =
        (presentValues (values.take row)).length := by
    induction row with
    | zero => rfl
    | succ row ih =>
        have here : row < values.length := inside
        have own : (fromPresence (values.map Option.isSome)).isPresent row =
            values[row].isSome := by
          rw [isPresent_fromPresence, List.getD_eq_getElem _ _ (by simpa using here),
            List.getElem_map]
        rw [List.range_succ, List.filter_append, List.length_append, ih here.le,
          List.take_succ_eq_append_getElem here, presentValues_append, List.length_append,
          List.filter_singleton, own]
        cases values[row] <;> rfl
  rw [denseRank]
  split
  · next full =>
      have none : (values.map Option.isSome).count false = 0 := by
        unfold fromPresence at full
        dsimp only at full
        split at full
        · assumption
        · exact full
      have every : ∀ value ∈ values, value.isSome = true := fun value member =>
        eq_true_of_ne_false fun absent =>
          List.count_eq_zero.mp none (absent ▸ List.mem_map_of_mem member)
      rw [presentValues, List.filterMap_length_eq_length.mpr, List.length_take, min_eq_left inside]
      exact fun value member => every value (List.mem_of_mem_take member)
  · exact counted

section Scan

variable {nulls : NullMask} {start : Nat}
variable {value : Option BigDecimal}

/-- Whether a mask tells of rows from `start` on which of them are present. -/
def Masks (nulls : NullMask) (start : Nat) (values : List (Option BigDecimal)) : Prop :=
  ∀ place, nulls.isPresent (start + place) = (values.map Option.isSome).getD place false

theorem masks_fromPresence (values : List (Option BigDecimal)) :
    Masks (fromPresence (values.map Option.isSome)) 0 values := fun place => by
  rw [Nat.zero_add, isPresent_fromPresence]

theorem Masks.head (masks : Masks nulls start (value :: values)) :
    nulls.isPresent start = value.isSome :=
  masks 0

theorem Masks.tail (masks : Masks nulls start (value :: values)) :
    Masks nulls (start + 1) values := fun place => by
  have shifted := masks (place + 1)
  rwa [← Nat.add_assoc, Nat.add_right_comm] at shifted

theorem placeOf_cons (timestamp : Int) (value : Option BigDecimal)
    (rows : List (Int × Option BigDecimal)) :
    placeOf instant ((timestamp, value) :: rows) =
      if timestamp = instant ∧ value.isSome = true then some 0
      else (placeOf instant rows).map (· + 1) := by
  rw [placeOf, List.findIdx?_cons, ← placeOf]
  by_cases here : timestamp = instant ∧ value.isSome = true
  · rw [if_pos here, here.1, here.2]
    simp
  · rw [if_neg here, if_neg (by simpa using here)]

theorem map_add_map_succ (found : Option Nat) :
    (found.map (· + 1)).map (start + ·) = found.map (start + 1 + ·) := by
  rw [map_map]
  congr 1
  funext place
  simp only [Function.comp_apply]
  omega

variable (heights : timestamps.length = values.length)

include heights

theorem find?_zipIdx_eq (masks : Masks nulls start values) :
    ((timestamps.zipIdx start).find? fun row => row.1 = instant ∧ nulls.isPresent row.2).map
        Prod.snd =
      (placeOf instant (timestamps.zip values)).map (start + ·) := by
  induction timestamps generalizing values start with
  | nil => rfl
  | cons timestamp timestamps ih =>
      cases values with
      | nil => cases heights
      | cons value values =>
          have rest := ih (Nat.succ.inj heights) masks.tail
          rw [List.zipIdx_cons, List.find?_cons, List.zip_cons_cons, placeOf_cons, masks.head]
          by_cases here : timestamp = instant ∧ value.isSome = true
          · rw [decide_eq_true here, if_pos here]
            rfl
          · rw [decide_eq_false here, if_neg here, map_add_map_succ, ← rest]

theorem presentOfRun_eq (masks : Masks nulls start values) (sorted : timestamps.Pairwise (· ≤ ·))
    (late : ∀ timestamp ∈ timestamps, instant ≤ timestamp) :
    presentOfRun nulls instant timestamps start =
      (placeOf instant (timestamps.zip values)).map (start + ·) := by
  induction timestamps generalizing values start with
  | nil => rfl
  | cons timestamp timestamps ih =>
      cases values with
      | nil => cases heights
      | cons value values =>
          obtain ⟨least, later⟩ := List.pairwise_cons.mp sorted
          obtain ⟨reached, others⟩ := List.forall_mem_cons.mp late
          have rest := ih (Nat.succ.inj heights) masks.tail later others
          rw [presentOfRun, List.zip_cons_cons, placeOf_cons, masks.head]
          by_cases here : timestamp = instant
          · rw [if_neg (not_not.mpr here)]
            by_cases present : value.isSome = true
            · rw [if_pos present, if_pos ⟨here, present⟩]
              rfl
            · rw [if_neg present, if_neg fun both => present both.2, map_add_map_succ, rest]
          · have none : placeOf instant (timestamps.zip values) = none := by
              refine List.findIdx?_eq_none_iff.mpr fun row member => ?_
              have inside := least _ (List.of_mem_zip member).1
              simp only [Bool.and_eq_false_iff, decide_eq_false_iff_not]
              exact .inl (by omega)
            rw [if_pos here, if_neg fun both => here both.1, none]
            rfl

theorem presentOfRun_drop (masks : Masks nulls start values)
    (sorted : timestamps.Pairwise (· ≤ ·)) :
    presentOfRun nulls instant
        (timestamps.drop (timestamps.takeWhile (· < instant)).length)
        (start + (timestamps.takeWhile (· < instant)).length) =
      (placeOf instant (timestamps.zip values)).map (start + ·) := by
  induction timestamps generalizing values start with
  | nil => rfl
  | cons timestamp timestamps ih =>
      cases values with
      | nil => cases heights
      | cons value values =>
          obtain ⟨least, later⟩ := List.pairwise_cons.mp sorted
          by_cases early : timestamp < instant
          · rw [List.takeWhile_cons_of_pos (by simpa using early), List.length_cons,
              List.drop_succ_cons, Nat.add_comm _ 1, ← Nat.add_assoc, List.zip_cons_cons,
              placeOf_cons, if_neg fun both => early.ne both.1, map_add_map_succ]
            exact ih (Nat.succ.inj heights) masks.tail later
          · rw [List.takeWhile_cons_of_neg (by simpa using early), List.length_nil, List.drop_zero,
              Nat.add_zero]
            refine presentOfRun_eq heights masks sorted ?_
            exact List.forall_mem_cons.mpr
              ⟨not_lt.mp early, fun other member => (not_lt.mp early).trans (least other member)⟩

end Scan

theorem locatePresentDenseIndex_eq (heights : timestamps.length = values.length) {sorted : Bool}
    (ordered : sorted = true → timestamps.Pairwise (· ≤ ·)) :
    locatePresentDenseIndex timestamps (fromPresence (values.map Option.isSome)) sorted
        instant =
      (placeOf instant (timestamps.zip values)).map
        (denseRank (fromPresence (values.map Option.isSome))) := by
  have masks := masks_fromPresence values
  have scanned : ∀ place : Option Nat, place.map (0 + ·) = place := fun place => by
    simp only [Nat.zero_add, map_id']
  unfold locatePresentDenseIndex
  refine congrArg (Option.map _) ?_
  split
  · have found := @presentOfRun_drop _ _ instant _ _ heights masks (ordered ‹_›)
    rwa [scanned, Nat.zero_add] at found
  · have found := @find?_zipIdx_eq _ _ instant _ _ heights masks
    rwa [scanned] at found

/-- The span of some timestamps is a word. -/
def NarrowSpan (timestamps : List Int) : Prop :=
  ∀ low ∈ timestamps, ∀ high ∈ timestamps, high - low ≤ Word64.greatest

theorem wrappingSub_of_fits {left right : Int} (fits : Word64.Fits (left - right)) :
    wrappingSub left right = left - right := by
  refine Int.bmod_eq_of_le ?_ ?_
  · simpa [Word64.least] using fits.1
  · have := Int.lt_add_one_iff.mpr fits.2
    simpa [Word64.greatest] using this

theorem NarrowSpan.fits {low high : Int} (narrow : NarrowSpan timestamps)
    (low_mem : low ∈ timestamps) (high_mem : high ∈ timestamps) (ordered : low ≤ high) :
    Word64.Fits (high - low) := by
  have span := narrow low low_mem high high_mem
  simp only [Word64.Fits, Word64.least] at span ⊢
  omega

theorem NarrowSpan.tail (narrow : NarrowSpan (first :: timestamps)) :
    NarrowSpan timestamps := fun low low_mem high high_mem =>
  narrow low (.tail _ low_mem) high (.tail _ high_mem)

theorem getElem_of_regular {second : Int} {later : List Int}
    (sorted : (first :: second :: later).Pairwise (· ≤ ·))
    (narrow : NarrowSpan (first :: second :: later)) (gap : wrappingSub second first = step)
    (regular : ∀ dod ∈ deltas (deltas (first :: second :: later)), dod = 0) (row : Nat)
    (inside : row < (first :: second :: later).length) :
    (first :: second :: later)[row] = first + row * step := by
  induction later generalizing first second row with
  | nil =>
      have near := wrappingSub_of_fits (narrow.fits List.mem_cons_self (by simp)
        ((List.pairwise_cons.mp sorted).1 second (by simp)))
      match row, inside with
      | 0, _ => simp
      | 1, _ =>
          simp only [List.getElem_cons_succ, List.getElem_cons_zero]
          omega
  | cons third later ih =>
      obtain ⟨least, rest⟩ := List.pairwise_cons.mp sorted
      have below := least second (by simp)
      have above := (List.pairwise_cons.mp rest).1 third (by simp)
      have short := narrow.fits List.mem_cons_self (by simp) below
      have next_short := narrow.tail.fits List.mem_cons_self (by simp) above
      have near := wrappingSub_of_fits short
      have far := wrappingSub_of_fits next_short
      obtain ⟨same, others⟩ := List.forall_mem_cons.mp regular
      have next : wrappingSub third second = step := by
        rw [wrappingSub_of_fits] at same
        · omega
        · rw [near, far]
          simp only [Word64.Fits, Word64.least, Word64.greatest] at short next_short ⊢
          omega
      cases row with
      | zero => simp
      | succ row =>
          rw [List.getElem_cons_succ, ih rest narrow.tail next others row (by simpa using inside)]
          push_cast
          rw [add_mul, one_mul]
          omega

/-- A division finds the row of an instant on a grid. -/
theorem placeOnGrid_eq (heights : timestamps.length = values.length)
    (grid : ∀ row (inside : row < timestamps.length), timestamps[row] = first + row * step)
    (positive : 0 < step) (near : Word64.Fits (instant - first)) (fits : Word64.Fits instant) :
    placeOnGrid (fromPresence (values.map Option.isSome)) timestamps.length first step
        instant =
      (placeOf instant (timestamps.zip values)).map
        (denseRank (fromPresence (values.map Option.isSome))) := by
  have diff := wrappingSub_of_fits near
  rcases found : placeOf instant (timestamps.zip values) with _ | row
  · rw [placeOnGrid, map_none]
    refine if_neg fun hit => ?_
    obtain ⟨whole, least, inside, -, present⟩ := hit
    -- A row on the grid with a value would be one of the rows.
    obtain ⟨row, same⟩ := Int.eq_ofNat_of_zero_le least
    rw [same] at inside present
    rw [diff] at whole same
    have short : row < timestamps.length := by omega
    have tall : row < values.length := heights ▸ short
    have here : timestamps[row] = instant := by
      have product := Int.mul_tdiv_add_tmod (instant - first) step
      rw [whole, same] at product
      rw [grid row short, Int.mul_comm]
      omega
    have value : values[row].isSome = true := by
      rw [Int.toNat_natCast, isPresent_fromPresence,
        List.getD_eq_getElem _ _ (by simpa using tall), List.getElem_map] at present
      exact present
    have bound : row < (timestamps.zip values).length := by
      rw [List.length_zip]
      omega
    have missed := List.findIdx?_eq_none_iff.mp found _ (List.getElem_mem bound)
    rw [List.getElem_zip] at missed
    simp [here, value] at missed
  · obtain ⟨value, there⟩ := placeOf_eq_some found
    obtain ⟨time, present⟩ := List.getElem?_zip_eq_some.mp there
    obtain ⟨short, here⟩ := List.getElem?_eq_some_iff.mp time
    obtain ⟨tall, held⟩ := List.getElem?_eq_some_iff.mp present
    have product : instant - first = row * step := by
      have place := grid row short
      rw [here] at place
      dsimp only at place
      omega
    have quotient : (instant - first).tdiv step = row := by
      rw [product, Int.mul_tdiv_cancel _ positive.ne']
    have rest : (instant - first).tmod step = 0 := by
      rw [product, Int.mul_tmod_left]
    rw [placeOnGrid, diff, quotient, map_some, if_pos, Int.toNat_natCast]
    refine ⟨rest, Int.natCast_nonneg _, Int.ofNat_lt.mpr short, ?_, ?_⟩
    · rw [wrappingMul, ← product, ← wrappingSub, wrappingAdd_wrappingSub _ fits]
    · rw [Int.toNat_natCast, isPresent_fromPresence,
        List.getD_eq_getElem _ _ (by simpa using tall), List.getElem_map, held]
      rfl

section Page

variable {schema : AspectSchema} {column : ColumnEncoding decimals}

theorem regular_of_arithmeticStride
    (stride : arithmeticStride (encodeDeltaOfDelta timestamps) = some (first, step)) :
    ∃ second later, timestamps = first :: second :: later ∧ wrappingSub second first = step ∧
      ∀ dod ∈ deltas (deltas timestamps), dod = 0 := by
  match timestamps with
  | [] => cases stride
  | [only] => cases stride
  | first' :: second :: later =>
      obtain ⟨constant, same⟩ := ite_none_right_eq_some.mp stride
      obtain ⟨rfl, rfl⟩ := Prod.mk.inj (some.inj same)
      exact ⟨second, later, rfl, rfl, constant.2⟩

theorem grid_of_stride (stride : (columnsOf timestamps values column).stride = some (first, step))
    (narrow : NarrowSpan timestamps) :
    0 < step ∧ first ∈ timestamps ∧
      ∀ row (inside : row < timestamps.length), timestamps[row] = first + row * step := by
  unfold Page.stride at stride
  split at stride
  · next flag =>
      have sorted : timestamps.Pairwise (· ≤ ·) := pairwise_of_timeSorted flag
      obtain ⟨regular, positive⟩ := filter_eq_some_iff.mp stride
      obtain ⟨second, later, rfl, gap, constant⟩ := regular_of_arithmeticStride regular
      exact ⟨of_decide_eq_true positive, List.mem_cons_self,
        getElem_of_regular sorted narrow gap constant⟩
  · cases stride

variable (heights : timestamps.length = values.length)
  (fits : ∀ timestamp ∈ timestamps, Word64.Fits timestamp) (narrow : NarrowSpan timestamps)

include heights fits narrow

theorem resolve_columnsOf (instant : Int) :
    (columnsOf timestamps values column).resolve instant =
      (placeOf instant (timestamps.zip values)).map
        (denseRank (fromPresence (values.map Option.isSome))) := by
  unfold Page.resolve
  split
  · next within =>
      obtain ⟨⟨low, low_mem, above⟩, high, high_mem, below⟩ :=
        contains_fromColumnsNullable.mp within
      have word : Word64.Fits instant := by
        obtain ⟨least, -⟩ := fits low low_mem
        obtain ⟨-, greatest⟩ := fits high high_mem
        exact ⟨least.trans above, below.trans greatest⟩
      split
      · next first step stride =>
          obtain ⟨positive, member, grid⟩ := grid_of_stride stride narrow
          refine placeOnGrid_eq heights grid positive ?_ word
          have span := narrow first member high high_mem
          have reach := narrow low low_mem first member
          simp only [Word64.Fits, Word64.least, Word64.greatest] at span reach ⊢
          omega
      · rw [show decodeDeltaOfDelta (columnsOf timestamps values column).timestamps = timestamps
          from decode_encodeDeltaOfDelta (List.ne_nil_of_mem low_mem) fits]
        exact locatePresentDenseIndex_eq heights fun flag => pairwise_of_timeSorted flag
  · next outside =>
      have none : placeOf instant (timestamps.zip values) = none := by
        refine List.findIdx?_eq_none_iff.mpr fun row member => ?_
        have inside := (List.of_mem_zip member).1
        simp only [Bool.and_eq_false_iff, decide_eq_false_iff_not]
        refine .inl fun same => outside (contains_fromColumnsNullable.mpr ?_)
        exact ⟨⟨row.1, inside, same.le⟩, row.1, inside, same.ge⟩
      rw [none]
      rfl

theorem Page.readPoint_columnsOf
    (encoded : encodeColumn schema.value (presentValues values) = .ok column) (instant : Int) :
    (columnsOf timestamps values column).readPoint instant =
      (firstPresentAt instant (timestamps.zip values)).map (schema.value.stored decimals) := by
  have decoded : column.decode =
      (presentValues values).map (schema.value.stored decimals) := decode_encodeColumn encoded
  rw [Page.readPoint_eq_lookup, resolve_columnsOf heights fits narrow, firstPresentAt_eq_bind]
  rcases found : placeOf instant (timestamps.zip values) with _ | row
  · rfl
  · obtain ⟨value, there⟩ := placeOf_eq_some found
    have present := (List.getElem?_zip_eq_some.mp there).2
    have inside := (List.getElem?_eq_some_iff.mp present).1
    rw [map_some, bind_some, bind_some, there,
      denseRank_fromPresence inside.le]
    show column.decode[_]? = _
    rw [decoded, List.getElem?_map, presentValues_getElem? present]
    rfl

end Page

end WeftDb.Physical
