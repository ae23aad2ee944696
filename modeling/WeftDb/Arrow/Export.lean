import Mathlib.Tactic.FieldSimp
import WeftDb.Arrow.RecordBatch
import WeftDb.Physical.Paged

/-!
# The typed export of a column of one scale

The text export of a column reads back as the numbers in it.  The typed export reads back as those
numbers cut off at the scale, so it agrees with the text export when nothing was cut off; and only a
bound on the mantissas keeps them within the digits which the column declares.
-/

namespace WeftDb.Arrow

open Physical (Decimals PhysicalType FitsI128 SameNumber)

section Scales

variable {value : BigDecimal} {scale : Int}

/-- Whether a decimal has no digit beyond a scale but zeros. -/
def ExactAt (value : BigDecimal) (scale : Int) : Prop :=
  (10 : Int) ^ (value.scale - scale).toNat ∣ value.mantissa

instance (value : BigDecimal) (scale : Int) : Decidable (ExactAt value scale) :=
  inferInstanceAs (Decidable (_ ∣ _))

theorem toRat_spelled (value : BigDecimal) : (spelled value).toRat = value.toRat := by
  unfold spelled
  split
  · next negative =>
      have exponent : -value.scale = (value.scale.natAbs : Int) := by omega
      rw [BigDecimal.toRat, BigDecimal.toRat, exponent, zpow_natCast]
      push_cast
      simp
  · rfl

theorem toRat_withScale_eq_iff :
    (withScale value scale).toRat = value.toRat ↔ ExactAt value scale := by
  have positive : (10 : Rat) ≠ 0 := by norm_num
  unfold withScale ExactAt BigDecimal.toRat
  split
  · next within =>
      have exponent : -value.scale = (scale - value.scale).toNat + -scale := by omega
      refine iff_of_true ?_ ?_
      · rw [exponent, zpow_add₀ positive, zpow_natCast]
        push_cast
        exact mul_assoc _ _ _
      · rw [show (value.scale - scale).toNat = 0 by omega, pow_zero]
        exact one_dvd _
  · next beyond =>
      have exponent : -scale = (value.scale - scale).toNat + -value.scale := by omega
      rw [exponent, zpow_add₀ positive, zpow_natCast, ← mul_assoc,
        mul_left_inj' (zpow_ne_zero _ positive)]
      norm_cast
      exact ⟨Dvd.intro_left _, Int.tdiv_mul_cancel⟩

theorem checkDecimalDomain_of_fits {mantissa : Int} {scale : Nat} (fits : FitsI128 mantissa)
    (narrow : scale ≤ decimal128MaxPrecision) : checkDecimalDomain ⟨mantissa, scale⟩ = true := by
  have digits : (BigDecimal.digits ⟨mantissa, scale⟩).length ≤ 39 := by
    refine (Nat.length_toDigits_le_iff (by decide) (by decide)).mpr ?_
    unfold FitsI128 at fits
    show mantissa.natAbs < _
    omega
  unfold decimal128MaxPrecision at narrow
  refine decide_eq_true ?_
  rw [BigDecimal.plainDigitCount, if_pos (Int.natCast_nonneg scale), Int.toNat_natCast]
  unfold maxPlainDigits
  split <;> omega

end Scales

variable {value : BigDecimal}

section Exports

variable {decimals : Decimals} {arrow : ArrowDecimals} {unit : TimeUnit} {timestamps : List Int}
  {values : List (Option BigDecimal)} {scale : Nat}
variable {val_array : ArrayRef decimals × String} {type_name : String} {version : Nat}
  {physical_type : PhysicalType}

/-- The mantissas of the values at a scale. -/
def mantissasAt (scale : Nat) (values : List (Option BigDecimal)) : List (Option Int) :=
  values.map (·.map fun value => (withScale value scale).mantissa)

/-- Whether every value is one of 128 bits at a scale. -/
def FitsAt (scale : Nat) (values : List (Option BigDecimal)) : Prop :=
  ∀ value, some value ∈ values → FitsI128 (withScale value scale).mantissa

theorem mapM_tryMantissa (fits : FitsAt scale values) :
    values.mapM (tryMantissa scale) = some (mantissasAt scale values) := by
  induction values with
  | nil => rfl
  | cons head values ih =>
      have rest := ih fun value member => fits value (List.mem_cons_of_mem _ member)
      cases head with
      | none => rw [List.mapM_cons, tryMantissa, rest]; rfl
      | some value =>
          rw [List.mapM_cons, tryMantissa, toI128, if_pos (fits value List.mem_cons_self), rest]
          rfl

theorem mapM_tryMantissa_of_wide (member : some value ∈ values)
    (wide : ¬ FitsI128 (withScale value scale).mantissa) :
    values.mapM (tryMantissa scale) = none := by
  induction values with
  | nil => cases member
  | cons head values ih =>
      rw [List.mapM_cons]
      rcases List.mem_cons.mp member with rfl | later
      · rw [tryMantissa, toI128, if_neg wide]
        rfl
      · rw [ih later]
        cases tryMantissa scale head <;> rfl

theorem tryDecimal128Array_eq (fits : FitsAt scale values)
    (narrow : scale ≤ decimal128MaxPrecision) :
    (tryDecimal128Array arrow values scale : Option (ArrayRef decimals)) =
      some (.decimal128 decimal128MaxPrecision scale (mantissasAt scale values)) := by
  have byte : scale ≤ 127 := narrow.trans (by decide)
  rw [tryDecimal128Array, mapM_tryMantissa fits, toI8, if_pos byte]
  simp only [Option.bind_eq_bind, Option.bind_some, arrow.withPrecisionAndScale_eq, if_pos narrow]
  rfl

theorem tryDecimal128Array_eq_none
    (typeless : ¬ (FitsAt scale values ∧ scale ≤ decimal128MaxPrecision)) :
    (tryDecimal128Array arrow values scale : Option (ArrayRef decimals)) = none := by
  by_cases fits : FitsAt scale values
  · have wide : ¬ scale ≤ decimal128MaxPrecision := fun narrow => typeless ⟨fits, narrow⟩
    rw [tryDecimal128Array, mapM_tryMantissa fits, toI8]
    split
    · simp only [Option.bind_eq_bind, Option.bind_some, arrow.withPrecisionAndScale_eq,
        if_neg wide]
      rfl
    · rfl
  · unfold FitsAt at fits
    push Not at fits
    obtain ⟨value, member, wide⟩ := fits
    rw [tryDecimal128Array, mapM_tryMantissa_of_wide member wide]
    rfl

theorem recordBatchToColumns_buildRecordBatch :
    recordBatchToColumns (buildRecordBatch unit type_name version timestamps val_array) = do
      let values ← readValues val_array.1
      values.forM checkValue
      return (timestamps, values) := by
  have times : columnOr (buildRecordBatch unit type_name version timestamps val_array)
      timestampColumn = .ok (.int64 (timestamps.map some)) := rfl
  have column : columnOr (buildRecordBatch unit type_name version timestamps val_array)
      valueColumn = .ok val_array.1 := rfl
  have read : readTimestamps (.int64 (timestamps.map some) : ArrayRef decimals) =
      .ok timestamps := by
    have cells : (timestamps.map some).filterMap id = timestamps := by
      rw [List.filterMap_map]
      exact List.filterMap_some
    rw [readTimestamps, if_pos (by simp)]
    exact congrArg Except.ok cells
  rw [recordBatchToColumns, times, column]
  show (readTimestamps (.int64 (timestamps.map some) : ArrayRef decimals) >>= _) = _
  rw [read]
  rfl

/-- Whether the values of an export are read back: their plain forms spell them. -/
def Spells (decimals : Decimals) (values : List (Option BigDecimal)) : Prop :=
  ∀ value, some value ∈ values → decimals.parse value.toPlainString = some (spelled value)

theorem readValues_textValueArray (spells : Spells decimals values) :
    readValues (textValueArray values : ArrayRef decimals × String).1 =
      .ok (values.map (·.map spelled)) := by
  rw [textValueArray, readValues, mapM_eq_ok, List.forall₂_map_left_iff, List.forall₂_map_right_iff,
    List.forall₂_same]
  rintro (_ | value) member
  · rfl
  · show parseCell (some value.toPlainString) = _
    rw [parseCell, spells value member]
    rfl

theorem forM_checkValue_eq_ok :
    values.forM checkValue = .ok () ↔
      ∀ value, some value ∈ values → checkDecimalDomain value = true := by
  rw [forM_eq_ok]
  constructor
  · exact fun all value member => require_eq_ok.mp (all _ member)
  · rintro all (_ | value) member
    · rfl
    · exact require_eq_ok.mpr (all value member)

/-- Whether two readings of columns are the same: the same refusal, or the same timestamps, nulls
and numbers. -/
inductive SameColumns : Except ConvertError (List Int × List (Option BigDecimal)) →
    Except ConvertError (List Int × List (Option BigDecimal)) → Prop
  | error (failure : ConvertError) : SameColumns (.error failure) (.error failure)
  | ok {timestamps : List Int} {left right : List (Option BigDecimal)} :
      List.Forall₂ (Option.Rel SameNumber) left right →
      SameColumns (.ok (timestamps, left)) (.ok (timestamps, right))

/-- Whether a typed export reads back as the text export does, and has no mantissa with more digits
than it declares. -/
structure ExactExport (decimals : Decimals) (arrow : ArrowDecimals) (unit : TimeUnit)
    (physical_type : PhysicalType) (timestamps : List Int) (values : List (Option BigDecimal)) :
    Prop where
  same : SameColumns
    (@columnsToRecordBatchTyped decimals arrow unit physical_type timestamps values >>=
      recordBatchToColumns)
    (@columnsToRecordBatch decimals unit timestamps values >>= recordBatchToColumns)
  bounded : ∀ batch : RecordBatch decimals,
    columnsToRecordBatchTyped arrow unit physical_type timestamps values = .ok batch →
      ∀ precision array_scale cells,
        batch.columnByName valueColumn = some (.decimal128 precision array_scale cells) →
          ∀ mantissa, some mantissa ∈ cells → mantissa.natAbs < 10 ^ decimal128MaxPrecision

/-- Whether values are exported without a loss: they stay text, or they are numbers of the decimal
domain with no digit beyond the scale and at most 38 digits at it. -/
def Exportable (values : List (Option BigDecimal)) (scale : Nat) : Prop :=
  decimal128MaxPrecision < scale ∨
    (∃ value, some value ∈ values ∧ ¬ FitsI128 (withScale value scale).mantissa) ∨
    ∀ value, some value ∈ values →
      checkDecimalDomain (spelled value) = true ∧ ExactAt value scale ∧
        (withScale value scale).mantissa.natAbs < 10 ^ decimal128MaxPrecision

theorem SameColumns.of_eq {left right : Except ConvertError (List Int × List (Option BigDecimal))}
    (same : left = right) : SameColumns left right := by
  subst same
  rcases left with failure | ⟨timestamps, values⟩
  · exact .error failure
  · refine .ok (List.forall₂_same.mpr ?_)
    rintro (_ | value) -
    · exact .none
    · exact .some rfl

theorem columnsToRecordBatchTyped_eq (lengths : timestamps.length = values.length)
    (physical_type : PhysicalType) :
    @columnsToRecordBatchTyped decimals arrow unit physical_type timestamps values =
      .ok (buildRecordBatch unit (typeName physical_type) logicalExportVersion timestamps
        (typedValueArray arrow physical_type values)) := by
  rw [columnsToRecordBatchTyped, checkLen, require, if_pos lengths.symm]
  rfl

theorem columnsToRecordBatch_eq (lengths : timestamps.length = values.length) :
    @columnsToRecordBatch decimals unit timestamps values =
      .ok (buildRecordBatch unit (typeName .bigDecimalText) logicalExportVersion timestamps
        (textValueArray values)) := by
  rw [columnsToRecordBatch, checkLen, require, if_pos lengths.symm]
  rfl

theorem typedValueArray_eq
    (fixed : physical_type = .scaledI64 scale ∨ physical_type = .scaledI128 scale) :
    (typedValueArray arrow physical_type values : ArrayRef decimals × String) =
      match tryDecimal128Array arrow values scale with
      | some array => (array, "decimal128")
      | none => textValueArray values := by
  rcases fixed with rfl | rfl <;> rfl

theorem read_decimal128 (fits : FitsAt scale values) (narrow : scale ≤ decimal128MaxPrecision)
    {encoding : String} {precision : Nat} :
    recordBatchToColumns (buildRecordBatch unit type_name version timestamps
        ((.decimal128 precision scale (mantissasAt scale values) : ArrayRef decimals), encoding)) =
      .ok (timestamps, values.map (·.map (withScale · scale))) := by
  have read : readValues (.decimal128 precision scale (mantissasAt scale values) :
      ArrayRef decimals) = .ok (values.map (·.map (withScale · scale))) := by
    rw [readValues, mantissasAt, List.map_map]
    refine congrArg Except.ok (List.map_congr_left fun value _ => ?_)
    cases value <;> rfl
  have checked : (values.map (·.map (withScale · scale))).forM checkValue = .ok () := by
    refine forM_checkValue_eq_ok.mpr fun value member => ?_
    obtain ⟨cell, inside, mapped⟩ := List.mem_map.mp member
    obtain ⟨original, rfl, rfl⟩ := Option.map_eq_some_iff.mp mapped
    exact checkDecimalDomain_of_fits (fits original inside) narrow
  rw [recordBatchToColumns_buildRecordBatch, read]
  show ((values.map (·.map (withScale · scale))).forM checkValue >>= _) = _
  rw [checked]
  rfl

theorem read_text (spells : Spells decimals values) :
    recordBatchToColumns (buildRecordBatch unit type_name version timestamps
        (textValueArray values : ArrayRef decimals × String)) = do
      (values.map (·.map spelled)).forM checkValue
      return (timestamps, values.map (·.map spelled)) := by
  rw [recordBatchToColumns_buildRecordBatch, readValues_textValueArray spells]
  rfl

theorem sameNumber_iff :
    List.Forall₂ (Option.Rel SameNumber) (values.map (·.map (withScale · scale)))
        (values.map (·.map spelled)) ↔
      ∀ value, some value ∈ values → ExactAt value scale := by
  rw [List.forall₂_map_left_iff, List.forall₂_map_right_iff, List.forall₂_same]
  have each (value : BigDecimal) :
      SameNumber (withScale value scale) (spelled value) ↔ ExactAt value scale := by
    rw [SameNumber, toRat_spelled, toRat_withScale_eq_iff]
  constructor
  · intro all value member
    exact (each value).mp (Option.rel_some_some.mp (all _ member))
  · rintro all (_ | value) member
    · exact .none
    · exact .some ((each value).mpr (all value member))

theorem columnByName_value :
    (buildRecordBatch unit type_name version timestamps val_array).columnByName valueColumn =
      some val_array.1 :=
  rfl

theorem exactExport_of_lengths (lengths : timestamps.length ≠ values.length) :
    ExactExport decimals arrow unit physical_type timestamps values := by
  have typed : @columnsToRecordBatchTyped decimals arrow unit physical_type timestamps values =
      .error (.lengthMismatch valueColumn timestamps.length values.length) := by
    rw [columnsToRecordBatchTyped, checkLen, require, if_neg (Ne.symm lengths)]
    rfl
  have text : @columnsToRecordBatch decimals unit timestamps values =
      .error (.lengthMismatch valueColumn timestamps.length values.length) := by
    rw [columnsToRecordBatch, checkLen, require, if_neg (Ne.symm lengths)]
    rfl
  refine ⟨?_, fun batch done => ?_⟩
  · rw [typed, text]
    exact .of_eq rfl
  · rw [typed] at done
    cases done

theorem exactExport_of_fallback
    (fixed : physical_type = .scaledI64 scale ∨ physical_type = .scaledI128 scale)
    (lengths : timestamps.length = values.length)
    (typeless : ¬ (FitsAt scale values ∧ scale ≤ decimal128MaxPrecision)) :
    ExactExport decimals arrow unit physical_type timestamps values := by
  have array : (typedValueArray arrow physical_type values : ArrayRef decimals × String) =
      textValueArray values := by
    rw [typedValueArray_eq fixed, tryDecimal128Array_eq_none typeless]
  refine ⟨?_, fun batch done precision array_scale cells column => ?_⟩
  · rw [columnsToRecordBatchTyped_eq lengths, columnsToRecordBatch_eq lengths, array]
    have same : recordBatchToColumns (buildRecordBatch unit (typeName physical_type)
          logicalExportVersion timestamps (textValueArray values : ArrayRef decimals × String)) =
        recordBatchToColumns (buildRecordBatch unit (typeName .bigDecimalText)
          logicalExportVersion timestamps (textValueArray values : ArrayRef decimals × String)) := by
      rw [recordBatchToColumns_buildRecordBatch, recordBatchToColumns_buildRecordBatch]
    exact .of_eq same
  · rw [columnsToRecordBatchTyped_eq lengths, array] at done
    obtain rfl := Except.ok.inj done
    rw [columnByName_value] at column
    cases column

/-- An array of mantissas is exact when nothing was cut off. -/
theorem exactExport_iff_of_typed
    (fixed : physical_type = .scaledI64 scale ∨ physical_type = .scaledI128 scale)
    (spells : Spells decimals values) (lengths : timestamps.length = values.length)
    (fits : FitsAt scale values) (narrow : scale ≤ decimal128MaxPrecision) :
    ExactExport decimals arrow unit physical_type timestamps values ↔
      ∀ value, some value ∈ values →
        checkDecimalDomain (spelled value) = true ∧ ExactAt value scale ∧
          (withScale value scale).mantissa.natAbs < 10 ^ decimal128MaxPrecision := by
  have array : (typedValueArray arrow physical_type values : ArrayRef decimals × String) =
      (.decimal128 decimal128MaxPrecision scale (mantissasAt scale values), "decimal128") := by
    rw [typedValueArray_eq fixed, tryDecimal128Array_eq fits narrow]
  have typed : (@columnsToRecordBatchTyped decimals arrow unit physical_type timestamps values >>=
      recordBatchToColumns) = .ok (timestamps, values.map (·.map (withScale · scale))) := by
    rw [columnsToRecordBatchTyped_eq lengths, array]
    exact read_decimal128 fits narrow
  have text : (@columnsToRecordBatch decimals unit timestamps values >>= recordBatchToColumns) = do
      (values.map (·.map spelled)).forM checkValue
      return (timestamps, values.map (·.map spelled)) := by
    rw [columnsToRecordBatch_eq lengths]
    exact read_text spells
  have mantissas {mantissa : Int} : some mantissa ∈ mantissasAt scale values ↔
      ∃ value, some value ∈ values ∧ (withScale value scale).mantissa = mantissa := by
    simp [mantissasAt]
  constructor
  · intro exact_export
    have same := exact_export.same
    rw [typed, text] at same
    have bounded := exact_export.bounded _ (columnsToRecordBatchTyped_eq lengths physical_type)
    rw [columnByName_value, array] at bounded
    rcases checked : (values.map (·.map spelled)).forM checkValue with failure | ⟨⟨⟩⟩
    · rw [checked] at same
      cases same
    · rw [checked] at same
      cases same with
      | ok rows =>
          intro value member
          refine ⟨forM_checkValue_eq_ok.mp checked _ ?_, sameNumber_iff.mp rows value member,
            bounded _ _ _ rfl _ (mantissas.mpr ⟨value, member, rfl⟩)⟩
          exact List.mem_map.mpr ⟨some value, member, rfl⟩
  · intro all
    refine ⟨?_, fun batch done precision array_scale cells column mantissa member => ?_⟩
    · have checked : (values.map (·.map spelled)).forM checkValue = .ok () := by
        refine forM_checkValue_eq_ok.mpr fun value member => ?_
        obtain ⟨cell, inside, mapped⟩ := List.mem_map.mp member
        obtain ⟨original, rfl, rfl⟩ := Option.map_eq_some_iff.mp mapped
        exact (all original inside).1
      rw [typed, text, checked]
      exact .ok (sameNumber_iff.mpr fun value member => (all value member).2.1)
    · rw [columnsToRecordBatchTyped_eq lengths, array] at done
      obtain rfl := Except.ok.inj done
      rw [columnByName_value] at column
      cases column
      obtain ⟨value, inside, rfl⟩ := mantissas.mp member
      exact (all value inside).2.2

/-- **The typed export of a column of one scale is exact** exactly where it falls back to text or
cuts nothing off, and its mantissas have the digits which it declares. -/
theorem exactExport_iff {physical_type : PhysicalType}
    (fixed : physical_type = .scaledI64 scale ∨ physical_type = .scaledI128 scale)
    (spells : Spells decimals values) :
    ExactExport decimals arrow unit physical_type timestamps values ↔
      (timestamps.length = values.length → Exportable values scale) := by
  by_cases lengths : timestamps.length = values.length
  · rw [forall_prop_of_true lengths]
    by_cases fits : FitsAt scale values
    · by_cases narrow : scale ≤ decimal128MaxPrecision
      · rw [exactExport_iff_of_typed fixed spells lengths fits narrow]
        refine ⟨fun all => .inr (.inr all), ?_⟩
        rintro (beyond | ⟨value, member, wide⟩ | all)
        · exact absurd narrow beyond.not_ge
        · exact absurd (fits value member) wide
        · exact all
      · exact iff_of_true (exactExport_of_fallback fixed lengths fun typed => narrow typed.2)
          (.inl (not_le.mp narrow))
    · refine iff_of_true (exactExport_of_fallback fixed lengths fun typed => fits typed.1) ?_
      unfold FitsAt at fits
      push Not at fits
      exact .inr (.inl fits)
  · exact iff_of_true (exactExport_of_lengths lengths) fun same => absurd same lengths

end Exports

section Samples

/-- The decimal which a plain form spells. -/
def parsePlain (text : List Char) : BigDecimal :=
  let unsigned := text.dropWhile (· = '-')
  let whole := unsigned.takeWhile (· ≠ '.')
  let fraction := (unsigned.dropWhile (· ≠ '.')).tail
  let number : Int := Nat.ofDigitChars 10 (whole ++ fraction) 0
  ⟨if text.head? = some '-' then -number else number, fraction.length⟩

/-- What the decimal crate reads of plain forms. -/
def plainForms : Decimals :=
  { Physical.wholeNumbers with parse := fun text => some (parsePlain text) }

/-- Arrow looks at a precision and a scale, and not at the mantissas. -/
def arrowDecimals : ArrowDecimals where
  withPrecisionAndScale mantissas precision scale :=
    if scale ≤ precision then some mantissas else none
  withPrecisionAndScale_eq mantissas scale := by
    simp only [Nat.cast_le]

theorem spells_sample
    (sample : value = ⟨-25, 2⟩ ∨ value = ⟨100000000000000000000000000000000000000, 0⟩) :
    Spells plainForms [some value, none] := by
  intro present member
  obtain rfl : present = value := by simpa using member
  rcases sample with rfl | rfl <;> decide

/-- At scale two -0.25 is exact. -/
theorem exactExport_at_two :
    ExactExport plainForms arrowDecimals .millis (.scaledI64 2) [1, 2] [some ⟨-25, 2⟩, none] :=
  (exactExport_iff (.inl rfl) (spells_sample (.inl rfl))).mpr fun _ => .inr (.inr (by
    intro value member
    obtain rfl : value = ⟨-25, 2⟩ := by simpa using member
    decide))

/-- At scale one -0.25 is exported as -0.2, and at scale zero a number of 39 digits in a column of
38. -/
theorem export_cuts_off_and_overflows :
    (columnsToRecordBatchTyped arrowDecimals .millis (.scaledI64 1) [1, 2] [some ⟨-25, 2⟩, none] >>=
        @recordBatchToColumns plainForms) = .ok ([1, 2], [some ⟨-2, 1⟩, none]) ∧
      (columnsToRecordBatch .millis [1, 2] [some ⟨-25, 2⟩, none] >>=
        @recordBatchToColumns plainForms) = .ok ([1, 2], [some ⟨-25, 2⟩, none]) ∧
      ¬ ExactExport plainForms arrowDecimals .millis (.scaledI64 1) [1, 2]
        [some ⟨-25, 2⟩, none] ∧
      ¬ ExactExport plainForms arrowDecimals .millis (.scaledI128 0) [1, 2]
        [some ⟨100000000000000000000000000000000000000, 0⟩, none] := by
  have fits {value : BigDecimal} {scale : Nat}
      (fits : FitsI128 (withScale value scale).mantissa) : FitsAt scale [some value, none] := by
    intro present member
    obtain rfl : present = value := by simpa using member
    exact fits
  refine ⟨rfl, rfl, fun exact_export => ?_, fun exact_export => ?_⟩
  · have all := (exactExport_iff_of_typed (.inl rfl) (spells_sample (.inl rfl)) rfl
      (fits (by decide)) (by decide)).mp exact_export
    exact absurd (all _ List.mem_cons_self).2.1 (by decide)
  · have all := (exactExport_iff_of_typed (.inr rfl) (spells_sample (.inr rfl)) rfl
      (fits (by decide)) (by decide)).mp exact_export
    exact absurd (all _ List.mem_cons_self).2.2 (by decide)

end Samples

end WeftDb.Arrow
