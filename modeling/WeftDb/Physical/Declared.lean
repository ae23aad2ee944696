import WeftDb.Physical.Lookup

/-!
# Sealing under a declared encoding

A schema declares one physical type for a whole series.  A value is then stored as the same number
in whichever segment it lies, and a segment can be sealed when each of its values alone can be.
-/

namespace WeftDb.Physical

variable {decimals : Decimals}
variable {column : ColumnEncoding decimals} {physicalType : PhysicalType}

inductive SealError
  /-- "schema seal column height mismatch: {timestamps} timestamps vs {values} values" -/
  | lengthMismatch (timestamps values : Nat)
  | encode (error : ColumnEncodeError)
  | toleranceExceeded (maxAbsError : Rat) (tolerance : BigDecimal)
  /-- "schema paged seal: page height must be at least one row, got zero" -/
  | emptyPageSize
  /-- "schema seal: out-of-order timestamp at row {index}: {current} < previous {previous}" -/
  | outOfOrder (index : Nat) (previous current : Int)
  deriving DecidableEq

/-- What a series declares of its values. -/
structure AspectSchema where
  value : PhysicalType
  valueTolerance : BigDecimal

/-- The error with the row of the value for its place among the present ones. -/
def remapPresentIndex (error : ColumnEncodeError) (present : List Bool) : ColumnEncodeError where
  index := ((present.zipIdx.filter Prod.fst)[error.index]?).elim present.length Prod.snd
  source := error.source

/-- Seal a nullable batch under the declared type. -/
def AspectSchema.sealNullable (schema : AspectSchema) (timestamps : List Int)
    (values : List (Option BigDecimal)) : Except SealError (Segment decimals) :=
  if timestamps.length ≠ values.length then
    .error (.lengthMismatch timestamps.length values.length)
  else
    let present := values.map Option.isSome
    let nulls := NullMask.fromPresence present
    match encodeColumn schema.value (presentValues values) with
    | .error error => .error (.encode (remapPresentIndex error present))
    | .ok column =>
        if schema.valueTolerance.toRat < column.maxAbsError then
          .error (.toleranceExceeded column.maxAbsError schema.valueTolerance)
        else
          .ok
            { version := segmentFormatVersion
              values := column
              timestamps := encodeDeltaOfDelta timestamps
              nulls := nulls
              stats := .fromColumnsNullable timestamps (presentValues values) nulls.nullCount }

/-- Seal a batch without nulls under the declared type. -/
def sealDeclared (schema : AspectSchema) (timestamps : List Int) (values : List BigDecimal) :
    Except SealError (Segment decimals) :=
  if timestamps.length ≠ values.length then
    .error (.lengthMismatch timestamps.length values.length)
  else
    match encodeColumn schema.value values with
    | .error error => .error (.encode error)
    | .ok column =>
        if schema.valueTolerance.toRat < column.maxAbsError then
          .error (.toleranceExceeded column.maxAbsError schema.valueTolerance)
        else
          .ok
            { version := segmentFormatVersion
              values := column
              timestamps := encodeDeltaOfDelta timestamps
              nulls := .allPresent values.length
              stats := .fromColumnsNullable timestamps values 0 }

variable (decimals) in
/-- The number as which a value is stored. -/
def PhysicalType.stored (physicalType : PhysicalType) (value : BigDecimal) : BigDecimal :=
  match (physicalType.encode value : Except EncodeError (Encoded decimals)) with
  | .ok encoded => encoded.value.toLogical
  | .error _ => BigDecimal.zero

variable (decimals) in
/-- Whether a schema takes a value: it can be encoded, and its loss is tolerated. -/
def AspectSchema.Admits (schema : AspectSchema) (value : BigDecimal) : Prop :=
  ∃ encoded : Encoded decimals, schema.value.encode value = .ok encoded ∧
    ∀ absError, encoded.exactness = .lossy absError → absError ≤ schema.valueTolerance.toRat

theorem maxAbsError_push_le {encoded : Encoded decimals} {bound : Rat} :
    (column.push encoded).maxAbsError ≤ bound ↔ column.maxAbsError ≤ bound ∧
      ∀ absError, encoded.exactness = .lossy absError → absError ≤ bound := by
  unfold ColumnEncoding.push
  cases encoded.exactness with
  | exact => simp
  | lossy absError =>
      simp only [Exactness.lossy.injEq, forall_eq']
      split
      · rename_i above
        exact ⟨fun low => ⟨above.le.trans low, low⟩, And.right⟩
      · rename_i below
        exact ⟨fun low => ⟨low, (not_lt.mp below).trans low⟩, And.left⟩

theorem pushAll_within {schema : AspectSchema} (items : List (BigDecimal × Nat))
    (column : ColumnEncoding decimals) :
    (∃ result, pushAll schema.value items column = .ok result ∧
        result.maxAbsError ≤ schema.valueTolerance.toRat) ↔
      column.maxAbsError ≤ schema.valueTolerance.toRat ∧
        ∀ item ∈ items, schema.Admits decimals item.1 := by
  induction items generalizing column with
  | nil =>
      constructor
      · rintro ⟨result, done, small⟩
        obtain rfl := Except.ok.inj done
        exact ⟨small, List.forall_mem_nil _⟩
      · rintro ⟨small, -⟩
        exact ⟨column, rfl, small⟩
  | cons item items ih =>
      simp only [pushAll_cons, List.forall_mem_cons]
      constructor
      · rintro ⟨result, ⟨encoded, first, later⟩, small⟩
        obtain ⟨pushed, others⟩ := (ih _).mp ⟨result, later, small⟩
        obtain ⟨small, own⟩ := maxAbsError_push_le.mp pushed
        exact ⟨small, ⟨encoded, first, own⟩, others⟩
      · rintro ⟨small, ⟨encoded, first, own⟩, others⟩
        obtain ⟨result, later, small⟩ := (ih _).mpr ⟨maxAbsError_push_le.mpr ⟨small, own⟩, others⟩
        exact ⟨result, ⟨encoded, first, later⟩, small⟩

theorem pushAll_decode (items : List (BigDecimal × Nat)) {result : ColumnEncoding decimals}
    (done : pushAll physicalType items column = .ok result) :
    result.decode = column.decode ++ items.map fun item => physicalType.stored decimals item.1 := by
  induction items generalizing column with
  | nil =>
      obtain rfl := Except.ok.inj done
      exact (List.append_nil _).symm
  | cons item items ih =>
      obtain ⟨encoded, first, later⟩ := pushAll_cons.mp done
      have own : (column.push encoded).decode =
          column.decode ++ [physicalType.stored decimals item.1] := by
        rw [PhysicalType.stored, first]
        exact List.map_append
      rw [ih later, own, List.append_assoc]
      rfl

theorem decode_encodeColumn {values : List BigDecimal}
    (encoded : encodeColumn physicalType values = .ok column) :
    column.decode = values.map (physicalType.stored decimals) := by
  have done := pushAll_decode _ encoded
  rwa [← Function.comp_def, ← List.map_map, List.zipIdx_map_fst] at done

variable {schema : AspectSchema} {timestamps : List Int} {values : List (Option BigDecimal)}
  {segment : Segment decimals}

/-- The columns of a batch whose values are encoded. -/
def columnsOf (timestamps : List Int) (values : List (Option BigDecimal))
    (column : ColumnEncoding decimals) : Page decimals where
  values := column
  timestamps := encodeDeltaOfDelta timestamps
  nulls := NullMask.fromPresence (values.map Option.isSome)
  stats := .fromColumnsNullable timestamps (presentValues values)
    (NullMask.fromPresence (values.map Option.isSome)).nullCount

theorem sealNullable_eq_ok :
    schema.sealNullable timestamps values = .ok segment ↔
      timestamps.length = values.length ∧ ∃ column : ColumnEncoding decimals,
        encodeColumn schema.value (presentValues values) = .ok column ∧
          column.maxAbsError ≤ schema.valueTolerance.toRat ∧
          segment = ⟨columnsOf timestamps values column, segmentFormatVersion⟩ := by
  rw [AspectSchema.sealNullable]
  constructor
  · intro done
    split at done
    · cases done
    · rename_i heights
      split at done
      · cases done
      · rename_i column encoded
        split at done
        · cases done
        · rename_i small
          obtain rfl := Except.ok.inj done
          exact ⟨not_not.mp heights, column, encoded, not_lt.mp small, rfl⟩
  · rintro ⟨heights, column, encoded, small, rfl⟩
    rw [if_neg (not_not.mpr heights), encoded]
    exact if_neg (not_lt.mpr small)

theorem exists_sealNullable :
    (∃ segment : Segment decimals, schema.sealNullable timestamps values = .ok segment) ↔
      timestamps.length = values.length ∧ 0 ≤ schema.valueTolerance.toRat ∧
        ∀ value ∈ presentValues values, schema.Admits decimals value := by
  have column_iff := @pushAll_within decimals schema (presentValues values).zipIdx
    (.empty schema.value)
  have members : (∀ item ∈ (presentValues values).zipIdx, schema.Admits decimals item.1) ↔
      ∀ value ∈ presentValues values, schema.Admits decimals value := by
    rw [← List.forall_mem_map (f := Prod.fst), List.zipIdx_map_fst]
  rw [members] at column_iff
  simp only [sealNullable_eq_ok]
  constructor
  · rintro ⟨segment, heights, column, encoded, small, -⟩
    exact ⟨heights, column_iff.mp ⟨column, encoded, small⟩⟩
  · rintro ⟨heights, admitted⟩
    obtain ⟨column, encoded, small⟩ := column_iff.mpr admitted
    exact ⟨_, heights, column, encoded, small, rfl⟩

theorem presentValues_map_some (values : List BigDecimal) :
    presentValues (values.map some) = values := by
  rw [presentValues, List.filterMap_map]
  exact List.filterMap_some

theorem columnsOf_map_some (timestamps : List Int) (values : List BigDecimal)
    (column : ColumnEncoding decimals) :
    columnsOf timestamps (values.map some) column =
      { values := column
        timestamps := encodeDeltaOfDelta timestamps
        nulls := .allPresent values.length
        stats := .fromColumnsNullable timestamps values 0 } := by
  have present : (values.map some).map Option.isSome = List.replicate values.length true := by
    rw [List.map_map, ← List.map_const']
    rfl
  have none : (List.replicate values.length true).count false = 0 :=
    List.count_eq_zero.mpr fun member => by simpa using List.eq_of_mem_replicate member
  have nulls : NullMask.fromPresence ((values.map some).map Option.isSome) =
      .allPresent values.length := by
    rw [present]
    exact (if_pos none).trans (congrArg NullMask.allPresent List.length_replicate)
  rw [columnsOf, nulls, presentValues_map_some]
  rfl

theorem sealDeclared_eq_ok {values : List BigDecimal} :
    sealDeclared schema timestamps values = .ok segment ↔
      schema.sealNullable timestamps (values.map some) = .ok segment := by
  rw [sealNullable_eq_ok, presentValues_map_some, List.length_map, sealDeclared]
  split
  · next uneven => simp [uneven]
  · next heights =>
      rcases encodeColumn schema.value values with error | column
      · simp
      · simp only [columnsOf_map_some, Except.ok.injEq, exists_eq_left', not_not.mp heights,
          true_and]
        split
        · next large => simp [large]
        · next small => simp [not_lt.mp small, eq_comm]

theorem firstPresentAt_map (instant : Int) (timestamps : List Int)
    (values : List (Option BigDecimal)) (change : BigDecimal → BigDecimal) :
    firstPresentAt instant (timestamps.zip (values.map (Option.map change))) =
      (firstPresentAt instant (timestamps.zip values)).map change := by
  induction timestamps generalizing values with
  | nil => rfl
  | cons timestamp timestamps ih =>
      cases values with
      | nil => rfl
      | cons value values =>
          rw [List.map_cons, List.zip_cons_cons, List.zip_cons_cons, firstPresentAt,
            firstPresentAt, List.findSome?_cons, List.findSome?_cons]
          by_cases here : timestamp = instant
          · rw [if_pos here, if_pos here]
            cases value with
            | none => exact ih values
            | some value => rfl
          · rw [if_neg here, if_neg here]
            exact ih values

theorem interleave_stored
    (encoded : encodeColumn schema.value (presentValues values) = .ok column) :
    interleave (NullMask.fromPresence (values.map Option.isSome)) column.decode values.length 0 0 =
      values.map (Option.map (schema.value.stored decimals)) := by
  have decoded : column.decode =
      (presentValues values).map (schema.value.stored decimals) := decode_encodeColumn encoded
  have matched : List.Forall₂ (fun value decoded => decoded = schema.value.stored decimals value)
      (presentValues values) (column.decode.drop 0) := by
    rw [decoded, List.drop_zero, List.forall₂_map_right_iff]
    exact List.forall₂_same.mpr fun _ _ => rfl
  have rows := interleave_forall₂ values 0 0 (fun place _ => isPresent_row values place) matched
  have same : List.Forall₂ Eq (values.map (Option.map (schema.value.stored decimals)))
      (interleave (NullMask.fromPresence (values.map Option.isSome)) column.decode values.length
        0 0) := by
    refine List.forall₂_map_left_iff.mpr (rows.imp fun value row related => ?_)
    cases related with
    | some found => exact congrArg some found.symm
    | none => rfl
  rw [List.forall₂_eq_eq_eq] at same
  exact same.symm

theorem decodeNullable_columnsOf (heights : timestamps.length = values.length)
    (fits : ∀ timestamp ∈ timestamps, Word64.Fits timestamp)
    (encoded : encodeColumn schema.value (presentValues values) = .ok column) :
    (columnsOf timestamps values column).decodeNullable =
      (timestamps, values.map (Option.map (schema.value.stored decimals))) := by
  -- The columns but that of the values are those of a page which chooses its encoding.
  have times : (columnsOf timestamps values column).decodeTimestamps = timestamps :=
    @decodeTimestamps_buildNullable decimals timestamps values schema.valueTolerance fits
  rw [Page.decodeNullable, times, ← interleave_stored encoded, ← heights]
  rfl

theorem valueAt_sealNullable (sealed : schema.sealNullable timestamps values = .ok segment)
    (fits : ∀ timestamp ∈ timestamps, Word64.Fits timestamp) (instant : Int) :
    segment.valueAt instant =
      (firstPresentAt instant (timestamps.zip values)).map (schema.value.stored decimals) := by
  obtain ⟨heights, column, encoded, -, rfl⟩ := sealNullable_eq_ok.mp sealed
  rw [Segment.valueAt_eq, Page.valueAt, decodeNullable_columnsOf heights fits encoded,
    ← firstPresentAt_map]
  split
  · exact pointLookup_eq fun sorted => pairwise_of_timeSorted sorted
  · rename_i apart
    refine (firstPresentAt_eq_none fun row member same => ?_).symm
    have inside := (List.of_mem_zip member).1
    exact @Page.outside_of_overlapsTime decimals timestamps values schema.valueTolerance _ _
      (eq_false_of_ne_true apart) _ inside ⟨same.ge, same.le⟩

end WeftDb.Physical
