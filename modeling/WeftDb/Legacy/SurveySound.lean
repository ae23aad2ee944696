import WeftDb.Legacy.RowsMode

/-!
# What the survey chooses

Whether a column is held without loss is a property of each of its values, so the passes over the
rows find the encoding which is recommended for the whole column.
-/

namespace WeftDb.Physical.Legacy

open StableOrder

variable {decimals : Decimals} {table : List LegacyRow} {series : List (Int × BigDecimal)}
variable {physicalType : PhysicalType} {value : BigDecimal}

/-- Whether a row is that of an instant and a value. -/
structure LegacyRow.Holds (decimals : Decimals) (row : LegacyRow) (item : Int × BigDecimal) :
    Prop where
  timestamp : row.timestamp = .integer item.1
  value : ∃ text, row.value = .text text ∧ decimals.parse text = some item.2

/-- Whether the rows of a table are those of a series. -/
def Tabulates (decimals : Decimals) (table : List LegacyRow) (series : List (Int × BigDecimal)) :
    Prop :=
  List.Forall₂ (LegacyRow.Holds decimals) table series

theorem LegacyRow.Holds.parseRow {row : LegacyRow} {item : Int × BigDecimal}
    (holds : row.Holds decimals item) (position : Nat) :
    parseRow decimals row position = .ok item := by
  obtain ⟨time, text, spelled, parsed⟩ := holds
  simp only [Legacy.parseRow, time, spelled, parsed]
  rfl

theorem tabulates_rowsSql (tabulates : Tabulates decimals table series) :
    Tabulates decimals (rowsSql table) (sortBy Prod.fst series) := by
  obtain ⟨heights, rows⟩ := List.forall₂_iff_zip.mp tabulates
  have left := (List.map_fst_zip heights.le).symm
  have right := (List.map_snd_zip heights.ge).symm
  generalize table.zip series = pairs at rows left right
  subst left right
  have order : ∀ first ∈ pairs, ∀ second ∈ pairs,
      decide (first.2.1 ≤ second.2.1) =
        decide (first.1.timestamp.order ≤ second.1.timestamp.order) :=
    fun first first_mem second second_mem => by
      rw [(rows first_mem).timestamp, (rows second_mem).timestamp, Cell.order, Cell.order]
      simp
  have tables : rowsSql (pairs.map Prod.fst) =
      (sortBy (fun pair => pair.2.1) pairs).map Prod.fst :=
    (List.map_mergeSort order).symm
  have items : sortBy Prod.fst (pairs.map Prod.snd) =
      (sortBy (fun pair => pair.2.1) pairs).map Prod.snd :=
    (@List.map_mergeSort _ _ _ (fun first second : Int × BigDecimal => decide (first.1 ≤ second.1))
      Prod.snd pairs fun _ _ _ _ => rfl).symm
  rw [tables, items, Tabulates, List.forall₂_map_left_iff, List.forall₂_map_right_iff,
    List.forall₂_same]
  exact fun pair member => rows ((sortBy_perm _ pairs).mem_iff.mp member)

theorem firstPass_eq (tabulates : Tabulates decimals table series) (position : Nat)
    (survey : Survey) :
    firstPass decimals table position survey =
      .ok ((series.map Prod.snd).foldl (Survey.see decimals) survey) := by
  induction tabulates generalizing position survey with
  | nil => rfl
  | cons holds _ ih =>
      rw [firstPass, holds.parseRow]
      exact ih _ _

theorem foldl_see (values : List BigDecimal) (survey : Survey) :
    values.foldl (Survey.see decimals) survey =
      { scale := (values.map (fractionalDigits decimals)).foldl max survey.scale
        f32Exact := survey.f32Exact && values.all (encodesExactly decimals .f32)
        f64Exact := survey.f64Exact && values.all (encodesExactly decimals .f64)
        decimal128Exact :=
          survey.decimal128Exact && values.all (encodesExactly decimals .decimal128) } := by
  induction values generalizing survey with
  | nil => simp
  | cons value values ih =>
      rw [List.foldl_cons, ih]
      simp [Survey.see, Bool.and_assoc]

theorem secondPass_eq (tabulates : Tabulates decimals table series) (scale position : Nat)
    (scaledI64Exact scaledI128Exact : Bool) :
    secondPass decimals scale table position scaledI64Exact scaledI128Exact =
      .ok
        (scaledI64Exact &&
            (series.map Prod.snd).all (encodesExactly decimals (.scaledI64 scale)),
          scaledI128Exact &&
            (series.map Prod.snd).all (encodesExactly decimals (.scaledI128 scale))) := by
  induction tabulates generalizing position scaledI64Exact scaledI128Exact with
  | nil => simp [secondPass]
  | cons holds _ ih =>
      rw [secondPass, holds.parseRow]
      dsimp only
      rw [List.map_cons, List.all_cons, List.all_cons, ← Bool.and_assoc, ← Bool.and_assoc]
      split
      · next neither =>
          simp only [Bool.and_eq_true, Bool.not_eq_true'] at neither
          rw [neither.1, neither.2, Bool.false_and, Bool.false_and]
      · exact ih _ _ _

/-- The first candidate without loss, and the text if there is none. -/
def narrowest (decimals : Decimals) (values : List BigDecimal) : PhysicalType :=
  ((candidates (maxFractionalDigits decimals values)).find?
    fun physicalType => values.all (encodesExactly decimals physicalType)).getD .bigDecimalText

theorem surveyEncoding_eq (tabulates : Tabulates decimals table series) :
    surveyEncoding decimals table =
      .ok (narrowest decimals ((sortBy Prod.fst series).map Prod.snd)) := by
  have rows := tabulates_rowsSql tabulates
  generalize sortBy Prod.fst series = ordered at rows
  have scale : ((ordered.map Prod.snd).map (fractionalDigits decimals)).foldl max 0 =
      maxFractionalDigits decimals (ordered.map Prod.snd) := rfl
  rw [surveyEncoding, firstPass_eq rows, foldl_see]
  simp only [Survey.initial, Bool.true_and, scale]
  rw [narrowest, candidates]
  simp only [List.find?_cons]
  generalize maxFractionalDigits decimals (ordered.map Prod.snd) = scale
  cases (ordered.map Prod.snd).all (encodesExactly decimals .f32)
  case true => rfl
  cases (ordered.map Prod.snd).all (encodesExactly decimals .f64)
  case true => rfl
  simp only [bind, Except.bind, pure, Except.pure, secondPass_eq rows, Bool.true_and]
  cases (ordered.map Prod.snd).all (encodesExactly decimals (.scaledI64 scale))
  case true => rfl
  cases (ordered.map Prod.snd).all (encodesExactly decimals (.scaledI128 scale))
  case true => rfl
  cases (ordered.map Prod.snd).all (encodesExactly decimals .decimal128)
  case true => rfl
  cases (ordered.map Prod.snd).all (encodesExactly decimals .bigDecimalText) <;> rfl

theorem narrowest_perm {left right : List BigDecimal} (perm : left.Perm right) :
    narrowest decimals left = narrowest decimals right := by
  have scale : maxFractionalDigits decimals left = maxFractionalDigits decimals right :=
    (perm.map _).foldl_op_eq
  rw [narrowest, narrowest, scale]
  simp only [perm.all_eq]

theorem measured_exact_iff (value : BigDecimal) (encoded : PhysicalValue decimals) :
    (∀ absError, (measured value encoded).exactness = .lossy absError → absError ≤ 0) ↔
      (measured value encoded).exactness = .exact := by
  unfold measured measure
  dsimp only
  split
  · simp
  · next differs =>
      simp only [Exactness.lossy.injEq, forall_eq', reduceCtorEq, iff_false, not_le]
      exact abs_pos.mpr differs

theorem encode_exact_iff {encoded : Encoded decimals}
    (done : physicalType.encode value = .ok encoded) :
    (∀ absError, encoded.exactness = .lossy absError → absError ≤ 0) ↔
      encoded.exactness = .exact := by
  unfold PhysicalType.encode at done
  split at done
  · cases physicalType with
    | f64 | f32 | scaledI64 | scaledI128 =>
        dsimp only at done
        split at done
        · cases done
          exact measured_exact_iff _ _
        · cases done
    | decimal128 =>
        cases done
        exact measured_exact_iff _ _
    | bigDecimalText =>
        cases done
        simp
  · cases done

theorem toRat_zero : BigDecimal.zero.toRat = 0 := by
  simp [BigDecimal.zero, BigDecimal.toRat]

theorem admits_declaredSchema :
    (declaredSchema physicalType).Admits decimals value ↔
      encodesExactly decimals physicalType value = true := by
  have tolerance : (declaredSchema physicalType).valueTolerance.toRat = 0 := toRat_zero
  rw [AspectSchema.Admits, tolerance, encodesExactly]
  show (∃ encoded : Encoded decimals, physicalType.encode value = .ok encoded ∧ _) ↔ _
  rcases done : (physicalType.encode value : Except _ (Encoded decimals)) with error | encoded
  · simp
  · rw [decide_eq_true_iff, ← encode_exact_iff done]
    simp

theorem pushAll_physicalType (items : List (BigDecimal × Nat))
    {column result : ColumnEncoding decimals}
    (done : pushAll physicalType items column = .ok result) :
    result.physicalType = column.physicalType := by
  induction items generalizing column with
  | nil => rw [← Except.ok.inj done]
  | cons item items ih =>
      obtain ⟨encoded, -, later⟩ := pushAll_cons.mp done
      have same := ih later
      exact same

theorem tolerated_zero (values : List BigDecimal) (physicalType : PhysicalType) :
    (tolerated decimals values BigDecimal.zero physicalType).map ColumnEncoding.physicalType =
      if values.all (encodesExactly decimals physicalType) then some physicalType else none := by
  have column_iff := @pushAll_within decimals (declaredSchema physicalType) values.zipIdx
    (.empty physicalType)
  have every : (∀ item ∈ values.zipIdx, (declaredSchema physicalType).Admits decimals item.1) ↔
      values.all (encodesExactly decimals physicalType) = true := by
    rw [← List.forall_mem_map (f := Prod.fst), List.zipIdx_map_fst, List.all_eq_true]
    simp only [admits_declaredSchema]
  rw [every] at column_iff
  split
  · next all =>
      obtain ⟨column, done, small⟩ := column_iff.mpr ⟨toRat_zero.ge, all⟩
      have found : tolerated decimals values BigDecimal.zero physicalType = some column :=
        tolerated_eq_some.mpr ⟨done, small⟩
      rw [found, Option.map_some, pushAll_physicalType _ done]
      rfl
  · next some_lossy =>
      rw [Option.map_eq_none_iff, Option.eq_none_iff_forall_ne_some]
      intro column found
      obtain ⟨done, small⟩ := tolerated_eq_some.mp found
      exact some_lossy (column_iff.mp ⟨column, done, small⟩).2

theorem physicalType_recommendEncoding (values : List BigDecimal) :
    (recommendEncoding decimals values BigDecimal.zero).physicalType =
      narrowest decimals values := by
  have found : ((candidates (maxFractionalDigits decimals values)).findSome?
        (tolerated decimals values BigDecimal.zero)).map ColumnEncoding.physicalType =
      (candidates (maxFractionalDigits decimals values)).find?
        fun physicalType => values.all (encodesExactly decimals physicalType) := by
    rw [List.map_findSome?, ← List.findSome?_guard]
    refine congrArg (List.findSome? · _) (funext fun physicalType => ?_)
    rw [Function.comp_apply, tolerated_zero, Option.guard]
  rw [narrowest, ← found, recommendEncoding]
  rcases (candidates (maxFractionalDigits decimals values)).findSome?
    (tolerated decimals values BigDecimal.zero) with _ | column
  · dsimp only
    split
    · next column done => exact pushAll_physicalType _ done
    · rfl
  · rfl

theorem encodeColumn_narrowest {values : List BigDecimal} (domain : InDomain values) :
    encodeColumn (narrowest decimals values) values =
      .ok (recommendEncoding decimals values BigDecimal.zero) := by
  rw [← physicalType_recommendEncoding]
  rcases found : (candidates (maxFractionalDigits decimals values)).findSome?
    (tolerated decimals values BigDecimal.zero) with _ | column
  · -- The text is among the candidates, and nothing is lost by it.
    obtain ⟨column, done, exactly⟩ := encodeColumn_text decimals domain
    have refused := List.findSome?_eq_none_iff.mp found .bigDecimalText (by simp [candidates])
    rw [tolerated_eq_some.mpr ⟨done, by rw [exactly, toRat_zero]⟩] at refused
    cases refused
  · obtain ⟨physicalType, -, chosen⟩ := List.exists_of_findSome?_eq_some found
    obtain ⟨done, -⟩ := tolerated_eq_some.mp chosen
    have same : column.physicalType = physicalType := pushAll_physicalType _ done
    rw [recommendEncoding, found, same]
    exact done

theorem surveyEncoding_eq_recommended (tabulates : Tabulates decimals table series) :
    surveyEncoding decimals table =
      .ok (recommendEncoding decimals (series.map Prod.snd) BigDecimal.zero).physicalType := by
  rw [surveyEncoding_eq tabulates, physicalType_recommendEncoding]
  exact congrArg Except.ok (narrowest_perm ((sortBy_perm _ _).map _))

end WeftDb.Physical.Legacy
