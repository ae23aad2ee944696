import WeftDb.Physical.Encoding

/-!
# What the recommended encoding keeps

A column whose values all lie in the decimal domain is encoded within the tolerance, by the text if
by nothing narrower.  No encoding takes a column with a value outside the domain, and what is
recommended for it is empty.
-/

namespace WeftDb.Physical

variable {decimals : Decimals} {values : List BigDecimal} {tolerance : BigDecimal}
variable {physicalType : PhysicalType} {encoded : Encoded decimals} {value : BigDecimal}
  {column result : ColumnEncoding decimals}

/-- Whether the plain text of a value in the domain is read back as that number. -/
def Reads (decimals : Decimals) (values : List BigDecimal) : Prop :=
  ∀ value ∈ values, value.plainDigitCount ≤ maxPlainDigits →
    (decimals.parse value.toPlainString).map BigDecimal.toRat = some value.toRat

/-- Whether every value lies in the decimal domain. -/
def InDomain (values : List BigDecimal) : Prop :=
  ∀ value ∈ values, value.plainDigitCount ≤ maxPlainDigits

theorem absError_measure (original decoded : BigDecimal) :
    (measure original decoded).absError = |original.toRat - decoded.toRat| := by
  simp only [measure]
  split
  · rename_i same
    rw [same, abs_zero]
    rfl
  · rfl

theorem absError_measured (value : BigDecimal) (encoded : PhysicalValue decimals) :
    (measured value encoded).exactness.absError =
      |value.toRat - (measured value encoded).value.toLogical.toRat| :=
  absError_measure _ _

theorem inDomain_of_encode (done : physicalType.encode value = .ok encoded) :
    value.plainDigitCount ≤ maxPlainDigits := by
  unfold PhysicalType.encode at done
  split at done
  · exact of_decide_eq_true ‹_›
  · cases done

theorem absError_encode
    (reads : value.plainDigitCount ≤ maxPlainDigits →
      (decimals.parse value.toPlainString).map BigDecimal.toRat = some value.toRat)
    (done : physicalType.encode value = .ok encoded) :
    encoded.exactness.absError = |value.toRat - encoded.value.toLogical.toRat| := by
  have spelled := reads (inDomain_of_encode done)
  unfold PhysicalType.encode at done
  split at done
  · cases physicalType with
    | f64 | f32 =>
        dsimp only at done
        split at done
        · cases done
          exact absError_measured _ _
        · cases done
    | scaledI64 scale | scaledI128 scale =>
        dsimp only at done
        split at done
        · cases done
          exact absError_measured _ _
        · cases done
    | decimal128 =>
        cases done
        exact absError_measured _ _
    | bigDecimalText =>
        cases done
        obtain ⟨parsed, found, same⟩ := Option.map_eq_some_iff.mp spelled
        simp only [Exactness.absError, PhysicalValue.toLogical, found, Option.getD_some, same,
          sub_self, abs_zero]
  · cases done

theorem encode_text (domain : value.plainDigitCount ≤ maxPlainDigits) :
    PhysicalType.bigDecimalText.encode value =
      .ok (⟨.bigDecimalText value.toPlainString, .exact⟩ : Encoded decimals) :=
  if_pos (decide_eq_true domain)

/-- The values of a column, each within its error. -/
structure ColumnEncoding.Keeps (column : ColumnEncoding decimals) (values : List BigDecimal) :
    Prop where
  within : List.Forall₂
    (fun value encoded => |value.toRat - encoded.toLogical.toRat| ≤ column.maxAbsError) values
    column.values
  nonneg : 0 ≤ column.maxAbsError

theorem maxAbsError_push (column : ColumnEncoding decimals) (encoded : Encoded decimals)
    (nonneg : 0 ≤ column.maxAbsError) :
    column.maxAbsError ≤ (column.push encoded).maxAbsError ∧
      encoded.exactness.absError ≤ (column.push encoded).maxAbsError := by
  unfold ColumnEncoding.push
  cases encoded.exactness with
  | exact => exact ⟨le_rfl, nonneg⟩
  | lossy absError =>
      dsimp only [Exactness.absError]
      split
      · exact ⟨‹_ < _›.le, le_rfl⟩
      · exact ⟨le_rfl, not_lt.mp ‹_›⟩

theorem ColumnEncoding.Keeps.push (keeps : column.Keeps values)
    (error : encoded.exactness.absError = |value.toRat - encoded.value.toLogical.toRat|) :
    (column.push encoded).Keeps (values ++ [value]) := by
  obtain ⟨grows, covers⟩ := maxAbsError_push column encoded keeps.nonneg
  refine ⟨List.rel_append ?_ (.cons (error ▸ covers) .nil), keeps.nonneg.trans grows⟩
  exact keeps.within.imp fun _ _ within => within.trans grows

/-- Encode the values of a column one after the other. -/
def pushAll (physicalType : PhysicalType) (items : List (BigDecimal × Nat))
    (column : ColumnEncoding decimals) :
    Except ColumnEncodeError (ColumnEncoding decimals) :=
  items.foldlM
    (fun column item =>
      match physicalType.encode item.1 with
      | .ok encoded => .ok (column.push encoded)
      | .error source => .error ⟨item.2, source⟩)
    column

theorem pushAll_cons {item : BigDecimal × Nat} {items : List (BigDecimal × Nat)} :
    pushAll physicalType (item :: items) column = .ok result ↔
      ∃ encoded, physicalType.encode item.1 = .ok encoded ∧
        pushAll physicalType items (column.push encoded) = .ok result := by
  rw [pushAll, List.foldlM_cons, bind_eq_ok]
  cases (physicalType.encode item.1 : Except EncodeError (Encoded decimals)) with
  | ok encoded => simp [pushAll]
  | error source => simp

theorem pushAll_keeps (items : List (BigDecimal × Nat)) (keeps : column.Keeps values)
    (reads : Reads decimals (items.map Prod.fst))
    (done : pushAll physicalType items column = .ok result) :
    result.Keeps (values ++ items.map Prod.fst) ∧ InDomain (items.map Prod.fst) := by
  induction items generalizing column values with
  | nil =>
      obtain rfl := Except.ok.inj done
      exact ⟨by rwa [List.map_nil, List.append_nil], List.forall_mem_nil _⟩
  | cons item items ih =>
      obtain ⟨encoded, first, later⟩ := pushAll_cons.mp done
      have own := absError_encode (reads item.1 List.mem_cons_self) first
      obtain ⟨holds, domain⟩ :=
        ih (keeps.push own) (fun value member => reads value (.tail _ member)) later
      rw [List.append_assoc, List.singleton_append] at holds
      exact ⟨holds, List.forall_mem_cons.mpr ⟨inDomain_of_encode first, domain⟩⟩

theorem pushAll_text (items : List (BigDecimal × Nat)) (column : ColumnEncoding decimals)
    (domain : InDomain (items.map Prod.fst)) :
    ∃ result, pushAll .bigDecimalText items column = .ok result ∧
      result.maxAbsError = column.maxAbsError := by
  induction items generalizing column with
  | nil => exact ⟨column, rfl, rfl⟩
  | cons item items ih =>
      obtain ⟨own, others⟩ := List.forall_mem_cons.mp domain
      obtain ⟨result, later, same⟩ :=
        ih (column.push ⟨.bigDecimalText item.1.toPlainString, .exact⟩) others
      exact ⟨result, pushAll_cons.mpr ⟨_, encode_text own, later⟩, same⟩

theorem keeps_empty (physicalType : PhysicalType) :
    (ColumnEncoding.empty physicalType : ColumnEncoding decimals).Keeps [] :=
  ⟨.nil, le_rfl⟩

theorem encodeColumn_keeps (reads : Reads decimals values)
    (done : encodeColumn physicalType values = .ok column) :
    column.Keeps values ∧ InDomain values := by
  have items : values.zipIdx.map Prod.fst = values := List.zipIdx_map_fst 0 values
  have holds := pushAll_keeps values.zipIdx (keeps_empty physicalType) (items.symm ▸ reads) done
  rwa [items, List.nil_append] at holds

theorem encodeColumn_text (decimals : Decimals) (domain : InDomain values) :
    ∃ column : ColumnEncoding decimals,
      encodeColumn .bigDecimalText values = .ok column ∧ column.maxAbsError = 0 :=
  pushAll_text values.zipIdx _ ((List.zipIdx_map_fst 0 values).symm ▸ domain)

theorem tolerated_eq_some :
    tolerated decimals values tolerance physicalType = some column ↔
      encodeColumn physicalType values = .ok column ∧
        column.maxAbsError ≤ tolerance.toRat := by
  unfold tolerated
  cases (encodeColumn physicalType values : Except _ (ColumnEncoding decimals)) with
  | error failure => simp
  | ok encoded =>
      simp only [Option.ite_none_right_eq_some, Option.some.injEq, Except.ok.injEq]
      constructor
      · rintro ⟨small, rfl⟩
        exact ⟨rfl, small⟩
      · rintro ⟨rfl, small⟩
        exact ⟨small, rfl⟩

theorem recommendEncoding_keeps (reads : Reads decimals values) (domain : InDomain values)
    (nonneg : 0 ≤ tolerance.toRat) :
    (recommendEncoding decimals values tolerance).Keeps values ∧
      (recommendEncoding decimals values tolerance).maxAbsError ≤ tolerance.toRat := by
  unfold recommendEncoding
  split
  · rename_i column found
    obtain ⟨physicalType, -, chosen⟩ := List.exists_of_findSome?_eq_some found
    obtain ⟨done, small⟩ := tolerated_eq_some.mp chosen
    exact ⟨(encodeColumn_keeps reads done).1, small⟩
  · -- The text is among the candidates, and nothing is lost by it.
    rename_i nothing
    obtain ⟨column, done, exactly⟩ := encodeColumn_text decimals domain
    have refused := List.findSome?_eq_none_iff.mp nothing .bigDecimalText (by simp [candidates])
    rw [tolerated_eq_some.mpr ⟨done, exactly ▸ nonneg⟩] at refused
    cases refused

theorem recommendEncoding_outside (reads : Reads decimals values) (outside : ¬InDomain values) :
    recommendEncoding decimals values tolerance = .empty .bigDecimalText := by
  have refused (physicalType : PhysicalType) :
      ∃ failure, (encodeColumn physicalType values :
        Except _ (ColumnEncoding decimals)) = .error failure := by
    cases result : (encodeColumn physicalType values : Except _ (ColumnEncoding decimals)) with
    | error failure => exact ⟨failure, rfl⟩
    | ok column => exact absurd (encodeColumn_keeps reads result).2 outside
  have nothing : (candidates (maxFractionalDigits decimals values)).findSome?
      (tolerated decimals values tolerance) = none := by
    refine List.findSome?_eq_none_iff.mpr fun physicalType _ => ?_
    obtain ⟨failure, failed⟩ := refused physicalType
    rw [tolerated, failed]
  obtain ⟨failure, failed⟩ := refused .bigDecimalText
  rw [recommendEncoding, nothing, failed]

end WeftDb.Physical
