import Mathlib.Tactic.NormNum
import WeftDb.Physical.Declared
import WeftDb.Physical.Paged

/-!
# The seals of a declared schema

A batch is sealed whole or in pages, with or without nulls.  The pages of a batch are sealed where
the whole of it is, since a declared type stores every value by itself; what differs is the batch
without rows, of which no page is ever held against the tolerance.
-/

namespace WeftDb.Physical

variable {decimals : Decimals}

/-- Seal a page without nulls.  A value which cannot be encoded is named by its row in the batch. -/
def AspectSchema.sealPage (schema : AspectSchema) (base : Nat) (timestamps : List Int)
    (values : List BigDecimal) : Except SealError (Page decimals) :=
  match encodeColumn schema.value values with
  | .error error => .error (.encode ⟨base + error.index, error.source⟩)
  | .ok column =>
      if schema.valueTolerance.toRat < column.maxAbsError then
        .error (.toleranceExceeded column.maxAbsError schema.valueTolerance)
      else
        .ok
          { values := column
            timestamps := encodeDeltaOfDelta timestamps
            nulls := .allPresent values.length
            stats := .fromColumnsNullable timestamps values 0 }

def AspectSchema.sealPageNullable (schema : AspectSchema) (base : Nat) (timestamps : List Int)
    (values : List (Option BigDecimal)) : Except SealError (Page decimals) :=
  let present := values.map Option.isSome
  let nulls := NullMask.fromPresence present
  match encodeColumn schema.value (presentValues values) with
  | .error error =>
      let inPage := remapPresentIndex error present
      .error (.encode ⟨base + inPage.index, inPage.source⟩)
  | .ok column =>
      if schema.valueTolerance.toRat < column.maxAbsError then
        .error (.toleranceExceeded column.maxAbsError schema.valueTolerance)
      else
        .ok
          { values := column
            timestamps := encodeDeltaOfDelta timestamps
            nulls := nulls
            stats := .fromColumnsNullable timestamps (presentValues values) nulls.nullCount }

/-- Seal pages one after the other, each behind the rows of those before it. -/
def sealPages {Value : Type}
    (sealPage : Nat → List Int → List Value → Except SealError (Page decimals)) :
    Nat → List (List Int × List Value) → Except SealError (List (Page decimals))
  | _, [] => .ok []
  | base, columns :: later => do
      let page ← sealPage base columns.1 columns.2
      let pages ← sealPages sealPage (base + columns.1.length) later
      pure (page :: pages)

def AspectSchema.sealPaged (schema : AspectSchema) (timestamps : List Int)
    (values : List BigDecimal) (rowsPerPage : Nat) : Except SealError (PagedSegment decimals) :=
  if timestamps.length ≠ values.length then
    .error (.lengthMismatch timestamps.length values.length)
  else if rowsPerPage = 0 then .error .emptyPageSize
  else do
    let pages ← sealPages schema.sealPage 0
      ((chunks rowsPerPage timestamps).zip (chunks rowsPerPage values))
    pure
      { version := pagedSegmentFormatVersion
        rowsPerPage := rowsPerPage
        pages := pages
        stats := .fromColumnsNullable timestamps values 0 }

def AspectSchema.sealPagedNullable (schema : AspectSchema) (timestamps : List Int)
    (values : List (Option BigDecimal)) (rowsPerPage : Nat) :
    Except SealError (PagedSegment decimals) :=
  if timestamps.length ≠ values.length then
    .error (.lengthMismatch timestamps.length values.length)
  else if rowsPerPage = 0 then .error .emptyPageSize
  else do
    let pages ← sealPages schema.sealPageNullable 0
      ((chunks rowsPerPage timestamps).zip (chunks rowsPerPage values))
    pure
      { version := pagedSegmentFormatVersion
        rowsPerPage := rowsPerPage
        pages := pages
        stats := .fromColumnsNullable timestamps (presentValues values)
          (values.filter Option.isNone).length }

/-- The first row before its predecessor, with the timestamps of the two. -/
def firstOrderViolation (timestamps : List Int) : Option (Nat × Int × Int) :=
  ((timestamps.zip timestamps.tail).zipIdx.find? fun step => step.1.2 < step.1.1).map fun step =>
    (step.2 + 1, step.1.1, step.1.2)

def AspectSchema.sealSorted (schema : AspectSchema) (timestamps : List Int)
    (values : List BigDecimal) : Except SealError (Segment decimals) :=
  if timestamps.length ≠ values.length then
    .error (.lengthMismatch timestamps.length values.length)
  else
    match firstOrderViolation timestamps with
    | some (index, previous, current) => .error (.outOfOrder index previous current)
    | none => sealDeclared schema timestamps values

def AspectSchema.sealPagedSorted (schema : AspectSchema) (timestamps : List Int)
    (values : List BigDecimal) (rowsPerPage : Nat) : Except SealError (PagedSegment decimals) :=
  if timestamps.length ≠ values.length then
    .error (.lengthMismatch timestamps.length values.length)
  else if rowsPerPage = 0 then .error .emptyPageSize
  else
    match firstOrderViolation timestamps with
    | some (index, previous, current) => .error (.outOfOrder index previous current)
    | none => schema.sealPaged timestamps values rowsPerPage

variable (decimals) in
/-- Whether a value can be encoded. -/
def PhysicalType.Encodes (physicalType : PhysicalType) (value : BigDecimal) : Prop :=
  ∃ encoded : Encoded decimals, physicalType.encode value = .ok encoded

variable (decimals) in
/-- Whether an error names the first row whose value cannot be encoded. -/
def AspectSchema.NamesFirst (schema : AspectSchema) (values : List (Option BigDecimal))
    (error : ColumnEncodeError) : Prop :=
  ∃ value, values[error.index]? = some (some value) ∧
    (schema.value.encode value : Except EncodeError (Encoded decimals)) = .error error.source ∧
    ∀ row < error.index, ∀ earlier, values[row]? = some (some earlier) →
      schema.value.Encodes decimals earlier

variable (decimals) in
/-- Whether some rows are parted at the first value which cannot be encoded. -/
structure AspectSchema.PartedAt (schema : AspectSchema) (values : List (Option BigDecimal))
    (front : List (Option BigDecimal)) (source : EncodeError) : Prop where
  split : ∃ value later, values = front ++ some value :: later ∧
    (schema.value.encode value : Except EncodeError (Encoded decimals)) = .error source
  encoded : ∀ value ∈ presentValues front, schema.value.Encodes decimals value

section Errors

variable {schema : AspectSchema} {values front : List (Option BigDecimal)} {source : EncodeError}
  {error : ColumnEncodeError}

section

variable (parted : schema.PartedAt decimals values front source)

include parted

theorem AspectSchema.PartedAt.namesFirst :
    schema.NamesFirst decimals values ⟨front.length, source⟩ := by
  obtain ⟨⟨value, later, rfl, refused⟩, encoded⟩ := parted
  refine ⟨value, ?_, refused, fun row before earlier found => encoded earlier ?_⟩
  · rw [List.getElem?_append_right le_rfl, Nat.sub_self, List.getElem?_cons_zero]
  · rw [List.getElem?_append_left before] at found
    exact mem_presentValues.mpr (List.mem_of_getElem? found)

theorem AspectSchema.PartedAt.behind {before : List (Option BigDecimal)}
    (encoded : ∀ value ∈ presentValues before, schema.value.Encodes decimals value) :
    schema.PartedAt decimals (before ++ values) (before ++ front) source := by
  obtain ⟨⟨value, later, rfl, refused⟩, front_encoded⟩ := parted
  refine ⟨⟨value, later, (List.append_assoc _ _ _).symm, refused⟩, ?_⟩
  rw [presentValues, List.filterMap_append]
  exact List.forall_mem_append.mpr ⟨encoded, front_encoded⟩

theorem AspectSchema.PartedAt.ahead (after : List (Option BigDecimal)) :
    schema.PartedAt decimals (values ++ after) front source := by
  obtain ⟨⟨value, later, rfl, refused⟩, encoded⟩ := parted
  exact ⟨⟨value, later ++ after, List.append_assoc _ _ _, refused⟩, encoded⟩

end

theorem pushAll_eq_error {physicalType : PhysicalType} (values : List BigDecimal) (start : Nat)
    {column : ColumnEncoding decimals}
    (failed : pushAll physicalType (values.zipIdx start) column = .error error) :
    ∃ earlier value later, values = earlier ++ value :: later ∧
      error.index = start + earlier.length ∧
      (physicalType.encode value : Except EncodeError (Encoded decimals)) = .error error.source ∧
      ∀ value ∈ earlier, physicalType.Encodes decimals value := by
  induction values generalizing start column with
  | nil => cases failed
  | cons value values ih =>
      rw [List.zipIdx_cons, pushAll, List.foldlM_cons] at failed
      cases tried : (physicalType.encode value : Except EncodeError (Encoded decimals)) with
      | error source =>
          rw [tried] at failed
          cases failed
          exact ⟨[], value, values, rfl, rfl, tried, List.forall_mem_nil _⟩
      | ok encoded =>
          rw [tried] at failed
          obtain ⟨earlier, refused, later, rfl, index, source, before⟩ := ih (start + 1) failed
          refine ⟨value :: earlier, refused, later, rfl, ?_, source,
            List.forall_mem_cons.mpr ⟨⟨encoded, tried⟩, before⟩⟩
          rw [index, List.length_cons]
          omega

theorem remapPresentIndex_eq (front later : List (Option BigDecimal)) (value : BigDecimal)
    (source : EncodeError) :
    remapPresentIndex ⟨(presentValues front).length, source⟩
        ((front ++ some value :: later).map Option.isSome) = ⟨front.length, source⟩ := by
  have count (rows : List (Option BigDecimal)) :
      ((rows.map Option.isSome).zipIdx.filter Prod.fst).length = (presentValues rows).length := by
    have flags := @List.countP_map _ _ id Prod.fst (rows.map Option.isSome).zipIdx
    rw [List.zipIdx_map_fst, List.countP_map] at flags
    rw [← List.countP_eq_length_filter, presentValues, List.length_filterMap_eq_countP]
    exact flags.symm
  have found : (((front ++ some value :: later).map Option.isSome).zipIdx.filter Prod.fst)[
      (presentValues front).length]? = some (true, front.length) := by
    rw [List.map_append, List.zipIdx_append, List.filter_append, ← count front,
      List.getElem?_append_right le_rfl, Nat.sub_self]
    simp
  rw [remapPresentIndex, found]
  rfl

theorem encodeColumn_eq_error
    (failed : (encodeColumn schema.value (presentValues values) :
      Except ColumnEncodeError (ColumnEncoding decimals)) = .error error) :
    ∃ front, schema.PartedAt decimals values front error.source ∧
      remapPresentIndex error (values.map Option.isSome) = ⟨front.length, error.source⟩ := by
  obtain ⟨earlier, value, later, present, index, refused, encoded⟩ := pushAll_eq_error _ 0 failed
  obtain ⟨before, rest, rfl, rfl, behind⟩ := List.filterMap_eq_append_iff.mp present
  obtain ⟨nulls, found, after, rfl, none_present, is_found, -⟩ :=
    List.filterMap_eq_cons_iff.mp behind
  obtain rfl : found = some value := is_found
  have no_value : nulls.filterMap id = [] := List.filterMap_eq_nil_iff.mpr none_present
  have same : presentValues (before ++ nulls) = before.filterMap id := by
    rw [presentValues, List.filterMap_append, no_value, List.append_nil]
  have place : error = ⟨(presentValues (before ++ nulls)).length, error.source⟩ := by
    rw [same, ← zero_add (before.filterMap id).length, ← index]
  refine ⟨before ++ nulls, ⟨⟨value, after, (List.append_assoc _ _ _).symm, refused⟩, ?_⟩, ?_⟩
  · rw [same]
    exact encoded
  · rw [place, ← List.append_assoc]
    exact remapPresentIndex_eq _ _ _ _

end Errors

section Column

variable {schema : AspectSchema} {timestamps : List Int} {values : List (Option BigDecimal)}
  {dense : List BigDecimal} {base : Nat} {page : Page decimals} {error : ColumnEncodeError}

theorem exists_column_within {values : List BigDecimal} :
    (∃ column : ColumnEncoding decimals, encodeColumn schema.value values = .ok column ∧
        column.maxAbsError ≤ schema.valueTolerance.toRat) ↔
      0 ≤ schema.valueTolerance.toRat ∧ ∀ value ∈ values, schema.Admits decimals value := by
  have column_iff := @pushAll_within decimals schema values.zipIdx (.empty schema.value)
  have members : (∀ item ∈ values.zipIdx, schema.Admits decimals item.1) ↔
      ∀ value ∈ values, schema.Admits decimals value := by
    rw [← List.forall_mem_map (f := Prod.fst), List.zipIdx_map_fst]
  rw [members] at column_iff
  exact column_iff

theorem sealPageNullable_eq_ok :
    schema.sealPageNullable base timestamps values = .ok page ↔
      ∃ column : ColumnEncoding decimals,
        encodeColumn schema.value (presentValues values) = .ok column ∧
          column.maxAbsError ≤ schema.valueTolerance.toRat ∧
          page = columnsOf timestamps values column := by
  rw [AspectSchema.sealPageNullable]
  cases (encodeColumn schema.value (presentValues values) :
      Except ColumnEncodeError (ColumnEncoding decimals)) with
  | error refused => simp
  | ok column =>
      dsimp only
      split
      · rename_i above
        simp [not_le.mpr above]
      · rename_i small
        simp only [Except.ok.injEq, exists_eq_left', not_lt.mp small, true_and]
        exact eq_comm

theorem sealPageNullable_eq_error
    (failed : (schema.sealPageNullable base timestamps values :
      Except SealError (Page decimals)) = .error (.encode error)) :
    ∃ front, schema.PartedAt decimals values front error.source ∧
      error.index = base + front.length := by
  rw [AspectSchema.sealPageNullable] at failed
  cases tried : (encodeColumn schema.value (presentValues values) :
      Except ColumnEncodeError (ColumnEncoding decimals)) with
  | error refused =>
      obtain ⟨front, parted, remapped⟩ := encodeColumn_eq_error tried
      rw [tried] at failed
      dsimp only at failed
      rw [remapped] at failed
      cases failed
      exact ⟨front, parted, rfl⟩
  | ok column =>
      rw [tried] at failed
      dsimp only at failed
      split at failed <;> cases failed

theorem sealNullable_eq_error
    (failed : (schema.sealNullable timestamps values :
      Except SealError (Segment decimals)) = .error (.encode error)) :
    schema.NamesFirst decimals values error := by
  rw [AspectSchema.sealNullable] at failed
  split at failed
  · cases failed
  cases tried : (encodeColumn schema.value (presentValues values) :
      Except ColumnEncodeError (ColumnEncoding decimals)) with
  | error refused =>
      obtain ⟨front, parted, remapped⟩ := encodeColumn_eq_error tried
      rw [tried] at failed
      dsimp only at failed
      rw [remapped] at failed
      cases failed
      exact parted.namesFirst
  | ok column =>
      rw [tried] at failed
      dsimp only at failed
      split at failed <;> cases failed

theorem remapPresentIndex_dense
    (failed : (encodeColumn schema.value dense :
      Except ColumnEncodeError (ColumnEncoding decimals)) = .error error) :
    remapPresentIndex error ((dense.map some).map Option.isSome) = error := by
  obtain ⟨earlier, value, later, rfl, index, -, -⟩ := pushAll_eq_error _ 0 failed
  have place : error = ⟨(presentValues (earlier.map some)).length, error.source⟩ := by
    rw [presentValues_map_some, ← zero_add earlier.length, ← index]
  have rows : (earlier ++ value :: later).map some =
      earlier.map some ++ some value :: later.map some := List.map_append
  rw [rows, place, remapPresentIndex_eq, presentValues_map_some, List.length_map]

theorem sealPage_eq :
    (schema.sealPage base timestamps dense : Except SealError (Page decimals)) =
      schema.sealPageNullable base timestamps (dense.map some) := by
  have columns (column : ColumnEncoding decimals) := columnsOf_map_some timestamps dense column
  rw [AspectSchema.sealPage, AspectSchema.sealPageNullable, presentValues_map_some]
  cases tried : (encodeColumn schema.value dense :
      Except ColumnEncodeError (ColumnEncoding decimals)) with
  | error refused =>
      dsimp only
      rw [remapPresentIndex_dense tried]
  | ok column =>
      have same := columns column
      rw [columnsOf, presentValues_map_some] at same
      dsimp only
      rw [same]

theorem sealDeclared_eq :
    (sealDeclared schema timestamps dense : Except SealError (Segment decimals)) =
      schema.sealNullable timestamps (dense.map some) := by
  have columns (column : ColumnEncoding decimals) := columnsOf_map_some timestamps dense column
  rw [sealDeclared, AspectSchema.sealNullable, presentValues_map_some, List.length_map]
  split
  · rfl
  cases tried : (encodeColumn schema.value dense :
      Except ColumnEncodeError (ColumnEncoding decimals)) with
  | error refused =>
      dsimp only
      rw [remapPresentIndex_dense tried]
  | ok column =>
      have same := columns column
      rw [columnsOf, presentValues_map_some] at same
      dsimp only
      split
      · rfl
      · exact congrArg (fun page : Page decimals =>
          (.ok ⟨page, segmentFormatVersion⟩ : Except SealError (Segment decimals))) same.symm

end Column

section Pages

variable {schema : AspectSchema} {timestamps : List Int} {values : List (Option BigDecimal)}
  {dense : List BigDecimal} {columns : List (List Int × List (Option BigDecimal))}
  {pages : List (Page decimals)} {base height : Nat} {error : ColumnEncodeError}

theorem sealPages_eq_ok {Value : Type}
    {sealPage : Nat → List Int → List Value → Except SealError (Page decimals)}
    {Seals : List Int × List Value → Page decimals → Prop}
    (each : ∀ base columns page, sealPage base columns.1 columns.2 = .ok page ↔ Seals columns page)
    {columns : List (List Int × List Value)} :
    sealPages sealPage base columns = .ok pages ↔ List.Forall₂ Seals columns pages := by
  induction columns generalizing base pages with
  | nil =>
      rw [sealPages, Except.ok.injEq, List.forall₂_nil_left_iff]
      exact eq_comm
  | cons first later ih =>
      simp only [sealPages, bind_eq_ok, pure_eq_ok, each, ih, List.forall₂_cons_left_iff]
      constructor
      · rintro ⟨page, own, others, rest, rfl⟩
        exact ⟨page, others, own, rest, rfl⟩
      · rintro ⟨page, others, own, rest, rfl⟩
        exact ⟨page, own, others, rest, rfl⟩

/-- A page under the declared type, within its tolerance. -/
def AspectSchema.Pages (schema : AspectSchema) (columns : List Int × List (Option BigDecimal))
    (page : Page decimals) : Prop :=
  ∃ column : ColumnEncoding decimals,
    encodeColumn schema.value (presentValues columns.2) = .ok column ∧
      column.maxAbsError ≤ schema.valueTolerance.toRat ∧ page = columnsOf columns.1 columns.2 column

theorem sealPages_nullable :
    sealPages schema.sealPageNullable base columns = .ok pages ↔
      List.Forall₂ schema.Pages columns pages :=
  sealPages_eq_ok fun _ _ _ => sealPageNullable_eq_ok

theorem exists_sealPages :
    (∃ pages : List (Page decimals), sealPages schema.sealPageNullable base columns = .ok pages) ↔
      columns = [] ∨ 0 ≤ schema.valueTolerance.toRat ∧
        ∀ value ∈ presentValues (columns.map Prod.snd).flatten, schema.Admits decimals value := by
  have one (page : List Int × List (Option BigDecimal)) :
      (∃ sealed : Page decimals, schema.Pages page sealed) ↔
        0 ≤ schema.valueTolerance.toRat ∧
          ∀ value ∈ presentValues page.2, schema.Admits decimals value := by
    rw [← exists_column_within]
    constructor
    · rintro ⟨sealed, column, encoded, small, -⟩
      exact ⟨column, encoded, small⟩
    · rintro ⟨column, encoded, small⟩
      exact ⟨_, column, encoded, small, rfl⟩
  simp only [sealPages_nullable]
  induction columns with
  | nil => simp
  | cons page later ih =>
      simp only [List.forall₂_cons_left_iff, reduceCtorEq, false_or, List.map_cons,
        List.flatten_cons, presentValues, List.filterMap_append, List.forall_mem_append] at ih ⊢
      constructor
      · rintro ⟨pages, sealed, rest, own, others, rfl⟩
        obtain ⟨nonneg, admitted⟩ := (one page).mp ⟨sealed, own⟩
        refine ⟨nonneg, admitted, ?_⟩
        rcases ih.mp ⟨rest, others⟩ with rfl | ⟨-, admitted⟩
        · exact List.forall_mem_nil _
        · exact admitted
      · rintro ⟨nonneg, admitted, rest_admitted⟩
        obtain ⟨sealed, own⟩ := (one page).mpr ⟨nonneg, admitted⟩
        obtain ⟨rest, others⟩ := ih.mpr (.inr ⟨nonneg, rest_admitted⟩)
        exact ⟨sealed :: rest, sealed, rest, own, others, rfl⟩

theorem sealPages_eq_error (heights : ∀ page ∈ columns, page.1.length = page.2.length)
    (failed : (sealPages schema.sealPageNullable base columns :
      Except SealError (List (Page decimals))) = .error (.encode error)) :
    ∃ front, schema.PartedAt decimals (columns.map Prod.snd).flatten front error.source ∧
      error.index = base + front.length := by
  induction columns generalizing base with
  | nil => cases failed
  | cons page later ih =>
      obtain ⟨own_height, later_heights⟩ := List.forall_mem_cons.mp heights
      rw [List.map_cons, List.flatten_cons]
      cases own : (schema.sealPageNullable base page.1 page.2 :
          Except SealError (Page decimals)) with
      | error refused =>
          rw [sealPages, own] at failed
          cases failed
          obtain ⟨front, parted, index⟩ := sealPageNullable_eq_error own
          exact ⟨front, parted.ahead _, index⟩
      | ok sealed =>
          rw [sealPages, own] at failed
          cases others : (sealPages schema.sealPageNullable (base + page.1.length) later :
              Except SealError (List (Page decimals))) with
          | ok rest =>
              simp [others, Bind.bind, Except.bind, Pure.pure, Except.pure] at failed
          | error refused =>
              simp only [others, Bind.bind, Except.bind, Except.error.injEq] at failed
              obtain rfl := failed
              obtain ⟨front, parted, index⟩ := ih later_heights others
              obtain ⟨column, encoded, small, -⟩ := sealPageNullable_eq_ok.mp own
              have admitted := (exists_column_within.mp ⟨column, encoded, small⟩).2
              refine ⟨page.2 ++ front, parted.behind fun value member => ?_, ?_⟩
              · obtain ⟨one, done, -⟩ := admitted value member
                exact ⟨one, done⟩
              · rw [index, List.length_append, own_height, add_assoc]

theorem decode_pages (heights : ∀ page ∈ columns, page.1.length = page.2.length)
    (fits : ∀ page ∈ columns, ∀ timestamp ∈ page.1, Word64.Fits timestamp)
    (sealedPages : List.Forall₂ schema.Pages columns pages) :
    (pages.map fun page => page.decodeNullable.1).flatten = (columns.map Prod.fst).flatten ∧
      (pages.map fun page => page.decodeNullable.2).flatten =
        (columns.map Prod.snd).flatten.map (Option.map (schema.value.stored decimals)) := by
  induction sealedPages with
  | nil => exact ⟨rfl, rfl⟩
  | cons own others ih =>
      obtain ⟨column, encoded, -, rfl⟩ := own
      obtain ⟨own_height, later_heights⟩ := List.forall_mem_cons.mp heights
      obtain ⟨own_fits, later_fits⟩ := List.forall_mem_cons.mp fits
      obtain ⟨times, rows⟩ := ih later_heights later_fits
      have decoded := decodeNullable_columnsOf own_height own_fits encoded
      simp only [List.map_cons, List.flatten_cons, List.map_append, decoded, times, rows, and_self]

theorem chunksFrom_map {Item Image : Type} (image : Item → Image) (height : Nat) (fuel : Nat)
    (items : List Item) :
    chunksFrom height fuel (items.map image) =
      (chunksFrom height fuel items).map (List.map image) := by
  induction fuel generalizing items with
  | zero => rfl
  | succ fuel ih =>
      cases items with
      | nil => rfl
      | cons item items =>
          rw [List.map_cons, chunksFrom, chunksFrom, List.map_cons, ← List.map_cons,
            ← List.map_take, ← List.map_drop, ih]

theorem sealPages_dense (columns : List (List Int × List BigDecimal)) :
    (sealPages schema.sealPage base columns : Except SealError (List (Page decimals))) =
      sealPages schema.sealPageNullable base
        (columns.map fun page => (page.1, page.2.map some)) := by
  induction columns generalizing base with
  | nil => rfl
  | cons page later ih => rw [List.map_cons, sealPages, sealPages, sealPage_eq, ih]

theorem sealPaged_eq :
    (schema.sealPaged timestamps dense height : Except SealError (PagedSegment decimals)) =
      schema.sealPagedNullable timestamps (dense.map some) height := by
  have pages : (chunks height timestamps).zip (chunks height (dense.map some)) =
      ((chunks height timestamps).zip (chunks height dense)).map
        fun page => (page.1, page.2.map some) := by
    rw [chunks, chunks, chunks, List.length_map, chunksFrom_map, List.zip_map_right]
    rfl
  have no_null : ((dense.map some).filter Option.isNone).length = 0 := by
    rw [List.length_eq_zero_iff, List.filter_eq_nil_iff, List.forall_mem_map]
    exact fun _ _ => Bool.false_ne_true
  rw [AspectSchema.sealPaged, AspectSchema.sealPagedNullable, sealPages_dense, List.length_map,
    presentValues_map_some, no_null, pages]

end Pages

/-- Whether a batch which is sealed whole and in pages is sealed alike: in pages where it is whole,
except without rows; to the same rows, within the tolerance of those which were given; and refused,
where the encoding is, at the first row which cannot be encoded. -/
structure SealsAgree (schema : AspectSchema) (timestamps : List Int)
    (values : List (Option BigDecimal)) (whole : Except SealError (Segment decimals))
    (paged : Except SealError (PagedSegment decimals)) : Prop where
  succeeds : (∃ segment, paged = .ok segment) ↔
    (∃ segment, whole = .ok segment) ∨ timestamps = [] ∧ values = []
  whole_holds : ∀ segment, whole = .ok segment →
    Holds timestamps values schema.valueTolerance.toRat segment.decodeNullable
  paged_holds : ∀ segment, paged = .ok segment →
    Holds timestamps values schema.valueTolerance.toRat segment.decodeNullable
  decoded : ∀ segment pages, whole = .ok segment → paged = .ok pages →
    segment.decodeNullable = pages.decodeNullable
  whole_names : ∀ error, whole = .error (.encode error) → schema.NamesFirst decimals values error
  paged_names : ∀ error, paged = .error (.encode error) → schema.NamesFirst decimals values error

section Agreement

variable {schema : AspectSchema} {timestamps : List Int} {values : List (Option BigDecimal)}
  {height : Nat}
variable {paged : PagedSegment decimals}

theorem within_stored {value : BigDecimal} (nonneg : 0 ≤ schema.valueTolerance.toRat)
    (reads : value.plainDigitCount ≤ maxPlainDigits →
      (decimals.parse value.toPlainString).map BigDecimal.toRat = some value.toRat)
    (admitted : schema.Admits decimals value) :
    Within schema.valueTolerance.toRat value (schema.value.stored decimals value) := by
  obtain ⟨encoded, done, small⟩ := admitted
  have loss := absError_encode reads done
  rw [Within, PhysicalType.stored, done, ← loss]
  cases exactness : encoded.exactness with
  | exact => exact nonneg
  | lossy absError => exact small absError exactness

theorem holds_stored (nonneg : presentValues values ≠ [] → 0 ≤ schema.valueTolerance.toRat)
    (reads : Reads decimals (presentValues values))
    (admitted : ∀ value ∈ presentValues values, schema.Admits decimals value) :
    Holds timestamps values schema.valueTolerance.toRat
      (timestamps, values.map (Option.map (schema.value.stored decimals))) := by
  refine ⟨rfl, List.forall₂_map_right_iff.mpr (List.forall₂_same.mpr fun row member => ?_)⟩
  cases row with
  | none => exact .none
  | some value =>
      have present := mem_presentValues.mpr member
      exact .some (within_stored (nonneg (List.ne_nil_of_mem present)) (reads value present)
        (admitted value present))

theorem decode_sealNullable {segment : Segment decimals}
    (fits : ∀ timestamp ∈ timestamps, Word64.Fits timestamp)
    (done : schema.sealNullable timestamps values = .ok segment) :
    segment.decodeNullable =
      (timestamps, values.map (Option.map (schema.value.stored decimals))) := by
  obtain ⟨heights, column, encoded, -, rfl⟩ := sealNullable_eq_ok.mp done
  exact decodeNullable_columnsOf heights fits encoded

variable (tall : 0 < height)

include tall

theorem sealPagedNullable_eq_ok :
    schema.sealPagedNullable timestamps values height = .ok paged ↔
      timestamps.length = values.length ∧ ∃ pages,
        sealPages schema.sealPageNullable 0
          ((chunks height timestamps).zip (chunks height values)) = .ok pages ∧
        paged =
          { version := pagedSegmentFormatVersion
            rowsPerPage := height
            pages := pages
            stats := .fromColumnsNullable timestamps (presentValues values)
              (values.filter Option.isNone).length } := by
  rw [AspectSchema.sealPagedNullable, if_neg tall.ne']
  split
  · rename_i apart
    simp [apart]
  · rename_i heights
    simp only [bind_eq_ok, pure_eq_ok, not_not.mp heights, true_and]
    simp only [eq_comm]

theorem decode_sealPagedNullable (fits : ∀ timestamp ∈ timestamps, Word64.Fits timestamp)
    (done : schema.sealPagedNullable timestamps values height = .ok paged) :
    paged.decodeNullable =
      (timestamps, values.map (Option.map (schema.value.stored decimals))) := by
  obtain ⟨heights, pages, sealedPages, rfl⟩ := (sealPagedNullable_eq_ok tall).mp done
  obtain ⟨each, times, rows⟩ := columns_chunks tall heights
  have inside : ∀ page ∈ (chunks height timestamps).zip (chunks height values),
      ∀ timestamp ∈ page.1, Word64.Fits timestamp := fun page member timestamp here =>
    fits timestamp (times ▸ List.mem_flatten_of_mem (List.mem_map_of_mem member) here)
  obtain ⟨all_times, all_rows⟩ := decode_pages each inside (sealPages_nullable.mp sealedPages)
  rw [PagedSegment.decodeNullable_eq]
  dsimp only
  rw [all_times, all_rows, times, rows]

theorem exists_sealPagedNullable :
    (∃ paged : PagedSegment decimals,
        schema.sealPagedNullable timestamps values height = .ok paged) ↔
      timestamps.length = values.length ∧ (timestamps = [] ∨
        0 ≤ schema.valueTolerance.toRat ∧
          ∀ value ∈ presentValues values, schema.Admits decimals value) := by
  have pages : (∃ paged : PagedSegment decimals,
        schema.sealPagedNullable timestamps values height = .ok paged) ↔
      timestamps.length = values.length ∧ ∃ pages : List (Page decimals),
        sealPages schema.sealPageNullable 0
          ((chunks height timestamps).zip (chunks height values)) = .ok pages := by
    simp only [sealPagedNullable_eq_ok tall]
    constructor
    · rintro ⟨_, heights, pages, done, rfl⟩
      exact ⟨heights, pages, done⟩
    · rintro ⟨heights, pages, done⟩
      exact ⟨_, heights, pages, done, rfl⟩
  rw [pages, exists_sealPages]
  refine and_congr_right fun heights => ?_
  obtain ⟨-, times, rows⟩ := columns_chunks tall heights
  have no_page : (chunks height timestamps).zip (chunks height values) = [] ↔ timestamps = [] := by
    constructor
    · intro none
      rw [none] at times
      exact times.symm
    · rintro rfl
      rfl
  rw [no_page, rows]

/-- A nullable batch is sealed in pages as it is whole. -/
theorem sealNullable_agrees (fits : ∀ timestamp ∈ timestamps, Word64.Fits timestamp)
    (reads : Reads decimals (presentValues values)) :
    SealsAgree schema timestamps values
      (schema.sealNullable timestamps values : Except SealError (Segment decimals))
      (schema.sealPagedNullable timestamps values height) where
  succeeds := by
    rw [exists_sealPagedNullable tall, exists_sealNullable]
    constructor
    · rintro ⟨heights, rfl | admitted⟩
      · exact .inr ⟨rfl, List.length_eq_zero_iff.mp heights.symm⟩
      · exact .inl ⟨heights, admitted⟩
    · rintro (⟨heights, admitted⟩ | ⟨rfl, rfl⟩)
      · exact ⟨heights, .inr admitted⟩
      · exact ⟨rfl, .inl rfl⟩
  whole_holds segment done := by
    obtain ⟨-, nonneg, admitted⟩ := exists_sealNullable.mp ⟨segment, done⟩
    rw [decode_sealNullable fits done]
    exact holds_stored (fun _ => nonneg) reads admitted
  paged_holds segment done := by
    rw [decode_sealPagedNullable tall fits done]
    obtain ⟨heights, rfl | ⟨nonneg, admitted⟩⟩ :=
      (exists_sealPagedNullable tall).mp ⟨segment, done⟩
    · obtain rfl := List.length_eq_zero_iff.mp heights.symm
      exact ⟨rfl, .nil⟩
    · exact holds_stored (fun _ => nonneg) reads admitted
  decoded segment pages whole paged := by
    rw [decode_sealNullable fits whole, decode_sealPagedNullable tall fits paged]
  whole_names _ := sealNullable_eq_error
  paged_names error failed := by
    rw [AspectSchema.sealPagedNullable, if_neg tall.ne'] at failed
    split at failed
    · cases failed
    rename_i heights
    obtain ⟨each, -, rows⟩ := columns_chunks tall (not_not.mp heights)
    cases pages : (sealPages schema.sealPageNullable 0
        ((chunks height timestamps).zip (chunks height values)) :
          Except SealError (List (Page decimals))) with
    | ok sealed =>
        simp [pages, Bind.bind, Except.bind, Pure.pure, Except.pure] at failed
    | error refused =>
        simp only [pages, Bind.bind, Except.bind, Except.error.injEq] at failed
        obtain rfl := failed
        obtain ⟨front, parted, index⟩ := sealPages_eq_error each pages
        rw [rows] at parted
        have place : error = ⟨front.length, error.source⟩ := by
          rw [← zero_add front.length, ← index]
        rw [place]
        exact parted.namesFirst

theorem SealsAgree.sorted {dense : List BigDecimal}
    (agree : SealsAgree schema timestamps (dense.map some)
      (sealDeclared schema timestamps dense : Except SealError (Segment decimals))
      (schema.sealPaged timestamps dense height)) :
    SealsAgree schema timestamps (dense.map some)
      (schema.sealSorted timestamps dense : Except SealError (Segment decimals))
      (schema.sealPagedSorted timestamps dense height) := by
  by_cases heights : timestamps.length = dense.length
  · cases violation : firstOrderViolation timestamps with
    | none =>
        rw [AspectSchema.sealSorted, AspectSchema.sealPagedSorted, if_neg (not_not.mpr heights),
          if_neg (not_not.mpr heights), if_neg tall.ne', violation]
        exact agree
    | some step =>
        have whole : (schema.sealSorted timestamps dense : Except SealError (Segment decimals)) =
            .error (.outOfOrder step.1 step.2.1 step.2.2) := by
          rw [AspectSchema.sealSorted, if_neg (not_not.mpr heights), violation]
        have paged : (schema.sealPagedSorted timestamps dense height :
            Except SealError (PagedSegment decimals)) =
              .error (.outOfOrder step.1 step.2.1 step.2.2) := by
          rw [AspectSchema.sealPagedSorted, if_neg (not_not.mpr heights), if_neg tall.ne',
            violation]
        have some_row : timestamps ≠ [] := by
          rintro rfl
          cases violation
        rw [whole, paged]
        constructor <;> simp [some_row]
  · have whole : (schema.sealSorted timestamps dense : Except SealError (Segment decimals)) =
        sealDeclared schema timestamps dense := by
      rw [AspectSchema.sealSorted, sealDeclared, if_pos heights, if_pos heights]
    have paged : (schema.sealPagedSorted timestamps dense height :
        Except SealError (PagedSegment decimals)) = schema.sealPaged timestamps dense height := by
      rw [AspectSchema.sealPagedSorted, AspectSchema.sealPaged, if_pos heights, if_pos heights]
    rw [whole, paged]
    exact agree

end Agreement

/-- The seals of a schema agree: those of nullable batches, those without nulls, and those which
check the order. -/
theorem seals_agree (decimals : Decimals) (schema : AspectSchema) (timestamps : List Int)
    (values : List (Option BigDecimal)) (dense : List BigDecimal) (rowsPerPage : Nat)
    (tall : 0 < rowsPerPage) (fits : ∀ timestamp ∈ timestamps, Word64.Fits timestamp)
    (reads : Reads decimals (presentValues values)) (dense_reads : Reads decimals dense) :
    SealsAgree schema timestamps values
        (schema.sealNullable timestamps values : Except SealError (Segment decimals))
        (schema.sealPagedNullable timestamps values rowsPerPage) ∧
      SealsAgree schema timestamps (dense.map some)
        (sealDeclared schema timestamps dense : Except SealError (Segment decimals))
        (schema.sealPaged timestamps dense rowsPerPage) ∧
      SealsAgree schema timestamps (dense.map some)
        (schema.sealSorted timestamps dense : Except SealError (Segment decimals))
        (schema.sealPagedSorted timestamps dense rowsPerPage) := by
  have without_nulls : SealsAgree schema timestamps (dense.map some)
      (sealDeclared schema timestamps dense : Except SealError (Segment decimals))
      (schema.sealPaged timestamps dense rowsPerPage) := by
    rw [sealDeclared_eq, sealPaged_eq]
    exact sealNullable_agrees tall fits (by rwa [presentValues_map_some])
  exact ⟨sealNullable_agrees tall fits reads, without_nulls, without_nulls.sorted tall⟩

/-- Rows of which the fourth, on the second page, is the first that cannot be encoded. -/
def overflowing : List (Option BigDecimal) :=
  [some ⟨1, 0⟩, none, none, some ⟨10 ^ 30, 0⟩, some ⟨10 ^ 31, 0⟩]

theorem reads_overflowing : Reads wholeNumbers (presentValues overflowing) := by
  intro value member _
  simp only [overflowing, presentValues, List.filterMap_cons, List.filterMap_nil, id,
    List.mem_cons, List.not_mem_nil, or_false] at member
  rcases member with rfl | rfl | rfl
  · rw [show wholeNumbers.parse (BigDecimal.toPlainString ⟨1, 0⟩) = some ⟨1, 0⟩ by decide +kernel,
      Option.map_some]
  · rw [show wholeNumbers.parse (BigDecimal.toPlainString ⟨10 ^ 30, 0⟩) = some ⟨10 ^ 30, 0⟩ by
      decide +kernel, Option.map_some]
  · rw [show wholeNumbers.parse (BigDecimal.toPlainString ⟨10 ^ 31, 0⟩) = some ⟨10 ^ 31, 0⟩ by
      decide +kernel, Option.map_some]

theorem seals_agree_overflowing :
    (⟨.scaledI64 0, ⟨0, 0⟩⟩ : AspectSchema).NamesFirst wholeNumbers overflowing
      ⟨3, .overflow⟩ := by
  have reads : Reads wholeNumbers (presentValues overflowing) := reads_overflowing
  exact (seals_agree wholeNumbers ⟨.scaledI64 0, ⟨0, 0⟩⟩ [0, 1, 2, 3, 4] overflowing [] 2
    (by decide) (by decide) reads (fun _ none => absurd none List.not_mem_nil)).1.paged_names
      ⟨3, .overflow⟩ (by with_unfolding_all rfl)

/-- Without rows nothing is held against a tolerance below zero when the batch is paged. -/
theorem empty_batch_is_paged :
    (∃ paged : PagedSegment wholeNumbers,
        (⟨.scaledI64 0, ⟨-1, 0⟩⟩ : AspectSchema).sealPagedNullable [] [] 1 = .ok paged) ∧
      ¬∃ segment : Segment wholeNumbers,
        (⟨.scaledI64 0, ⟨-1, 0⟩⟩ : AspectSchema).sealNullable [] [] = .ok segment := by
  refine ⟨⟨_, rfl⟩, fun sealed => ?_⟩
  have nonneg := (exists_sealNullable.mp sealed).2.1
  norm_num [BigDecimal.toRat] at nonneg

end WeftDb.Physical
