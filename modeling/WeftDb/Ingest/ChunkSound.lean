import WeftDb.Ingest.Chunks
import WeftDb.Physical.Declared
import WeftDb.Physical.Paged

/-!
# Reading a batch which was cut

The segments of a batch are committed under ids which follow each other.  Inside a segment the first
present row of an instant is read, and of several segments the newest.
-/

namespace WeftDb.Physical

variable {decimals : Decimals}

/-- A segment with its row of the index. -/
structure Committed (decimals : Decimals) where
  id : Nat
  segment : Segment decimals

/-- The segments which may hold a present value of a range, in the order of their ids. -/
def prunePresent (held : List (Committed decimals)) (start stop : Int) :
    List (Committed decimals) :=
  (held.filter fun row =>
    row.segment.overlapsTime start stop &&
      row.segment.stats.nullCount < row.segment.stats.rowCount).mergeSort fun left right =>
    left.id ≤ right.id

/-- The present value of an instant, that of the newest segment which has one. -/
def readPoint (held : List (Committed decimals)) (instant : Int) : Option BigDecimal :=
  (prunePresent held instant instant).foldl
    (fun found row =>
      match row.segment.valueAt instant with
      | some value => some value
      | none => found)
    none

/-- Commit segments under the ids from `first` on. -/
def commit (first : Nat) : List (Segment decimals) → List (Committed decimals)
  | [] => []
  | segment :: segments => ⟨first, segment⟩ :: commit (first + 1) segments

/-- Seal each chunk of a batch. -/
def AspectSchema.sealChunks (schema : AspectSchema) (chunks : List (List Row)) :
    Except SealError (List (Segment decimals)) :=
  chunks.mapM fun chunk => schema.sealNullable (chunk.map Prod.fst) (chunk.map Prod.snd)

/-- The last value which is present. -/
def newest (found : Option BigDecimal) (values : List (Option BigDecimal)) : Option BigDecimal :=
  values.foldl (fun found value => value.or found) found

theorem newest_eq_or (found : Option BigDecimal) (values : List (Option BigDecimal)) :
    newest found values = (newest none values).or found := by
  induction values generalizing found with
  | nil => rfl
  | cons value values ih =>
      change newest (value.or found) values = (newest (value.or none) values).or found
      rw [ih, ih (value.or none), Option.or_none, Option.or_assoc]

theorem newest_append (before after : List (Option BigDecimal)) :
    newest none (before ++ after) = (newest none after).or (newest none before) := by
  rw [newest, List.foldl_append]
  exact newest_eq_or _ _

theorem newest_cons (value : Option BigDecimal) (values : List (Option BigDecimal)) :
    newest none (value :: values) = (newest none values).or value := by
  rw [newest, List.foldl_cons, Option.or_none]
  exact newest_eq_or _ _

variable {values : List (Option BigDecimal)} {held : List (Committed decimals)}
  {timestamps : List Int} {instant : Int} {segments : List (Segment decimals)}
  {chunks front behind : List (List Row)} {stored : BigDecimal → BigDecimal} {chunk rows : List Row}

theorem newest_eq_none : newest none values = none ↔ ∀ value ∈ values, value = none := by
  induction values with
  | nil => simp [newest]
  | cons value values ih => rw [newest_cons, Option.or_eq_none_iff, ih, List.forall_mem_cons, and_comm]

theorem mergeSort_eq_self (sorted : held.Pairwise fun left right => left.id < right.id) :
    (held.mergeSort fun left right => left.id ≤ right.id) = held :=
  List.mergeSort_of_pairwise (sorted.imp fun below => decide_eq_true below.le)

theorem nullCount_fromPresence (present : List Bool) :
    (NullMask.fromPresence present).nullCount = present.count false := by
  rw [NullMask.fromPresence]
  split
  · rename_i full
    rw [full]
    rfl
  · rfl

theorem firstPresentAt_eq_none_of_nulls (nulls : ∀ value ∈ values, value = none) :
    firstPresentAt instant (timestamps.zip values) = none := by
  refine List.findSome?_eq_none_iff.mpr fun row member => ?_
  rw [nulls row.2 (List.of_mem_zip member).2, ite_self]

theorem valueAt_eq_none_of_pruned {schema : AspectSchema} {segment : Segment decimals}
    (sealed : schema.sealNullable timestamps values = .ok segment)
    (fits : ∀ timestamp ∈ timestamps, Word64.Fits timestamp)
    (pruned : (segment.overlapsTime instant instant &&
      segment.stats.nullCount < segment.stats.rowCount) = false) :
    segment.valueAt instant = none := by
  rcases Bool.and_eq_false_iff.mp pruned with apart | empty
  · rw [Segment.valueAt, Segment.containsTimestamp, apart]
    rfl
  · rw [valueAt_sealNullable sealed fits, Option.map_eq_none_iff]
    obtain ⟨heights, column, -, -, rfl⟩ := sealNullable_eq_ok.mp sealed
    have full : timestamps.length ≤
        (NullMask.fromPresence (values.map Option.isSome)).nullCount :=
      Nat.le_of_not_lt (of_decide_eq_false empty)
    rw [nullCount_fromPresence, heights, ← List.length_map (f := Option.isSome)] at full
    have absent := List.count_eq_length.mp (List.count_le_length.antisymm full)
    refine firstPresentAt_eq_none_of_nulls fun value member => ?_
    have flag : value.isSome = false := (absent _ (List.mem_map_of_mem member)).symm
    exact Option.isNone_iff_eq_none.mp (Option.isSome_eq_false_iff.mp flag)

theorem le_id_of_mem_commit {first : Nat} {row : Committed decimals}
    (member : row ∈ commit first segments) : first ≤ row.id := by
  induction segments generalizing first with
  | nil => cases member
  | cons segment segments ih =>
      rcases List.mem_cons.mp member with rfl | later
      · exact le_rfl
      · exact Nat.le_of_succ_le (ih later)

theorem pairwise_commit (first : Nat) (segments : List (Segment decimals)) :
    (commit first segments).Pairwise fun left right => left.id < right.id := by
  induction segments generalizing first with
  | nil => exact .nil
  | cons segment segments ih => exact .cons (fun row later => le_id_of_mem_commit later) (ih _)

theorem readPoint_commit {first : Nat} (sorted : held.Pairwise fun left right => left.id < right.id)
    (below : ∀ row ∈ held, row.id < first)
    (pruned : ∀ segment ∈ segments,
      (segment.overlapsTime instant instant &&
        segment.stats.nullCount < segment.stats.rowCount) = false →
        segment.valueAt instant = none) :
    readPoint (held ++ commit first segments) instant =
      (newest none (segments.map (·.valueAt instant))).or (readPoint held instant) := by
  have whole : (held ++ commit first segments).Pairwise fun left right => left.id < right.id :=
    List.pairwise_append.mpr ⟨sorted, pairwise_commit first segments, fun older before row after =>
      (below older before).trans_le (le_id_of_mem_commit after)⟩
  rw [readPoint, readPoint, prunePresent, prunePresent, mergeSort_eq_self (whole.filter _),
    mergeSort_eq_self (sorted.filter _), List.filter_append, List.foldl_append]
  generalize List.foldl _ none _ = found
  clear sorted below whole
  induction segments generalizing found first with
  | nil => rfl
  | cons segment segments ih =>
      obtain ⟨own, others⟩ := List.forall_mem_cons.mp pruned
      rw [commit, List.map_cons, newest_cons, List.filter_cons]
      split
      · rw [List.foldl_cons, ih others, Option.or_assoc]
        cases segment.valueAt instant <;> rfl
      · rename_i out
        rw [ih others, own (eq_false_of_ne_true out), Option.or_none]

/-!
## When a cut is seen

A reader of the chunks finds the last chunk which has a present row of an instant, and in it the
first such row.  The whole batch as one segment gives the first of all of them.
-/

/-- At every instant the row which the whole batch is read from, and the first present one from the
last opening on which a present row follows, are stored alike. -/
def ReadsAlike (stored : BigDecimal → BigDecimal) (target : Nat) (rows : List Row) : Prop :=
  ∀ instant before row later, rows = before ++ row :: later → Opens target before row →
    (firstPresentAt instant (row :: later)).isSome = true →
    (∀ inner next rest, later = inner ++ next :: rest → Opens target (before ++ row :: inner) next →
      firstPresentAt instant (next :: rest) = none) →
    (firstPresentAt instant (row :: later)).map stored = (firstPresentAt instant rows).map stored

section Rows

variable {instant : Int}

theorem firstPresentAt_append (before after : List Row) :
    firstPresentAt instant (before ++ after) =
      (firstPresentAt instant before).or (firstPresentAt instant after) :=
  List.findSome?_append

theorem firstPresentAt_flatten_eq_none
    (absent : ∀ chunk ∈ chunks, firstPresentAt instant chunk = none) :
    firstPresentAt instant chunks.flatten = none := by
  induction chunks with
  | nil => rfl
  | cons chunk chunks ih =>
      obtain ⟨own, others⟩ := List.forall_mem_cons.mp absent
      rw [List.flatten_cons, firstPresentAt_append, own, ih others]
      rfl

theorem firstPresentAt_of_mem_flatten (member : chunk ∈ chunks)
    (absent : firstPresentAt instant chunks.flatten = none) :
    firstPresentAt instant chunk = none := by
  refine List.findSome?_eq_none_iff.mpr fun row inside => ?_
  exact List.findSome?_eq_none_iff.mp absent row (List.mem_flatten_of_mem member inside)

theorem newest_eq_of_last (present : (firstPresentAt instant chunk).isSome = true)
    (absent : ∀ later ∈ behind, firstPresentAt instant later = none) :
    newest none ((front ++ chunk :: behind).map fun chunk =>
        (firstPresentAt instant chunk).map stored) =
      (firstPresentAt instant chunk).map stored := by
  obtain ⟨value, found⟩ := Option.isSome_iff_exists.mp present
  have nothing : newest none (behind.map fun chunk =>
      (firstPresentAt instant chunk).map stored) = none := by
    rw [newest_eq_none, List.forall_mem_map]
    intro later member
    rw [absent later member]
    rfl
  rw [List.map_append, List.map_cons, newest_append, newest_cons, nothing, found]
  rfl

theorem exists_last_present (present : (firstPresentAt instant chunks.flatten).isSome = true) :
    ∃ front chunk behind, chunks = front ++ chunk :: behind ∧
      (firstPresentAt instant chunk).isSome = true ∧
      ∀ later ∈ behind, firstPresentAt instant later = none := by
  induction chunks with
  | nil => cases present
  | cons chunk chunks ih =>
      cases rest : firstPresentAt instant chunks.flatten with
      | some value =>
          obtain ⟨front, last, behind, rfl, found, absent⟩ := ih (by rw [rest]; rfl)
          exact ⟨chunk :: front, last, behind, rfl, found, absent⟩
      | none =>
          rw [List.flatten_cons, firstPresentAt_append, rest, Option.or_none] at present
          exact ⟨[], chunk, chunks, rfl, present,
            fun later member => firstPresentAt_of_mem_flatten member rest⟩

end Rows

theorem opens_of_cut {target : Nat} {before inner : List Row} {row : Row}
    (cut : Cut target before (front ++ (row :: inner) :: behind)) :
    Opens target (before ++ front.flatten) row := by
  induction front generalizing before with
  | nil =>
      cases cut with
      | cons opens => rwa [List.flatten_nil, List.append_nil]
  | cons chunk front ih =>
      cases cut with
      | cons _ _ later =>
          have opens := ih later
          rwa [List.append_assoc] at opens

theorem mem_behind_of_flatten_lt {others rest : List (List Row)} {next : List Row}
    (same : front ++ chunk :: behind = others ++ next :: rest)
    (longer : front.flatten.length < others.flatten.length) :
    ∃ between, behind = between ++ next :: rest := by
  rcases List.append_eq_append_iff.mp same with ⟨middle, rfl, tail⟩ | ⟨middle, rfl, -⟩
  · cases middle with
    | nil =>
        rw [List.append_nil] at longer
        exact absurd longer (lt_irrefl _)
    | cons first middle => exact ⟨middle, (List.cons.inj tail).2⟩
  · rw [List.flatten_append, List.length_append] at longer
    omega

/-- The chunks are read as the batch exactly when the rows read at each instant are alike. -/
theorem newest_chunks_iff (stored : BigDecimal → BigDecimal) (target : Nat) (rows : List Row) :
    (∀ instant, newest none ((chunkIngestRows rows target).map fun chunk =>
        (firstPresentAt instant chunk).map stored) =
      (firstPresentAt instant rows).map stored) ↔ ReadsAlike stored target rows := by
  have cut := cut_chunkIngestRows rows target
  have flatten := flatten_chunkIngestRows rows target
  generalize chunkIngestRows rows target = chunks at cut flatten
  subst flatten
  constructor
  · rintro alike instant before row later split opens present last
    obtain ⟨front, inner, behind, rfl, rfl, rfl⟩ := cut.exists_of_opens split opens
    have absent : firstPresentAt instant behind.flatten = none := by
      cases behind with
      | nil => rfl
      | cons chunk behind =>
          obtain ⟨next, tail, rfl⟩ := List.exists_cons_of_ne_nil
            (cut.ne_nil chunk (by simp))
          refine last inner next (tail ++ behind.flatten) rfl ?_
          have opens_next : Opens target ([] ++ (front ++ [row :: inner]).flatten) next :=
            opens_of_cut (by rwa [List.append_assoc])
          simpa using opens_next
    have whole : firstPresentAt instant (row :: (inner ++ behind.flatten)) =
        firstPresentAt instant (row :: inner) := by
      rw [← List.cons_append, firstPresentAt_append, absent, Option.or_none]
    rw [whole] at present
    rw [whole, ← alike instant, newest_eq_of_last present fun chunk member =>
      firstPresentAt_of_mem_flatten member absent]
  · intro alike instant
    cases found : firstPresentAt instant chunks.flatten with
    | none =>
        rw [Option.map_none, newest_eq_none, List.forall_mem_map]
        intro chunk member
        rw [firstPresentAt_of_mem_flatten member found]
        rfl
    | some value =>
        obtain ⟨front, chunk, behind, rfl, present, absent⟩ :=
          exists_last_present (by rw [found]; rfl)
        obtain ⟨row, inner, rfl⟩ := List.exists_cons_of_ne_nil (cut.ne_nil chunk (by simp))
        have nothing := firstPresentAt_flatten_eq_none absent
        have whole : firstPresentAt instant (row :: (inner ++ behind.flatten)) =
            firstPresentAt instant (row :: inner) := by
          rw [← List.cons_append, firstPresentAt_append, nothing, Option.or_none]
        have opens : Opens target front.flatten row := by simpa using opens_of_cut cut
        rw [newest_eq_of_last present absent, ← found, ← whole]
        refine alike instant front.flatten row (inner ++ behind.flatten) (by simp) opens
          (by rwa [whole]) ?_
        intro inner' next rest later opens_next
        obtain ⟨others, tail, after, same, before, rfl⟩ :=
          @Cut.exists_of_opens next _ _ _ cut (front.flatten ++ row :: inner') rest
            (by simp [later]) (by simpa using opens_next)
        obtain ⟨between, rfl⟩ := mem_behind_of_flatten_lt same (by
          rw [← before, List.length_append, List.length_cons]
          omega)
        rw [List.flatten_append, firstPresentAt_append, Option.or_eq_none_iff] at nothing
        simpa using nothing.2

theorem readsAlike_of_sorted {target : Nat}
    (sorted : rows.Pairwise fun before after => before.1 ≤ after.1) :
    ReadsAlike stored target rows := by
  rintro instant before row later rfl opens present -
  obtain ⟨value, found⟩ := Option.isSome_iff_exists.mp present
  obtain ⟨at_instant, member, here⟩ := List.exists_of_findSome?_eq_some found
  have apart : firstPresentAt instant before = none := by
    refine firstPresentAt_eq_none fun earlier inside same => ?_
    obtain ⟨front, last, rfl⟩ :=
      (List.eq_nil_or_concat' before).resolve_left (List.ne_nil_of_mem inside)
    obtain ⟨below, -, across⟩ := List.pairwise_append.mp sorted
    have before_last : earlier.1 ≤ last.1 := by
      rcases List.mem_append.mp inside with first | rfl_last
      · exact (List.pairwise_append.mp below).2.2 earlier first last List.mem_cons_self
      · exact (congrArg Prod.fst (List.mem_singleton.mp rfl_last)).le
    have last_row : last.1 ≤ row.1 := across last (by simp) row List.mem_cons_self
    have row_instant : row.1 ≤ at_instant.1 := by
      rcases List.mem_cons.mp member with rfl | behind
      · exact le_rfl
      · exact (List.pairwise_cons.mp (List.pairwise_append.mp sorted).2.1).1 at_instant behind
    have at_eq : at_instant.1 = instant := by
      by_contra other
      rw [if_neg other] at here
      cases here
    exact opens.ne_last (le_antisymm (by omega) last_row)
  rw [firstPresentAt_append, apart, Option.none_or]

variable {schema : AspectSchema}

theorem exists_sealChunks {whole : Segment decimals}
    (sealed : schema.sealNullable (rows.map Prod.fst) (rows.map Prod.snd) = .ok whole)
    (inside : ∀ chunk ∈ chunks, ∀ row ∈ chunk, row ∈ rows) :
    ∃ segments : List (Segment decimals), schema.sealChunks chunks = .ok segments := by
  obtain ⟨-, nonneg, admitted⟩ := exists_sealNullable.mp ⟨whole, sealed⟩
  induction chunks with
  | nil => exact ⟨[], rfl⟩
  | cons chunk chunks ih =>
      obtain ⟨own, others⟩ := List.forall_mem_cons.mp inside
      obtain ⟨segments, later⟩ := ih others
      obtain ⟨segment, first⟩ : ∃ segment : Segment decimals,
          schema.sealNullable (chunk.map Prod.fst) (chunk.map Prod.snd) = .ok segment := by
        refine exists_sealNullable.mpr ⟨by simp, nonneg, fun value member => admitted value ?_⟩
        obtain ⟨row, held, found⟩ := List.mem_map.mp (mem_presentValues.mp member)
        exact mem_presentValues.mpr (List.mem_map.mpr ⟨row, own row held, found⟩)
      refine ⟨segment :: segments, mapM_eq_ok.mpr (.cons first (mapM_eq_ok.mp later))⟩

theorem readPoint_sealChunks {chunks : List (List Row)} {segments : List (Segment decimals)}
    (sealed : schema.sealChunks chunks = .ok segments)
    (fits : ∀ chunk ∈ chunks, ∀ row ∈ chunk, Word64.Fits row.1)
    {held : List (Committed decimals)} {first : Nat}
    (sorted : held.Pairwise fun left right => left.id < right.id)
    (below : ∀ row ∈ held, row.id < first) (instant : Int) :
    readPoint (held ++ commit first segments) instant =
      (newest none (chunks.map fun chunk =>
        (firstPresentAt instant chunk).map (schema.value.stored decimals))).or
          (readPoint held instant) := by
  have each := mapM_eq_ok.mp sealed
  have stamps : ∀ chunk ∈ chunks, ∀ timestamp ∈ chunk.map Prod.fst, Word64.Fits timestamp := by
    intro chunk member timestamp inside
    obtain ⟨row, held, rfl⟩ := List.mem_map.mp inside
    exact fits chunk member row held
  have values : segments.map (·.valueAt instant) = chunks.map fun chunk =>
      (firstPresentAt instant chunk).map (schema.value.stored decimals) := by
    clear sealed fits
    induction each with
    | nil => rfl
    | cons done later ih =>
        rename_i chunk segment chunks segments
        obtain ⟨own, others⟩ := List.forall_mem_cons.mp stamps
        have zipped : (chunk.map Prod.fst).zip (chunk.map Prod.snd) = chunk :=
          (List.zip_of_prod rfl rfl).symm
        rw [List.map_cons, List.map_cons, ih others, valueAt_sealNullable done own, zipped]
  rw [readPoint_commit sorted below, values]
  clear sealed fits values
  intro segment member pruned
  induction each with
  | nil => cases member
  | cons done later ih =>
      obtain ⟨own, others⟩ := List.forall_mem_cons.mp stamps
      rcases List.mem_cons.mp member with rfl | behind
      · exact valueAt_eq_none_of_pruned done own pruned
      · exact ih others behind

/-- Text values of whole numbers, kept as they are. -/
def wholeText : AspectSchema where
  value := .bigDecimalText
  valueTolerance := BigDecimal.zero

theorem exists_sealed_wholeText
    (domain : ∀ value ∈ presentValues (rows.map Prod.snd),
      value.plainDigitCount ≤ maxPlainDigits) :
    ∃ whole : Segment wholeNumbers,
      wholeText.sealNullable (rows.map Prod.fst) (rows.map Prod.snd) = .ok whole := by
  refine exists_sealNullable.mpr ⟨by simp, by simp [wholeText, BigDecimal.zero, BigDecimal.toRat],
    fun value member => ⟨_, encode_text (domain value member), fun _ lossy => ?_⟩⟩
  cases lossy

end WeftDb.Physical
