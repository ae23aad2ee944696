import WeftDb.Physical.Lookup
import WeftDb.Segment.Limits

/-!
# Paged segments

The rows of a paged segment are split into pages, each encoded by itself.  A read leaves out the
pages whose span does not meet its range, and gives what a read of all rows gives.  A single block
holds the same rows, but the encoding which a page alone is given may be narrower than that of the
whole column, so that the values of the two are only as close as the tolerance makes them.
-/

namespace WeftDb.Physical

/-- Rows in pages of one height. -/
structure PagedSegment (decimals : Decimals) where
  version : Nat
  rowsPerPage : Nat
  pages : List (Page decimals)
  stats : SegmentStats

def pagedSegmentFormatVersion : Nat := 6

namespace PagedSegment

variable {decimals : Decimals}

/-- The pages of two columns. -/
def buildPages (timestamps : List Int) (values : List (Option BigDecimal))
    (valueTolerance : BigDecimal) (rowsPerPage : Nat) : List (Page decimals) :=
  ((chunks rowsPerPage timestamps).zip (chunks rowsPerPage values)).map fun columns =>
    Page.buildNullable columns.1 columns.2 valueTolerance

def buildNullable (timestamps : List Int) (values : List (Option BigDecimal))
    (valueTolerance : BigDecimal) (rowsPerPage : Nat) :
    Except SegmentError (PagedSegment decimals) :=
  if timestamps.length ≠ values.length then
    .error (.lengthMismatch timestamps.length values.length)
  else if rowsPerPage = 0 then .error .emptyPageSize
  else
    .ok
      { version := pagedSegmentFormatVersion
        rowsPerPage := rowsPerPage
        pages := buildPages timestamps values valueTolerance rowsPerPage
        stats := .fromColumnsNullable timestamps (presentValues values)
          (values.filter Option.isNone).length }

variable (segment : PagedSegment decimals)

/-- The places of the pages whose span meets a range. -/
def prunePagesByTime (start stop : Int) : List Nat :=
  (segment.pages.zipIdx.filter fun page => page.1.overlapsTime start stop).map Prod.snd

/-- The pages at some places. -/
def pagesAt (places : List Nat) : List (Page decimals) :=
  places.filterMap (segment.pages[·]?)

/-- All rows, one page after the other. -/
def decodeNullable : List Int × List (Option BigDecimal) :=
  segment.pages.foldl
    (fun rows page =>
      (rows.1 ++ page.decodeNullable.1, rows.2 ++ page.decodeNullable.2))
    ([], [])

/-- The rows of a range, from the pages which it meets. -/
def readTimeRange (start stop : Int) : List Int × List (Option BigDecimal) :=
  ((segment.pagesAt (segment.prunePagesByTime start stop)).flatMap fun page =>
    (page.decodeNullable.1.zip page.decodeNullable.2).filter fun row =>
      start ≤ row.1 && row.1 ≤ stop).unzip

/-- The first present value of an instant which a page has. -/
def valueAt (instant : Int) : Option BigDecimal :=
  (segment.pagesAt (segment.prunePagesByTime instant instant)).findSome? (·.valueAt instant)

end PagedSegment

variable {decimals : Decimals} {timestamps : List Int} {values : List (Option BigDecimal)}
  {tolerance : BigDecimal} {height : Nat}
variable {columns : List (List Int × List (Option BigDecimal))}

theorem PagedSegment.pagesAt_prune (segment : PagedSegment decimals) (start stop : Int) :
    segment.pagesAt (segment.prunePagesByTime start stop) =
      segment.pages.filter (·.overlapsTime start stop) := by
  have found : (segment.pages.zipIdx.filter fun page => page.1.overlapsTime start stop).filterMap
        ((segment.pages[·]?) ∘ Prod.snd) =
      (segment.pages.zipIdx.filter fun page => page.1.overlapsTime start stop).filterMap
        (some ∘ Prod.fst) :=
    List.filterMap_congr fun page member =>
      List.mk_mem_zipIdx_iff_getElem?.mp (List.mem_filter.mp member).1
  rw [pagesAt, prunePagesByTime, List.filterMap_map, found, List.filterMap_eq_map]
  have order := List.filter_map (f := Prod.fst)
    (p := fun page : Page decimals => page.overlapsTime start stop) (l := segment.pages.zipIdx)
  rw [List.zipIdx_map_fst] at order
  exact order.symm

theorem PagedSegment.decodeNullable_eq (segment : PagedSegment decimals) :
    segment.decodeNullable =
      ((segment.pages.map fun page => page.decodeNullable.1).flatten,
        (segment.pages.map fun page => page.decodeNullable.2).flatten) := by
  have general (pages : List (Page decimals)) (rows : List Int × List (Option BigDecimal)) :
      pages.foldl (fun rows page =>
          (rows.1 ++ page.decodeNullable.1, rows.2 ++ page.decodeNullable.2)) rows =
        (rows.1 ++ (pages.map fun page => page.decodeNullable.1).flatten,
          rows.2 ++ (pages.map fun page => page.decodeNullable.2).flatten) := by
    induction pages generalizing rows with
    | nil => simp
    | cons page pages ih =>
        simp only [List.foldl_cons, ih, List.map_cons, List.flatten_cons, List.append_assoc]
  exact general segment.pages ([], [])

theorem columns_chunks (tall : 0 < height) (heights : timestamps.length = values.length) :
    (∀ columns ∈ (chunks height timestamps).zip (chunks height values),
        columns.1.length = columns.2.length) ∧
      (((chunks height timestamps).zip (chunks height values)).map Prod.fst).flatten =
        timestamps ∧
      (((chunks height timestamps).zip (chunks height values)).map Prod.snd).flatten =
        values := by
  have count : (chunks height timestamps).length = (chunks height values).length := by
    rw [chunks, chunks, length_chunksFrom tall _ _ le_rfl, length_chunksFrom tall _ _ le_rfl,
      heights]
  obtain ⟨each, -⟩ := chunksFrom_zip tall timestamps.length timestamps values heights le_rfl
  refine ⟨fun columns member => (each columns ?_).1, ?_, ?_⟩
  · rwa [chunks, chunks, ← heights] at member
  · rw [List.map_fst_zip count.le, flatten_chunks tall]
  · rw [List.map_snd_zip count.ge, flatten_chunks tall]

theorem zip_flatten {pages : List (Page decimals)}
    (heights : ∀ page ∈ pages, page.decodeNullable.1.length = page.decodeNullable.2.length) :
    (pages.map fun page => page.decodeNullable.1).flatten.zip
        (pages.map fun page => page.decodeNullable.2).flatten =
      pages.flatMap Page.rows := by
  induction pages with
  | nil => rfl
  | cons page pages ih =>
      obtain ⟨own, others⟩ := List.forall_mem_cons.mp heights
      rw [List.map_cons, List.map_cons, List.flatten_cons, List.flatten_cons,
        List.zip_append own, ih others, List.flatMap_cons, Page.rows]

theorem length_decodeNullable (fits : ∀ timestamp ∈ timestamps, Word64.Fits timestamp) :
    (Page.buildNullable timestamps values tolerance :
        Page decimals).decodeNullable.1.length =
      (Page.buildNullable timestamps values tolerance :
        Page decimals).decodeNullable.2.length := by
  rw [Page.decodeNullable, decodeTimestamps_buildNullable fits, length_interleave]
  rfl

theorem filter_overlapping (fits : ∀ page ∈ columns, ∀ timestamp ∈ page.1, Word64.Fits timestamp)
    (start stop : Int) :
    ((columns.map fun page =>
        (Page.buildNullable page.1 page.2 tolerance : Page decimals)).filter
          (·.overlapsTime start stop)).flatMap
        (fun page => page.rows.filter fun row => start ≤ row.1 && row.1 ≤ stop) =
      ((columns.map fun page =>
        (Page.buildNullable page.1 page.2 tolerance : Page decimals)).flatMap Page.rows).filter
          fun row => start ≤ row.1 && row.1 ≤ stop := by
  induction columns with
  | nil => rfl
  | cons page columns ih =>
      obtain ⟨own, others⟩ := List.forall_mem_cons.mp fits
      rw [List.map_cons, List.filter_cons, List.flatMap_cons, List.filter_append, ← ih others]
      split
      · rw [List.flatMap_cons]
      · rename_i apart
        have nothing : (Page.buildNullable page.1 page.2 tolerance :
            Page decimals).rows.filter (fun row => start ≤ row.1 && row.1 ≤ stop) = [] := by
          refine List.filter_eq_nil_iff.mpr fun row member inside => ?_
          have time := (List.of_mem_zip member).1
          rw [Page.decodeNullable, decodeTimestamps_buildNullable own] at time
          simp only [Bool.and_eq_true, decide_eq_true_eq] at inside
          exact Page.outside_of_overlapsTime (eq_false_of_ne_true apart) time inside
        rw [nothing, List.nil_append]

theorem findSome?_overlapping (fits : ∀ page ∈ columns, ∀ timestamp ∈ page.1, Word64.Fits timestamp)
    (instant : Int) :
    ((columns.map fun page =>
        (Page.buildNullable page.1 page.2 tolerance : Page decimals)).filter
          (·.overlapsTime instant instant)).findSome? (·.valueAt instant) =
      firstPresentAt instant ((columns.map fun page =>
        (Page.buildNullable page.1 page.2 tolerance : Page decimals)).flatMap Page.rows) := by
  induction columns with
  | nil => rfl
  | cons page columns ih =>
      obtain ⟨own, others⟩ := List.forall_mem_cons.mp fits
      rw [firstPresentAt, List.map_cons, List.flatMap_cons, List.findSome?_append,
        ← firstPresentAt, ← firstPresentAt, ← ih others, ← Page.valueAt_buildNullable own,
        List.filter_cons]
      split
      · rw [List.findSome?_cons]
        cases (Page.buildNullable page.1 page.2 tolerance : Page decimals).valueAt instant <;> rfl
      · rename_i apart
        rw [Page.valueAt, if_neg apart, Option.none_or]

/-- The rows of a segment. -/
def PagedSegment.rows (segment : PagedSegment decimals) : List (Int × Option BigDecimal) :=
  segment.decodeNullable.1.zip segment.decodeNullable.2

/-- Whether two decimals are one number. -/
def SameNumber (left right : BigDecimal) : Prop :=
  left.toRat = right.toRat

theorem firstPresentAt_rel {near : BigDecimal → BigDecimal → Prop}
    {decoded : List (Option BigDecimal)} (timestamps : List Int) (instant : Int)
    (rows : List.Forall₂ (Option.Rel near) values decoded) :
    Option.Rel near (firstPresentAt instant (timestamps.zip values))
      (firstPresentAt instant (timestamps.zip decoded)) := by
  induction rows generalizing timestamps with
  | nil =>
      rw [List.zip_nil_right]
      exact .none
  | cons related rows ih =>
      cases timestamps with
      | nil => exact .none
      | cons timestamp timestamps =>
          rw [List.zip_cons_cons, List.zip_cons_cons, firstPresentAt, firstPresentAt,
            List.findSome?_cons, List.findSome?_cons]
          split_ifs
          · cases related with
            | some within => exact .some within
            | none => exact ih timestamps
          · exact ih timestamps

theorem Holds.firstPresentAt {error : Rat} {decoded : List Int × List (Option BigDecimal)}
    (holds : Holds timestamps values error decoded) (instant : Int) :
    Option.Rel (Within error) (firstPresentAt instant (timestamps.zip values))
      (firstPresentAt instant (decoded.1.zip decoded.2)) := by
  rw [holds.timestamps]
  exact firstPresentAt_rel timestamps instant holds.values

theorem sameNumber_of_lossless {left right : List (Option BigDecimal)}
    (first : List.Forall₂ (Option.Rel (Within 0)) values left)
    (second : List.Forall₂ (Option.Rel (Within 0)) values right) :
    List.Forall₂ (Option.Rel SameNumber) left right := by
  induction first generalizing right with
  | nil =>
      cases second
      exact .nil
  | cons related first ih =>
      obtain ⟨other, rest, related', later, rfl⟩ := List.forall₂_cons_left_iff.mp second
      refine .cons ?_ (ih later)
      cases related with
      | none =>
          cases related'
          exact .none
      | some left =>
          cases related' with
          | some right =>
              have left := abs_nonpos_iff.mp left
              have right := abs_nonpos_iff.mp right
              exact .some ((sub_eq_zero.mp left).symm.trans (sub_eq_zero.mp right))

theorem mem_presentValues {value : BigDecimal} :
    value ∈ presentValues values ↔ some value ∈ values := by
  rw [presentValues, List.mem_filterMap]
  constructor
  · rintro ⟨row, member, rfl⟩
    exact member
  · exact fun member => ⟨_, member, rfl⟩

section Columns

variable {columns : List (List Int × List (Option BigDecimal))} {paged : PagedSegment decimals}

theorem holds_pages {error : Rat} (heights : ∀ page ∈ columns, page.1.length = page.2.length)
    (fits : ∀ page ∈ columns, ∀ timestamp ∈ page.1, Word64.Fits timestamp)
    (nonneg : 0 ≤ tolerance.toRat)
    (reads : ∀ page ∈ columns, Reads decimals (presentValues page.2))
    (domain : ∀ page ∈ columns, InDomain (presentValues page.2))
    (bound : ∀ page ∈ columns,
      (Page.buildNullable page.1 page.2 tolerance : Page decimals).values.maxAbsError ≤ error) :
    Holds (columns.map Prod.fst).flatten (columns.map Prod.snd).flatten error
      (((columns.map fun page => (Page.buildNullable page.1 page.2 tolerance :
          Page decimals)).map fun page => page.decodeNullable.1).flatten,
        ((columns.map fun page => (Page.buildNullable page.1 page.2 tolerance :
          Page decimals)).map fun page => page.decodeNullable.2).flatten) := by
  induction columns with
  | nil => exact ⟨rfl, .nil⟩
  | cons page columns ih =>
      simp only [List.forall_mem_cons] at heights fits reads domain bound
      obtain ⟨holds, -⟩ :=
        Page.holds_buildNullable heights.1 fits.1 nonneg reads.1 domain.1
      have own := holds.mono bound.1
      have others := ih heights.2 fits.2 reads.2 domain.2 bound.2
      simp only [List.map_cons, List.flatten_cons]
      exact ⟨congrArg₂ (· ++ ·) own.timestamps others.timestamps,
        List.rel_append own.values others.values⟩

variable (built : paged.pages = columns.map fun page =>
    Page.buildNullable page.1 page.2 tolerance)
  (fits : ∀ page ∈ columns, ∀ timestamp ∈ page.1, Word64.Fits timestamp)

include built fits

theorem PagedSegment.rows_eq : paged.rows = paged.pages.flatMap Page.rows := by
  rw [rows, decodeNullable_eq]
  refine zip_flatten fun page member => ?_
  obtain ⟨source, chosen, rfl⟩ := List.mem_map.mp (built ▸ member)
  exact length_decodeNullable (fits source chosen)

theorem PagedSegment.readTimeRange_eq (start stop : Int) :
    paged.readTimeRange start stop =
      (paged.rows.filter fun row => start ≤ row.1 && row.1 ≤ stop).unzip := by
  rw [rows_eq built fits, readTimeRange, pagesAt_prune, built, ← filter_overlapping fits]
  rfl

theorem PagedSegment.valueAt_eq (instant : Int) :
    paged.valueAt instant = firstPresentAt instant paged.rows := by
  rw [rows_eq built fits, valueAt, pagesAt_prune, built, findSome?_overlapping fits]

end Columns

theorem PagedSegment.buildNullable_eq (heights : timestamps.length = values.length)
    (tall : 0 < height) :
    ∃ paged : PagedSegment decimals,
      buildNullable timestamps values tolerance height = .ok paged ∧
        paged.pages = buildPages timestamps values tolerance height :=
  ⟨_, by rw [buildNullable, if_neg (not_not.mpr heights), if_neg tall.ne'], rfl⟩

/-- A single block and a paged segment of values of the decimal domain hold the same rows, each
within the error of its own encodings, which is tolerated; they agree where nothing is lost.  Of the
rows which it holds, each gives the first present value of an instant, and a paged one those of a
range. -/
theorem paged_matches_single (decimals : Decimals) (timestamps : List Int)
    (values : List (Option BigDecimal)) (tolerance : BigDecimal) (height : Nat)
    (heights : timestamps.length = values.length)
    (fits : ∀ timestamp ∈ timestamps, Word64.Fits timestamp) (nonneg : 0 ≤ tolerance.toRat)
    (reads : Reads decimals (presentValues values)) (domain : InDomain (presentValues values))
    (tall : 0 < height) :
    ∃ (single : Segment decimals) (paged : PagedSegment decimals),
      Segment.buildNullable timestamps values tolerance = .ok single ∧
        PagedSegment.buildNullable timestamps values tolerance height = .ok paged ∧
        Holds timestamps values tolerance.toRat single.decodeNullable ∧
        Holds timestamps values tolerance.toRat paged.decodeNullable ∧
        (single.values.maxAbsError = 0 → (∀ page ∈ paged.pages, page.values.maxAbsError = 0) →
          List.Forall₂ (Option.Rel SameNumber) single.decodeNullable.2 paged.decodeNullable.2 ∧
            ∀ instant, Option.Rel SameNumber (single.valueAt instant) (paged.valueAt instant)) ∧
        (∀ start stop, paged.readTimeRange start stop =
          (paged.rows.filter fun row => start ≤ row.1 && row.1 ≤ stop).unzip) ∧
        ∀ instant,
          single.valueAt instant = firstPresentAt instant single.rows ∧
            paged.valueAt instant = firstPresentAt instant paged.rows ∧
            Option.Rel (Within tolerance.toRat)
              (firstPresentAt instant (timestamps.zip values)) (single.valueAt instant) ∧
            Option.Rel (Within tolerance.toRat)
              (firstPresentAt instant (timestamps.zip values)) (paged.valueAt instant) := by
  obtain ⟨paged, built, pages⟩ : ∃ paged : PagedSegment decimals,
      PagedSegment.buildNullable timestamps values tolerance height = .ok paged ∧
        paged.pages = PagedSegment.buildPages timestamps values tolerance height :=
    PagedSegment.buildNullable_eq heights tall
  obtain ⟨each, times, rows⟩ := columns_chunks tall heights
  have inside : ∀ page ∈ (chunks height timestamps).zip (chunks height values),
      ∀ timestamp ∈ page.1, Word64.Fits timestamp := fun page member timestamp here =>
    fits timestamp (times ▸ List.mem_flatten_of_mem (List.mem_map_of_mem member) here)
  have present : ∀ page ∈ (chunks height timestamps).zip (chunks height values),
      ∀ value ∈ presentValues page.2, value ∈ presentValues values := fun page member value here =>
    mem_presentValues.mpr
      (rows ▸ List.mem_flatten_of_mem (List.mem_map_of_mem member) (mem_presentValues.mp here))
  have read : ∀ page ∈ (chunks height timestamps).zip (chunks height values),
      Reads decimals (presentValues page.2) := fun page member value here =>
    reads value (present page member value here)
  have plain : ∀ page ∈ (chunks height timestamps).zip (chunks height values),
      InDomain (presentValues page.2) := fun page member value here =>
    domain value (present page member value here)
  have holds (error : Rat) (bound : ∀ page ∈ paged.pages, page.values.maxAbsError ≤ error) :
      Holds timestamps values error paged.decodeNullable := by
    rw [pages, PagedSegment.buildPages, List.forall_mem_map] at bound
    have all := holds_pages each inside nonneg read plain bound
    rw [times, rows] at all
    rw [PagedSegment.decodeNullable_eq, pages]
    exact all
  have small : ∀ page ∈ paged.pages, page.values.maxAbsError ≤ tolerance.toRat := by
    rw [pages, PagedSegment.buildPages, List.forall_mem_map]
    exact fun page member => (Page.holds_buildNullable (each page member) (inside page member)
      nonneg (read page member) (plain page member)).2
  obtain ⟨alone, narrow⟩ := Page.holds_buildNullable heights fits nonneg reads domain
  have first (instant : Int) :
      (Page.buildNullable timestamps values tolerance : Page decimals).valueAt instant = _ :=
    Page.valueAt_buildNullable fits instant
  have second := PagedSegment.valueAt_eq pages inside
  refine ⟨_, paged, if_neg (not_not.mpr heights), built, alone.mono narrow,
    holds _ small, ?_, PagedSegment.readTimeRange_eq pages inside, ?_⟩
  · intro exactAlone exactPages
    have left := exactAlone ▸ alone
    have right := holds 0 fun page member => (exactPages page member).le
    have same := sameNumber_of_lossless left.values right.values
    refine ⟨same, fun instant => ?_⟩
    rw [Segment.valueAt_eq, first, second, Page.rows, PagedSegment.rows, left.timestamps,
      right.timestamps]
    exact firstPresentAt_rel timestamps instant same
  · intro instant
    refine ⟨first instant, second instant, ?_, ?_⟩
    · rw [Segment.valueAt_eq, first]
      exact (alone.mono narrow).firstPresentAt instant
    · rw [second]
      exact (holds _ small).firstPresentAt instant

theorem reads_pair : Reads wholeNumbers [⟨16777217, 0⟩, ⟨67108866, 0⟩] := by
  intro value member _
  simp only [List.mem_cons, List.not_mem_nil, or_false] at member
  rcases member with rfl | rfl
  · rw [show wholeNumbers.parse (BigDecimal.toPlainString ⟨16777217, 0⟩) = some ⟨16777217, 0⟩ by
      decide, Option.map_some]
  · rw [show wholeNumbers.parse (BigDecimal.toPlainString ⟨67108866, 0⟩) = some ⟨67108866, 0⟩ by
      decide, Option.map_some]

theorem paged_matches_single_pair :
    ∃ paged : PagedSegment wholeNumbers,
      PagedSegment.buildNullable [0, 1] [some ⟨16777217, 0⟩, some ⟨67108866, 0⟩] ⟨1, 0⟩ 1 =
          .ok paged ∧
        Holds [0, 1] [some ⟨16777217, 0⟩, some ⟨67108866, 0⟩] (BigDecimal.toRat ⟨1, 0⟩)
          paged.decodeNullable := by
  obtain ⟨-, paged, -, built, -, holds, -⟩ :=
    paged_matches_single wholeNumbers [0, 1] [some ⟨16777217, 0⟩, some ⟨67108866, 0⟩] ⟨1, 0⟩ 1 rfl
      (by decide) (by simp [BigDecimal.toRat]) reads_pair (by unfold InDomain; decide)
      (by decide)
  exact ⟨paged, built, holds⟩

/-- A page alone is given a narrower encoding than the column of which it is a part. -/
theorem narrower_page :
    ∃ (single : Segment wholeNumbers) (paged : PagedSegment wholeNumbers),
      Segment.buildNullable [0, 1] [some ⟨16777217, 0⟩, some ⟨67108866, 0⟩] ⟨1, 0⟩ = .ok single ∧
        PagedSegment.buildNullable [0, 1] [some ⟨16777217, 0⟩, some ⟨67108866, 0⟩] ⟨1, 0⟩ 1 =
          .ok paged ∧
        single.valueAt 0 = some ⟨16777217, 0⟩ ∧ paged.valueAt 0 = some ⟨16777216, 0⟩ := by
  refine ⟨_, _, rfl, rfl, ?_, ?_⟩
  · decide +kernel
  · decide +kernel

end WeftDb.Physical
