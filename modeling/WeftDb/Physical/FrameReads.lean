import WeftDb.Foundation.BatchLookup
import WeftDb.Physical.Paged

/-!
# Point reads of a frame

A point read of a frame resolves an instant to the place of its value: in closed form where the
timestamps have a constant stride, by a search of a sorted column and by a scan of another.  A read
of many instants decodes a page once for all of them, and answers each as a read of it alone does.
-/

namespace WeftDb

namespace Physical

variable {decimals : Decimals}
variable {instant : Int}

namespace SegmentStats

/-- Whether there are rows, and none with a value. -/
def isAllNull (stats : SegmentStats) : Bool :=
  decide (0 < stats.rowCount ∧ stats.nullCount = stats.rowCount)

/-- Whether an instant lies in the span. -/
def contains (stats : SegmentStats) (instant : Int) : Bool :=
  match stats.minTs, stats.maxTs with
  | some low, some high => low ≤ instant && instant ≤ high
  | _, _ => false

end SegmentStats

/-- The first timestamp and the gap of a column whose gaps are all the same. -/
def arithmeticStride (column : DeltaOfDeltaColumn) : Option (Int × Int) :=
  match column.firstDelta with
  | some step => if step ≠ 0 ∧ ∀ dod ∈ column.dods, dod = 0 then some (column.first, step) else none
  | none => none

/-- How many rows before a row are present. -/
def denseRank (nulls : NullMask) (row : Nat) : Nat :=
  if nulls.nullCount = 0 then row else ((List.range row).filter nulls.isPresent).length

/-- The first present row of a run which starts at a row. -/
def presentOfRun (nulls : NullMask) (instant : Int) : List Int → Nat → Option Nat
  | [], _ => none
  | timestamp :: timestamps, row =>
      if timestamp ≠ instant then none
      else if nulls.isPresent row then some row
      else presentOfRun nulls instant timestamps (row + 1)

/-- The place of the first present value of an instant. -/
def locatePresentDenseIndex (timestamps : List Int) (nulls : NullMask) (sorted : Bool)
    (instant : Int) : Option Nat :=
  let row :=
    if sorted then
      let partitionPoint := (timestamps.takeWhile (· < instant)).length
      presentOfRun nulls instant (timestamps.drop partitionPoint) partitionPoint
    else
      (timestamps.zipIdx.find? fun row => row.1 = instant ∧ nulls.isPresent row.2).map Prod.snd
  row.map (denseRank nulls)

/-- Multiplication of 64-bit integers, wrapping around. -/
def wrappingMul (left right : Int) : Int :=
  Int.bmod (left * right) (2 ^ 64)

/-- The place of the value of an instant on a grid. -/
def placeOnGrid (nulls : NullMask) (rowCount : Nat) (first step instant : Int) : Option Nat :=
  let diff := wrappingSub instant first
  let quotient := diff.tdiv step
  if diff.tmod step = 0 ∧ 0 ≤ quotient ∧ quotient < rowCount ∧
      wrappingAdd first (wrappingMul quotient step) = instant ∧
      nulls.isPresent quotient.toNat then
    some (denseRank nulls quotient.toNat)
  else none

namespace Page

variable (page : Page decimals)

/-- The stride of a sorted page. -/
def stride : Option (Int × Int) :=
  if page.stats.timeSorted then
    (arithmeticStride page.timestamps).filter fun stride => decide (0 < stride.2)
  else none

/-- The place of the value of an instant which lies in the span. -/
def resolve (instant : Int) : Option Nat :=
  if page.stats.contains instant then
    match page.stride with
    | some (first, step) => placeOnGrid page.nulls page.stats.rowCount first step instant
    | none =>
        locatePresentDenseIndex (decodeDeltaOfDelta page.timestamps) page.nulls
          page.stats.timeSorted instant
  else none

/-- The values of many instants.  Places are resolved first, and their values put into the slots of
the instants. -/
def readPoints (instants : List Int) : List (Option BigDecimal) :=
  let out := List.replicate instants.length none
  if instants.any page.stats.contains then
    let resolved := instants.zipIdx.filterMap fun instant =>
      (page.resolve instant.1).map fun index => (instant.2, page.values.decode[index]?)
    BatchLookup.scatter resolved out
  else out

/-- The value of an instant. -/
def readPoint (instant : Int) : Option BigDecimal :=
  (page.readPoints [instant]).getLast?.join

end Page

/-- A frame of either layout. -/
inductive Frame (decimals : Decimals)
  | singleBlock (segment : Segment decimals)
  | paged (segment : PagedSegment decimals)

namespace Segment

variable (segment : Segment decimals)

def readSegmentPoint (instant : Int) : Option BigDecimal :=
  if segment.stats.isAllNull then none else segment.toPage.readPoint instant

def readSegmentPoints (instants : List Int) : List (Option BigDecimal) :=
  if segment.stats.isAllNull then List.replicate instants.length none
  else segment.toPage.readPoints instants

end Segment

namespace PagedSegment

/-- The first value of an instant in the pages, which leaves out a page whose span misses the
instant and one without a value. -/
def firstInPages (instant : Int) : List (Page decimals) → Option BigDecimal
  | [] => none
  | page :: pages =>
      if page.stats.contains instant && !page.stats.isAllNull then
        match page.readPoint instant with
        | some value => some value
        | none => firstInPages instant pages
      else firstInPages instant pages

variable (segment : PagedSegment decimals)

def readPagedSegmentPoint (instant : Int) : Option BigDecimal :=
  if segment.stats.contains instant then
    if segment.stats.isAllNull then none else firstInPages instant segment.pages
  else none

/-- Whether a page is opened: it has values, and the span of it has an instant which is not
answered yet. -/
def opensPage (page : Page decimals) (instants : List (Int × Bool)) : Bool :=
  !page.stats.isAllNull &&
    instants.any fun instant => !instant.2 && page.stats.contains instant.1

def readPagedSegmentPoints (instants : List Int) : List (Option BigDecimal) :=
  if instants.any segment.stats.contains then
    if segment.stats.isAllNull then List.replicate instants.length none
    else
      (segment.pages.foldl (BatchLookup.fillFrom Page.readPoints opensPage instants)
        (instants.map fun _ => (none, false))).map Prod.fst
  else List.replicate instants.length none

end PagedSegment

namespace Frame

variable (frame : Frame decimals)

def stats : SegmentStats :=
  match frame with
  | singleBlock segment => segment.stats
  | paged segment => segment.stats

def readPoint (instant : Int) : Option BigDecimal :=
  match frame with
  | singleBlock segment => segment.readSegmentPoint instant
  | paged segment => segment.readPagedSegmentPoint instant

def readPoints (instants : List Int) : List (Option BigDecimal) :=
  match frame with
  | singleBlock segment => segment.readSegmentPoints instants
  | paged segment => segment.readPagedSegmentPoints instants

end Frame

/-- No page reaches beyond the span of its segment. -/
def PagedSegment.PagesWithin (segment : PagedSegment decimals) : Prop :=
  ∀ page ∈ segment.pages, ∀ instant,
    page.stats.contains instant = true → segment.stats.contains instant = true

theorem Page.readPoints_eq_lookup (page : Page decimals) (instants : List Int) :
    page.readPoints instants =
      instants.map fun instant => (page.resolve instant).bind (page.values.decode[·]?) := by
  unfold Page.readPoints
  split
  · exact BatchLookup.scatter_eq_map page.resolve (page.values.decode[·]?) instants
  · next outside =>
      rw [List.map_eq_replicate_iff.mpr fun instant member => ?_]
      have apart : page.stats.contains instant = false := by
        simpa using fun inside => outside (List.any_eq_true.mpr ⟨instant, member, inside⟩)
      rw [Page.resolve, apart]
      rfl

theorem Page.readPoint_eq_lookup (page : Page decimals) (instant : Int) :
    page.readPoint instant = (page.resolve instant).bind (page.values.decode[·]?) := by
  rw [Page.readPoint, Page.readPoints_eq_lookup]
  rfl

theorem Page.readPoints_eq (page : Page decimals) (instants : List Int) :
    page.readPoints instants = instants.map page.readPoint := by
  rw [Page.readPoints_eq_lookup]
  exact List.map_congr_left fun instant _ => (page.readPoint_eq_lookup instant).symm

theorem Page.readPoint_of_outside {page : Page decimals}
    (outside : page.stats.contains instant = false) : page.readPoint instant = none := by
  rw [Page.readPoint_eq_lookup, Page.resolve, outside]
  rfl

theorem Segment.readSegmentPoints_eq (segment : Segment decimals) (instants : List Int) :
    segment.readSegmentPoints instants = instants.map segment.readSegmentPoint := by
  unfold Segment.readSegmentPoints Segment.readSegmentPoint
  split
  · exact List.map_const'.symm
  · exact Page.readPoints_eq _ _

namespace PagedSegment

/-- What a page without values leaves out is no answer. -/
def answer (page : Page decimals) (instant : Int) : Option BigDecimal :=
  if page.stats.isAllNull then none else page.readPoint instant

theorem firstInPages_eq (instant : Int) (pages : List (Page decimals)) :
    firstInPages instant pages = pages.findSome? (answer · instant) := by
  induction pages with
  | nil => rfl
  | cons page pages ih =>
      rw [firstInPages, List.findSome?_cons, answer, ih]
      rcases nulls : page.stats.isAllNull with _ | _
      · rcases inside : page.stats.contains instant with _ | _
        · simp [Page.readPoint_of_outside inside]
        · simp only [Bool.not_false, Bool.and_self, if_true, Bool.false_eq_true, if_false]
          cases page.readPoint instant <;> rfl
      · simp

theorem foldl_fillFrom_pages (pages : List (Page decimals)) (instants : List Int) :
    pages.foldl (BatchLookup.fillFrom Page.readPoints opensPage instants)
        (instants.map fun _ => (none, false)) =
      instants.map fun instant => BatchLookup.flagged (firstInPages instant pages) := by
  simp only [firstInPages_eq]
  refine BatchLookup.foldl_fillFrom (fun page _ asked opened => ?_) fun page _ asked closed => ?_
  · have values : page.stats.isAllNull = false := by
      simpa using (Bool.and_eq_true_iff.mp opened).1
    rw [Page.readPoints_eq]
    exact List.map_congr_left fun instant _ => by rw [answer, values]; rfl
  · intro instant waiting
    rw [answer]
    split
    · rfl
    · next values =>
        refine Page.readPoint_of_outside (eq_false_of_ne_true fun inside => ?_)
        refine absurd closed (ne_false_of_eq_true ?_)
        rw [opensPage, Bool.and_eq_true_iff, List.any_eq_true]
        exact ⟨by simpa using values, _, waiting, by simpa using inside⟩

variable {segment : PagedSegment decimals}

theorem firstInPages_of_outside (within : segment.PagesWithin)
    (outside : segment.stats.contains instant = false) :
    firstInPages instant segment.pages = none := by
  rw [firstInPages_eq, List.findSome?_eq_none_iff]
  intro page member
  rw [answer]
  split
  · rfl
  · refine Page.readPoint_of_outside (eq_false_of_ne_true fun inside => ?_)
    exact absurd (within page member instant inside) (ne_true_of_eq_false outside)

theorem readPagedSegmentPoints_eq (within : segment.PagesWithin) (instants : List Int) :
    segment.readPagedSegmentPoints instants = instants.map segment.readPagedSegmentPoint := by
  have single (instant : Int) : segment.readPagedSegmentPoint instant =
      if segment.stats.isAllNull then none else firstInPages instant segment.pages := by
    rw [readPagedSegmentPoint]
    split
    · rfl
    · next outside =>
        rw [firstInPages_of_outside within (eq_false_of_ne_true outside), ite_self]
  rw [show segment.readPagedSegmentPoint = fun instant =>
      if segment.stats.isAllNull then none else firstInPages instant segment.pages from
        funext single, readPagedSegmentPoints]
  split
  · split
    · exact List.map_const'.symm
    · rw [foldl_fillFrom_pages, List.map_map]
      rfl
  · next outside =>
      refine (List.map_eq_replicate_iff.mpr fun instant member => ?_).symm
      have apart : segment.stats.contains instant = false :=
        eq_false_of_ne_true fun inside => outside (List.any_eq_true.mpr ⟨instant, member, inside⟩)
      rw [firstInPages_of_outside within apart, ite_self]

end PagedSegment

namespace Frame

/-- Whether no page reaches beyond the span of the frame. -/
def PagesWithin : Frame decimals → Prop
  | singleBlock _ => True
  | paged segment => segment.PagesWithin

variable {frame : Frame decimals}

theorem readPoints_eq (within : frame.PagesWithin) (instants : List Int) :
    frame.readPoints instants = instants.map frame.readPoint := by
  cases frame with
  | singleBlock segment => exact segment.readSegmentPoints_eq instants
  | paged segment => exact PagedSegment.readPagedSegmentPoints_eq within instants

theorem readPoint_of_outside (outside : frame.stats.contains instant = false) :
    frame.readPoint instant = none := by
  cases frame with
  | singleBlock segment =>
      show segment.readSegmentPoint instant = none
      rw [Segment.readSegmentPoint]
      split
      · rfl
      · exact Page.readPoint_of_outside outside
  | paged segment =>
      have apart : segment.stats.contains instant = false := outside
      show segment.readPagedSegmentPoint instant = none
      rw [PagedSegment.readPagedSegmentPoint, if_neg (ne_true_of_eq_false apart)]

end Frame

theorem contains_fromColumnsNullable {timestamps : List Int} {present : List BigDecimal}
    {nulls : Nat} :
    (SegmentStats.fromColumnsNullable timestamps present nulls).contains instant = true ↔
      (∃ low ∈ timestamps, low ≤ instant) ∧ ∃ high ∈ timestamps, instant ≤ high := by
  rcases eq_or_ne timestamps [] with rfl | nonempty
  · simp [SegmentStats.contains, SegmentStats.fromColumnsNullable]
  · have low := List.min?_eq_some_min nonempty
    have high := List.max?_eq_some_max nonempty
    simp only [SegmentStats.contains, SegmentStats.fromColumnsNullable, low, high,
      Bool.and_eq_true, decide_eq_true_eq]
    obtain ⟨lowMember, least⟩ := List.min?_eq_some_iff.mp low
    obtain ⟨highMember, greatest⟩ := List.max?_eq_some_iff.mp high
    constructor
    · rintro ⟨above, below⟩
      exact ⟨⟨_, lowMember, above⟩, _, highMember, below⟩
    · rintro ⟨⟨first, firstMember, above⟩, final, finalMember, below⟩
      exact ⟨(least first firstMember).trans above, below.trans (greatest final finalMember)⟩

end Physical

end WeftDb
