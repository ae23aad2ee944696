import WeftDb.Store.Reconcile

/-!
# The pass which reconciles overlaps

The components of the rows which the pass read are swapped one after the other, each in its own
transaction, while other writers add rows.  Afterwards no two live rows of a series overlap, among
those under the ids which it read.
-/

namespace WeftDb

/-- The pass over some components, the rows which it read, and how many segments it removes. -/
inductive Reconciling (policy : SplitPolicy) (frames : IndexRow → DecodedFrame)
    (aspect : AspectName) (read : List IndexRow) :
    IndexDb → List (List IndexRow) → IndexDb → Nat → Prop
  | done {db} : Reconciling policy frames aspect read db [] db 0
  /-- Under the maintenance lock other writers only add rows, under fresh ids. -/
  | others {db next after components removed}
      (adds : ∀ row ∈ next.rows aspect, row ∈ db.rows aspect ∨
        ∀ held ∈ read, held.desc.id < row.desc.id)
      (later : Reconciling policy frames aspect read next components after removed) :
      Reconciling policy frames aspect read db components after removed
  | alone {db after component components removed} (few : component.length < 2)
      (later : Reconciling policy frames aspect read db components after removed) :
      Reconciling policy frames aspect read db (component :: components) after removed
  | swap {db middle after component components removed} (many : 2 ≤ component.length)
      (swaps : Swaps aspect db (reconcilePlan policy frames component) middle)
      (later : Reconciling policy frames aspect read middle components after removed) :
      Reconciling policy frames aspect read db (component :: components) after
        ((reconcilePlan policy frames component).removes + removed)

/-- Whether a row is under the id of one of a list. -/
def Under (rows : List IndexRow) (row : IndexRow) : Prop :=
  ∃ held ∈ rows, held.desc.id = row.desc.id

/-- The live rows with some components still to go: each under an id which was read is in the span
of its component, and those of the other components are apart. -/
structure Reconciled (read : List IndexRow) (components : List (List IndexRow))
    (live : List IndexRow) : Prop where
  placed : ∀ row ∈ live, Under read row → row.desc.timeRange.isSome = true →
    ∃ component ∈ overlapComponents read, PlacedIn component row
  apart : ∀ component ∈ overlapComponents read, component ∉ components →
    ∀ left ∈ live, ∀ right ∈ live, left ≠ right → Under component left → Under component right →
      ¬Overlapping left right

theorem eq_of_mem_of_length_lt {α : Type*} {items : List α} (few : items.length < 2)
    {left right : α} (left_mem : left ∈ items) (right_mem : right ∈ items) : left = right := by
  rcases items with _ | ⟨only, _ | ⟨second, items⟩⟩
  · cases left_mem
  · rw [List.mem_singleton.mp left_mem, List.mem_singleton.mp right_mem]
  · simp only [List.length_cons] at few
    omega

variable {component read : List IndexRow} {row : IndexRow}

theorem mem_read_of_component (member : component ∈ overlapComponents read)
    (held : row ∈ component) : row ∈ read ∧ row.desc.timeRange.isSome = true := by
  obtain ⟨series, inside⟩ := mem_overlapComponents.mp member
  obtain ⟨under, spanned⟩ := mem_spannedRows.mp (mem_of_mem_component inside held)
  exact ⟨(mem_under.mp under).1, spanned⟩

theorem exists_component (member : row ∈ read) (spanned : row.desc.timeRange.isSome = true) :
    ∃ component ∈ overlapComponents read, row ∈ component := by
  have held : row ∈ (overlapComponents read).flatten :=
    (flatten_overlapComponents read).symm.subset (List.mem_filter.mpr ⟨member, spanned⟩)
  exact List.mem_flatten.mp held

theorem PlacedIn.under (placed : PlacedIn component row) : Under component row := by
  obtain ⟨source, member, same, -⟩ := placed
  exact ⟨source, member, same⟩

section Pass

variable {read : List IndexRow} (ranged : ∀ row ∈ read, row.desc.Ranged)
  (distinct : (read.map fun row => row.desc.id).Nodup)
variable {left right : IndexRow} {components : List (List IndexRow)}

include distinct in
theorem eq_of_id_eq (left_mem : left ∈ read) (right_mem : right ∈ read)
    (same : left.desc.id = right.desc.id) : left = right :=
  List.inj_on_of_nodup_map distinct left_mem right_mem same

include ranged distinct in
theorem component_eq_of_under {other : List IndexRow}
    (component_mem : component ∈ overlapComponents read)
    (other_mem : other ∈ overlapComponents read) (own : Under component row)
    (also : Under other row) : component = other := by
  obtain ⟨held, held_mem, held_id⟩ := own
  obtain ⟨partner, partner_mem, partner_id⟩ := also
  obtain ⟨held_read, spanned⟩ := mem_read_of_component component_mem held_mem
  obtain rfl := eq_of_id_eq distinct held_read (mem_read_of_component other_mem partner_mem).1
    (held_id.trans partner_id.symm)
  by_contra apart
  have ordered := ranged held held_read _ (range_eq spanned)
  rcases components_apart ranged component_mem other_mem apart held_mem partner_mem rfl with
    before | after
  · exact absurd (before held held_mem held partner_mem) (not_lt.mpr ordered)
  · exact absurd (after held partner_mem held held_mem) (not_lt.mpr ordered)

namespace Reconciled

theorem start (read : List IndexRow) : Reconciled read (overlapComponents read) read where
  placed row member _ spanned := by
    obtain ⟨component, inside, held⟩ := exists_component member spanned
    exact ⟨component, inside, placedIn_self held⟩
  apart _ member others := absurd member others

variable {live live' : List IndexRow}

theorem others (reconciled : Reconciled read components live)
    (adds : ∀ row ∈ live', row ∈ live ∨ ∀ held ∈ read, held.desc.id < row.desc.id) :
    Reconciled read components live' := by
  have kept : ∀ row ∈ live', Under read row → row ∈ live := by
    intro row member under
    obtain ⟨held, held_mem, same⟩ := under
    exact (adds row member).resolve_right fun beyond => absurd (beyond held held_mem) (same ▸ lt_irrefl _)
  have under_read : ∀ component ∈ overlapComponents read, ∀ row, Under component row →
      Under read row := by
    rintro component inside row ⟨held, held_mem, same⟩
    exact ⟨held, (mem_read_of_component inside held_mem).1, same⟩
  constructor
  · exact fun row member under => reconciled.placed row (kept row member under) under
  · intro component inside done left left_mem right right_mem different left_under right_under
    exact reconciled.apart component inside done
      left (kept left left_mem (under_read component inside left left_under))
      right (kept right right_mem (under_read component inside right right_under))
      different left_under right_under

theorem alone (reconciled : Reconciled read (component :: components) live)
    (few : component.length < 2)
    (unique : ∀ left ∈ live, ∀ right ∈ live, left.desc.id = right.desc.id → left = right) :
    Reconciled read components live where
  placed := reconciled.placed
  apart := by
    intro other inside done left left_mem right right_mem different left_under right_under
    by_cases here : other = component
    · subst here
      obtain ⟨held, held_mem, left_id⟩ := left_under
      obtain ⟨partner, partner_mem, right_id⟩ := right_under
      obtain rfl := eq_of_mem_of_length_lt few held_mem partner_mem
      exact absurd (unique left left_mem right right_mem (left_id.symm.trans right_id)) different
    · exact reconciled.apart other inside (List.not_mem_cons_of_ne_of_not_mem here done) left left_mem
        right right_mem different left_under right_under

include ranged distinct in
theorem swap {published : List IndexRow}
    (reconciled : Reconciled read (component :: components) live)
    (inside : component ∈ overlapComponents read) (publishes : PublishesRuns component published)
    (behind : ∀ row ∈ live', row ∈ published ∨ row ∈ live ∧ ¬Under component row) :
    Reconciled read components live' := by
  constructor
  · intro row member under spanned
    rcases behind row member with new | ⟨old, -⟩
    · exact ⟨component, inside, publishes.placed row new⟩
    · exact reconciled.placed row old under spanned
  · intro other other_mem done left left_mem right right_mem different left_under right_under
    by_cases here : other = component
    · subst here
      have new : ∀ row ∈ live', Under other row → row ∈ published := fun row member under =>
        (behind row member).resolve_right fun old => old.2 under
      have both : published.Pairwise fun left right =>
          ¬Overlapping left right ∧ ¬Overlapping right left := publishes.apart
      have symmetric : Std.Symm fun left right : IndexRow =>
          ¬Overlapping left right ∧ ¬Overlapping right left := ⟨fun _ _ => And.symm⟩
      exact (both.forall (new left left_mem left_under) (new right right_mem right_under)
        different).1
    · have old : ∀ row ∈ live', Under other row → row ∈ live := by
        intro row member under
        rcases behind row member with new | ⟨old, -⟩
        · exact absurd (component_eq_of_under ranged distinct other_mem inside under
            (publishes.placed row new).under) here
        · exact old
      exact reconciled.apart other other_mem (List.not_mem_cons_of_ne_of_not_mem here done)
        left (old left left_mem left_under) right (old right right_mem right_under) different
        left_under right_under

include ranged in
theorem not_overlapping (reconciled : Reconciled read [] live) (left_mem : left ∈ live)
    (right_mem : right ∈ live) (different : left ≠ right) (left_under : Under read left)
    (right_under : Under read right) : ¬Overlapping left right := by
  intro overlapping
  obtain ⟨left_spanned, right_spanned⟩ := overlapping.spanned
  obtain ⟨component, component_mem, placed⟩ :=
    reconciled.placed left left_mem left_under left_spanned
  obtain ⟨other, other_mem, placed'⟩ := reconciled.placed right right_mem right_under right_spanned
  by_cases here : component = other
  · subst here
    exact reconciled.apart component component_mem List.not_mem_nil left left_mem right right_mem
      different placed.under placed'.under overlapping
  · obtain ⟨source, source_mem, -, series, bounds⟩ := placed
    obtain ⟨source', source_mem', -, series', bounds'⟩ := placed'
    obtain ⟨first, first_mem, last, last_mem, low, high⟩ := bounds _ (range_eq left_spanned)
    obtain ⟨first', first_mem', last', last_mem', low', high'⟩ :=
      bounds' _ (range_eq right_spanned)
    obtain ⟨same, meets⟩ := (overlapping_iff left_spanned right_spanned).mp overlapping
    simp only [SpanSweep.Meets] at meets low high low' high'
    rcases components_apart ranged component_mem other_mem here source_mem source_mem'
      (series.trans (same.trans series'.symm)) with before | after
    · have beyond := before last last_mem first' first_mem'
      simp only at beyond
      omega
    · have beyond := after last' last_mem' first first_mem
      simp only at beyond
      omega

end Reconciled

include ranged distinct in
theorem reconciled_of_pass {policy : SplitPolicy} {frames : IndexRow → DecodedFrame}
    {aspect : AspectName} {db after : IndexDb} {removed : Nat}
    (pass : Reconciling policy frames aspect read db components after removed)
    (described : ∀ row ∈ read, Describes row.desc (frames row).timestamps)
    (inside : ∀ component ∈ components, component ∈ overlapComponents read)
    (reconciled : Reconciled read components (db.rows aspect)) :
    Reconciled read [] (after.rows aspect) := by
  induction pass with
  | done => exact reconciled
  | others adds _ ih => exact ih inside (reconciled.others adds)
  | @alone db after component components removed few _ ih =>
      refine ih (fun other member => inside other (List.mem_cons_of_mem _ member))
        (reconciled.alone few fun left left_mem right right_mem same => ?_)
      exact eq_of_id_eq (db.nodup_ids_rows aspect) left_mem right_mem same
  | @swap db middle after component components removed many swaps _ ih =>
      have own := inside component List.mem_cons_self
      have component_ids : (component.map fun member => member.desc.id).Nodup := by
        have flat := ((flatten_overlapComponents read).map fun row => row.desc.id).nodup_iff.mpr
          (distinct.sublist (List.filter_sublist.map _))
        exact flat.sublist ((List.sublist_flatten_of_mem own).map _)
      obtain ⟨ready, epoch, createdMs, committed⟩ :=
        committed_reconcilePlan many component_ids swaps
      have publishes := publishes_reconcilePlan
        (fun member held => described member (mem_read_of_component own held).1) committed
      refine ih (fun other member => inside other (List.mem_cons_of_mem _ member))
        (reconciled.swap ranged distinct own publishes fun row live => ?_)
      refine (committed.mem_rows live).imp_right fun ⟨old, unnamed⟩ => ⟨old, ?_⟩
      rintro ⟨held, held_mem, same⟩
      rw [members_reconcilePlan] at unnamed
      exact unnamed held ((StableOrder.sortBy_perm _ _).symm.subset held_mem) same

end Pass

/-- The overlap components of rows are the classes of the chains of overlapping rows of a series:
they hold the rows with a time range, none mixes series or meets a row outside it, and one has two
rows exactly when overlapping segments are counted.  Behind the pass no two live rows of a series
overlap, under the ids which it read. -/
theorem overlap_components_closed :
    (∀ rows : List IndexRow, (∀ row ∈ rows, row.desc.Ranged) →
      ((overlapComponents rows).flatten.Perm
          (rows.filter fun row => row.desc.timeRange.isSome) ∧
        ∀ component ∈ overlapComponents rows, component ≠ []) ∧
      (∀ component ∈ overlapComponents rows, ∀ left ∈ component, ∀ right ∈ component,
        left.seriesId = right.seriesId) ∧
      (∀ left ∈ rows, left.desc.timeRange.isSome = true → ∀ right,
        (∃ component ∈ overlapComponents rows, left ∈ component ∧ right ∈ component) ↔
          Chained rows left right) ∧
      (∀ component ∈ overlapComponents rows, ∀ span, componentSpan component = some span →
        ∀ held ∈ component, ∀ row ∈ rows, held.seriesId = row.seriesId → row ∉ component →
          ¬row.desc.Overlaps span.1 span.2) ∧
      ((∃ component ∈ overlapComponents rows, 2 ≤ component.length) ↔
        0 < seriesOverlappingCount rows)) ∧
    ∀ (policy : SplitPolicy) (frames : IndexRow → DecodedFrame) (aspect : AspectName)
      (db after : IndexDb) (removed : Nat),
      (∀ row ∈ db.rows aspect, Describes row.desc (frames row).timestamps) →
      Reconciling policy frames aspect (db.rows aspect) db (overlapComponents (db.rows aspect))
        after removed →
      ∀ left ∈ after.rows aspect, ∀ right ∈ after.rows aspect, left ≠ right →
        Under (db.rows aspect) left → Under (db.rows aspect) right → ¬Overlapping left right := by
  constructor
  · intro rows ranged
    refine ⟨⟨flatten_overlapComponents rows, fun _ => ne_nil_of_mem_overlapComponents ranged⟩,
      fun _ member _ left_mem _ right_mem => series_of_component member left_mem right_mem,
      fun _ left_mem spanned _ => exists_component_iff ranged left_mem spanned, ?_,
      overlappingCount_iff ranged⟩
    intro component member span spanned held held_mem row row_mem series outside
    exact not_overlaps_component ranged member spanned row_mem held_mem series outside
  · intro policy frames aspect db after removed described pass left left_mem right right_mem
      different left_under right_under
    have ranged : ∀ row ∈ db.rows aspect, row.desc.Ranged :=
      fun row member => (described row member).ranged
    have reconciled := reconciled_of_pass ranged (db.nodup_ids_rows aspect) pass described
      (fun _ => id) (.start _)
    exact reconciled.not_overlapping ranged left_mem right_mem different left_under right_under

/-- A row which repeats the last one of `twoRows`. -/
def lateRow : IndexRow where
  desc :=
    { twoRows.desc with id := 4, path := .segments (.writeOnce "a" 1 0), rowCount := 1
                        nullCount := 1, minTs := some 2 }
  gen := 1
  prec := some 0
  frameCrc := some 2
  commitEpoch := some 2
  seriesId := 0

/-- An index of two rows which overlap. -/
def overlappingIndex : IndexDb :=
  { IndexDb.fresh with segments := ⟨[("a", twoRows), ("a", lateRow)], by decide⟩ }

/-- Their frames. -/
def overlappingFrames (row : IndexRow) : DecodedFrame :=
  if row = twoRows then ⟨none, [1, 2], [none, none]⟩ else ⟨none, [2], [none]⟩

theorem overlapComponents_two : overlapComponents [twoRows, lateRow] = [[twoRows, lateRow]] := by
  have runs : bySeries [twoRows, lateRow] = [[twoRows, lateRow]] := by decide
  have sorted : spannedRows [twoRows, lateRow] = [twoRows, lateRow] := by
    rw [spannedRows, StableOrder.sortBy]
    exact List.mergeSort_of_pairwise (by decide)
  rw [overlapComponents, runs, List.flatMap_singleton, seriesOverlapComponents, sorted]
  decide

theorem reconcilePlan_two : reconcilePlan ⟨0⟩ overlappingFrames [twoRows, lateRow] =
    ⟨[twoRows, lateRow], [], true⟩ := by
  have members : byId [twoRows, lateRow] = [twoRows, lateRow] := by
    rw [byId, StableOrder.sortBy]
    exact List.mergeSort_of_pairwise (by decide)
  have first : (overlappingFrames twoRows).sortedRows = [(1, none), (2, none)] := by
    rw [DecodedFrame.sortedRows]
    exact List.mergeSort_of_pairwise (by decide)
  have second : (overlappingFrames lateRow).sortedRows = [(2, none)] := by
    rw [DecodedFrame.sortedRows]
    exact List.mergeSort_of_pairwise (by decide)
  have merged : foldNewestWins [overlappingFrames twoRows, overlappingFrames lateRow] =
      [(1, none), (2, none)] := by
    rw [foldNewestWins, List.foldl_cons, List.foldl_cons, List.foldl_nil, first, second]
    simp [mergeNewerWins]
  have same : mergeMembersAgainstFirst overlappingFrames [twoRows, lateRow] =
      ([(1, none), (2, none)], true) := by
    rw [mergeMembersAgainstFirst, List.map_cons, List.map_cons, List.map_nil, merged]
    decide
  rw [reconcilePlan, members, same]
  simp only [if_true, SwapPlan.keepFirst, members]

theorem overlap_components_closed_of_two :
    (∃ component ∈ overlapComponents [twoRows, lateRow], 2 ≤ component.length) ∧
    0 < seriesOverlappingCount [twoRows, lateRow] ∧
    ∃ after removed, Reconciling ⟨0⟩ overlappingFrames "a" (overlappingIndex.rows "a")
        overlappingIndex (overlapComponents (overlappingIndex.rows "a")) after removed ∧
      ∀ left ∈ after.rows "a", ∀ right ∈ after.rows "a", left ≠ right →
        Under (overlappingIndex.rows "a") left → Under (overlappingIndex.rows "a") right →
          ¬Overlapping left right := by
  have rows : overlappingIndex.rows "a" = [twoRows, lateRow] := by decide
  have described : ∀ row ∈ [twoRows, lateRow],
      Describes row.desc (overlappingFrames row).timestamps := by
    intro row member
    rcases List.mem_pair.mp member with rfl | rfl <;> exact ⟨by decide, by decide, by decide⟩
  have two : ∃ component ∈ overlapComponents [twoRows, lateRow], 2 ≤ component.length := by
    rw [overlapComponents_two]
    decide
  have counted := (overlap_components_closed.1 [twoRows, lateRow]
    fun row member => (described row member).ranged).2.2.2.2
  refine ⟨two, counted.mp two, ?_⟩
  let plan : PreparedPlan :=
    { members := [twoRows, lateRow], keep := true, retired := [.writeOnce "a" 1 0], seriesId := 0
      prec := 0, fresh := [], outputs := [] }
  obtain ⟨middle, committed⟩ : ∃ middle, overlappingIndex.applyAll
      (commitPlans overlappingIndex "a" ⟨5, 2⟩ [plan] 0).ops = .ok middle := ⟨_, rfl⟩
  have built : preparePlan
      (reconcilePlan ⟨0⟩ overlappingFrames [twoRows, lateRow]).members
      (reconcilePlan ⟨0⟩ overlappingFrames [twoRows, lateRow]).keep = some plan := by
    rw [reconcilePlan_two]
    decide
  have sealed_rows : List.Forall₂ (fun output rows => Describes output.descriptor
      (rows.map Prod.fst)) ([] : List WrittenOutput)
      (reconcilePlan ⟨0⟩ overlappingFrames [twoRows, lateRow]).outputs := by
    rw [reconcilePlan_two]
    exact .nil
  have allocated : allocateFresh (overlappingIndex.rows "a") ⟨5, 2⟩ { plan with outputs := [] } =
      (⟨5, 2⟩, some plan) := by decide
  have pass : Reconciling ⟨0⟩ overlappingFrames "a" [twoRows, lateRow] overlappingIndex
      [[twoRows, lateRow]] middle _ :=
    .swap le_rfl (.intro built sealed_rows allocated committed) .done
  refine ⟨middle, _, by rw [rows, overlapComponents_two]; exact pass, ?_⟩
  exact overlap_components_closed.2 ⟨0⟩ overlappingFrames "a" overlappingIndex middle _
    (by rwa [rows]) (by rw [rows, overlapComponents_two]; exact pass)
end WeftDb
