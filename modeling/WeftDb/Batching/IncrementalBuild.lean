import WeftDb.Batching.Incremental
import WeftDb.Foundation.Hull

/-!
# What one run of the consumer builds

Whatever runs of overlapping windows are interpolated together, each affected window which ends by
the stored data's end gets the batch which interpolating all rows gives it, as long as no range
loses a knot.
-/

namespace WeftDb.Rebuild

open ChangeConsumer Outputs

variable {Value : Type} {bracketing : Bracketing Value} {grid : WindowGrid}
  {rows : List (Point Value)} {base : Int} {window : BatchWindow}

/-- Whether a window is one of the grid and ends behind the base. -/
structure Buildable (grid : WindowGrid) (base : Int) (window : BatchWindow) : Prop where
  isWindow : grid.IsWindow base window
  behind : base < window.finish

/-- Whether a window ends by a stored row which is not the first. -/
def EndsBy (rows : List (Point Value)) (window : BatchWindow) : Prop :=
  ∃ row ∈ rows, window.finish ≤ row.1 ∧ ∃ first ∈ rows, first.1 < row.1

theorem EndsBy.append {later : List (Point Value)} (ends : EndsBy rows window) :
    EndsBy (rows ++ later) window := by
  obtain ⟨row, member, below, first, first_mem, before⟩ := ends
  exact ⟨row, List.mem_append_left _ member, below, first, List.mem_append_left _ first_mem, before⟩

theorem dvd_start (isWindow : grid.IsWindow base window) :
    grid.stepMillis ∣ window.start - base := by
  obtain ⟨index, starts, -⟩ := exists_index isWindow
  rw [starts, add_sub_cancel_left]
  exact dvd_mul_left _ _

/-- A range starts a whole number of steps before its first window. -/
theorem leadIn_spec (buildable : Buildable grid base window) :
    grid.stepMillis ∣ window.start - leadIn grid base window ∧
      leadIn grid base window ≤ window.start ∧ leadIn grid base window < window.finish := by
  obtain ⟨isWindow, behind⟩ := buildable
  have step := isWindow.1.2.2
  have from_base := dvd_start isWindow
  obtain ⟨index, starts, ends⟩ := exists_index isWindow
  have past : 0 ≤ index * grid.stepMillis := mul_nonneg (Int.natCast_nonneg index) step.le
  have long : 0 ≤ ((grid.batchSize - 1 : Nat) : Int) * grid.stepMillis :=
    mul_nonneg (Int.natCast_nonneg _) step.le
  have lead : grid.stepMillis ∣ max (window.finish - window.start) grid.stepMillis := by
    rcases max_choice (window.finish - window.start) grid.stepMillis with same | same <;> rw [same]
    rw [ends, add_sub_cancel_left]
    exact dvd_mul_left _ _
  simp only [leadIn]
  split
  · rcases max_choice (window.start - max (window.finish - window.start) grid.stepMillis) base with
      same | same
    · rw [same]
      exact ⟨by rwa [sub_sub_cancel], by omega, by omega⟩
    · rw [same]
      exact ⟨from_base, by omega, behind⟩
  · exact ⟨from_base, by omega, behind⟩

theorem mem_buildRun {method : Interpolator Value} {head : BatchWindow} {run : List BatchWindow}
    {batch : Batch Value} :
    (window, batch) ∈ buildRun method grid rows base head run ↔
      window ∈ head :: run ∧ cutWindow grid.batchSize (analyzeRange method grid.stepMillis rows
        (leadIn grid base head) (reachOf head run)) window = some batch := by
  rw [buildRun, List.mem_filterMap]
  constructor
  · rintro ⟨cut, member, found⟩
    obtain ⟨other, found, same⟩ := Option.map_eq_some_iff.mp found
    cases same
    exact ⟨member, found⟩
  · rintro ⟨member, found⟩
    exact ⟨window, member, by rw [found, Option.map_some]⟩

theorem mem_overlapRuns (fuel : Nat) {windows : List BatchWindow} (enough : windows.length ≤ fuel) :
    window ∈ windows ↔ ∃ run ∈ overlapRuns fuel windows, window ∈ run.1 :: run.2 := by
  induction fuel generalizing windows with
  | zero =>
      obtain rfl := List.length_eq_zero_iff.mp (Nat.le_zero.mp enough)
      simp [overlapRuns]
  | succ fuel ih =>
      cases windows with
      | nil => simp [overlapRuns]
      | cons head windows =>
          have whole := append_overlapRun head.finish windows
          have fits : (overlapRun head.finish windows).2.length ≤ fuel := by
            have length := congrArg List.length whole
            rw [List.length_append] at length
            rw [List.length_cons] at enough
            omega
          rw [List.mem_cons, @mem_overlapRun head.finish, ih fits]
          simp only [overlapRuns, List.mem_cons, exists_eq_or_imp, or_assoc]

theorem start_le_of_mem_run (fuel : Nat) {windows : List BatchWindow}
    (sorted : windows.Pairwise fun left right => left.start ≤ right.start)
    {run : BatchWindow × List BatchWindow} (member : run ∈ overlapRuns fuel windows)
    (inside : window ∈ run.1 :: run.2) : run.1.start ≤ window.start := by
  induction fuel generalizing windows with
  | zero => cases member
  | succ fuel ih =>
      cases windows with
      | nil => cases member
      | cons head windows =>
          obtain ⟨least, later⟩ := List.pairwise_cons.mp sorted
          rw [← append_overlapRun head.finish windows] at later
          rcases List.mem_cons.mp member with rfl | member
          · rcases List.mem_cons.mp inside with rfl | inside
            · exact le_rfl
            · exact least window (mem_overlapRun.mpr (.inl inside))
          · exact ih (List.pairwise_append.mp later).2.1 member

theorem finish_le_reachOf {head : BatchWindow} {run : List BatchWindow}
    (inside : window ∈ head :: run) : window.finish ≤ reachOf head run := by
  obtain ⟨from_head, from_run⟩ := Hull.le_foldl_max BatchWindow.finish run head.finish
  rcases List.mem_cons.mp inside with rfl | inside
  · exact from_head
  · exact from_run window inside

/-- A range which loses no knot gives each window of its run its own batch. -/
theorem cut_of_run {head : BatchWindow} {run : List BatchWindow}
    (own : Buildable grid base head) (isWindow : grid.IsWindow base window)
    (inside : window ∈ head :: run) (later : head.start ≤ window.start)
    (reached : reachOf head run ∈ rows.map Prod.fst)
    (behind : ∃ row ∈ rows, leadIn grid base head ≤ row.1 ∧ row.1 ≤ head.start) :
    cutWindow grid.batchSize (analyzeRange (bracketing.interpolator grid.stepMillis)
        grid.stepMillis rows (leadIn grid base head) (reachOf head run)) window =
      some (batchAt bracketing grid rows window.start) := by
  have step := own.isWindow.1.2.2
  obtain ⟨to_head, before_head, before_end⟩ := leadIn_spec own
  obtain ⟨steps, aligned⟩ : ∃ steps : Nat,
      leadIn grid base head + steps * grid.stepMillis = window.start := by
    have whole : grid.stepMillis ∣ window.start - leadIn grid base head := by
      simpa using dvd_add (dvd_sub (dvd_start isWindow) (dvd_start own.isWindow)) to_head
    obtain ⟨steps, same⟩ := whole
    refine ⟨steps.toNat, ?_⟩
    rw [Int.toNat_of_nonneg (nonneg_of_mul_nonneg_right (by omega) step), mul_comm]
    omega
  obtain ⟨row, row_mem, from_lead, to_head⟩ := behind
  exact cutWindow_analyzeRange isWindow ⟨row, row_mem, from_lead, to_head.trans later⟩ reached
    aligned (before_end.trans_le (finish_le_reachOf List.mem_cons_self)) (finish_le_reachOf inside)

/-- Every window of a sorted list is built, and each gets its own batch. -/
theorem mem_buildBatchesForWindows {windows : List BatchWindow}
    (sorted : windows.Pairwise fun left right => left.start ≤ right.start)
    (buildable : ∀ window ∈ windows, Buildable grid base window)
    (bracketed : Bracketed grid rows base windows) {batch : Batch Value} :
    (window, batch) ∈ buildBatchesForWindows bracketing grid rows base windows ↔
      window ∈ windows ∧ batch = batchAt bracketing grid rows window.start := by
  have in_run (window : BatchWindow) := @mem_overlapRuns window windows.length windows le_rfl
  have cut {run : BatchWindow × List BatchWindow}
      (member : run ∈ overlapRuns windows.length windows) (inside : window ∈ run.1 :: run.2) :
      cutWindow grid.batchSize (analyzeRange (bracketing.interpolator grid.stepMillis)
        grid.stepMillis rows (leadIn grid base run.1) (reachOf run.1 run.2)) window =
          some (batchAt bracketing grid rows window.start) := by
    obtain ⟨reached, behind⟩ := bracketed run member
    exact cut_of_run (buildable _ ((in_run _).mpr ⟨run, member, List.mem_cons_self⟩))
      (buildable _ ((in_run _).mpr ⟨run, member, inside⟩)).isWindow inside
      (start_le_of_mem_run _ sorted member inside) reached behind
  rw [buildBatchesForWindows, List.mem_flatMap]
  constructor
  · rintro ⟨run, member, built⟩
    obtain ⟨inside, found⟩ := mem_buildRun.mp built
    rw [cut member inside, Option.some.injEq] at found
    exact ⟨(in_run _).mpr ⟨run, member, inside⟩, found.symm⟩
  · rintro ⟨member, rfl⟩
    obtain ⟨run, run_mem, inside⟩ := (in_run _).mp member
    exact ⟨run, run_mem, mem_buildRun.mpr ⟨inside, cut run_mem inside⟩⟩

theorem earliest_eq_some {rows : List (Point Value)} :
    earliest rows = some base ↔ (∃ row ∈ rows, row.1 = base) ∧ ∀ row ∈ rows, base ≤ row.1 := by
  rw [earliest, List.min?_eq_some_iff, List.mem_map, List.forall_mem_map]

theorem latest_eq_some {rows : List (Point Value)} {last : Int} :
    latest rows = some last ↔ (∃ row ∈ rows, row.1 = last) ∧ ∀ row ∈ rows, row.1 ≤ last := by
  rw [latest, List.max?_eq_some_iff, List.mem_map, List.forall_mem_map]

theorem exists_latest {rows : List (Point Value)} (filled : rows ≠ []) :
    ∃ last, latest rows = some last := by
  refine Option.ne_none_iff_exists'.mp fun none => filled ?_
  exact List.map_eq_nil_iff.mp (List.max?_eq_none_iff.mp none)

/-- What is stored first stays so. -/
theorem earliest_of_append {later : List (Point Value)} (filled : rows ≠ [])
    (past : ∀ row ∈ rows, ∀ next ∈ later, row.1 < next.1)
    (first : earliest (rows ++ later) = some base) : earliest rows = some base := by
  obtain ⟨⟨low, low_mem, rfl⟩, least⟩ := earliest_eq_some.mp first
  obtain ⟨row, member⟩ := List.exists_mem_of_ne_nil _ filled
  refine earliest_eq_some.mpr ⟨⟨low, (List.mem_append.mp low_mem).resolve_right fun new => ?_, rfl⟩,
    fun row held => least row (List.mem_append_left _ held)⟩
  exact (past row member low new).not_ge (least row (List.mem_append_left _ member))

theorem AppendOnly.of_mem_flatten {commits : List (List (Point Value))}
    (appendOnly : AppendOnly grid rows commits) {next : Point Value}
    (member : next ∈ commits.flatten) :
    grid.Representable next.1 ∧ ∀ row ∈ rows, row.1 < next.1 := by
  induction commits generalizing rows with
  | nil => cases member
  | cons commit commits ih =>
      obtain ⟨⟨-, representable, past⟩, rest⟩ := appendOnly
      rcases List.mem_append.mp member with own | other
      · exact ⟨representable next own, fun row held => past row held next own⟩
      · obtain ⟨fits, past⟩ := ih rest other
        exact ⟨fits, fun row held => past row (List.mem_append_left _ held)⟩

theorem mem_windowsToBuild {latest : Int} {affected : List BatchWindow} :
    window ∈ windowsToBuild latest affected ↔ window ∈ affected ∧ window.finish ≤ latest := by
  rw [windowsToBuild, List.mem_insertionSort, List.mem_filter, decide_eq_true_eq]

/-- The affected windows which end by a stored row are built, each with its own batch. -/
theorem mem_buildAffected {latest : Int} {affected : List BatchWindow}
    (first : earliest rows = some base) (last : Rebuild.latest rows = some latest)
    (buildable : ∀ window ∈ affected, Buildable grid base window)
    (bracketed : Bracketed grid rows base (windowsToBuild latest affected)) {batch : Batch Value} :
    (window, batch) ∈ buildBatchesForWindows bracketing grid rows base
        (windowsToBuild latest affected) ↔
      window ∈ affected ∧ EndsBy rows window ∧
        batch = batchAt bracketing grid rows window.start := by
  obtain ⟨⟨low, low_mem, rfl⟩, -⟩ := earliest_eq_some.mp first
  obtain ⟨⟨high, high_mem, rfl⟩, greatest⟩ := latest_eq_some.mp last
  have sorted : (windowsToBuild high.1 affected).Pairwise
      fun left right => left.start ≤ right.start := List.pairwise_insertionSort _ _
  rw [mem_buildBatchesForWindows sorted (fun window member =>
    buildable window (mem_windowsToBuild.mp member).1) bracketed, mem_windowsToBuild, and_assoc]
  refine and_congr_right fun member => and_congr_left fun _ => ⟨fun ends => ?_, ?_⟩
  · exact ⟨high, high_mem, ends, low, low_mem, (buildable window member).behind.trans_le ends⟩
  · rintro ⟨row, row_mem, ends, -⟩
    exact ends.trans (greatest row row_mem)

theorem batchAt_append {later : List (Point Value)} (isWindow : grid.IsWindow base window)
    (ends : EndsBy rows window) (past : ∀ row ∈ rows, ∀ next ∈ later, row.1 < next.1) :
    batchAt bracketing grid (rows ++ later) window.start =
      batchAt bracketing grid rows window.start := by
  have step := isWindow.1.2.2
  obtain ⟨index, -, finish_eq⟩ := exists_index isWindow
  obtain ⟨bound, bound_mem, ends, -⟩ := ends
  refine List.map_congr_left fun offset inside => ?_
  have below := List.mem_range.mp inside
  rw [valueAt_append ⟨bound, bound_mem, le_trans ?_ (finish_eq ▸ ends)⟩ past]
  exact (instant_le step).mpr (by omega)

section Store

variable [DecidableEq Value]

theorem mem_insertUnprocessedBatches {queued batches : List (Batch Value)} {batch : Batch Value} :
    batch ∈ insertUnprocessedBatches queued batches ↔ batch ∈ queued ∨ batch ∈ batches := by
  induction batches generalizing queued with
  | nil => simp [insertUnprocessedBatches]
  | cons first batches ih =>
      rw [insertUnprocessedBatches, List.foldl_cons, ← insertUnprocessedBatches, ih, List.mem_cons]
      split
      · rename_i held
        constructor
        · rintro (member | member)
          · exact .inl member
          · exact .inr (.inr member)
        · rintro (member | rfl | member)
          · exact .inl member
          · exact .inl held
          · exact .inr member
      · rw [List.mem_append, List.mem_singleton, or_assoc]

theorem nodup_insertUnprocessedBatches {queued : List (Batch Value)} (once : queued.Nodup)
    (batches : List (Batch Value)) : (insertUnprocessedBatches queued batches).Nodup := by
  induction batches generalizing queued with
  | nil => exact once
  | cons first batches ih =>
      rw [insertUnprocessedBatches, List.foldl_cons, ← insertUnprocessedBatches]
      refine ih ?_
      split
      · exact once
      · rename_i fresh
        exact List.nodup_append.mpr ⟨once, List.nodup_singleton _, fun _ member _ other same =>
          fresh (List.mem_singleton.mp other ▸ same ▸ member)⟩

/-- The batches, each once, of the flagged windows which end by a stored row. -/
structure Batched (bracketing : Bracketing Value) (grid : WindowGrid) (base : Int)
    (rows : List (Point Value)) (flagged : BatchWindow → Prop) (batches : List (Batch Value)) :
    Prop where
  once : batches.Nodup
  mem_iff : ∀ batch, batch ∈ batches ↔ ∃ window, grid.IsWindow base window ∧ flagged window ∧
    EndsBy rows window ∧ batch = batchAt bracketing grid rows window.start

variable {flagged reached : BatchWindow → Prop} {batches : List (Batch Value)}

omit [DecidableEq Value] in
theorem Batched.of_empty : Batched bracketing grid base ([] : List (Point Value)) flagged [] where
  once := List.nodup_nil
  mem_iff _ := iff_of_false List.not_mem_nil fun ⟨_, _, _, ⟨_, member, _⟩, _⟩ =>
    List.not_mem_nil member

omit [DecidableEq Value] in
theorem Batched.ne_nil_iff (batched : Batched bracketing grid base rows flagged batches) :
    batches ≠ [] ↔ ∃ window, grid.IsWindow base window ∧ flagged window ∧ EndsBy rows window := by
  constructor
  · intro filled
    obtain ⟨batch, member⟩ := List.exists_mem_of_ne_nil _ filled
    obtain ⟨window, isWindow, flags, ends, -⟩ := (batched.mem_iff batch).mp member
    exact ⟨window, isWindow, flags, ends⟩
  · rintro ⟨window, isWindow, flags, ends⟩
    exact List.ne_nil_of_mem ((batched.mem_iff _).mpr ⟨window, isWindow, flags, ends, rfl⟩)

omit [DecidableEq Value] in
/-- Some flagged windows have those batches of all the windows which are theirs. -/
theorem Batched.mem_iff_of_all {all : List (Batch Value)}
    (batched : Batched bracketing grid base rows flagged batches)
    (whole : Batched bracketing grid base rows (fun _ => True) all) (batch : Batch Value) :
    batch ∈ batches ↔ batch ∈ all ∧ ∃ window, windowOf batch = some window ∧ flagged window := by
  rw [batched.mem_iff, whole.mem_iff]
  constructor
  · rintro ⟨window, isWindow, flags, ends, rfl⟩
    exact ⟨⟨window, isWindow, trivial, ends, rfl⟩, window, windowOf_batchAt isWindow, flags⟩
  · rintro ⟨⟨window, isWindow, -, ends, rfl⟩, other, same, flags⟩
    obtain rfl := Option.some.inj ((windowOf_batchAt isWindow).symm.trans same)
    exact ⟨window, isWindow, flags, ends, rfl⟩

/-- Behind a commit the windows found now are built; with those which were whole before they are all
that are flagged by then. -/
theorem Batched.build {later : List (Point Value)}
    (batched : Batched bracketing grid base rows flagged batches)
    (past : ∀ row ∈ rows, ∀ next ∈ later, row.1 < next.1)
    (kept : ∀ window, flagged window → reached window) {found : BatchWindow → Prop}
    (known : ∀ window, found window → grid.IsWindow base window ∧ reached window)
    (covers : ∀ window, grid.IsWindow base window → reached window →
      flagged window ∧ EndsBy rows window ∨ found window)
    {built : List (BatchWindow × Batch Value)}
    (mem_built : ∀ window batch, (window, batch) ∈ built ↔ found window ∧
      EndsBy (rows ++ later) window ∧
        batch = batchAt bracketing grid (rows ++ later) window.start) :
    Batched bracketing grid base (rows ++ later) reached
      (insertUnprocessedBatches batches (built.map Prod.snd)) where
  once := nodup_insertUnprocessedBatches batched.once _
  mem_iff batch := by
    rw [mem_insertUnprocessedBatches, batched.mem_iff]
    constructor
    · rintro (⟨window, isWindow, flags, ends, rfl⟩ | member)
      · exact ⟨window, isWindow, kept window flags, ends.append,
          (batchAt_append isWindow ends past).symm⟩
      · obtain ⟨⟨window, other⟩, cut, rfl⟩ := List.mem_map.mp member
        obtain ⟨finds, ends, same⟩ := (mem_built _ _).mp cut
        obtain ⟨isWindow, reaches⟩ := known window finds
        exact ⟨window, isWindow, reaches, ends, same⟩
    · rintro ⟨window, isWindow, reaches, ends, rfl⟩
      rcases covers window isWindow reaches with ⟨flags, whole⟩ | finds
      · exact .inl ⟨window, isWindow, flags, whole, batchAt_append isWindow whole past⟩
      · exact .inr (List.mem_map.mpr ⟨(window, _), (mem_built _ _).mpr ⟨finds, ends, rfl⟩, rfl⟩)

/-- A rebuild has the batches of all windows. -/
theorem batched_rebuilt (bracketing : Bracketing Value) (step : 0 < grid.stepMillis)
    (calendar : (grid.lastMillis - grid.firstMillis).toNat + 1 < 2 ^ 63)
    (representable : ∀ row ∈ rows, grid.Representable row.1) (first : earliest rows = some base) :
    ∃ rebuilt, buildUnprocessedQueue bracketing grid rows [] = some rebuilt ∧
      Batched bracketing grid base rows (fun _ => True) rebuilt := by
  obtain ⟨⟨low, low_mem, rfl⟩, least⟩ := earliest_eq_some.mp first
  obtain ⟨last, last_eq⟩ := exists_latest (List.ne_nil_of_mem low_mem)
  obtain ⟨⟨high, high_mem, rfl⟩, greatest⟩ := latest_eq_some.mp last_eq
  have ends_iff (window : BatchWindow) :
      EndsBy rows window ↔ low.1 < high.1 ∧ window.finish ≤ high.1 := by
    constructor
    · rintro ⟨row, row_mem, ends, other, other_mem, before⟩
      have above := greatest row row_mem
      exact ⟨((least other other_mem).trans_lt before).trans_le above, ends.trans above⟩
    · exact fun ⟨more, ends⟩ => ⟨high, high_mem, ends, low, low_mem, more⟩
  refine ⟨insertUnprocessedBatches [] (slidingWindowBatches grid.batchSize (analyzeRange
      (bracketing.interpolator grid.stepMillis) grid.stepMillis rows low.1 high.1)),
    by simp only [buildUnprocessedQueue, first, last_eq],
    nodup_insertUnprocessedBatches List.nodup_nil _, fun batch => ?_⟩
  simp only [mem_insertUnprocessedBatches, List.not_mem_nil, false_or, ends_iff, true_and]
  by_cases more : low.1 < high.1
  · rw [mem_slidingWindowBatches step calendar (List.mem_map_of_mem low_mem)
      (List.mem_map_of_mem high_mem) (representable low low_mem) (representable high high_mem) more]
    simp only [more, true_and]
  · rw [analyzeRange_of_le (not_lt.mp more), slidingWindowBatches,
      if_neg fun sized => sized.1.not_ge sized.2]
    simp [more]

end Store

end WeftDb.Rebuild
