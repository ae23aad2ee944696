import WeftDb.Batching.IncrementalBuild

/-!
# The batches of a seal-backed aspect

A seal-backed aspect rebuilds every window behind each commit until one of them is whole.  From then
on a run only builds the windows which the span of a commit touches; those of them which are not
whole yet keep their change in the log.
-/

namespace WeftDb.Rebuild

open ChangeConsumer Outputs

variable {Value : Type} {bracketing : Bracketing Value} {grid : WindowGrid}
  {rows later : List (Point Value)} {base : Int} {window : BatchWindow}

/-- Whether a window starts by the last of some rows and ends behind the first. -/
def Touches (rows : List (Point Value)) (window : BatchWindow) : Prop :=
  (∃ row ∈ rows, window.start ≤ row.1) ∧ ∃ row ∈ rows, row.1 < window.finish

/-- Whether some window of the grid ends by the rows. -/
def SomeWhole (grid : WindowGrid) (base : Int) (rows : List (Point Value)) : Prop :=
  ∃ window, grid.IsWindow base window ∧ EndsBy rows window

/-- Whether a window counts from a commit on: while none was whole before, each which is whole behind
it; else each which the commit touches. -/
def Counts (grid : WindowGrid) (base : Int) (rows commit : List (Point Value))
    (window : BatchWindow) : Prop :=
  SomeWhole grid base rows ∧ Touches commit window ∨
    ¬SomeWhole grid base rows ∧ EndsBy (rows ++ commit) window

/-- Whether a window may count from a commit on: the commit's span meets it, its end included, or it
is whole behind the commit while none was before. -/
def MayCount (grid : WindowGrid) (base : Int) (rows commit : List (Point Value))
    (window : BatchWindow) : Prop :=
  ((∃ row ∈ commit, window.start ≤ row.1) ∧ ∃ row ∈ commit, row.1 ≤ window.finish) ∨
    ¬SomeWhole grid base rows ∧ EndsBy (rows ++ commit) window

theorem Counts.mayCount {commit : List (Point Value)} (counts : Counts grid base rows commit window) :
    MayCount grid base rows commit window :=
  counts.imp_left fun ⟨_, starts, row, member, ends⟩ => ⟨starts, row, member, ends.le⟩

/-- Whether a window counts, in some sense, from one of the commits behind the rows on. -/
def Reached (counts : List (Point Value) → List (Point Value) → BatchWindow → Prop) :
    List (Point Value) → List (List (Point Value)) → BatchWindow → Prop
  | _, [], _ => False
  | rows, commit :: commits, window =>
      counts rows commit window ∨ Reached counts (rows ++ commit) commits window

theorem Reached.mono {counts more : List (Point Value) → List (Point Value) → BatchWindow → Prop}
    (weaker : ∀ {rows commit}, counts rows commit window → more rows commit window)
    {commits : List (List (Point Value))} (reached : Reached counts rows commits window) :
    Reached more rows commits window := by
  induction commits generalizing rows with
  | nil => exact reached
  | cons commit commits ih => exact reached.imp weaker ih

/-- Past the first window, the windows of a change are those which its commit touches. -/
theorem mem_changeWindows {epoch : Nat} (representable : ∀ row ∈ later, grid.Representable row.1)
    (behind : ∀ row ∈ later, base ≤ row.1 ∧ base + grid.windowDurationMillis ≤ row.1) :
    window ∈ Aspect.changeWindows grid base (Commit.change ⟨epoch, later⟩) ↔
      grid.IsWindow base window ∧ Touches later window := by
  by_cases empty : later = []
  · subst empty
    simp [Aspect.changeWindows, Commit.change, Touches]
  obtain ⟨low, low_mem, least, min_eq⟩ : ∃ low ∈ later, (∀ row ∈ later, low.1 ≤ row.1) ∧
      (Commit.change (⟨epoch, later⟩ : Commit Value)).minTs = some low.1 := by
    obtain ⟨minTs, found⟩ : ∃ minTs, earliest later = some minTs :=
      Option.ne_none_iff_exists'.mp fun none =>
        empty (List.map_eq_nil_iff.mp (List.min?_eq_none_iff.mp none))
    obtain ⟨⟨low, member, rfl⟩, least⟩ := earliest_eq_some.mp found
    exact ⟨low, member, least, found⟩
  obtain ⟨high, high_mem, greatest, max_eq⟩ : ∃ high ∈ later, (∀ row ∈ later, row.1 ≤ high.1) ∧
      (Commit.change (⟨epoch, later⟩ : Commit Value)).maxTs = some high.1 := by
    obtain ⟨maxTs, found⟩ := exists_latest empty
    obtain ⟨⟨high, member, rfl⟩, greatest⟩ := latest_eq_some.mp found
    exact ⟨high, member, greatest, found⟩
  have span : Touches later window ↔ low.1 < window.finish ∧ window.start ≤ high.1 := by
    constructor
    · rintro ⟨⟨last, last_mem, starts⟩, first, first_mem, ends⟩
      exact ⟨(least first first_mem).trans_lt ends, starts.trans (greatest last last_mem)⟩
    · rintro ⟨ends, starts⟩
      exact ⟨⟨high, high_mem, starts⟩, low, low_mem, ends⟩
  simp only [Aspect.changeWindows, min_eq, max_eq]
  rw [if_pos ⟨representable low low_mem, representable high high_mem⟩, span,
    WindowGrid.calculateAffectedWindowsForRange]
  by_cases sized : grid.Sized
  · rw [if_pos ⟨sized, least high high_mem⟩,
      WindowGrid.mem_windowsTouched_of_le sized (behind high high_mem).1]
    exact and_congr_right fun _ => and_congr_right fun _ => and_iff_left fun edge =>
      edge.2.2.not_ge (behind low low_mem).2
  · rw [if_neg fun both => sized both.1]
    exact iff_of_false List.not_mem_nil fun found => sized found.1.1

theorem mem_ackSealChanges {changes : List SegmentChange} {built : List BatchWindow}
    (sorted : changes.Pairwise fun left right => left.epoch < right.epoch)
    {change : SegmentChange} (member : change ∈ changes)
    (touches : window ∈ Aspect.changeWindows grid base change) (unbuilt : window ∉ built) :
    change ∈ SealBacked.ackSealChanges changes (Aspect.ackThrough grid base built changes) := by
  cases acked : Aspect.ackThrough grid base built changes with
  | none => exact member
  | some epoch =>
      refine List.mem_filter.mpr ⟨member, decide_eq_true (Nat.not_le.mp fun through => ?_)⟩
      exact unbuilt ((Aspect.ackThrough_eq_some sorted acked).2 change member through window touches)

theorem ackSealChanges_sublist (changes : List SegmentChange) (through : Option Nat) :
    (SealBacked.ackSealChanges changes through).Sublist changes := by
  cases through with
  | none => exact List.Sublist.refl _
  | some epoch => exact List.filter_sublist

namespace SealBacked

/-- What holds of a seal-backed aspect behind each run; `flags` are the windows which count. -/
structure Keeps (bracketing : Bracketing Value) (grid : WindowGrid) (base : Int)
    (flags : BatchWindow → Prop) (aspect : SealBacked Value) : Prop where
  representable : ∀ row ∈ aspect.rows, grid.Representable row.1
  batched : Batched bracketing grid base aspect.rows flags aspect.batches
  found : SomeWhole grid base aspect.rows → aspect.batches ≠ []
  fresh : aspect.batches = [] → aspect.log = []
  sorted : aspect.log.Pairwise fun left right => left.epoch < right.epoch
  epochs : ∀ change ∈ aspect.log, change.epoch ≤ aspect.epoch
  logged : ∀ window, grid.IsWindow base window → flags window →
    EndsBy aspect.rows window ∨
      ∃ change ∈ aspect.log, window ∈ Aspect.changeWindows grid base change
  known : ∀ change ∈ aspect.log, ∀ window ∈ Aspect.changeWindows grid base change,
    Buildable grid base window ∧ flags window

variable {flags : BatchWindow → Prop} {aspect : SealBacked Value}

theorem keeps_empty (bracketing : Bracketing Value) (grid : WindowGrid) (base : Int) :
    (empty Value).Keeps bracketing grid base fun _ => False where
  representable := List.forall_mem_nil _
  batched := .of_empty
  found := fun ⟨_, _, _, member, _⟩ => absurd member List.not_mem_nil
  fresh _ := rfl
  sorted := .nil
  epochs := List.forall_mem_nil _
  logged _ _ := False.elim
  known := List.forall_mem_nil _

theorem Keeps.filled_iff (keeps : aspect.Keeps bracketing grid base flags) :
    aspect.batches ≠ [] ↔ SomeWhole grid base aspect.rows := by
  refine ⟨fun filled => ?_, keeps.found⟩
  obtain ⟨window, isWindow, -, ends⟩ := keeps.batched.ne_nil_iff.mp filled
  exact ⟨window, isWindow, ends⟩

variable [DecidableEq Value] (keeps : aspect.Keeps bracketing grid base flags)
  (representable : ∀ row ∈ later, grid.Representable row.1)
  (past : ∀ row ∈ aspect.rows, ∀ next ∈ later, row.1 < next.1)
  (first : earliest (aspect.rows ++ later) = some base)

include keeps representable first

/-- While no batch exists the run rebuilds every window. -/
theorem Keeps.rebuild (fresh : aspect.batches = []) (step : 0 < grid.stepMillis)
    (calendar : (grid.lastMillis - grid.firstMillis).toNat + 1 < 2 ^ 63) :
    ∃ after, aspect.step bracketing grid later = some after ∧ after.rows = aspect.rows ++ later ∧
      after.Keeps bracketing grid base fun window =>
        flags window ∨ Counts grid base aspect.rows later window := by
  have representable := List.forall_mem_append.mpr ⟨keeps.representable, representable⟩
  have none_whole : ¬SomeWhole grid base aspect.rows := fun whole => keeps.found whole fresh
  obtain ⟨rebuilt, done, batched⟩ :=
    batched_rebuilt bracketing step calendar representable first
  refine ⟨⟨aspect.rows ++ later, aspect.epoch + 1, [], rebuilt⟩, ?_, rfl, ?_⟩
  · unfold SealBacked.step buildIncrementalFromChangeLog
    rw [if_neg fun both => both.2 fresh, if_pos (show (aspect.commit later).batches = [] from fresh)]
    simp only [commit, keeps.fresh fresh, fresh, done, ackSealChanges, Commit.change,
      List.nil_append, List.getLast?_singleton, Option.map_some, List.filter_cons, lt_irrefl,
      decide_false, List.filter_nil]
    rfl
  · exact {
      representable
      batched.once := batched.once
      batched.mem_iff := fun batch => by
        rw [batched.mem_iff]
        refine exists_congr fun window => and_congr_right fun _ => and_congr_left fun whole => ?_
        exact iff_of_true trivial (.inr (.inr ⟨none_whole, whole.1⟩))
      found := fun ⟨window, isWindow, ends⟩ =>
        batched.ne_nil_iff.mpr ⟨window, isWindow, trivial, ends⟩
      fresh := fun _ => rfl
      sorted := .nil
      epochs := List.forall_mem_nil _
      logged := by
        rintro window isWindow (before | ⟨whole, -⟩ | ⟨-, ends⟩)
        · rcases keeps.logged window isWindow before with ends | ⟨change, member, -⟩
          · exact .inl ends.append
          · exact absurd (keeps.fresh fresh ▸ member) List.not_mem_nil
        · exact absurd whole none_whole
        · exact .inl ends
      known := List.forall_mem_nil _ }

include past

omit [DecidableEq Value] keeps in
/-- Once a window is whole, the windows of the change of a commit are those which it touches. -/
theorem mem_newChange (whole : SomeWhole grid base aspect.rows) {epoch : Nat} :
    window ∈ Aspect.changeWindows grid base (Commit.change (⟨epoch, later⟩ : Commit Value)) ↔
      Buildable grid base window ∧ Touches later window := by
  obtain ⟨early, isWindow, row, row_mem, ends, -⟩ := whole
  obtain ⟨index, starts, finish_eq⟩ := exists_index isWindow
  have positive := isWindow.1.1
  have behind (next : Point Value) (member : next ∈ later) :
      base < next.1 ∧ base + grid.windowDurationMillis ≤ next.1 := by
    have from_base := (earliest_eq_some.mp first).2 row (List.mem_append_left _ row_mem)
    have after := past row row_mem next member
    have index_nonneg : 0 ≤ index * grid.stepMillis :=
      mul_nonneg (Int.natCast_nonneg index) isWindow.1.2.2.le
    rw [WindowGrid.windowDurationMillis, ← Nat.cast_pred positive]
    omega
  rw [mem_changeWindows representable fun next member =>
    ⟨(behind next member).1.le, (behind next member).2⟩]
  refine and_congr_left fun touches => ⟨fun isWindow => ⟨isWindow, ?_⟩, Buildable.isWindow⟩
  obtain ⟨next, member, ends⟩ := touches.2
  exact (behind next member).1.trans ends

/-- Once a batch exists the run builds the windows which logged changes touch. -/
theorem Keeps.extend (filled : aspect.batches ≠ []) (some_later : later ≠ [])
    (reads : aspect.ReadsBracketed grid later) :
    ∃ after, aspect.step bracketing grid later = some after ∧ after.rows = aspect.rows ++ later ∧
      after.Keeps bracketing grid base fun window =>
        flags window ∨ Counts grid base aspect.rows later window := by
  have whole := keeps.filled_iff.mp filled
  obtain ⟨last, found⟩ := exists_latest (List.append_ne_nil_of_right_ne_nil aspect.rows some_later)
  obtain ⟨-, greatest⟩ := latest_eq_some.mp found
  set changes := (aspect.commit later).log with changes_eq
  have sorted : changes.Pairwise fun left right => left.epoch < right.epoch := by
    refine List.pairwise_append.mpr ⟨keeps.sorted, List.pairwise_singleton _ _, ?_⟩
    intro earlier member next same
    obtain rfl := List.mem_singleton.mp same
    exact Nat.lt_succ_of_le (keeps.epochs earlier member)
  have known (change) (member : change ∈ changes) (window)
      (touches : window ∈ Aspect.changeWindows grid base change) : Buildable grid base window ∧
        (flags window ∨ Counts grid base aspect.rows later window) := by
    rcases List.mem_append.mp member with old | new
    · exact (keeps.known change old window touches).imp_right .inl
    · obtain rfl := List.mem_singleton.mp new
      exact ((mem_newChange representable past first whole).mp touches).imp_right fun touches =>
        .inr (.inl ⟨whole, touches⟩)
  have touched (window) (isWindow : grid.IsWindow base window)
      (counts : flags window ∨ Counts grid base aspect.rows later window) :
      flags window ∧ EndsBy aspect.rows window ∨
        ∃ change ∈ changes, window ∈ Aspect.changeWindows grid base change := by
    rcases counts with before | ⟨-, touches⟩ | ⟨none, -⟩
    · rcases keeps.logged window isWindow before with ends | ⟨change, member, touches⟩
      · exact .inl ⟨before, ends⟩
      · exact .inr ⟨change, List.mem_append_left _ member, touches⟩
    · refine .inr ⟨_, List.mem_append_right _ List.mem_cons_self,
        (mem_newChange representable past first whole).mpr ⟨⟨isWindow, ?_⟩, touches⟩⟩
      obtain ⟨row, member, ends⟩ := touches.2
      exact ((earliest_eq_some.mp first).2 row (List.mem_append_right _ member)).trans_lt ends
    · exact absurd whole none
  have mem_built (window : BatchWindow) (batch : Batch Value) := by
    refine @mem_buildAffected _ bracketing grid _ base window last _ first found
      (fun window member => ?_) (reads filled base first last found) batch
    obtain ⟨change, member, touches⟩ := List.mem_flatMap.mp (List.mem_dedup.mp member)
    exact (known change member window touches).1
  simp only [List.mem_dedup, List.mem_flatMap] at mem_built
  have batched := keeps.batched.build past (fun _ => .inl)
    (fun window ⟨change, member, touches⟩ =>
      (known change member window touches).imp_left Buildable.isWindow) touched mem_built
  have kept := batched.ne_nil_iff.mpr <| by
    obtain ⟨window, isWindow, before, ends⟩ := keeps.batched.ne_nil_iff.mp filled
    exact ⟨window, isWindow, .inl before, ends.append⟩
  unfold SealBacked.step buildIncrementalFromChangeLog
  rw [if_neg fun both => List.append_ne_nil_of_right_ne_nil _ (by simp) both.1,
    if_neg (show ¬(aspect.commit later).batches = [] from filled),
    show earliest (aspect.commit later).rows = some base from first,
    show latest (aspect.commit later).rows = some last from found]
  refine ⟨_, rfl, rfl, {
    representable := List.forall_mem_append.mpr ⟨keeps.representable, representable⟩
    batched := batched
    found := fun _ => kept
    fresh := fun empty => absurd empty kept
    sorted := sorted.sublist (ackSealChanges_sublist _ _)
    epochs := fun other member => ?_
    logged := fun window isWindow counts => ?_
    known := fun change member => known change ((ackSealChanges_sublist _ _).mem member) }⟩
  · rcases List.mem_append.mp ((ackSealChanges_sublist _ _).mem member) with old | new
    · exact (keeps.epochs other old).trans (Nat.le_succ _)
    · exact (List.mem_singleton.mp new) ▸ le_rfl
  · rcases touched window isWindow counts with ⟨-, ends⟩ | ⟨change, member, touches⟩
    · exact .inl ends.append
    · by_cases ends : EndsBy (aspect.rows ++ later) window
      · exact .inl ends
      · refine .inr ⟨change, mem_ackSealChanges sorted member touches fun built => ends ?_, touches⟩
        obtain ⟨⟨other, batch⟩, cut, rfl⟩ := List.mem_map.mp built
        exact ((mem_built _ _).mp cut).2.1

omit representable past first in
theorem Keeps.run (step : 0 < grid.stepMillis)
    (calendar : (grid.lastMillis - grid.firstMillis).toNat + 1 < 2 ^ 63)
    (commits : List (List (Point Value))) (appendOnly : AppendOnly grid aspect.rows commits)
    (first : earliest (aspect.rows ++ commits.flatten) = some base)
    (meets : Execution.Meets (SealBacked.step bracketing grid) (ReadsBracketed grid) aspect
      commits) :
    ∃ after, Execution.run (SealBacked.step bracketing grid) aspect commits = some after ∧
      after.rows = aspect.rows ++ commits.flatten ∧ after.Keeps bracketing grid base fun window =>
        flags window ∨ Reached (Counts grid base) aspect.rows commits window := by
  induction commits generalizing aspect flags with
  | nil => exact ⟨aspect, rfl, (List.append_nil _).symm, by simpa only [Reached, or_false]⟩
  | cons commit commits ih =>
      rw [List.flatten_cons, ← List.append_assoc] at first ⊢
      obtain ⟨⟨filled, representable, past⟩, rest⟩ := appendOnly
      have first_now := earliest_of_append (List.append_ne_nil_of_right_ne_nil _ filled)
        (fun row member next later => (rest.of_mem_flatten later).2 row member) first
      obtain ⟨middle, done, rows_eq, kept⟩ : ∃ after,
          aspect.step bracketing grid commit = some after ∧ after.rows = aspect.rows ++ commit ∧
            after.Keeps bracketing grid base fun window =>
              flags window ∨ Counts grid base aspect.rows commit window := by
        by_cases fresh : aspect.batches = []
        · exact keeps.rebuild representable first_now fresh step calendar
        · exact keeps.extend representable past first_now fresh filled meets.1
      rw [← rows_eq] at rest first ⊢
      obtain ⟨after, finished, all, kept⟩ := ih kept rest first (meets.cons done).2
      refine ⟨after, Execution.run_cons_eq_some.mpr ⟨middle, done, finished⟩, all, ?_⟩
      simpa only [Reached, or_assoc, rows_eq] using kept

end SealBacked

end WeftDb.Rebuild
