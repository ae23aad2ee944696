import WeftDb.Batching.ChangeCoverage

/-!
# The change log is acknowledged behind its batches

Every step keeps the invariant of `ChangeCoverage`, as long as no run aligns a change whose span
starts at the edge of the first window, and no first run reads a row with a window past the end of
the data.  So a change leaves the log only when each window of its span was built, and takes no
later one with it.
-/

namespace WeftDb.ChangeConsumer

open Outputs

variable {Value : Type}
variable {points : List (Point Value)} {window : BatchWindow} {base latest : Int}

/-- The changes which a run is about to align on the earliest row. -/
def Consumer.aligning : Consumer Value → List SegmentChange
  | .counted changes => changes
  | _ => []

/-- The changes of a first run, and its base. -/
def Consumer.rebuilds : Consumer Value → Option (List SegmentChange × Int)
  | .rebuilding changes base => some (changes, base)
  | _ => none

/-- No run aligns a change whose span starts at the edge of the first window. -/
def AwayFromEdge (grid : WindowGrid) (aspect : Aspect Value) : Action Value → Prop
  | .readEarliest _ =>
      ∀ change ∈ aspect.consumer.aligning, ∀ minTs ∈ change.minTs,
        ∀ base ∈ aspect.earliest grid, ¬grid.AtEdge base minTs
  | _ => True

instance (grid : WindowGrid) (aspect : Aspect Value) :
    ∀ action, Decidable (AwayFromEdge grid aspect action)
  | .readEarliest _ =>
      inferInstanceAs (Decidable (∀ change ∈ aspect.consumer.aligning, ∀ minTs ∈ change.minTs,
        ∀ base ∈ aspect.earliest grid, ¬grid.AtEdge base minTs))
  | .commitRows _ _ | .extract _ | .readChanges | .countBatches | .readLatest | .build
  | .storeBatches | .ackChanges | .stopConsumer => inferInstanceAs (Decidable True)

/-- No first run reads a row with a window which ends after the stored data. -/
def FirstRunComplete (grid : WindowGrid) (aspect : Aspect Value) : Action Value → Prop
  | .readLatest =>
      ∀ rebuilt ∈ aspect.consumer.rebuilds, ∀ latest ∈ aspect.latest grid,
        ∀ change ∈ rebuilt.1, ∀ commit ∈ aspect.commits, commit.epoch = change.epoch →
          ∀ row ∈ commit.rows,
            ∀ window ∈ grid.windowsBetween rebuilt.2 0 (grid.latestWindowIndex rebuilt.2 row.1),
              window.Contains row.1 → window.finish ≤ latest
  | _ => True

instance (grid : WindowGrid) (aspect : Aspect Value) :
    ∀ action, Decidable (FirstRunComplete grid aspect action)
  | .readLatest =>
      inferInstanceAs (Decidable (∀ rebuilt ∈ aspect.consumer.rebuilds,
        ∀ latest ∈ aspect.latest grid, ∀ change ∈ rebuilt.1, ∀ commit ∈ aspect.commits,
          commit.epoch = change.epoch → ∀ row ∈ commit.rows,
            ∀ window ∈ grid.windowsBetween rebuilt.2 0 (grid.latestWindowIndex rebuilt.2 row.1),
              window.Contains row.1 → window.finish ≤ latest))
  | .commitRows _ _ | .extract _ | .readChanges | .countBatches | .readEarliest _ | .build
  | .storeBatches | .ackChanges | .stopConsumer => inferInstanceAs (Decidable True)

theorem windowOf_take {batchSize first : Nat} {start finish : Int} (positive : 0 < batchSize)
    (starts : (points.map Prod.fst)[first]? = some start)
    (ends : (points.map Prod.fst)[first + (batchSize - 1)]? = some finish) :
    windowOf ((points.drop first).take batchSize) = some ⟨start, finish⟩ := by
  rw [List.getElem?_map] at starts ends
  obtain ⟨head, head_at, rfl⟩ := Option.map_eq_some_iff.mp starts
  obtain ⟨last, last_at, rfl⟩ := Option.map_eq_some_iff.mp ends
  have head_eq : ((points.drop first).take batchSize).head? = some head := by
    rw [List.head?_take, if_neg positive.ne', List.head?_drop, head_at]
  have last_eq : ((points.drop first).take batchSize).getLast? = some last := by
    rw [List.getLast?_take, if_neg positive.ne', List.getElem?_drop, last_at, Option.some_or]
  rw [windowOf, head_eq, last_eq]

theorem mem_rebuildWindows {grid : WindowGrid} (isWindow : grid.IsWindow base window)
    (steps : points.map Prod.fst = stepsOf grid.stepMillis base latest)
    (ends : window.finish ≤ latest) :
    ∃ batch, (window, batch) ∈ rebuildWindows grid.batchSize points := by
  obtain ⟨⟨positive, -, step_pos⟩, index, nonneg, found⟩ := isWindow
  obtain ⟨first, rfl⟩ := Int.eq_ofNat_of_zero_le nonneg
  obtain ⟨starts, finishes⟩ := WindowGrid.eq_of_windowAt found
  have last : ((first + (grid.batchSize - 1) : Nat) : Int) * grid.stepMillis =
      first * grid.stepMillis + grid.windowDurationMillis := by
    rw [WindowGrid.windowDurationMillis, ← add_mul]
    congr 1
    omega
  have within : ((first + (grid.batchSize - 1) : Nat) : Int) ≤
      (latest - base) / grid.stepMillis :=
    (Int.le_ediv_iff_mul_le step_pos).mpr (by omega)
  have at_offset (offset : Nat) (inside : offset ≤ first + (grid.batchSize - 1)) :
      (points.map Prod.fst)[offset]? = some (base + offset * grid.stepMillis) := by
    rw [steps, stepsOf, List.getElem?_map, List.getElem?_range (by omega)]
    rfl
  have enough : first + (grid.batchSize - 1) < points.length := by
    have length := congrArg List.length steps
    rw [stepsOf, List.length_map, List.length_map, List.length_range] at length
    omega
  refine ⟨(points.drop first).take grid.batchSize, List.mem_filterMap.mpr
    ⟨(points.drop first).take grid.batchSize, ?_, ?_⟩⟩
  · rw [slidingWindowBatches, if_pos ⟨positive, by omega⟩]
    exact List.mem_map.mpr ⟨first, List.mem_range.mpr (by omega), rfl⟩
  · have cut := windowOf_take positive (at_offset first (by omega)) (at_offset _ le_rfl)
    rw [last, ← add_assoc, ← finishes, ← starts] at cut
    rw [cut]
    rfl

namespace Aspect

variable {grid : WindowGrid} {before after : Aspect Value}
variable {epoch : Nat} {changes : List SegmentChange} {change : SegmentChange}
  {commit : Commit Value} {timestamp : Int} {method : Interpolator Value}

/-- What a step keeps which neither commits nor acknowledges. -/
structure Keeps (before after : Aspect Value) : Prop where
  commits : after.commits = before.commits
  log : after.log = before.log
  acknowledged : after.acknowledged = before.acknowledged
  stored : ∀ batch ∈ before.stored, batch ∈ after.stored

section

variable (keeps : before.Keeps after)

include keeps

theorem Keeps.timestamps : after.timestamps = before.timestamps := by
  simp only [Aspect.timestamps, rows, keeps.commits]

theorem Keeps.built {less more : List BuiltBatch} (built : before.Built grid less base epoch)
    (subset : ∀ batch ∈ less, batch ∈ more) : after.Built grid more base epoch := by
  intro commit member same timestamp spans window isWindow contains
  rw [keeps.commits] at member ⊢
  rw [keeps.timestamps]
  obtain ⟨complete, batch, batch_mem, rest⟩ :=
    built commit member same timestamp spans window isWindow contains
  exact ⟨complete, batch, subset batch batch_mem, rest⟩

theorem Keeps.readsLog (reads : before.ReadsLog changes) : after.ReadsLog changes where
  sorted := reads.sorted
  earlier := keeps.log ▸ reads.earlier
  known := keeps.commits ▸ reads.known

theorem Keeps.ready {less more : List (CutBatch Value)} (ready : before.Ready grid base less epoch)
    (subset : ∀ batch ∈ before.stored ++ less.map CutBatch.built,
      batch ∈ after.stored ++ more.map CutBatch.built) : after.Ready grid base more epoch where
  known := keeps.commits ▸ ready.known
  built := by
    intro pending pending_mem le
    rw [keeps.log] at pending_mem
    exact keeps.built (ready.built pending pending_mem le) subset

theorem Keeps.holds {consumer : Consumer Value} (holds : consumer.Holds grid before) :
    consumer.Holds grid after := by
  have subset (left : List BuiltBatch) :
      ∀ batch ∈ before.stored ++ left, batch ∈ after.stored ++ left := by
    intro batch member
    rcases List.mem_append.mp member with member | member
    · exact List.mem_append_left _ (keeps.stored batch member)
    · exact List.mem_append_right _ member
  cases consumer with
  | idle => trivial
  | listed changes => exact keeps.readsLog holds
  | firstRun changes => exact keeps.readsLog holds
  | counted changes => exact keeps.readsLog holds
  | rebuilding changes base => exact ⟨keeps.readsLog holds.1, keeps.timestamps ▸ holds.2⟩
  | interpolating changes base latest =>
      obtain ⟨reads, base_mem, latest_mem, complete⟩ := holds
      exact ⟨keeps.readsLog reads, keeps.timestamps ▸ base_mem, keeps.timestamps ▸ latest_mem,
        keeps.commits ▸ complete⟩
  | aligned changes base => exact ⟨keeps.readsLog holds.1, holds.2⟩
  | building changes base latest pending cut =>
      obtain ⟨reads, latest_mem, covers, ends, batches⟩ := holds
      exact ⟨keeps.readsLog reads, keeps.timestamps ▸ latest_mem, keeps.commits ▸ covers, ends,
        keeps.commits ▸ batches⟩
  | storing base left ackThrough =>
      exact fun epoch member => keeps.ready (holds epoch member) (subset _)
  | acking base epoch => exact keeps.ready holds (subset _)

end

theorem Delivers.keeps (delivers : before.Delivers grid) (keeps : before.Keeps after)
    (once : (after.queued ++ after.extracted).Nodup)
    (holds : after.consumer.Holds grid after) : after.Delivers grid where
  epochs := keeps.commits ▸ delivers.epochs
  sorted := keeps.log ▸ delivers.sorted
  known := keeps.commits ▸ keeps.log ▸ delivers.known
  logged := by
    rw [keeps.commits, keeps.log, keeps.acknowledged]
    exact delivers.logged
  behind := by
    rw [keeps.acknowledged, keeps.log]
    exact delivers.behind
  committed := by
    rw [keeps.acknowledged, keeps.commits]
    exact delivers.committed
  built := by
    intro done member
    rw [keeps.acknowledged] at member
    exact keeps.built (delivers.built done member) keeps.stored
  once := once
  consumer := holds

theorem keeps_consumer (aspect : Aspect Value) (next : Consumer Value) :
    aspect.Keeps { aspect with consumer := next } :=
  ⟨rfl, rfl, rfl, fun _ member => member⟩

section

variable (delivers : before.Delivers grid)

include delivers

theorem Delivers.consume (next : Consumer Value) (holds : next.Holds grid before) :
    Delivers grid { before with consumer := next } :=
  delivers.keeps (before.keeps_consumer next) delivers.once
    ((before.keeps_consumer next).holds holds)

theorem Delivers.idle : Delivers grid { before with consumer := .idle } :=
  delivers.consume .idle trivial

theorem Delivers.commitRows {rows : List (Point Value)}
    (taken : before.commitRows epoch rows = some after) : after.Delivers grid := by
  unfold Aspect.commitRows at taken
  split at taken
  · next rising =>
      cases taken
      have committed : before.Commits
          { before with
            commits := before.commits ++ [⟨epoch, rows⟩]
            log := before.log ++ [Commit.change ⟨epoch, rows⟩] } :=
        ⟨⟨⟨epoch, rows⟩, rfl, rfl, rising⟩, rfl⟩
      have log_below : ∀ change ∈ before.log, change.epoch < epoch := by
        intro change change_mem
        obtain ⟨commit, commit_mem, rfl⟩ := delivers.known change change_mem
        exact rising commit commit_mem
      exact
        { epochs := List.pairwise_append.mpr ⟨delivers.epochs, List.pairwise_singleton _ _,
            fun commit commit_mem later later_mem =>
              List.mem_singleton.mp later_mem ▸ rising commit commit_mem⟩
          sorted := List.pairwise_append.mpr ⟨delivers.sorted, List.pairwise_singleton _ _,
            fun change change_mem later later_mem =>
              List.mem_singleton.mp later_mem ▸ log_below change change_mem⟩
          known := by
            intro change change_mem
            rcases List.mem_append.mp change_mem with change_mem | change_mem
            · obtain ⟨commit, commit_mem, same⟩ := delivers.known change change_mem
              exact ⟨commit, List.mem_append_left _ commit_mem, same⟩
            · exact ⟨⟨epoch, rows⟩, List.mem_append_right _ List.mem_cons_self,
                (List.mem_singleton.mp change_mem).symm⟩
          logged := by
            intro commit commit_mem
            rcases List.mem_append.mp commit_mem with commit_mem | commit_mem
            · exact (delivers.logged commit commit_mem).imp (List.mem_append_left _) id
            · obtain rfl := List.mem_singleton.mp commit_mem
              exact .inl (List.mem_append_right _ List.mem_cons_self)
          behind := by
            intro done done_mem change change_mem
            rcases List.mem_append.mp change_mem with change_mem | change_mem
            · exact delivers.behind done done_mem change change_mem
            · obtain rfl := List.mem_singleton.mp change_mem
              obtain ⟨commit, commit_mem, same⟩ := delivers.committed done done_mem
              exact same ▸ rising commit commit_mem
          committed := by
            intro done done_mem
            obtain ⟨commit, commit_mem, same⟩ := delivers.committed done done_mem
            exact ⟨commit, List.mem_append_left _ commit_mem, same⟩
          built := fun done done_mem =>
            committed.built (delivers.committed done done_mem) (delivers.built done done_mem)
          once := delivers.once
          consumer := committed.holds delivers.known delivers.consumer }
  · cases taken

theorem Delivers.extract (count : Nat) : (before.extract count).Delivers grid := by
  have keeps : before.Keeps (before.extract count) := ⟨rfl, rfl, rfl, fun _ member => member⟩
  refine delivers.keeps keeps ?_ (keeps.holds delivers.consumer)
  have moved : (before.queued.take count ++ (before.queued.drop count ++ before.extracted)).Perm
      ((before.queued.drop count ++ before.extracted) ++ before.queued.take count) :=
    List.perm_append_comm
  rw [← List.append_assoc, List.take_append_drop, List.append_assoc] at moved
  exact moved.nodup_iff.mp delivers.once

theorem Delivers.readChanges (taken : before.readChanges = some after) : after.Delivers grid := by
  unfold Aspect.readChanges at taken
  split at taken
  · cases taken
    have reads : before.ReadsLog before.log :=
      ⟨delivers.sorted, fun pending pending_mem _ _ _ => pending_mem, delivers.known⟩
    exact delivers.consume _ reads
  · cases taken

theorem Delivers.countBatches (taken : before.countBatches = some after) : after.Delivers grid := by
  unfold Aspect.countBatches at taken
  split at taken
  · next changes phase =>
      have holds := delivers.consumer
      rw [phase] at holds
      split at taken
      · cases taken
        exact delivers.consume (.firstRun changes) holds
      · split at taken
        · cases taken
          exact delivers.idle
        · cases taken
          exact delivers.consume (.counted changes) holds
  · cases taken

end

theorem ReadsLog.minTs_mem (reads : before.ReadsLog changes) (member : change ∈ changes)
    {minTs : Int} (least : minTs ∈ change.minTs) : minTs ∈ before.timestamps := by
  obtain ⟨commit, commit_mem, rfl⟩ := reads.known change member
  exact mem_timestamps_of_change commit_mem (List.min?_eq_some_iff.mp least).1

theorem Delivers.readEarliest (delivers : before.Delivers grid) {cached : Option Int}
    (away : AwayFromEdge grid before (.readEarliest cached))
    (taken : before.readEarliest grid cached = some after) : after.Delivers grid := by
  unfold Aspect.readEarliest at taken
  split at taken
  · next changes phase =>
      have holds := delivers.consumer
      rw [phase] at holds
      split at taken
      · next known =>
          split at taken
          · cases taken
            exact delivers.idle
          · next base found =>
              cases taken
              refine delivers.consume (.rebuilding changes base) ⟨holds, ?_⟩
              rcases Option.or_eq_some_iff.mp found with cached_eq | ⟨-, read⟩
              · exact (known base cached_eq).1
              · exact (earliest_eq_some read).2.1
      · cases taken
  · next changes phase =>
      have holds := delivers.consumer
      rw [phase] at holds
      split at taken
      · cases taken
        exact delivers.idle
      · next base read =>
          cases taken
          obtain ⟨representable, -, least⟩ := earliest_eq_some read
          have aligning : before.consumer.aligning = changes := by rw [phase]; rfl
          refine delivers.consume (.aligned changes base) ⟨holds, representable, ?_⟩
          intro change change_mem minTs minTs_mem
          exact ⟨least minTs (holds.minTs_mem change_mem minTs_mem),
            away change (aligning ▸ change_mem) minTs minTs_mem base read⟩
  · cases taken

theorem ReadsLog.change_eq (reads : before.ReadsLog changes)
    (epochs : before.commits.Pairwise fun left right => left.epoch < right.epoch)
    (member : change ∈ changes) (commit_mem : commit ∈ before.commits)
    (same : commit.epoch = change.epoch) : change = commit.change := by
  obtain ⟨known, known_mem, rfl⟩ := reads.known change member
  rw [eq_of_epoch_eq epochs commit_mem known_mem same]

theorem mem_changeWindows (commit_mem : commit ∈ before.commits)
    (base_representable : grid.Representable base) (last : before.latest grid = some latest)
    (away : ∀ minTs ∈ commit.change.minTs, base ≤ minTs ∧ ¬grid.AtEdge base minTs)
    (spans : commit.Spans timestamp) (isWindow : grid.IsWindow base window)
    (contains : window.Contains timestamp) : window ∈ changeWindows grid base commit.change := by
  obtain ⟨minTs, maxTs, least, greatest, after_min, before_max, max_mem⟩ := span_of_spans spans
  obtain ⟨latest_representable, -, max_le⟩ := latest_eq_some last
  obtain ⟨base_le, not_edge⟩ := away minTs least
  have inside := isWindow.representable contains
  have max_le := max_le maxTs (mem_timestamps_of_change commit_mem max_mem)
  have min_representable : grid.Representable minTs :=
    ⟨base_representable.1.trans base_le, after_min.trans inside.2⟩
  have max_representable : grid.Representable maxTs :=
    ⟨inside.1.trans before_max, max_le.trans latest_representable.2⟩
  simp only [changeWindows, least, greatest]
  rw [if_pos ⟨min_representable, max_representable⟩]
  exact isWindow.affected_range after_min before_max contains not_edge

theorem span_complete (last : before.latest grid = some latest)
    (commit_mem : commit ∈ before.commits)
    (complete : ∀ row ∈ commit.rows,
      ∀ window ∈ grid.windowsBetween base 0 (grid.latestWindowIndex base row.1),
        window.Contains row.1 → window.finish ≤ latest) (spans : commit.Spans timestamp)
    (isWindow : grid.IsWindow base window) (contains : window.Contains timestamp) :
    window.finish ≤ latest := by
  obtain ⟨-, -, row, row_mem, -, to_last⟩ := spans
  by_cases ends : window.finish ≤ row.1
  · exact ends.trans ((latest_eq_some last).2.2 row.1 (mem_timestamps commit_mem row_mem))
  · have inside : window.Contains row.1 := ⟨contains.1.trans to_last, Int.not_le.mp ends⟩
    obtain ⟨sized, index, nonneg, found⟩ := isWindow
    refine complete row row_mem window (WindowGrid.mem_windowsBetween.mpr
      ⟨index, nonneg, WindowGrid.index_le_latest sized nonneg ?_, found⟩) inside
    exact (WindowGrid.eq_of_windowAt found).1 ▸ inside.1

theorem Delivers.readLatest (delivers : before.Delivers grid)
    (complete : FirstRunComplete grid before .readLatest)
    (taken : before.readLatest grid = some after) : after.Delivers grid := by
  unfold Aspect.readLatest at taken
  split at taken
  · next changes base phase =>
      have holds := delivers.consumer
      rw [phase] at holds
      obtain ⟨reads, base_mem⟩ := holds
      split at taken
      · cases taken
        exact delivers.idle
      · next latest last =>
          cases taken
          have rebuilds : before.consumer.rebuilds = some (changes, base) := by rw [phase]; rfl
          refine delivers.consume (.interpolating changes base latest)
            ⟨reads, base_mem, (latest_eq_some last).2.1, ?_⟩
          intro change change_mem commit commit_mem same timestamp spans window isWindow contains
          exact span_complete last commit_mem
            (complete (changes, base) rebuilds latest last change change_mem commit commit_mem same)
            spans isWindow contains
  · next changes base phase =>
      have holds := delivers.consumer
      rw [phase] at holds
      obtain ⟨reads, representable, away⟩ := holds
      split at taken
      · cases taken
        exact delivers.idle
      · next latest last =>
          cases taken
          refine delivers.consume (.building changes base latest _ [])
            ⟨reads, (latest_eq_some last).2.1, ?_, ?_, ?_⟩
          · intro change change_mem commit commit_mem same timestamp spans window isWindow contains
            have change_eq := reads.change_eq delivers.epochs change_mem commit_mem same
            rw [change_eq]
            exact mem_changeWindows commit_mem representable last
              (change_eq ▸ away change change_mem) spans isWindow contains
          · intro window member
            rw [List.mem_insertionSort, List.mem_filter] at member
            exact of_decide_eq_true member.2
          · intro batch member
            cases member
  · cases taken

theorem ackThrough_eq_some {built : List BatchWindow}
    (sorted : changes.Pairwise fun left right => left.epoch < right.epoch)
    (acked : ackThrough grid base built changes = some epoch) :
    (∃ change ∈ changes, change.epoch = epoch) ∧
      ∀ change ∈ changes, change.epoch ≤ epoch →
        ∀ window ∈ changeWindows grid base change, window ∈ built := by
  induction changes generalizing epoch with
  | nil => cases acked
  | cons first changes ih =>
      obtain ⟨first_least, sorted⟩ := List.pairwise_cons.mp sorted
      unfold ackThrough at acked
      split at acked
      · next first_built =>
          cases rest : ackThrough grid base built changes with
          | none =>
              rw [rest] at acked
              cases acked
              refine ⟨⟨first, List.mem_cons_self, rfl⟩, fun change change_mem le => ?_⟩
              rcases List.mem_cons.mp change_mem with rfl | change_mem
              · exact first_built
              · exact absurd (first_least change change_mem) (Nat.not_lt_of_le le)
          | some last =>
              rw [rest] at acked
              cases acked
              obtain ⟨⟨change, change_mem, same⟩, covered⟩ := ih sorted rest
              refine ⟨⟨change, List.mem_cons_of_mem _ change_mem, same⟩,
                fun earlier earlier_mem le => ?_⟩
              rcases List.mem_cons.mp earlier_mem with rfl | earlier_mem
              · exact first_built
              · exact covered earlier earlier_mem le
      · cases acked

theorem rebuild_ready (everyStep : method.EveryStep grid.stepMillis)
    (holds : (Consumer.interpolating changes base latest).Holds grid before) {last : SegmentChange}
    (last_mem : last ∈ changes) :
    before.Ready grid base
      ((rebuildWindows grid.batchSize
        (analyzeRange method grid.stepMillis before.rows base latest)).map fun window =>
        ⟨⟨window.1, before.commits.length⟩, window.2⟩) last.epoch where
  known := holds.1.known_epoch last_mem
  built := by
    obtain ⟨reads, base_mem, latest_mem, complete⟩ := holds
    intro pending pending_mem le commit commit_mem same timestamp spans window isWindow contains
    have ends := complete pending (reads.earlier pending pending_mem last last_mem le) commit
      commit_mem same timestamp spans window isWindow contains
    have started : base ≤ window.start := by
      obtain ⟨sized, index, nonneg, found⟩ := isWindow
      have offset := mul_nonneg nonneg sized.2.2.le
      rw [(WindowGrid.eq_of_windowAt found).1]
      omega
    have before_latest : base < latest :=
      (started.trans contains.1).trans_lt (contains.2.trans_le ends)
    obtain ⟨batch, found⟩ := mem_rebuildWindows isWindow
      (analyzeRange_instants everyStep isWindow.1.2.2 before_latest latest_mem) ends
    refine ⟨⟨latest, latest_mem, ends⟩, ⟨window, before.commits.length⟩, ?_, rfl, ?_⟩
    · rw [List.map_map]
      exact List.mem_append_right _ (List.mem_map.mpr ⟨(window, batch), found, rfl⟩)
    · rw [List.take_length]
      exact commit_mem

theorem built_ready {pending : List BatchWindow} {cut : List (CutBatch Value)}
    (holds : (Consumer.building changes base latest pending cut).Holds grid before)
    (acked : ackThrough grid base (cut.map fun batch => batch.built.window) changes = some epoch) :
    before.Ready grid base cut epoch := by
  obtain ⟨reads, latest_mem, covers, -, batches⟩ := holds
  obtain ⟨⟨last, last_mem, rfl⟩, built⟩ := ackThrough_eq_some reads.sorted acked
  refine ⟨reads.known_epoch last_mem, ?_⟩
  intro change change_mem le commit commit_mem same timestamp spans window isWindow contains
  have read := reads.earlier change change_mem last last_mem le
  have found := built change read le window
    (covers change read commit commit_mem same timestamp spans window isWindow contains)
  obtain ⟨batch, batch_mem, rfl⟩ := List.mem_map.mp found
  obtain ⟨ends, behind⟩ := batches batch batch_mem
  exact ⟨⟨latest, latest_mem, ends⟩, batch.built,
    List.mem_append_right _ (List.mem_map_of_mem batch_mem), rfl,
    behind change read commit commit_mem same⟩

theorem Delivers.build (delivers : before.Delivers grid)
    (everyStep : method.EveryStep grid.stepMillis) (taken : before.build grid method = some after) :
    after.Delivers grid := by
  unfold Aspect.build at taken
  simp only at taken
  split at taken
  · next changes base latest phase =>
      have holds := delivers.consumer
      rw [phase] at holds
      cases taken
      refine delivers.consume (.storing base _ _) fun epoch acked => ?_
      obtain ⟨last, found, rfl⟩ := Option.map_eq_some_iff.mp acked
      exact rebuild_ready everyStep holds (List.mem_of_getLast? found)
  · next changes base latest cut phase =>
      have holds := delivers.consumer
      rw [phase] at holds
      cases taken
      exact delivers.consume (.storing base cut _) fun epoch acked =>
        built_ready holds acked
  · next changes base latest window windows cut phase =>
      have holds := delivers.consumer
      rw [phase] at holds
      obtain ⟨reads, latest_mem, covers, ends, batches⟩ := holds
      cases taken
      refine delivers.consume (.building changes base latest _ _)
        ⟨reads, latest_mem, covers, ?_, ?_⟩
      · intro later member
        exact ends later (List.mem_cons_of_mem _ (mem_overlapRun.mpr (.inr member)))
      · intro batch member
        rcases List.mem_append.mp member with member | member
        · exact batches batch member
        · obtain ⟨reached, reached_mem, rfl⟩ := List.mem_map.mp member
          refine ⟨ends reached.1 ?_, fun change change_mem commit commit_mem same => ?_⟩
          · rcases List.mem_cons.mp (mem_of_mem_buildRun reached_mem) with first | overlapping
            · exact first ▸ List.mem_cons_self
            · exact List.mem_cons_of_mem _ (mem_overlapRun.mpr (.inl overlapping))
          · rw [List.take_length]
            exact commit_mem
  · cases taken

theorem foldl_storeBatch [DecidableEq Value] (cuts : List (CutBatch Value))
    (before : Aspect Value) :
    before.Keeps (cuts.foldl storeBatch before) ∧
      (cuts.foldl storeBatch before).stored = before.stored ++ cuts.map CutBatch.built ∧
      ((before.queued ++ before.extracted).Nodup →
        ((cuts.foldl storeBatch before).queued ++
          (cuts.foldl storeBatch before).extracted).Nodup) := by
  induction cuts generalizing before with
  | nil => exact ⟨⟨rfl, rfl, rfl, fun _ member => member⟩, by simp, id⟩
  | cons cut cuts ih =>
      obtain ⟨keeps, stored, once⟩ := ih (before.storeBatch cut)
      refine ⟨⟨keeps.commits, keeps.log, keeps.acknowledged, fun batch member =>
        keeps.stored batch (List.mem_append_left _ member)⟩, ?_, fun distinct => once ?_⟩
      · rw [List.foldl_cons, stored, List.map_cons, storeBatch, List.append_assoc,
          List.singleton_append]
      · unfold storeBatch
        split
        · exact distinct
        · next fresh =>
            have moved : (cut.batch :: (before.queued ++ before.extracted)).Perm
                (before.queued ++ [cut.batch] ++ before.extracted) := by
              rw [List.append_assoc]
              exact List.perm_middle.symm
            exact moved.nodup_iff.mp (List.nodup_cons.mpr ⟨fresh, distinct⟩)

theorem Delivers.storeBatches [DecidableEq Value] (delivers : before.Delivers grid)
    (taken : before.storeBatches = some after) : after.Delivers grid := by
  unfold Aspect.storeBatches at taken
  split at taken
  · next base acked phase =>
      have holds := delivers.consumer
      rw [phase] at holds
      split at taken
      · cases taken
        exact delivers.idle
      · next epoch =>
          cases taken
          exact delivers.consume (.acking base epoch) (holds epoch rfl)
  · next base left acked _ phase =>
      have holds := delivers.consumer
      rw [phase] at holds
      cases taken
      obtain ⟨keeps, stored, once⟩ := foldl_storeBatch (left.take queueBatchChunk) before
      refine delivers.keeps ⟨keeps.commits, keeps.log, keeps.acknowledged, keeps.stored⟩
        (once delivers.once) fun epoch member => ?_
      have next : before.Keeps
          { (left.take queueBatchChunk).foldl storeBatch before with
            consumer := .storing base (left.drop queueBatchChunk) acked } :=
        ⟨keeps.commits, keeps.log, keeps.acknowledged, keeps.stored⟩
      refine next.ready (holds epoch member) fun batch batch_mem => ?_
      simp only [stored]
      rw [List.append_assoc, ← List.map_append, List.take_append_drop]
      exact batch_mem
  · cases taken

/-- The changes through an epoch may go when all of their windows are stored. -/
theorem Delivers.ack (delivers : before.Delivers grid) (ready : before.Ready grid base [] epoch) :
    Delivers grid
      { before with
        log := before.log.filter fun change => decide (epoch < change.epoch)
        consumer := .idle
        acknowledged := before.acknowledged ++
          (before.log.filter fun change => decide (change.epoch ≤ epoch)).map fun change =>
            ⟨change.epoch, base⟩ } where
  epochs := delivers.epochs
  sorted := delivers.sorted.filter _
  known := fun change change_mem => delivers.known change (List.mem_filter.mp change_mem).1
  logged := by
    intro commit commit_mem
    rcases delivers.logged commit commit_mem with logged | ⟨done, done_mem, same⟩
    · by_cases past : epoch < commit.epoch
      · exact .inl (List.mem_filter.mpr ⟨logged, decide_eq_true past⟩)
      · refine .inr ⟨⟨commit.epoch, base⟩, List.mem_append_right _ ?_, rfl⟩
        exact List.mem_map.mpr ⟨commit.change, List.mem_filter.mpr
          ⟨logged, decide_eq_true (Nat.le_of_not_lt past)⟩, rfl⟩
    · exact .inr ⟨done, List.mem_append_left _ done_mem, same⟩
  behind := by
    intro done done_mem change change_mem
    obtain ⟨logged, past⟩ := List.mem_filter.mp change_mem
    rcases List.mem_append.mp done_mem with done_mem | done_mem
    · exact delivers.behind done done_mem change logged
    · obtain ⟨deleted, deleted_mem, rfl⟩ := List.mem_map.mp done_mem
      have le := of_decide_eq_true (List.mem_filter.mp deleted_mem).2
      exact le.trans_lt (of_decide_eq_true past)
  committed := by
    intro done done_mem
    rcases List.mem_append.mp done_mem with done_mem | done_mem
    · exact delivers.committed done done_mem
    · obtain ⟨deleted, deleted_mem, rfl⟩ := List.mem_map.mp done_mem
      obtain ⟨commit, commit_mem, rfl⟩ :=
        delivers.known deleted (List.mem_filter.mp deleted_mem).1
      exact ⟨commit, commit_mem, rfl⟩
  built := by
    intro done done_mem
    rcases List.mem_append.mp done_mem with done_mem | done_mem
    · exact delivers.built done done_mem
    · obtain ⟨deleted, deleted_mem, rfl⟩ := List.mem_map.mp done_mem
      obtain ⟨logged, le⟩ := List.mem_filter.mp deleted_mem
      have built := ready.built deleted logged (of_decide_eq_true le)
      rw [List.map_nil, List.append_nil] at built
      exact built
  once := delivers.once
  consumer := trivial

theorem Delivers.ackChanges (delivers : before.Delivers grid)
    (taken : before.ackChanges = some after) : after.Delivers grid := by
  unfold Aspect.ackChanges at taken
  split at taken
  · cases taken
    exact delivers.idle
  · next base epoch _ phase =>
      have holds := delivers.consumer
      rw [phase] at holds
      cases taken
      exact delivers.ack holds
  · cases taken

theorem Delivers.step [DecidableEq Value] (everyStep : method.EveryStep grid.stepMillis)
    (delivers : before.Delivers grid) {action : Action Value}
    (away : AwayFromEdge grid before action) (complete : FirstRunComplete grid before action)
    (taken : ChangeConsumer.step grid method before action = some after) : after.Delivers grid := by
  cases action with
  | commitRows epoch rows => exact delivers.commitRows taken
  | extract count =>
      cases taken
      exact delivers.extract count
  | readChanges => exact delivers.readChanges taken
  | countBatches => exact delivers.countBatches taken
  | readEarliest cached => exact delivers.readEarliest away taken
  | readLatest => exact delivers.readLatest complete taken
  | build => exact delivers.build everyStep taken
  | storeBatches => exact delivers.storeBatches taken
  | ackChanges => exact delivers.ackChanges taken
  | stopConsumer =>
      cases taken
      exact delivers.idle

theorem fresh_delivers : (fresh Value).Delivers grid where
  epochs := .nil
  sorted := .nil
  known := fun _ member => absurd member List.not_mem_nil
  logged := fun _ member => absurd member List.not_mem_nil
  behind := fun _ member => absurd member List.not_mem_nil
  committed := fun _ member => absurd member List.not_mem_nil
  built := fun _ member => absurd member List.not_mem_nil
  once := List.nodup_nil
  consumer := trivial

/-- What the log, the batches and the acknowledgements promise. -/
structure KeepsChanges (grid : WindowGrid) (aspect : Aspect Value) : Prop where
  /-- A deleted change had its windows complete, and built since its commit. -/
  acknowledged : ∀ done ∈ aspect.acknowledged,
    aspect.Built grid aspect.stored done.base done.epoch
  /-- A change which is not deleted keeps itself and every later one. -/
  logged : ∀ commit ∈ aspect.commits,
    (∀ done ∈ aspect.acknowledged, done.epoch ≠ commit.epoch) →
      ∀ later ∈ aspect.commits, commit.epoch ≤ later.epoch → later.change ∈ aspect.log
  /-- No batch is stored twice. -/
  once : (aspect.queued ++ aspect.extracted).Nodup

theorem Delivers.keepsChanges {aspect : Aspect Value} (delivers : aspect.Delivers grid) :
    aspect.KeepsChanges grid where
  acknowledged := delivers.built
  logged := by
    intro commit commit_mem unacknowledged later later_mem le
    have logged : commit.change ∈ aspect.log := by
      rcases delivers.logged commit commit_mem with logged | ⟨done, done_mem, same⟩
      · exact logged
      · exact absurd same (unacknowledged done done_mem)
    rcases delivers.logged later later_mem with logged_later | ⟨done, done_mem, same⟩
    · exact logged_later
    · have past := delivers.behind done done_mem commit.change logged
      exact absurd (same ▸ past) (Nat.not_lt_of_le le)
  once := delivers.once

end Aspect

/-- In every run which keeps away from the edge of the first window, and whose first runs are
complete, a change is deleted only once its windows were built. -/
theorem changes_acknowledged [DecidableEq Value] {grid : WindowGrid} {method : Interpolator Value}
    (everyStep : method.EveryStep grid.stepMillis) {actions : List (Action Value)} {aspect : Aspect Value}
    (meets : Execution.Meets (step grid method) (fun aspect action =>
      AwayFromEdge grid aspect action ∧ FirstRunComplete grid aspect action) (fresh Value) actions)
    (execution : Execution.run (step grid method) (fresh Value) actions = some aspect) :
    aspect.KeepsChanges grid :=
  (Execution.invariant_of_run (Aspect.Delivers grid)
    (fun delivers stays taken => delivers.step everyStep stays.1 stays.2 taken)
    Aspect.fresh_delivers meets execution).keepsChanges

/-- Batches of three points, a second apart. -/
def threePointGrid : WindowGrid := ⟨1000, 3, -1000000, 1000000⟩

/-- Interpolation between points a second apart. -/
def bySeconds : Interpolator Rat := Bracketing.linear.interpolator 1000

theorem bySeconds_everyStep : bySeconds.EveryStep threePointGrid.stepMillis :=
  Bracketing.interpolator_everyStep _ _

/-- Rows with these timestamps, and the seconds as their values. -/
def rowsAt (timestamps : List Int) : List (Point Rat) :=
  timestamps.map fun timestamp => (timestamp, timestamp / 1000)

/-- The steps of a first run which ends with its acknowledgement. -/
def consumeFirst : List (Action Rat) :=
  [.readChanges, .countBatches, .readEarliest none, .readLatest, .build, .storeBatches,
    .storeBatches, .ackChanges]

/-- The steps of a later run which builds so many runs of windows. -/
def consume (builds : Nat) : List (Action Rat) :=
  [.readChanges, .countBatches, .readEarliest none, .readLatest] ++ List.replicate builds .build ++
    [.build, .storeBatches, .storeBatches, .ackChanges]

/-- Rows are committed while the first run reads, which complete the windows of those it read; a
later run acknowledges them. -/
def overtakenFirstRun : List (Action Rat) :=
  [.commitRows 1 (rowsAt [0, 1000, 3000, 4000]), .readChanges, .countBatches,
    .commitRows 2 (rowsAt [5000, 6000, 7000]), .readEarliest none, .readLatest, .build,
    .storeBatches, .storeBatches, .ackChanges, .commitRows 3 (rowsAt [8000, 9000])] ++ consume 1

theorem changes_acknowledged_laterRun :
    ∃ aspect, Execution.run (step threePointGrid bySeconds) (fresh Rat) overtakenFirstRun =
        some aspect ∧
      aspect.KeepsChanges threePointGrid := by
  have runs : (Execution.run (step threePointGrid bySeconds) (fresh Rat) overtakenFirstRun).isSome =
      true := by
    decide +kernel
  have meets : Execution.Meets (step threePointGrid bySeconds) (fun aspect action =>
      AwayFromEdge threePointGrid aspect action ∧ FirstRunComplete threePointGrid aspect action)
        (fresh Rat) overtakenFirstRun := by
    decide +kernel
  obtain ⟨aspect, execution⟩ := Option.isSome_iff_exists.mp runs
  exact ⟨aspect, execution, changes_acknowledged bySeconds_everyStep meets execution⟩

/-- A row at the edge of the first window is committed after that window was built. -/
def edgeChange : List (Action Rat) :=
  .commitRows 1 (rowsAt [0, 1000, 3000, 4000]) :: consumeFirst ++
    [.commitRows 2 (rowsAt [1500]), .commitRows 3 (rowsAt [5000, 6000, 7000])] ++ consume 2

/-- A change was deleted by a run aligned on 0, and every batch of a window of its row was built
behind fewer commits. -/
def Unbuilt (epoch : Nat) (timestamp : Int) (window : BatchWindow) (aspect : Aspect Rat) : Prop :=
  (∃ done ∈ aspect.acknowledged, done.epoch = epoch ∧ done.base = 0) ∧
    (∃ commit ∈ aspect.commits, commit.epoch = epoch ∧ ∃ row ∈ commit.rows, row.1 = timestamp) ∧
      ∀ batch ∈ aspect.stored, batch.window = window → batch.readAfter < epoch

instance (epoch : Nat) (timestamp : Int) (window : BatchWindow) (aspect : Aspect Rat) :
    Decidable (Unbuilt epoch timestamp window aspect) :=
  inferInstanceAs (Decidable (_ ∧ _ ∧ _))

/-- Without the conditions, the row's change is deleted and its first window is not built again. -/
theorem edgeChange_keepsChanges_false :
    ¬∀ (grid : WindowGrid) (method : Interpolator Rat), method.EveryStep grid.stepMillis →
      ∀ (actions : List (Action Rat)) (aspect : Aspect Rat),
        Execution.run (step grid method) (fresh Rat) actions = some aspect →
          aspect.KeepsChanges grid := by
  intro promise
  have lost : (Execution.run (step threePointGrid bySeconds) (fresh Rat) edgeChange).any
      (fun aspect => decide (Unbuilt 2 1500 ⟨0, 2000⟩ aspect ∧
        ∀ commit ∈ aspect.commits.take 1, commit.epoch < 2)) = true := by
    decide +kernel
  obtain ⟨aspect, execution, lost⟩ := (Option.any_eq_true _ _).mp lost
  obtain ⟨⟨⟨done, done_mem, same, base⟩, ⟨commit, commit_mem, epoch, row, row_mem, row_at⟩, unbuilt⟩,
    earlier⟩ := of_decide_eq_true lost
  have keeps := promise threePointGrid bySeconds bySeconds_everyStep edgeChange aspect execution
  have first : threePointGrid.IsWindow done.base ⟨0, 2000⟩ := by
    rw [base]
    exact ⟨by decide, 0, le_rfl, by decide⟩
  obtain ⟨-, batch, batch_mem, window, behind⟩ := keeps.acknowledged done done_mem commit commit_mem
    (epoch.trans same.symm) row.1 (Commit.spans_row row_mem) ⟨0, 2000⟩ first
      (by rw [row_at]; decide)
  have few := Nat.le_of_lt_succ (unbuilt batch batch_mem window)
  exact absurd epoch (earlier commit ((List.take_subset_take_left _ few) behind)).ne

end WeftDb.ChangeConsumer
