import WeftDb.Index.TxnAtomic

/-!
# The series catalog as a partial bijection

The primary key of the catalog makes the id of a series key unique.  The key of an id is unique
too, and lies below the aspect's next id, as long as a transaction which registers a series also
seeds the aspect past it: the seed makes two registrations in one aspect conflict, and without it
the check for a taken id only sees the snapshot.
-/

namespace WeftDb

variable {entry : SeriesEntry}

namespace IndexDb

variable {db after : IndexDb} {op : IndexOp} {ops : List IndexOp}

/-- No registration is of series `0` or of the empty key. -/
def SeriesNamed (db : IndexDb) : Prop :=
  ∀ entry ∈ db.series, entry.id ≠ 0 ∧ entry.key ≠ ""

/-- No two keys of an aspect have one id. -/
def SeriesDistinct (db : IndexDb) : Prop :=
  ∀ left ∈ db.series, ∀ right ∈ db.series, left.aspect = right.aspect → left.id = right.id →
    left.key = right.key

/-- Every id is below the next one of its aspect. -/
def SeriesBelow (db : IndexDb) : Prop :=
  ∀ entry ∈ db.series, entry.id < db.nextSeriesId entry.aspect

theorem free_of_registers (applied : db.apply op = .ok after) (registers : entry ∈ op.registers) :
    (entry.id ≠ 0 ∧ entry.key ≠ "") ∧
      ∀ other ∈ db.series, other.aspect = entry.aspect → other.id ≠ entry.id := by
  cases op with
  | registerSeries aspect id key =>
      rw [IndexOp.registers, List.mem_singleton] at registers
      subst registers
      simp only [apply] at applied
      split at applied
      · cases applied
      · rename_i named
        split at applied
        · cases applied
        · rename_i free
          refine ⟨not_or.mp named, fun other member same_aspect same_id => free ?_⟩
          exact List.any_eq_true.mpr ⟨other, member, decide_eq_true ⟨same_aspect, same_id⟩⟩
  | _ => simp [IndexOp.registers] at registers

theorem seriesNamed_of_applyAll (named : db.SeriesNamed) (applied : db.applyAll ops = .ok after) :
    after.SeriesNamed :=
  applyAll_induction SeriesNamed
    (fun _ named applied entry member => by
      rcases mem_series_of_apply applied member with kept | registers
      · exact named entry kept
      · exact (free_of_registers applied registers).1) named applied

theorem seriesDistinct_of_apply (distinct : db.SeriesDistinct)
    (applied : db.apply op = .ok after) : after.SeriesDistinct := by
  intro left left_mem right right_mem same_aspect same_id
  have single : ∀ {first second : SeriesEntry}, first ∈ op.registers → second ∈ op.registers →
      first = second := by
    intro first second first_mem second_mem
    cases op with
    | registerSeries aspect id key =>
        rw [IndexOp.registers, List.mem_singleton] at first_mem second_mem
        rw [first_mem, second_mem]
    | _ => simp [IndexOp.registers] at first_mem
  rcases mem_series_of_apply applied left_mem with left_kept | left_new
  · rcases mem_series_of_apply applied right_mem with right_kept | right_new
    · exact distinct left left_kept right right_kept same_aspect same_id
    · exact absurd same_id ((free_of_registers applied right_new).2 left left_kept same_aspect)
  · rcases mem_series_of_apply applied right_mem with right_kept | right_new
    · exact absurd same_id.symm
        ((free_of_registers applied left_new).2 right right_kept same_aspect.symm)
    · rw [single left_new right_new]

theorem seriesDistinct_of_applyAll (distinct : db.SeriesDistinct)
    (applied : db.applyAll ops = .ok after) : after.SeriesDistinct :=
  applyAll_induction SeriesDistinct
    (fun _ distinct applied => seriesDistinct_of_apply distinct applied) distinct applied

end IndexDb

/-- The operations of a transaction on the index. -/
def indexOps (ops : List TxnOp) : List IndexOp :=
  ops.filterMap fun op =>
    match op with
    | .onIndex op => some op
    | _ => none

theorem mem_indexOps {ops : List TxnOp} {op : IndexOp} :
    op ∈ indexOps ops ↔ .onIndex op ∈ ops := by
  rw [indexOps, List.mem_filterMap]
  constructor
  · rintro ⟨given, member, same⟩
    cases given with
    | onIndex own =>
        cases same
        exact member
    | _ => cases same
  · exact fun member => ⟨_, member, rfl⟩

namespace ControlPlane

variable {plane view : ControlPlane} {ops : List TxnOp} {touched keys : List RowKey}

theorem index_of_applyAll (applied : rowStore.applyAll plane touched ops = .ok (view, keys)) :
    plane.index.applyAll (indexOps ops) = .ok view.index := by
  induction ops generalizing plane touched with
  | nil =>
      cases applied
      rfl
  | cons op later ih =>
      obtain ⟨next, first, rest⟩ := rowStore.applyAll_cons_eq_ok.mp applied
      have tail := ih rest
      cases op with
      | onIndex op =>
          change plane.apply (.onIndex op) = .ok next at first
          simp only [apply] at first
          split at first
          · rename_i index done
            cases first
            exact IndexDb.applyAll_cons_eq_ok.mpr ⟨index, done, tail⟩
          · cases first
      | metaSet key value =>
          cases first
          exact tail
      | raiseFloor level =>
          cases first
          rw [segments_raiseFloor] at tail
          exact tail
      | recordMigration record =>
          change plane.apply (.recordMigration record) = .ok next at first
          simp only [apply] at first
          split at first
          · cases first
            exact tail
          · cases first
            exact tail

theorem touched_of_mem {op : TxnOp} {key : RowKey}
    (applied : rowStore.applyAll plane touched ops = .ok (view, keys)) (member : op ∈ ops)
    (touches : ∀ plane, key ∈ op.touches plane) : key ∈ keys := by
  by_contra free
  induction ops generalizing plane touched with
  | nil => cases member
  | cons first later ih =>
      obtain ⟨next, _, rest⟩ := rowStore.applyAll_cons_eq_ok.mp applied
      rcases List.mem_cons.mp member with rfl | member
      · have outside := (rowStore.cell_applyAll rest free).2
        exact outside (List.mem_append_right _ (touches plane))
      · exact ih rest member

theorem cell_series_eq_some :
    plane.cell (.series entry.aspect entry.key) = some (.series entry) ↔
      entry ∈ plane.index.series := by
  simp [cell, KeyedTable.find?_eq_some]

theorem nextSeriesId_of_cell {other : ControlPlane} {aspect : AspectName}
    (same : plane.cell (.sequence aspect) = other.cell (.sequence aspect)) :
    plane.index.nextSeriesId aspect = other.index.nextSeriesId aspect := by
  have rows : plane.index.sequence aspect = other.index.sequence aspect :=
    Option.map_injective (fun _ _ => RowCell.sequence.inj) same
  simp only [IndexDb.nextSeriesId, rows]

end ControlPlane

/-- The history registers a series between two versions. -/
def RegisteredBetween (versions : Versions ControlPlane TxnOp RowKey) (entry : SeriesEntry)
    (earlier later : Nat) : Prop :=
  ∃ index commit, earlier ≤ index ∧ index < later ∧ versions.commits[index]? = some commit ∧
    .onIndex (.registerSeries entry.aspect entry.id entry.key) ∈ commit.ops

section Histories

variable {versions : Versions ControlPlane TxnOp RowKey} {index : Nat}
  {commit : Commit ControlPlane TxnOp RowKey} {view : ControlPlane} {entry : SeriesEntry}
  (valid : versions.Valid ControlPlane.rowStore)
  (found : versions.commits[index]? = some commit)
  (commits : versions.Commits ControlPlane.rowStore index commit view)

include commits

theorem index_applied :
    (versions.version commit.began).index.applyAll (indexOps commit.ops) = .ok view.index :=
  ControlPlane.index_of_applyAll commits.applied

include valid found

theorem series_kept_of_commit (member : entry ∈ (versions.version index).index.series) :
    entry ∈ (versions.version (index + 1)).index.series ∧
      (.series entry.aspect entry.key ∈ commit.touched → entry ∈ view.index.series) := by
  rw [← ControlPlane.cell_series_eq_some] at member ⊢
  by_cases touched : .series entry.aspect entry.key ∈ commit.touched
  · have began := (valid.cell_began found commits touched).symm.trans member
    have kept := IndexDb.series_kept_of_applyAll (index_applied commits)
      (ControlPlane.cell_series_eq_some.mp began)
    refine ⟨(commits.cell_touched found touched).trans ?_, fun _ => kept⟩
    exact ControlPlane.cell_series_eq_some.mpr kept
  · exact ⟨(commits.cell_free found touched).1.trans member, fun member => absurd member touched⟩

theorem registered_of_commit (member : entry ∈ (versions.version (index + 1)).index.series) :
    entry ∈ (versions.version index).index.series ∨
      (entry ∈ view.index.series ∧
        .onIndex (.registerSeries entry.aspect entry.id entry.key) ∈ commit.ops) := by
  rw [← ControlPlane.cell_series_eq_some] at member
  by_cases touched : .series entry.aspect entry.key ∈ commit.touched
  · have viewed := ControlPlane.cell_series_eq_some.mp
      ((commits.cell_touched found touched).symm.trans member)
    rcases IndexDb.mem_series_of_applyAll (index_applied commits) viewed with kept |
      ⟨op, op_mem, registers⟩
    · refine .inl (ControlPlane.cell_series_eq_some.mp ?_)
      exact (valid.cell_began found commits touched).trans
        (ControlPlane.cell_series_eq_some.mpr kept)
    · refine .inr ⟨viewed, mem_indexOps.mp ?_⟩
      cases op with
      | registerSeries aspect id key =>
          rw [IndexOp.registers, List.mem_singleton] at registers
          exact registers ▸ op_mem
      | _ => simp [IndexOp.registers] at registers
  · exact .inl (ControlPlane.cell_series_eq_some.mp
      ((commits.cell_free found touched).1.symm.trans member))

theorem nextSeriesId_le_of_commit (aspect : AspectName) :
    (versions.version index).index.nextSeriesId aspect ≤
      (versions.version (index + 1)).index.nextSeriesId aspect := by
  by_cases touched : .sequence aspect ∈ commit.touched
  · rw [ControlPlane.nextSeriesId_of_cell (valid.cell_began found commits touched),
      ControlPlane.nextSeriesId_of_cell (commits.cell_touched found touched)]
    exact (IndexDb.raised_of_applyAll (index_applied commits) aspect).nextSeriesId
  · rw [ControlPlane.nextSeriesId_of_cell (commits.cell_free found touched).1]

end Histories

/-- A transaction seeds the aspect past every series id which it registers. -/
def SeedsRegistrations (ops : List TxnOp) : Prop :=
  ∀ aspect id key, .onIndex (.registerSeries aspect id key) ∈ ops →
    ∃ next, .onIndex (.seedSeries aspect next) ∈ ops ∧ id < next

namespace Histories

variable {versions : Versions ControlPlane TxnOp RowKey}
variable {earlier index : Nat} {commit : Commit ControlPlane TxnOp RowKey} {view : ControlPlane}

/-- No registration in an aspect comes between the snapshot and the commit of another one. -/
def Undisturbed (versions : Versions ControlPlane TxnOp RowKey) : Prop :=
  ∀ (index : Nat) (commit : Commit ControlPlane TxnOp RowKey) (entry other : SeriesEntry),
    versions.commits[index]? = some commit →
    .onIndex (.registerSeries entry.aspect entry.id entry.key) ∈ commit.ops →
    other.aspect = entry.aspect → ¬RegisteredBetween versions other commit.began index

section

variable (valid : versions.Valid ControlPlane.rowStore)

include valid

theorem series_kept {later : Nat} (le : earlier ≤ later) (past : later ≤ versions.commits.length)
    (member : entry ∈ (versions.version earlier).index.series) :
    entry ∈ (versions.version later).index.series := by
  induction later, le using Nat.le_induction with
  | base => exact member
  | succ index le ih =>
      have found := List.getElem?_eq_getElem (l := versions.commits) (i := index) past
      obtain ⟨view, commits⟩ := valid index _ found
      exact (series_kept_of_commit valid found commits (ih ((Nat.le_succ index).trans past))).1

theorem registered_between {later : Nat} (le : earlier ≤ later)
    (past : later ≤ versions.commits.length)
    (member : entry ∈ (versions.version later).index.series) :
    entry ∈ (versions.version earlier).index.series ∨
      RegisteredBetween versions entry earlier later := by
  induction later, le using Nat.le_induction with
  | base => exact .inl member
  | succ index le ih =>
      have found := List.getElem?_eq_getElem (l := versions.commits) (i := index) past
      obtain ⟨view, commits⟩ := valid index _ found
      rcases registered_of_commit valid found commits member with kept | ⟨_, registers⟩
      · rcases ih ((Nat.le_succ index).trans past) kept with old | ⟨there, commit, from_, before,
          at_, own⟩
        · exact .inl old
        · exact .inr ⟨there, commit, from_, before.trans (Nat.lt_succ_self index), at_, own⟩
      · exact .inr ⟨index, _, le, Nat.lt_succ_self index, found, registers⟩

theorem seriesNamed (start : versions.initial.index.SeriesNamed)
    (past : index ≤ versions.commits.length) : (versions.version index).index.SeriesNamed := by
  induction index using Nat.strong_induction_on with
  | _ index ih =>
      cases index with
      | zero => exact start
      | succ index =>
          have found := List.getElem?_eq_getElem (l := versions.commits) (i := index) past
          obtain ⟨view, commits⟩ := valid index _ found
          have began := commits.began
          have viewed : view.index.SeriesNamed :=
            IndexDb.seriesNamed_of_applyAll
              (ih _ (Nat.lt_succ_of_le began) (began.trans ((Nat.le_succ index).trans past)))
              (index_applied commits)
          intro entry member
          rcases registered_of_commit valid found commits member with kept | ⟨new, _⟩
          · exact ih index (Nat.lt_succ_self index) ((Nat.le_succ index).trans past) entry kept
          · exact viewed entry new

theorem viewed_of_undisturbed (undisturbed : Undisturbed versions)
    (found : versions.commits[index]? = some commit)
    (commits : versions.Commits ControlPlane.rowStore index commit view) {other : SeriesEntry}
    (registers : .onIndex (.registerSeries entry.aspect entry.id entry.key) ∈ commit.ops)
    (same : other.aspect = entry.aspect)
    (member : other ∈ (versions.version (index + 1)).index.series) : other ∈ view.index.series := by
  rcases registered_of_commit valid found commits member with kept | ⟨new, _⟩
  · have past := (List.getElem?_eq_some_iff.mp found).1.le
    rcases registered_between valid commits.began past kept with old | between
    · exact IndexDb.series_kept_of_applyAll (index_applied commits) old
    · exact absurd between (undisturbed index commit entry other found registers same)
  · exact new

theorem seriesDistinct (start : versions.initial.index.SeriesDistinct)
    (undisturbed : Undisturbed versions) (past : index ≤ versions.commits.length) :
    (versions.version index).index.SeriesDistinct := by
  induction index using Nat.strong_induction_on with
  | _ index ih =>
      cases index with
      | zero => exact start
      | succ index =>
          have found := List.getElem?_eq_getElem (l := versions.commits) (i := index) past
          obtain ⟨view, commits⟩ := valid index _ found
          have began := commits.began
          have viewed : view.index.SeriesDistinct :=
            IndexDb.seriesDistinct_of_applyAll
              (ih _ (Nat.lt_succ_of_le began) (began.trans ((Nat.le_succ index).trans past)))
              (index_applied commits)
          intro left left_mem right right_mem same_aspect same_id
          rcases registered_of_commit valid found commits left_mem with left_kept | ⟨left_new, own⟩
          · rcases registered_of_commit valid found commits right_mem with right_kept |
              ⟨right_new, own⟩
            · exact ih index (Nat.lt_succ_self index) ((Nat.le_succ index).trans past) left
                left_kept right right_kept same_aspect same_id
            · have left_viewed := viewed_of_undisturbed valid undisturbed found commits own
                same_aspect left_mem
              exact viewed left left_viewed right right_new same_aspect same_id
          · have right_viewed := viewed_of_undisturbed valid undisturbed found commits own
              same_aspect.symm right_mem
            exact viewed left left_new right right_viewed same_aspect same_id

end

theorem seeded_of_commit (found : versions.commits[index]? = some commit)
    (commits : versions.Commits ControlPlane.rowStore index commit view)
    (seeds : SeedsRegistrations commit.ops)
    (registers : .onIndex (.registerSeries entry.aspect entry.id entry.key) ∈ commit.ops) :
    .sequence entry.aspect ∈ commit.touched ∧
      entry.id < (versions.version (index + 1)).index.nextSeriesId entry.aspect := by
  obtain ⟨next, seed, below⟩ := seeds _ _ _ registers
  have touched : .sequence entry.aspect ∈ commit.touched :=
    ControlPlane.touched_of_mem commits.applied seed fun _ => List.mem_cons_self
  refine ⟨touched, ?_⟩
  rw [ControlPlane.nextSeriesId_of_cell (commits.cell_touched found touched)]
  exact below.trans_le
    (IndexDb.le_of_seedSeries (index_applied commits) (mem_indexOps.mpr seed))

theorem undisturbed_of_seeds (valid : versions.Valid ControlPlane.rowStore)
    (seeds : ∀ commit ∈ versions.commits, SeedsRegistrations commit.ops) :
    Undisturbed versions := by
  rintro index commit entry other found registers same ⟨there, earlier, from_, before, at_, own⟩
  obtain ⟨view, commits⟩ := valid index commit found
  obtain ⟨earlier_view, earlier_commits⟩ := valid there earlier at_
  have touched := (seeded_of_commit found commits
    (seeds commit (List.mem_of_getElem? found)) registers).1
  have written := (seeded_of_commit at_ earlier_commits
    (seeds earlier (List.mem_of_getElem? at_)) own).1
  rw [same] at written
  exact commits.unwritten there earlier from_ before at_ _ touched written

theorem undisturbed_of_serial (serial : versions.Serial) : Undisturbed versions := by
  rintro index commit entry other found registers same ⟨there, earlier, from_, before, at_, own⟩
  rw [serial index commit found] at from_
  exact absurd before (not_lt.mpr from_)

theorem seriesBelow (valid : versions.Valid ControlPlane.rowStore)
    (start : versions.initial.index.SeriesBelow)
    (seeds : ∀ commit ∈ versions.commits, SeedsRegistrations commit.ops)
    (past : index ≤ versions.commits.length) : (versions.version index).index.SeriesBelow := by
  induction index with
  | zero => exact start
  | succ index ih =>
      have found := List.getElem?_eq_getElem (l := versions.commits) (i := index) past
      obtain ⟨view, commits⟩ := valid index _ found
      intro entry member
      rcases registered_of_commit valid found commits member with kept | ⟨_, registers⟩
      · exact (ih ((Nat.le_succ index).trans past) entry kept).trans_le
          (nextSeriesId_le_of_commit valid found commits entry.aspect)
      · exact (seeded_of_commit found commits (seeds _ (List.mem_of_getElem? found)) registers).2

end Histories

open Histories in
/-- In every version which a run commits a registered key has one id, which is not `0`, and keeps
it, and no key is empty.  If every transaction seeds the aspects past the ids it registers, or the
transactions run one after another, an id has one key; in the first case it is below the next
series id of its aspect. -/
theorem series_catalog_bijection {actions : List TxnAction} {after : TxnSystem}
    (execution : Execution.run TxnSystem.step (.opened .fresh) actions = some after)
    {index : Nat} (past : index ≤ after.versions.commits.length) :
    (∀ entry ∈ (after.versions.version index).index.series,
      entry.id ≠ 0 ∧ entry.key ≠ "" ∧
        (∀ other ∈ (after.versions.version index).index.series, other.aspect = entry.aspect →
          other.key = entry.key → other.id = entry.id) ∧
        ∀ later, index ≤ later → later ≤ after.versions.commits.length →
          entry ∈ (after.versions.version later).index.series) ∧
    ((∀ txn ∈ after.txns, SeedsRegistrations txn.ops) ∨ after.versions.Serial →
      (after.versions.version index).index.SeriesDistinct) ∧
    ((∀ txn ∈ after.txns, SeedsRegistrations txn.ops) →
      (after.versions.version index).index.SeriesBelow) := by
  have sound : after.Sound := (TxnSystem.opened_sound .fresh).run execution
  have valid := sound.valid
  have initial : after.versions.initial = .fresh := TxnSystem.initial_of_run execution
  have commit_seeds : (∀ txn ∈ after.txns, SeedsRegistrations txn.ops) →
      ∀ commit ∈ after.versions.commits, SeedsRegistrations commit.ops := by
    intro seeds commit member
    have found := List.getElem?_eq_getElem (sound.authors commit member)
    rw [sound.ops_of_commit found member rfl]
    exact seeds _ (List.getElem_mem _)
  refine ⟨fun entry member => ?_, fun condition => ?_, fun seeds => ?_⟩
  · have named := seriesNamed valid (initial ▸ fun entry member => by cases member) past entry
      member
    refine ⟨named.1, named.2, fun other other_mem same_aspect same_key => ?_, fun later le end_ =>
      series_kept valid le end_ member⟩
    exact congrArg SeriesEntry.id (KeyedTable.eq_of_key_eq _ other_mem member
      (Prod.ext same_aspect same_key))
  · refine seriesDistinct valid (initial ▸ fun entry member => by cases member) ?_ past
    rcases condition with seeds | serial
    · exact undisturbed_of_seeds valid (commit_seeds seeds)
    · exact undisturbed_of_serial serial
  · exact seriesBelow valid (initial ▸ fun entry member => by cases member) (commit_seeds seeds)
      past

/-- A transaction of these operations and the statements which bring it through. -/
def committedRun (id : Nat) (ops : List IndexOp) : List TxnAction :=
  .run (ops.map .onIndex) :: List.replicate (ops.length + 2) (.statement id .succeeds)

theorem seeded_registration_catalogued :
    ∃ after,
      Execution.run TxnSystem.step (.opened .fresh)
          (committedRun 0 [.registerSeries "price" 1 "region=eu", .seedSeries "price" 2]) =
        some after ∧
      (after.versions.version 1).index.SeriesBelow := by
  refine ⟨_, rfl, ?_⟩
  refine (@series_catalog_bijection
    (committedRun 0 [.registerSeries "price" 1 "region=eu", .seedSeries "price" 2]) _ rfl 1
    (by decide)).2.2 fun txn member => ?_
  cases List.mem_singleton.mp member
  intro aspect id key registers
  have same : aspect = "price" ∧ id = 1 := by
    simp [TxnRun.start, List.mem_cons] at registers
    exact ⟨registers.1, registers.2.1⟩
  exact ⟨2, by simp [TxnRun.start, same], by omega⟩

/-- Two transactions register different keys under one id on the same snapshot. -/
def racingRegistrations : List TxnAction :=
  [.run [.onIndex (.registerSeries "price" 1 "region=eu")],
    .run [.onIndex (.registerSeries "price" 1 "region=us")],
    .statement 0 .succeeds, .statement 1 .succeeds, .statement 0 .succeeds,
    .statement 1 .succeeds, .statement 0 .succeeds, .statement 1 .succeeds]

/-- A registration without a seed is not below the next series id, and two of them may give one id
to two keys. -/
theorem unseeded_registrations_uncatalogued :
    (∃ after,
      Execution.run TxnSystem.step (.opened .fresh)
          (committedRun 0 [.registerSeries "price" 5 "region=eu"]) = some after ∧
        ¬after.versions.current.index.SeriesBelow) ∧
    ∃ after,
      Execution.run TxnSystem.step (.opened .fresh) racingRegistrations = some after ∧
        ¬after.versions.current.index.SeriesDistinct := by
  constructor
  · refine ⟨_, rfl, fun below => ?_⟩
    have small := below ⟨"price", "region=eu", 5⟩ (by decide)
    exact absurd small (by decide)
  · refine ⟨_, rfl, fun distinct => ?_⟩
    have same := distinct ⟨"price", "region=eu", 1⟩ (by decide) ⟨"price", "region=us", 1⟩
      (by decide) rfl rfl
    exact absurd same (by decide)

end WeftDb
