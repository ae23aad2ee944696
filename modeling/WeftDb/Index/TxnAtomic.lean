import WeftDb.Foundation.Execution
import WeftDb.Index.Cells

/-!
# Index transactions among others

`IndexTxn::run_while` makes one attempt after another: it begins on the current snapshot, applies
its operations in order and commits, and starts again after a conflict if that is safe.  Each
statement is one step, every one of them may fail, and any number of transactions take their steps
in any order on one store.
-/

namespace WeftDb

open KeyedTable Option

/-- How often a retryable failure is retried. -/
def maxRetries : Nat := 5

/-- Where a transaction stands. -/
inductive TxnStage
  /-- An attempt is about to begin. -/
  | starting
  /-- The transaction is open on a snapshot: its view, what it touched, and the operations left. -/
  | opened (began : Nat) (view : ControlPlane) (touched : List RowKey) (left : List TxnOp)
  /-- A conflict is waited out. -/
  | backingOff
  /-- The call returned, with a failure or without. -/
  | returned (failure : Option TxnErrorKind)
  /-- The caller dropped the call. -/
  | dropped

/-- A transaction: its operations, the number of its attempt, and whether an operation of an
earlier attempt had run. -/
structure TxnRun where
  ops : List TxnOp
  attempts : Nat
  opsRan : Bool
  stage : TxnStage

/-- How the next statement of a transaction ends. -/
inductive StatementEnd
  | succeeds
  /-- It fails, and has no effect. -/
  | fails (kind : TxnErrorKind)
  /-- A commit fails although it landed. -/
  | landsAndFails

/-- A store and the transactions on it. -/
structure TxnSystem where
  versions : Versions ControlPlane TxnOp RowKey
  txns : List TxnRun

inductive TxnAction
  | run (ops : List TxnOp)
  /-- The next statement of a transaction. -/
  | statement (txn : Nat) (ending : StatementEnd)
  /-- A transaction which waited out a conflict asks whether it may retry. -/
  | retry (txn : Nat) (mayRetry : Bool)
  | drop (txn : Nat)

namespace TxnRun

def start (ops : List TxnOp) : TxnRun where
  ops := ops
  attempts := 1
  opsRan := false
  stage := .starting

/-- An attempt failed: the call returns the failure, or waits to retry. -/
def fail (txn : TxnRun) (kind : TxnErrorKind) (opsRan : Bool) : TxnRun :=
  let retrySafe := !opsRan || txn.ops.all (·.isGuarded)
  if kind ≠ .retryable ∨ retrySafe = false ∨ txn.attempts > maxRetries then
    { txn with stage := .returned (some kind) }
  else
    { txn with opsRan := txn.opsRan || opsRan, stage := .backingOff }

/-- The next attempt. -/
def again (txn : TxnRun) : TxnRun :=
  { txn with attempts := txn.attempts + 1, stage := .starting }

end TxnRun

namespace TxnSystem

def opened (plane : ControlPlane) : TxnSystem where
  versions := ⟨plane, []⟩
  txns := []

def setTxn (system : TxnSystem) (id : Nat) (txn : TxnRun) : TxnSystem :=
  { system with txns := system.txns.set id txn }

/-- Commit the view of a transaction. -/
def land (system : TxnSystem) (id : Nat) (txn : TxnRun) (began : Nat) (view : ControlPlane)
    (touched : List RowKey) (failure : Option TxnErrorKind) : TxnSystem where
  versions := system.versions.commit ControlPlane.rowStore id txn.ops began view touched
  txns := system.txns.set id { txn with stage := .returned failure }

/-- The next statement of a transaction: `BEGIN`, an operation, or `COMMIT`.  A statement before
the commit does not fail ambiguously, and a commit fails as a conflict or ambiguously. -/
def statement (system : TxnSystem) (id : Nat) (txn : TxnRun) (ending : StatementEnd) :
    Option TxnSystem :=
  match txn.stage, ending with
  | .starting, .succeeds =>
      some (system.setTxn id
        { txn with
          stage := .opened system.versions.commits.length system.versions.current [] txn.ops })
  | .starting, .fails kind =>
      if kind = .ambiguous then none else some (system.setTxn id (txn.fail kind false))
  | .opened began view touched (op :: left), .succeeds =>
      match view.apply op with
      | .ok next =>
          some (system.setTxn id
            { txn with stage := .opened began next (touched ++ op.touches view) left })
      | .error kind => some (system.setTxn id (txn.fail kind true))
  | .opened _ _ _ (_ :: _), .fails kind =>
      if kind = .ambiguous then none else some (system.setTxn id (txn.fail kind true))
  | .opened began view touched [], .succeeds =>
      if system.versions.Unwritten began touched then
        some (system.land id txn began view touched none)
      else
        -- The validation finds the conflict and rolls the transaction back.
        some (system.setTxn id (txn.fail .retryable true))
  | .opened _ _ _ [], .fails kind =>
      if kind = .retryable ∨ kind = .ambiguous then
        some (system.setTxn id (txn.fail kind true))
      else
        none
  | .opened began view touched [], .landsAndFails =>
      if system.versions.Unwritten began touched then
        some (system.land id txn began view touched (some .ambiguous))
      else
        none
  | _, _ => none

def step (system : TxnSystem) : TxnAction → Option TxnSystem
  | .run ops => some { system with txns := system.txns ++ [.start ops] }
  | .statement id ending => do
      let txn ← system.txns[id]?
      system.statement id txn ending
  | .retry id mayRetry => do
      let txn ← system.txns[id]?
      match txn.stage with
      | .backingOff =>
          some (system.setTxn id
            (if mayRetry then txn.again else { txn with stage := .returned (some .retryable) }))
      | _ => none
  | .drop id => do
      let txn ← system.txns[id]?
      match txn.stage with
      | .returned _ => none
      | _ => some (system.setTxn id { txn with stage := .dropped })

end TxnSystem

/-!
## Index transactions are all or nothing

Whatever other transactions do and whichever statement fails, a transaction is in the history of
the store once if it reports success, and not at all if it reports a failure which is not
ambiguous.  A commit takes away only rows which its operations name, and a repeated attempt only
rows at the versions which its guarded operations name.
-/

/-- A guarded operation names the version of a row. -/
def IndexOp.Names (aspect : AspectName) (row : IndexRow) : IndexOp → Prop
  | .replaceExpected own expected _ | .deleteExpected own expected =>
      own = aspect ∧ expected = row.version
  | .deleteEveryExpected own expected => own = aspect ∧ row.version ∈ expected
  | _ => False

/-- An operation replaces or deletes the row of an id at whatever version. -/
def IndexOp.Overwrites (aspect : AspectName) (id : Nat) : IndexOp → Prop
  | .upsert own row => own = aspect ∧ row.desc.id = id
  | .delete own deleted => own = aspect ∧ deleted = id
  | _ => False

namespace IndexDb

variable {db after : IndexDb} {op : IndexOp} {aspect : AspectName} {row : IndexRow}
variable {expected : RowVersion} {found : IndexRow} {own : AspectName}

theorem version_of_matching (matched : db.matching aspect expected = some found) :
    (aspect, found) ∈ db.segments ∧ found.version = expected := by
  unfold matching at matched
  split at matched
  · rename_i own stored lookup
    split at matched
    · rename_i same
      cases matched
      obtain ⟨member, row_key⟩ := find?_eq_some.mp lookup
      obtain ⟨rfl, _⟩ := Prod.mk.inj row_key
      exact ⟨member, same⟩
    · cases matched
  · cases matched

theorem version_of_erased (matched : db.matching own expected = some found)
    (member : (aspect, row) ∈ db.segments)
    (erased : (aspect, row) ∉ db.segments.erase (own, expected.id)) :
    own = aspect ∧ expected = row.version := by
  have row_key : segmentKey (aspect, row) = (own, expected.id) := by
    by_contra different
    exact erased (mem_erase.mpr ⟨member, different⟩)
  obtain ⟨rfl, row_id⟩ := Prod.mk.inj row_key
  obtain ⟨found_mem, version⟩ := version_of_matching matched
  have found_id : found.desc.id = row.desc.id := by
    rw [row_id, ← version]
    rfl
  have same := db.segments.eq_of_key_eq found_mem member (congrArg (Prod.mk aspect) found_id)
  cases same
  exact ⟨rfl, version.symm⟩

theorem names_of_deleteEvery {expected : List RowVersion}
    (deleted : db.deleteEveryExpected own expected = .ok after)
    (member : (aspect, row) ∈ db.segments) (gone : (aspect, row) ∉ after.segments) :
    own = aspect ∧ row.version ∈ expected := by
  induction expected generalizing db with
  | nil =>
      cases deleted
      exact absurd member gone
  | cons version later ih =>
      simp only [deleteEveryExpected, deleteExpected] at deleted
      split at deleted
      · rename_i next first
        split at first
        · rename_i found matched
          cases first
          by_cases kept : (aspect, row) ∈ db.segments.erase (own, version.id)
          · obtain ⟨same, named⟩ := ih deleted kept
            exact ⟨same, List.mem_cons_of_mem _ named⟩
          · obtain ⟨same, named⟩ := version_of_erased matched member kept
            exact ⟨same, named ▸ List.mem_cons_self⟩
        · cases first
      · cases deleted

theorem taken_of_apply (applied : db.apply op = .ok after) (member : (aspect, row) ∈ db.segments)
    (gone : (aspect, row) ∉ after.segments) :
    op.Names aspect row ∨ op.Overwrites aspect row.desc.id := by
  cases applied_of_apply applied with
  | insertNew inserted =>
      exact absurd ((mem_of_insert? inserted _).mpr (.inl member)) gone
  | replaceExpected matched inserted =>
      refine .inl (version_of_erased matched member fun kept => gone ?_)
      exact (mem_of_insert? inserted _).mpr (.inl kept)
  | deleteExpected matched => exact .inl (version_of_erased matched member gone)
  | deleteEveryExpected => exact .inl (names_of_deleteEvery applied member gone)
  | @upsert own put =>
      refine .inr ?_
      by_contra other
      refine gone (mem_put.mpr (.inl ⟨member, fun same => other ?_⟩))
      obtain ⟨rfl, same_id⟩ := Prod.mk.inj same
      exact ⟨rfl, same_id.symm⟩
  | @delete own id =>
      refine .inr ?_
      by_contra other
      refine gone (mem_erase.mpr ⟨member, fun same => other ?_⟩)
      obtain ⟨rfl, same_id⟩ := Prod.mk.inj same
      exact ⟨rfl, same_id.symm⟩
  | _ => exact absurd member gone

end IndexDb

/-- An operation of a list names a row at its version, or overwrites its id. -/
def TakenBy (ops : List TxnOp) (aspect : AspectName) (row : IndexRow) : Prop :=
  ∃ op, .onIndex op ∈ ops ∧ (op.Names aspect row ∨ op.Overwrites aspect row.desc.id)

variable {touched : List RowKey} {ops : List TxnOp} {commit : Commit ControlPlane TxnOp RowKey}
  {view : ControlPlane} {ending : StatementEnd} {began : Nat}

namespace ControlPlane

variable {plane after : ControlPlane} {aspect : AspectName} {row : IndexRow}

theorem segments_raiseFloor (level : Nat) (keys : List String) :
    (keys.foldl (·.raiseFloorOf level) plane).index = plane.index := by
  induction keys generalizing plane with
  | nil => rfl
  | cons key keys ih => exact ih

theorem taken_of_apply {op : TxnOp} (applied : plane.apply op = .ok after)
    (member : (aspect, row) ∈ plane.index.segments)
    (gone : (aspect, row) ∉ after.index.segments) : TakenBy [op] aspect row := by
  cases op with
  | onIndex op =>
      simp only [apply] at applied
      split at applied
      · rename_i index done
        cases applied
        exact ⟨op, List.mem_cons_self, IndexDb.taken_of_apply done member gone⟩
      · cases applied
  | metaSet key value =>
      cases applied
      exact absurd member gone
  | raiseFloor level =>
      cases applied
      rw [segments_raiseFloor] at gone
      exact absurd member gone
  | recordMigration record =>
      simp only [apply] at applied
      split at applied
      · cases applied
        exact absurd member gone
      · cases applied
        exact absurd member gone

theorem taken_of_applyAll {keys : List RowKey}
    (applied : rowStore.applyAll plane touched ops = .ok (after, keys))
    (member : (aspect, row) ∈ plane.index.segments) (gone : (aspect, row) ∉ after.index.segments) :
    TakenBy ops aspect row := by
  induction ops generalizing plane touched with
  | nil =>
      cases applied
      exact absurd member gone
  | cons op later ih =>
      obtain ⟨next, first, rest⟩ := rowStore.applyAll_cons_eq_ok.mp applied
      by_cases kept : (aspect, row) ∈ next.index.segments
      · obtain ⟨taker, taker_mem, takes⟩ := ih rest kept
        exact ⟨taker, List.mem_cons_of_mem _ taker_mem, takes⟩
      · obtain ⟨taker, taker_mem, takes⟩ := taken_of_apply first member kept
        rw [List.mem_singleton] at taker_mem
        exact ⟨taker, taker_mem ▸ List.mem_cons_self, takes⟩

theorem cell_segment_eq_some :
    plane.cell (.segment aspect row.desc.id) = some (.segment (aspect, row)) ↔
      (aspect, row) ∈ plane.index.segments := by
  simp only [cell, map_eq_some_iff, RowCell.segment.injEq, exists_eq_right,
    find?_eq_some]
  exact and_iff_left rfl

end ControlPlane

theorem taken_of_commits {versions : Versions ControlPlane TxnOp RowKey} {index : Nat}
    {aspect : AspectName} {row : IndexRow} (valid : versions.Valid ControlPlane.rowStore)
    (found : versions.commits[index]? = some commit)
    (commits : versions.Commits ControlPlane.rowStore index commit view)
    (member : (aspect, row) ∈ (versions.version index).index.segments)
    (gone : (aspect, row) ∉ (versions.version (index + 1)).index.segments) :
    TakenBy commit.ops aspect row := by
  rw [← ControlPlane.cell_segment_eq_some] at member gone
  by_cases touched : .segment aspect row.desc.id ∈ commit.touched
  · have began := valid.cell_began found commits touched
    have taken := commits.cell_touched found touched
    refine ControlPlane.taken_of_applyAll commits.applied
      (ControlPlane.cell_segment_eq_some.mp (began.symm.trans member)) fun kept => gone ?_
    exact taken.trans (ControlPlane.cell_segment_eq_some.mpr kept)
  · exact absurd ((commits.cell_free found touched).1.trans member) gone

/-- What the history holds of a transaction at a stage. -/
def TxnStage.Recorded (versions : Versions ControlPlane TxnOp RowKey) (id : Nat)
    (ops : List TxnOp) : TxnStage → Prop
  | .returned none => versions.Once id ops
  | .returned (some .ambiguous) => versions.byAuthor id = [] ∨ versions.Once id ops
  | _ => versions.byAuthor id = []

/-- A transaction stands as its history says. -/
structure TxnRun.Fits (versions : Versions ControlPlane TxnOp RowKey) (id : Nat)
    (txn : TxnRun) : Prop where
  /-- An open transaction has applied a part of its operations to its snapshot. -/
  view : ∀ {began view touched left}, txn.stage = .opened began view touched left →
    began ≤ versions.commits.length ∧ ∃ done, txn.ops = done ++ left ∧
      ControlPlane.rowStore.applyAll (versions.version began) [] done = .ok (view, touched)
  /-- Operations which ran in an earlier attempt are guarded. -/
  guarded : txn.opsRan = true → ∀ op ∈ txn.ops, op.isGuarded = true
  recorded : txn.stage.Recorded versions id txn.ops

namespace TxnSystem

variable {system after : TxnSystem} {id : Nat} {txn : TxnRun}

/-- What the next statement of a transaction does. -/
inductive Takes (system : TxnSystem) (id : Nat) (txn : TxnRun) : TxnSystem → Prop
  | begins (stage : txn.stage = .starting) :
      Takes system id txn (system.setTxn id
        { txn with
          stage := .opened system.versions.commits.length system.versions.current [] txn.ops })
  | applies {began view touched op left next}
      (stage : txn.stage = .opened began view touched (op :: left))
      (applied : view.apply op = .ok next) :
      Takes system id txn (system.setTxn id
        { txn with stage := .opened began next (touched ++ op.touches view) left })
  | fails {kind opsRan}
      (stage : txn.stage = .starting ∨ ∃ began view touched left,
        txn.stage = .opened began view touched left) :
      Takes system id txn (system.setTxn id (txn.fail kind opsRan))
  | lands {began view touched failure} (stage : txn.stage = .opened began view touched [])
      (unwritten : system.versions.Unwritten began touched)
      (kind : failure = none ∨ failure = some .ambiguous) :
      Takes system id txn (system.land id txn began view touched failure)

theorem takes_of_statement (taken : system.statement id txn ending = some after) :
    system.Takes id txn after := by
  unfold statement at taken
  split at taken
  · rename_i stage
    cases taken
    exact .begins stage
  · rename_i kind stage
    split at taken
    · cases taken
    · cases taken
      exact .fails (.inl stage)
  · rename_i began view touched op left stage
    split at taken
    · rename_i next applied
      cases taken
      exact .applies stage applied
    · cases taken
      exact .fails (.inr ⟨_, _, _, _, stage⟩)
  · rename_i began view touched op left kind stage
    split at taken
    · cases taken
    · cases taken
      exact .fails (.inr ⟨_, _, _, _, stage⟩)
  · rename_i began view touched stage
    split at taken
    · rename_i unwritten
      cases taken
      exact .lands stage unwritten (.inl rfl)
    · cases taken
      exact .fails (.inr ⟨_, _, _, _, stage⟩)
  · rename_i began view touched kind stage
    split at taken
    · cases taken
      exact .fails (.inr ⟨_, _, _, _, stage⟩)
    · cases taken
  · rename_i began view touched stage
    split at taken
    · rename_i unwritten
      cases taken
      exact .lands stage unwritten (.inr rfl)
    · cases taken
  · cases taken

end TxnSystem

namespace TxnRun

variable {versions : Versions ControlPlane TxnOp RowKey} {id : Nat} {txn : TxnRun}

theorem fits_start (absent : versions.byAuthor id = []) (ops : List TxnOp) :
    (start ops).Fits versions id where
  view stage := by cases stage
  guarded ran := by cases ran
  recorded := absent

variable (fits : txn.Fits versions id)

include fits

theorem Fits.absent
    (stage : txn.stage = .starting ∨ ∃ began view touched left,
      txn.stage = .opened began view touched left) : versions.byAuthor id = [] := by
  have recorded := fits.recorded
  rcases stage with stage | ⟨began, view, touched, left, stage⟩
  · rw [stage] at recorded
    exact recorded
  · rw [stage] at recorded
    exact recorded

theorem Fits.begin (stage : txn.stage = .starting) :
    ({ txn with stage := .opened versions.commits.length versions.current [] txn.ops } :
      TxnRun).Fits versions id where
  view same := by
    cases same
    exact ⟨le_rfl, [], rfl, rfl⟩
  guarded := fits.guarded
  recorded := fits.absent (.inl stage)

theorem Fits.apply {next : ControlPlane} {op : TxnOp} {left : List TxnOp}
    (stage : txn.stage = .opened began view touched (op :: left))
    (applied : view.apply op = .ok next) :
    ({ txn with stage := .opened began next (touched ++ op.touches view) left } :
      TxnRun).Fits versions id where
  view same := by
    cases same
    obtain ⟨past, done, ops, before⟩ := fits.view stage
    refine ⟨past, done ++ [op], by simp [ops], ?_⟩
    exact ControlPlane.rowStore.applyAll_concat_eq_ok.mpr
      ⟨view, touched, next, before, applied, rfl⟩
  guarded := fits.guarded
  recorded := fits.absent (.inr ⟨_, _, _, _, stage⟩)

theorem Fits.fail {kind : TxnErrorKind} {opsRan : Bool} (absent : versions.byAuthor id = []) :
    (txn.fail kind opsRan).Fits versions id := by
  simp only [TxnRun.fail]
  split
  · refine ⟨(fun same => by cases same), fits.guarded, ?_⟩
    cases kind with
    | ambiguous => exact .inl absent
    | _ => exact absent
  · rename_i retried
    simp only [not_or, Bool.not_eq_false] at retried
    refine ⟨(fun same => by cases same), fun ran op member => ?_, absent⟩
    rcases Bool.or_eq_true_iff.mp ran with earlier | now
    · exact fits.guarded earlier op member
    · have safe := retried.2.1
      rw [now, Bool.not_true, Bool.false_or, List.all_eq_true] at safe
      exact safe op member

theorem Fits.commit_other {author : Nat} (different : author ≠ id) :
    txn.Fits (versions.commit ControlPlane.rowStore author ops began view touched) id where
  view stage := by
    obtain ⟨past, done, same, applied⟩ := fits.view stage
    refine ⟨past.trans ?_, done, same, ?_⟩
    · rw [Versions.length_commit]
      exact Nat.le_succ _
    · rw [Versions.version_commit past]
      exact applied
  guarded := fits.guarded
  recorded := by
    have recorded := fits.recorded
    unfold TxnStage.Recorded Versions.Once at recorded ⊢
    rw [Versions.byAuthor_commit_of_ne different]
    exact recorded

end TxnRun

namespace TxnSystem

variable {before after : TxnSystem} {action : TxnAction} {actions : List TxnAction}
variable {txn : TxnRun} {id : Nat}

/-- The history is valid, and every transaction stands as it says. -/
structure Sound (system : TxnSystem) : Prop where
  valid : system.versions.Valid ControlPlane.rowStore
  authors : ∀ commit ∈ system.versions.commits, commit.author < system.txns.length
  fits : ∀ {id : Nat} {txn : TxnRun}, system.txns[id]? = some txn → txn.Fits system.versions id

theorem opened_sound (plane : ControlPlane) : (opened plane).Sound where
  valid := Versions.valid_initial plane
  authors commit member := by cases member
  fits found := by simp [opened] at found

section

variable (sound : before.Sound)

include sound

theorem Sound.setTxn (fits : txn.Fits before.versions id) : (before.setTxn id txn).Sound where
  valid := sound.valid
  authors commit member := by
    rw [TxnSystem.setTxn, List.length_set]
    exact sound.authors commit member
  fits {other found_txn} found := by
    rw [TxnSystem.setTxn, List.getElem?_set] at found
    split at found
    · rename_i same
      split at found
      · cases found
        exact same ▸ fits
      · cases found
    · exact sound.fits found

theorem Sound.land {failure : Option TxnErrorKind} (found : before.txns[id]? = some txn)
    (stage : txn.stage = .opened began view touched [])
    (unwritten : before.versions.Unwritten began touched)
    (kind : failure = none ∨ failure = some .ambiguous) :
    (before.land id txn began view touched failure).Sound := by
  have fits := sound.fits found
  have absent := fits.absent (.inr ⟨_, _, _, _, stage⟩)
  obtain ⟨past, done, ops, applied⟩ := fits.view stage
  rw [List.append_nil] at ops
  have length := (List.getElem?_eq_some_iff.mp found).1
  refine ⟨sound.valid.commit past (ops ▸ applied) unwritten, ?_, ?_⟩
  · intro commit member
    rw [TxnSystem.land, List.length_set]
    rcases List.mem_append.mp member with earlier | last
    · exact sound.authors commit earlier
    · rw [List.mem_singleton] at last
      exact last ▸ length
  · intro other other_txn found_other
    rw [TxnSystem.land, List.getElem?_set] at found_other
    split at found_other
    · rename_i same
      subst same
      cases found_other
      have once : (before.versions.commit ControlPlane.rowStore id txn.ops began view
          touched).Once id txn.ops := Versions.once_commit absent
      refine ⟨(fun same => by cases same), fits.guarded, ?_⟩
      rcases kind with rfl | rfl
      · exact once
      · exact .inr once
    · rename_i different
      exact (sound.fits found_other).commit_other different

theorem Sound.step (taken : before.step action = some after) : after.Sound := by
  cases action with
  | run ops =>
      cases taken
      refine ⟨sound.valid, fun commit member => ?_, fun {id txn} found => ?_⟩
      · rw [List.length_append]
        exact (sound.authors commit member).trans_le (Nat.le_add_right _ _)
      · rw [List.getElem?_append] at found
        split at found
        · exact sound.fits found
        · rename_i late
          rw [List.mem_singleton.mp (List.mem_of_getElem? found)]
          refine TxnRun.fits_start ?_ ops
          rw [Versions.byAuthor, List.filter_eq_nil_iff]
          intro commit member own
          exact late (of_decide_eq_true own ▸ sound.authors commit member)
  | statement id ending =>
      obtain ⟨txn, found, taken⟩ := bind_eq_some_iff.mp taken
      have fits := sound.fits found
      cases takes_of_statement taken with
      | begins stage => exact sound.setTxn (fits.begin stage)
      | applies stage applied => exact sound.setTxn (fits.apply stage applied)
      | fails stage => exact sound.setTxn (fits.fail (fits.absent stage))
      | lands stage unwritten kind => exact sound.land found stage unwritten kind
  | retry id mayRetry =>
      obtain ⟨txn, found, taken⟩ := bind_eq_some_iff.mp taken
      have fits := sound.fits found
      split at taken
      · rename_i stage
        cases taken
        have absent := fits.recorded
        rw [stage] at absent
        refine sound.setTxn ?_
        split
        · exact ⟨(fun same => by cases same), fits.guarded, absent⟩
        · exact ⟨(fun same => by cases same), fits.guarded, absent⟩
      · cases taken
  | drop id =>
      obtain ⟨txn, found, taken⟩ := bind_eq_some_iff.mp taken
      have fits := sound.fits found
      split at taken
      · cases taken
      · rename_i open_
        cases taken
        refine sound.setTxn ⟨(fun same => by cases same), fits.guarded, ?_⟩
        have absent := fits.recorded
        cases stage : txn.stage with
        | returned failure => exact absurd stage (open_ failure)
        | _ =>
            rw [stage] at absent
            exact absent

theorem Sound.run (execution : Execution.run TxnSystem.step before actions = some after) :
    after.Sound :=
  Execution.invariant_of_run Sound (fun sound _ taken => sound.step taken) sound
    (Execution.meets_true _ before actions) execution

end

theorem Takes.commits {system : TxnSystem} (takes : system.Takes id txn after) :
    after.versions = system.versions ∨
      ∃ commit, after.versions.commits = system.versions.commits ++ [commit] ∧
        commit.author = id := by
  cases takes with
  | lands => exact .inr ⟨_, rfl, rfl⟩
  | _ => exact .inl rfl

theorem commits_of_statement (taken : before.step (.statement id ending) = some after) :
    after.versions = before.versions ∨
      ∃ commit, after.versions.commits = before.versions.commits ++ [commit] ∧
        commit.author = id := by
  obtain ⟨txn, _, taken⟩ := bind_eq_some_iff.mp taken
  exact (takes_of_statement taken).commits

theorem initial_of_step (taken : before.step action = some after) :
    after.versions.initial = before.versions.initial := by
  cases action with
  | run ops =>
      cases taken
      rfl
  | statement id ending =>
      obtain ⟨txn, _, taken⟩ := bind_eq_some_iff.mp taken
      cases takes_of_statement taken <;> rfl
  | retry id mayRetry =>
      obtain ⟨txn, _, taken⟩ := bind_eq_some_iff.mp taken
      split at taken
      · cases taken
        rfl
      · cases taken
  | drop id =>
      obtain ⟨txn, _, taken⟩ := bind_eq_some_iff.mp taken
      split at taken
      · cases taken
      · cases taken
        rfl

theorem initial_of_run {plane : ControlPlane}
    (execution : Execution.run TxnSystem.step (opened plane) actions = some after) :
    after.versions.initial = plane :=
  Execution.invariant_of_run (·.versions.initial = plane)
    (fun same _ taken => (initial_of_step taken).trans same) rfl
    (Execution.meets_true _ (opened plane) actions) execution

theorem commits_kept_of_step (taken : before.step action = some after)
    (member : commit ∈ before.versions.commits) : commit ∈ after.versions.commits := by
  cases action with
  | run ops =>
      cases taken
      exact member
  | statement id ending =>
      rcases commits_of_statement taken with same | ⟨last, grown, _⟩
      · exact same ▸ member
      · exact grown ▸ List.mem_append_left [last] member
  | retry id mayRetry =>
      obtain ⟨txn, _, taken⟩ := bind_eq_some_iff.mp taken
      split at taken
      · cases taken
        exact member
      · cases taken
  | drop id =>
      obtain ⟨txn, _, taken⟩ := bind_eq_some_iff.mp taken
      split at taken
      · cases taken
      · cases taken
        exact member

theorem commits_kept_of_run (execution : Execution.run TxnSystem.step before actions = some after)
    (member : commit ∈ before.versions.commits) : commit ∈ after.versions.commits := by
  induction actions generalizing before with
  | nil =>
      cases execution
      exact member
  | cons action later ih =>
      obtain ⟨middle, taken, rest⟩ := Execution.run_cons_eq_some.mp execution
      exact ih rest (commits_kept_of_step taken member)

theorem unchanged_of_absent {middle : TxnSystem}
    (taken : before.step (.statement id ending) = some middle)
    (rest : Execution.run TxnSystem.step middle actions = some after)
    (absent : after.versions.byAuthor id = []) : middle.versions = before.versions := by
  rcases commits_of_statement taken with same | ⟨commit, grown, own⟩
  · exact same
  · have kept : commit ∈ after.versions.commits :=
      commits_kept_of_run rest (grown ▸ List.mem_append_right _ List.mem_cons_self)
    have listed : commit ∈ after.versions.byAuthor id :=
      List.mem_filter.mpr ⟨kept, decide_eq_true own⟩
    rw [absent] at listed
    cases listed

theorem Sound.ops_of_commit (sound : before.Sound) (found : before.txns[id]? = some txn)
    (member : commit ∈ before.versions.commits) (own : commit.author = id) :
    commit.ops = txn.ops := by
  have recorded := (sound.fits found).recorded
  have listed : commit ∈ before.versions.byAuthor id :=
    List.mem_filter.mpr ⟨member, decide_eq_true own⟩
  cases stage : txn.stage with
  | returned failure =>
      rw [stage] at recorded
      cases failure with
      | none => exact recorded.ops_eq member own
      | some kind =>
          cases kind with
          | ambiguous =>
              rcases recorded with absent | once
              · rw [absent] at listed
                cases listed
              · exact once.ops_eq member own
          | _ =>
              rw [show before.versions.byAuthor id = [] from recorded] at listed
              cases listed
  | _ =>
      rw [stage] at recorded
      rw [show before.versions.byAuthor id = [] from recorded] at listed
      cases listed

end TxnSystem

open TxnSystem in
/-- A transaction which returns a failure other than an ambiguous one changed nothing; one which
returns success is in the history once, with all its operations applied in order to a snapshot
which still stood where they touch it; and a row which its commit takes away is named by a guarded
operation at its version, or by an unguarded one if no operation ran in an earlier attempt. -/
theorem index_txn_atomic {plane : ControlPlane} {actions : List TxnAction} {after : TxnSystem}
    (execution : Execution.run TxnSystem.step (opened plane) actions = some after) {id : Nat}
    {txn : TxnRun} (found : after.txns[id]? = some txn) :
    (∀ kind, txn.stage = .returned (some kind) → kind ≠ .ambiguous →
      ∀ earlier ending later before middle,
        actions = earlier ++ .statement id ending :: later →
        Execution.run TxnSystem.step (opened plane) earlier = some before →
        before.step (.statement id ending) = some middle →
          middle.versions = before.versions) ∧
    (txn.stage = .returned none → ∃ index commit view,
      after.versions.byAuthor id = [commit] ∧ commit.ops = txn.ops ∧
        after.versions.commits[index]? = some commit ∧
        ControlPlane.rowStore.applyAll (after.versions.version commit.began) [] txn.ops =
          .ok (view, commit.touched) ∧
        (∀ key ∈ commit.touched,
          (after.versions.version index).cell key =
              (after.versions.version commit.began).cell key ∧
            (after.versions.version (index + 1)).cell key = view.cell key) ∧
        ∀ key ∉ commit.touched,
          view.cell key = (after.versions.version commit.began).cell key ∧
            (after.versions.version (index + 1)).cell key =
              (after.versions.version index).cell key) ∧
    ∀ index commit aspect row, after.versions.commits[index]? = some commit →
      commit.author = id → (aspect, row) ∈ (after.versions.version index).index.segments →
      (aspect, row) ∉ (after.versions.version (index + 1)).index.segments →
        ∃ op, .onIndex op ∈ txn.ops ∧
          (op.Names aspect row ∨ (op.Overwrites aspect row.desc.id ∧ txn.opsRan = false)) := by
  have sound : after.Sound := (opened_sound plane).run execution
  have fits := sound.fits found
  refine ⟨?_, ?_, ?_⟩
  · intro kind stage definite earlier ending later before middle split_eq prefix_run taken
    have absent : after.versions.byAuthor id = [] := by
      have recorded := fits.recorded
      rw [stage] at recorded
      cases kind with
      | ambiguous => exact absurd rfl definite
      | _ => exact recorded
    rw [split_eq, Execution.run_append, prefix_run] at execution
    obtain ⟨next, first, rest⟩ := Execution.run_cons_eq_some.mp execution
    rw [taken, Option.some_inj] at first
    subst first
    exact unchanged_of_absent taken rest absent
  · intro stage
    have recorded := fits.recorded
    rw [stage] at recorded
    obtain ⟨commit, by_author, ops⟩ := recorded
    have listed : commit ∈ after.versions.byAuthor id := by simp [by_author]
    obtain ⟨index, there⟩ := List.getElem?_of_mem (List.mem_filter.mp listed).1
    obtain ⟨view, commits⟩ := sound.valid index commit there
    refine ⟨index, commit, view, by_author, ops, there, ops ▸ commits.applied, ?_, ?_⟩
    · exact fun key touched =>
        ⟨sound.valid.cell_began there commits touched, commits.cell_touched there touched⟩
    · exact fun key free => (commits.cell_free there free).symm
  · intro index commit aspect row there own member gone
    obtain ⟨view, commits⟩ := sound.valid index commit there
    have ops := sound.ops_of_commit found (List.mem_of_getElem? there) own
    obtain ⟨op, op_mem, takes⟩ := taken_of_commits sound.valid there commits member gone
    rw [ops] at op_mem
    refine ⟨op, op_mem, takes.imp_right fun overwrites => ⟨overwrites, ?_⟩⟩
    by_contra ran
    have guarded := fits.guarded (Bool.eq_true_of_not_eq_false ran) _ op_mem
    cases op with
    | upsert own_aspect put => cases guarded
    | delete own_aspect deleted => cases guarded
    | _ => exact overwrites

/-- A segment row at a generation. -/
def rowAtGeneration (gen : Nat) : IndexRow where
  desc :=
    { id := 1
      path := .elsewhere "price-1"
      formatVersion := 1
      physicalType := some .f64
      timeUnit := some .nanos
      rowCount := 1
      nullCount := 0
      timeSorted := true
      minTs := some 0
      maxTs := some 0
      minValue := some 1
      maxValue := some 1
      byteLen := 100 }
  gen := gen
  prec := none
  frameCrc := some 7
  commitEpoch := none
  seriesId := 0

/-- A transaction and the statements which bring it through. -/
def runThrough (id : Nat) (op : IndexOp) : List TxnAction :=
  .run [.onIndex op] :: List.replicate 3 (.statement id .succeeds)

/-- A conflict at `BEGIN` delays a transaction, and another one replaces the row before it begins
again. -/
def overtakenRun (delayed : IndexOp) : List TxnAction :=
  runThrough 0 (.insertNew "price" (rowAtGeneration 1)) ++
    [.run [.onIndex delayed], .statement 1 (.fails .retryable)] ++
    runThrough 2
      (.replaceExpected "price" (rowAtGeneration 1).version (rowAtGeneration 2)) ++
    [.retry 1 true, .statement 1 .succeeds]

/-- A guarded deletion which was overtaken. -/
def overtakenDeletion : List TxnAction :=
  overtakenRun (.deleteExpected "price" (rowAtGeneration 1).version)

theorem overtaken_deletion_changes_nothing :
    ∃ after txn before middle,
      Execution.run TxnSystem.step (.opened .fresh)
          (overtakenDeletion ++ [.statement 1 .succeeds]) = some after ∧
      after.txns[1]? = some txn ∧ txn.stage = .returned (some .conflict) ∧
      Execution.run TxnSystem.step (.opened .fresh) overtakenDeletion = some before ∧
      before.step (.statement 1 .succeeds) = some middle ∧
      middle.versions = before.versions := by
  refine ⟨_, _, _, _, rfl, rfl, rfl, rfl, rfl, ?_⟩
  exact (@index_txn_atomic .fresh (overtakenDeletion ++ [.statement 1 .succeeds]) _ rfl 1 _
    rfl).1 .conflict rfl (by decide) overtakenDeletion .succeeds [] _ _ rfl rfl rfl

/-- After a conflict at `BEGIN` an unguarded deletion is run again, and takes away a row version
which no operation of its transaction names. -/
theorem overtaken_delete_takes_unnamed_row :
    ∃ after txn,
      Execution.run TxnSystem.step (.opened .fresh)
          (overtakenRun (.delete "price" 1) ++ [.statement 1 .succeeds, .statement 1 .succeeds]) =
        some after ∧
      after.txns[1]? = some txn ∧ txn.stage = .returned none ∧ txn.attempts = 2 ∧
      ("price", rowAtGeneration 2) ∈ (after.versions.version 2).index.segments ∧
      ("price", rowAtGeneration 2) ∉ (after.versions.version 3).index.segments ∧
      ∀ op, .onIndex op ∈ txn.ops → ¬op.Names "price" (rowAtGeneration 2) := by
  refine ⟨_, _, rfl, rfl, rfl, rfl, ?_, ?_, ?_⟩
  · decide
  · decide
  · intro op member
    cases List.mem_singleton.mp member
    exact id

end WeftDb
