import Mathlib.Order.Basic
import Mathlib.Order.Nat
import Mathlib.Data.Nat.Init

/-!
# Optimistic transactions on snapshots

A database is a collection of cells under keys.  A transaction applies its operations to a
snapshot and keeps the keys they touch; it commits only if nobody wrote one of these keys since
the snapshot, and then the touched cells are taken from its view and the others stay.  A history
is the list of commits, and its validity says all that a reader of the history may rely on.
-/

/-- A database with cells, the operations on it, and what they touch. -/
structure RowStore (Db Op Failure Key Cell : Type) [DecidableEq Key] where
  cell : Db → Key → Option Cell
  apply : Db → Op → Except Failure Db
  /-- The keys of the cells which an operation writes. -/
  touches : Db → Op → List Key
  /-- A database with the cells under some keys taken from a view. -/
  merge : Db → Db → List Key → Db
  cell_apply : ∀ {db after op key}, apply db op = .ok after → key ∉ touches db op →
    cell after key = cell db key
  cell_merge : ∀ current view keys key,
    cell (merge current view keys) key = if key ∈ keys then cell view key else cell current key

namespace RowStore

variable {Db Op Failure Key Cell : Type} [DecidableEq Key]

/-- Apply operations in order, collecting what they touch. -/
def applyAll (store : RowStore Db Op Failure Key Cell) (db : Db) (touched : List Key) :
    List Op → Except Failure (Db × List Key)
  | [] => .ok (db, touched)
  | op :: later =>
      match store.apply db op with
      | .ok next => store.applyAll next (touched ++ store.touches db op) later
      | .error failure => .error failure

variable (store : RowStore Db Op Failure Key Cell)
variable {touched : List Key} {result : Db × List Key} {db : Db}

theorem applyAll_cons_eq_ok {op : Op} {later : List Op} :
    store.applyAll db touched (op :: later) = .ok result ↔
      ∃ next, store.apply db op = .ok next ∧
        store.applyAll next (touched ++ store.touches db op) later = .ok result := by
  rw [applyAll]
  cases store.apply db op <;> simp

theorem applyAll_concat_eq_ok {earlier : List Op} {op : Op} :
    store.applyAll db touched (earlier ++ [op]) = .ok result ↔
      ∃ view keys next, store.applyAll db touched earlier = .ok (view, keys) ∧
        store.apply view op = .ok next ∧ result = (next, keys ++ store.touches view op) := by
  induction earlier generalizing db touched with
  | nil =>
      rw [List.nil_append, applyAll_cons_eq_ok]
      constructor
      · rintro ⟨next, applied, rest⟩
        cases rest
        exact ⟨db, touched, next, rfl, applied, rfl⟩
      · rintro ⟨view, keys, next, start, applied, rfl⟩
        cases start
        exact ⟨next, applied, rfl⟩
  | cons first earlier ih =>
      rw [List.cons_append, applyAll_cons_eq_ok]
      constructor
      · rintro ⟨middle, applied, rest⟩
        obtain ⟨view, keys, next, before, last, same⟩ := ih.mp rest
        exact ⟨view, keys, next, store.applyAll_cons_eq_ok.mpr ⟨middle, applied, before⟩, last,
          same⟩
      · rintro ⟨view, keys, next, before, last, same⟩
        obtain ⟨middle, applied, rest⟩ := store.applyAll_cons_eq_ok.mp before
        exact ⟨middle, applied, ih.mpr ⟨view, keys, next, rest, last, same⟩⟩

theorem cell_applyAll {after : Db} {keys : List Key} {ops : List Op} {key : Key}
    (applied : store.applyAll db touched ops = .ok (after, keys)) (free : key ∉ keys) :
    store.cell after key = store.cell db key ∧ key ∉ touched := by
  induction ops generalizing db touched with
  | nil =>
      cases applied
      exact ⟨rfl, free⟩
  | cons op later ih =>
      obtain ⟨next, first, rest⟩ := store.applyAll_cons_eq_ok.mp applied
      obtain ⟨same, outside⟩ := ih rest
      rw [List.mem_append, not_or] at outside
      exact ⟨same.trans (store.cell_apply first outside.2), outside.1⟩

end RowStore

/-- One commit of a history. -/
structure Commit (Db Op Key : Type) where
  /-- The transaction which committed. -/
  author : Nat
  ops : List Op
  /-- How many commits the snapshot holds. -/
  began : Nat
  touched : List Key
  /-- The database afterwards. -/
  after : Db

/-- A database and its commits, the oldest first. -/
structure Versions (Db Op Key : Type) where
  initial : Db
  commits : List (Commit Db Op Key)

namespace Versions

variable {Db Op Failure Key Cell : Type} [DecidableEq Key]
  {store : RowStore Db Op Failure Key Cell} {versions : Versions Db Op Key}
variable {index author began : Nat} {touched : List Key} {ops : List Op} {view : Db}

/-- The database after the first commits. -/
def version (versions : Versions Db Op Key) : Nat → Db
  | 0 => versions.initial
  | earlier + 1 =>
      match versions.commits[earlier]? with
      | some commit => commit.after
      | none => versions.initial

/-- The database as committed. -/
def current (versions : Versions Db Op Key) : Db :=
  versions.version versions.commits.length

/-- Nobody wrote one of the keys since a snapshot. -/
def Unwritten (versions : Versions Db Op Key) (began : Nat) (keys : List Key) : Prop :=
  ∀ commit ∈ versions.commits.drop began, ∀ key ∈ keys, key ∉ commit.touched

instance (versions : Versions Db Op Key) (began : Nat) (keys : List Key) :
    Decidable (versions.Unwritten began keys) :=
  inferInstanceAs (Decidable (∀ _ ∈ _, ∀ _ ∈ _, _))

variable (store) in
/-- Commit the view of a transaction. -/
def commit (versions : Versions Db Op Key) (author : Nat) (ops : List Op) (began : Nat)
    (view : Db) (touched : List Key) : Versions Db Op Key :=
  { versions with
    commits := versions.commits ++
      [⟨author, ops, began, touched, store.merge versions.current view touched⟩] }

variable (store) in
/-- What a commit of a history did: it applied its operations to its snapshot, nobody wrote what
they touch since, and it took over the touched cells. -/
structure Commits (versions : Versions Db Op Key) (index : Nat) (commit : Commit Db Op Key)
    (view : Db) : Prop where
  began : commit.began ≤ index
  applied : store.applyAll (versions.version commit.began) [] commit.ops =
    .ok (view, commit.touched)
  unwritten : ∀ earlier other, commit.began ≤ earlier → earlier < index →
    versions.commits[earlier]? = some other → ∀ key ∈ commit.touched, key ∉ other.touched
  after : commit.after = store.merge (versions.version index) view commit.touched

variable (store) in
/-- Every commit of the history did so. -/
def Valid (versions : Versions Db Op Key) : Prop :=
  ∀ index commit, versions.commits[index]? = some commit →
    ∃ view, versions.Commits store index commit view

/-- Every transaction began on the version which it committed on. -/
def Serial (versions : Versions Db Op Key) : Prop :=
  ∀ (index : Nat) (commit : Commit Db Op Key),
    versions.commits[index]? = some commit → commit.began = index

omit [DecidableEq Key] in
theorem version_succ {commit : Commit Db Op Key} (found : versions.commits[index]? = some commit) :
    versions.version (index + 1) = commit.after := by
  simp [version, found]

theorem length_commit (author : Nat) (ops : List Op) (began : Nat) (view : Db)
    (touched : List Key) :
    (versions.commit store author ops began view touched).commits.length =
      versions.commits.length + 1 := by
  simp [commit]

theorem version_commit (past : index ≤ versions.commits.length) :
    (versions.commit store author ops began view touched).version index =
      versions.version index := by
  cases index with
  | zero => rfl
  | succ earlier => simp [version, commit, List.getElem?_append_left past]

theorem valid_initial (db : Db) : (Versions.mk db [] : Versions Db Op Key).Valid store := by
  intro index commit found
  simp at found

theorem Commits.of_commit {last : Db} {commit : Commit Db Op Key}
    (past : index < versions.commits.length) (commits : versions.Commits store index commit view) :
    (versions.commit store author ops began last touched).Commits store index commit view where
  began := commits.began
  applied := by
    rw [version_commit (commits.began.trans past.le)]
    exact commits.applied
  unwritten earlier other from_ before found := by
    refine commits.unwritten earlier other from_ before ?_
    rwa [Versions.commit, List.getElem?_append_left (before.trans past)] at found
  after := by
    rw [version_commit past.le]
    exact commits.after

theorem Valid.commit (valid : versions.Valid store) (past : began ≤ versions.commits.length)
    (applied : store.applyAll (versions.version began) [] ops = .ok (view, touched))
    (unwritten : versions.Unwritten began touched) :
    (versions.commit store author ops began view touched).Valid store := by
  intro index commit found
  by_cases old : index < versions.commits.length
  · rw [Versions.commit, List.getElem?_append_left old] at found
    obtain ⟨own, commits⟩ := valid index commit found
    exact ⟨own, commits.of_commit old⟩
  · have last : index = versions.commits.length := by
      have bound := (List.getElem?_eq_some_iff.mp found).1
      rw [length_commit] at bound
      omega
    subst last
    rw [Versions.commit, List.getElem?_concat_length, Option.some_inj] at found
    subst found
    refine ⟨view, past, ?_, fun earlier other from_ before found => ?_, ?_⟩
    · rw [version_commit past]
      exact applied
    · rw [Versions.commit, List.getElem?_append_left before] at found
      refine unwritten other ?_
      refine List.mem_of_getElem? (i := earlier - began) ?_
      rw [List.getElem?_drop, Nat.add_sub_cancel' from_]
      exact found
    · rw [version_commit le_rfl]
      rfl

variable {index : Nat} {commit : Commit Db Op Key} {view : Db} {key : Key}

theorem Valid.cell_succ (valid : versions.Valid store)
    (found : versions.commits[index]? = some commit) (free : key ∉ commit.touched) :
    store.cell (versions.version (index + 1)) key = store.cell (versions.version index) key := by
  obtain ⟨view, commits⟩ := valid index commit found
  rw [version_succ found, commits.after, store.cell_merge, if_neg free]

theorem Valid.cell_same (valid : versions.Valid store) {earlier later : Nat}
    (le : earlier ≤ later) (past : later ≤ versions.commits.length)
    (free : ∀ index commit, earlier ≤ index → index < later →
      versions.commits[index]? = some commit → key ∉ commit.touched) :
    store.cell (versions.version later) key = store.cell (versions.version earlier) key := by
  induction later, le using Nat.le_induction with
  | base => rfl
  | succ index le ih =>
      have found := List.getElem?_eq_getElem (l := versions.commits) (i := index) past
      rw [valid.cell_succ found (free index _ le (Nat.lt_succ_self index) found)]
      exact ih ((Nat.le_succ index).trans past) fun other commit from_ before =>
        free other commit from_ (before.trans (Nat.lt_succ_self index))

theorem Valid.cell_began (valid : versions.Valid store)
    (found : versions.commits[index]? = some commit)
    (commits : versions.Commits store index commit view) (member : key ∈ commit.touched) :
    store.cell (versions.version index) key =
      store.cell (versions.version commit.began) key :=
  valid.cell_same commits.began (List.getElem?_eq_some_iff.mp found).1.le
    fun earlier other from_ before there => commits.unwritten earlier other from_ before there
      key member

theorem Commits.cell_touched (found : versions.commits[index]? = some commit)
    (commits : versions.Commits store index commit view) (member : key ∈ commit.touched) :
    store.cell (versions.version (index + 1)) key = store.cell view key := by
  rw [version_succ found, commits.after, store.cell_merge, if_pos member]

theorem Commits.cell_free (found : versions.commits[index]? = some commit)
    (commits : versions.Commits store index commit view) (free : key ∉ commit.touched) :
    store.cell (versions.version (index + 1)) key = store.cell (versions.version index) key ∧
      store.cell view key = store.cell (versions.version commit.began) key := by
  constructor
  · rw [version_succ found, commits.after, store.cell_merge, if_neg free]
  · exact (store.cell_applyAll commits.applied free).1

/-- The commits of a transaction. -/
def byAuthor (versions : Versions Db Op Key) (author : Nat) : List (Commit Db Op Key) :=
  versions.commits.filter fun commit => decide (commit.author = author)

/-- A transaction is in the history once, with its operations. -/
def Once (versions : Versions Db Op Key) (author : Nat) (ops : List Op) : Prop :=
  ∃ commit, versions.byAuthor author = [commit] ∧ commit.ops = ops

theorem byAuthor_commit_of_ne {other : Nat} (different : author ≠ other) :
    (versions.commit store author ops began view touched).byAuthor other =
      versions.byAuthor other := by
  simp [byAuthor, Versions.commit, List.filter_append, different]

theorem once_commit (absent : versions.byAuthor author = []) :
    (versions.commit store author ops began view touched).Once author ops := by
  refine ⟨⟨author, ops, began, touched, store.merge versions.current view touched⟩, ?_, rfl⟩
  rw [byAuthor] at absent ⊢
  rw [Versions.commit, List.filter_append, absent]
  simp

omit [DecidableEq Key] in
theorem Once.ops_eq (once : versions.Once author ops) (member : commit ∈ versions.commits)
    (own : commit.author = author) : commit.ops = ops := by
  obtain ⟨only, by_author, same⟩ := once
  have listed : commit ∈ versions.byAuthor author :=
    List.mem_filter.mpr ⟨member, decide_eq_true own⟩
  rw [by_author, List.mem_singleton] at listed
  exact listed ▸ same

end Versions
