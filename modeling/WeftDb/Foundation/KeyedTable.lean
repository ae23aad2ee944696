import Mathlib.Data.List.Nodup

/-!
# Tables with a primary key

A keyed table is a list of rows in which no key occurs twice.  The uniqueness proof travels with
the table, so every operation below returns a well-formed table and a lookup by key is exact.
-/

/-- Rows in insertion order, at most one of them under each key. -/
structure KeyedTable {Key Row : Type*} (key : Row → Key) where
  /-- The stored rows. -/
  rows : List Row
  /-- The primary-key constraint. -/
  nodup : (rows.map key).Nodup

namespace KeyedTable

variable {Key Row : Type*} {key : Row → Key}
variable {table current view : KeyedTable key} {row : Row} {keep : Row → Bool}
  {written : Key → Bool}

/-- The table without rows. -/
def empty : KeyedTable key where
  rows := []
  nodup := by simp

instance : Membership Row (KeyedTable key) where
  mem table row := row ∈ table.rows

theorem mem_rows : row ∈ table.rows ↔ row ∈ table :=
  Iff.rfl

instance [DecidableEq Row] (row : Row) (table : KeyedTable key) : Decidable (row ∈ table) :=
  inferInstanceAs (Decidable (row ∈ table.rows))

@[simp]
theorem not_mem_empty (row : Row) : row ∉ (empty : KeyedTable key) := by
  simp [← mem_rows, empty]

theorem eq_of_key_eq (table : KeyedTable key) {left right : Row} (left_mem : left ∈ table)
    (right_mem : right ∈ table) (same : key left = key right) : left = right :=
  List.inj_on_of_nodup_map table.nodup left_mem right_mem same

/-- Keep the rows a test accepts. -/
def filter (table : KeyedTable key) (keep : Row → Bool) : KeyedTable key where
  rows := table.rows.filter keep
  nodup := table.nodup.sublist (List.filter_sublist.map key)

@[simp]
theorem mem_filter : row ∈ table.filter keep ↔ row ∈ table ∧ keep row = true := by
  simp [← mem_rows, filter]

/-- The rows under some keys taken from a view, and the others as they are. -/
def merge (current view : KeyedTable key) (written : Key → Bool) : KeyedTable key where
  rows :=
    current.rows.filter (fun row => !written (key row)) ++
      view.rows.filter fun row => written (key row)
  nodup := by
    rw [List.map_append]
    refine List.Nodup.append (current.nodup.sublist (List.filter_sublist.map key))
      (view.nodup.sublist (List.filter_sublist.map key)) ?_
    intro target left right
    obtain ⟨kept, kept_mem, rfl⟩ := List.mem_map.mp left
    obtain ⟨taken, taken_mem, same⟩ := List.mem_map.mp right
    have kept_free := (List.mem_filter.mp kept_mem).2
    have taken_written := (List.mem_filter.mp taken_mem).2
    rw [same] at taken_written
    simp [taken_written] at kept_free

theorem mem_merge :
    row ∈ current.merge view written ↔
      if written (key row) = true then row ∈ view else row ∈ current := by
  simp only [← mem_rows, merge, List.mem_append, List.mem_filter, Bool.not_eq_true']
  cases written (key row) <;> simp

section Lookup

variable [DecidableEq Key]
variable {target : Key} {after : KeyedTable key}

/-- The row stored under a key. -/
def find? (table : KeyedTable key) (target : Key) : Option Row :=
  table.rows.find? fun row => decide (key row = target)

theorem find?_eq_some : table.find? target = some row ↔ row ∈ table ∧ key row = target := by
  constructor
  · intro found
    exact ⟨List.mem_of_find?_eq_some found, by simpa using List.find?_some found⟩
  · rintro ⟨row_mem, row_key⟩
    cases found : table.find? target with
    | none =>
        have absent := List.find?_eq_none.mp found row row_mem
        simp [row_key] at absent
    | some other =>
        have other_mem : other ∈ table := List.mem_of_find?_eq_some found
        have other_key : key other = target := by simpa using List.find?_some found
        rw [table.eq_of_key_eq other_mem row_mem (other_key.trans row_key.symm)]

theorem find?_eq_none : table.find? target = none ↔ ∀ row ∈ table, key row ≠ target := by
  simp [find?, ← mem_rows]

/-- Delete the row under a key, if there is one. -/
def erase (table : KeyedTable key) (target : Key) : KeyedTable key :=
  table.filter fun row => decide (key row ≠ target)

@[simp]
theorem mem_erase : row ∈ table.erase target ↔ row ∈ table ∧ key row ≠ target := by
  simp [erase]

/-- Insert a row whose key must be free. -/
def insert? (table : KeyedTable key) (row : Row) : Option (KeyedTable key) :=
  if free : key row ∉ table.rows.map key then
    some
      { rows := table.rows ++ [row]
        nodup := by
          rw [List.map_append, List.map_singleton, ← List.concat_eq_append]
          exact List.Nodup.concat free table.nodup }
  else
    none

theorem insert?_eq_none : table.insert? row = none ↔ ∃ other ∈ table, key other = key row := by
  simp [insert?, ← mem_rows]

theorem insert?_isSome (table : KeyedTable key) (row : Row)
    (free : ∀ other ∈ table, key other ≠ key row) : ∃ after, table.insert? row = some after := by
  cases inserted : table.insert? row with
  | none =>
      obtain ⟨other, other_mem, same⟩ := insert?_eq_none.mp inserted
      exact absurd same (free other other_mem)
  | some after => exact ⟨after, rfl⟩

section

variable (inserted : table.insert? row = some after)

include inserted

theorem rows_of_insert? : after.rows = table.rows ++ [row] := by
  unfold insert? at inserted
  split at inserted
  · cases inserted
    rfl
  · cases inserted

theorem mem_of_insert? (other : Row) : other ∈ after ↔ other ∈ table ∨ other = row := by
  rw [← mem_rows, rows_of_insert? inserted, List.mem_append, List.mem_singleton, mem_rows]

theorem free_of_insert? : ∀ other ∈ table, key other ≠ key row := by
  intro other other_mem same
  have refused : table.insert? row = none := insert?_eq_none.mpr ⟨other, other_mem, same⟩
  rw [refused] at inserted
  cases inserted

end

/-- Insert a row, replacing the one under its key. -/
def put (table : KeyedTable key) (row : Row) : KeyedTable key where
  rows := (table.erase (key row)).rows ++ [row]
  nodup := by
    rw [List.map_append, List.map_singleton, ← List.concat_eq_append]
    refine List.Nodup.concat ?_ (table.erase (key row)).nodup
    intro taken
    obtain ⟨other, other_mem, same⟩ := List.mem_map.mp taken
    exact (mem_erase.mp other_mem).2 same

@[simp]
theorem mem_put {other : Row} :
    other ∈ table.put row ↔ (other ∈ table ∧ key other ≠ key row) ∨ other = row := by
  change other ∈ (table.erase (key row)).rows ++ [row] ↔ _
  rw [List.mem_append, List.mem_singleton, mem_rows, mem_erase]

theorem find?_put_self (table : KeyedTable key) (row : Row) :
    (table.put row).find? (key row) = some row := by
  simp [find?_eq_some]

theorem find?_put_of_ne (table : KeyedTable key) (different : target ≠ key row) :
    (table.put row).find? target = table.find? target := by
  cases found : table.find? target with
  | none =>
      rw [find?_eq_none] at found ⊢
      intro other other_mem
      rcases mem_put.mp other_mem with ⟨kept, _⟩ | rfl
      · exact found other kept
      · exact different.symm
  | some other =>
      rw [find?_eq_some] at found ⊢
      refine ⟨mem_put.mpr (.inl ⟨found.1, ?_⟩), found.2⟩
      rw [found.2]
      exact different

theorem find?_congr {other : KeyedTable key}
    (same : ∀ row, key row = target → (row ∈ table ↔ row ∈ other)) :
    table.find? target = other.find? target := by
  cases found : table.find? target with
  | none =>
      rw [find?_eq_none] at found
      refine (find?_eq_none.mpr fun row member row_key => ?_).symm
      exact found row ((same row row_key).mpr member) row_key
  | some row =>
      obtain ⟨member, row_key⟩ := find?_eq_some.mp found
      exact (find?_eq_some.mpr ⟨(same row row_key).mp member, row_key⟩).symm

theorem find?_insert?_of_ne (inserted : table.insert? row = some after)
    (different : target ≠ key row) : after.find? target = table.find? target := by
  refine find?_congr fun other other_key => ?_
  rw [mem_of_insert? inserted]
  refine ⟨fun member => member.resolve_right ?_, .inl⟩
  rintro rfl
  exact different other_key.symm

theorem find?_filter_of_keep (kept : ∀ row, key row = target → keep row = true) :
    (table.filter keep).find? target = table.find? target :=
  find?_congr fun row row_key => by rw [mem_filter, and_iff_left (kept row row_key)]

theorem find?_erase_of_ne {erased : Key} (different : target ≠ erased) :
    (table.erase erased).find? target = table.find? target := by
  refine find?_filter_of_keep fun row row_key => decide_eq_true ?_
  rw [row_key]
  exact different

theorem find?_erase_self (table : KeyedTable key) (erased : Key) :
    (table.erase erased).find? erased = none :=
  find?_eq_none.mpr fun _ member => (mem_erase.mp member).2

theorem find?_merge :
    (current.merge view written).find? target =
      if written target = true then view.find? target else current.find? target := by
  split
  · rename_i taken
    exact find?_congr fun row row_key => by rw [mem_merge, row_key, if_pos taken]
  · rename_i kept
    exact find?_congr fun row row_key => by rw [mem_merge, row_key, if_neg kept]

end Lookup

end KeyedTable
