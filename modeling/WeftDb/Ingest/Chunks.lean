import Mathlib.Data.List.Basic
import WeftDb.Segment.Writers

/-!
# Where a batch is cut

The chunks of a batch begin with the rows which open one: the estimate of the rows since the last
cut passes the target there, and the timestamp is new.
-/

namespace WeftDb

theorem fillChunk_append (target estimate : Nat) (last : Int) (rows : List Row) :
    (fillChunk target estimate last rows).1 ++ (fillChunk target estimate last rows).2 = rows := by
  induction rows generalizing estimate last with
  | nil => rfl
  | cons row rows ih =>
      rw [fillChunk]
      split
      · rfl
      · exact congrArg (row :: ·) (ih _ _)

theorem length_fillChunk_le (target estimate : Nat) (last : Int) (rows : List Row) :
    (fillChunk target estimate last rows).2.length ≤ rows.length := by
  have whole := congrArg List.length (fillChunk_append target estimate last rows)
  rw [List.length_append] at whole
  omega

/-- One more row: the estimate since the last cut, and the timestamp. -/
def paceStep (target : Nat) : Option (Nat × Int) → Row → Option (Nat × Int)
  | none, row => some (rowCost row, row.1)
  | some (estimate, previous), row =>
      if target < estimate + rowCost row ∧ row.1 ≠ previous then
        some (rowCost row, row.1)
      else some (estimate + rowCost row, row.1)

/-- The estimate behind some rows since the last cut, and their last timestamp. -/
def pace (target : Nat) (before : List Row) : Option (Nat × Int) :=
  before.foldl (paceStep target) none

/-- Whether a chunk begins with a row: it is the first, or its timestamp is new and the estimate
passes the target with it. -/
def Opens (target : Nat) (before : List Row) (row : Row) : Prop :=
  ∀ held ∈ pace target before, target < held.1 + rowCost row ∧ row.1 ≠ held.2

instance (target : Nat) (before : List Row) (row : Row) :
    Decidable (Opens target before row) :=
  inferInstanceAs (Decidable (∀ held ∈ pace target before, _))

theorem pace_append_singleton (target : Nat) (before : List Row) (row : Row) :
    pace target (before ++ [row]) = paceStep target (pace target before) row := by
  rw [pace, List.foldl_append]
  rfl

variable {before rows : List Row} {target : Nat} {row : Row}

theorem pace_of_opens (opens : Opens target before row) :
    pace target (before ++ [row]) = some (rowCost row, row.1) := by
  rw [pace_append_singleton]
  cases held : pace target before with
  | none => rfl
  | some held => exact if_pos (opens _ ‹_›)

theorem exists_pace (target : Nat) (before : List Row) (row : Row) :
    ∃ estimate, pace target (before ++ [row]) = some (estimate, row.1) := by
  rw [pace_append_singleton]
  cases pace target before with
  | none => exact ⟨_, rfl⟩
  | some held =>
      rw [paceStep]
      split <;> exact ⟨_, rfl⟩

theorem Opens.ne_last {last : Row} (opens : Opens target (before ++ [last]) row) :
    row.1 ≠ last.1 := by
  obtain ⟨estimate, paced⟩ := exists_pace target before last
  exact (opens _ paced).2

/-- Chunks behind some rows: each begins with the one row of it which opens a chunk. -/
inductive Cut (target : Nat) : List Row → List (List Row) → Prop
  | nil (before : List Row) : Cut target before []
  | cons {before : List Row} {row : Row} {inner : List Row}
      {chunks : List (List Row)} (opens : Opens target before row)
      (whole : ∀ left next right, inner = left ++ next :: right →
        ¬Opens target (before ++ row :: left) next)
      (later : Cut target (before ++ row :: inner) chunks) :
      Cut target before ((row :: inner) :: chunks)

theorem fillChunk_whole {target estimate : Nat} {previous : Int} {rows before : List Row}
    (paced : pace target before = some (estimate, previous)) :
    (∀ left next right, (fillChunk target estimate previous rows).1 = left ++ next :: right →
        ¬Opens target (before ++ left) next) ∧
      ∀ next right, (fillChunk target estimate previous rows).2 = next :: right →
        Opens target (before ++ (fillChunk target estimate previous rows).1) next := by
  induction rows generalizing estimate previous before with
  | nil => exact ⟨by simp [fillChunk], by simp [fillChunk]⟩
  | cons row rows ih =>
      rw [fillChunk]
      split
      · rename_i full
        refine ⟨by simp, ?_⟩
        rintro next right ⟨rfl, rfl⟩
        rw [List.append_nil]
        intro held paced'
        rw [paced] at paced'
        cases paced'
        exact full
      · rename_i inside
        have step : pace target (before ++ [row]) =
            some (estimate + rowCost row, row.1) := by
          rw [pace_append_singleton, paced]
          exact if_neg inside
        obtain ⟨whole, opens⟩ := ih step
        constructor
        · intro left next right same
          cases left with
          | nil =>
              obtain ⟨rfl, -⟩ := List.cons.inj same
              rw [List.append_nil]
              exact fun opened => inside (opened _ paced)
          | cons first left =>
              obtain ⟨rfl, inner_eq⟩ := List.cons.inj same
              have inner := whole left next right inner_eq
              rwa [List.append_assoc] at inner
        · intro next right same
          have opened := opens next right same
          rwa [List.append_assoc] at opened

theorem cut_chunkIngestRowsFrom {fuel : Nat} (enough : rows.length ≤ fuel)
    (opens : ∀ row rest, rows = row :: rest → Opens target before row) :
    Cut target before (chunkIngestRowsFrom target fuel rows) := by
  induction fuel generalizing rows before with
  | zero => exact .nil before
  | succ fuel ih =>
      cases rows with
      | nil => exact .nil before
      | cons row rows =>
          have opened := opens row rows rfl
          obtain ⟨whole, behind⟩ := @fillChunk_whole _ _ _ rows _ (pace_of_opens opened)
          simp only [List.append_assoc, List.singleton_append] at whole behind
          have shorter := length_fillChunk_le target (rowCost row) row.1 rows
          have room : (fillChunk target (rowCost row) row.1 rows).2.length ≤ fuel :=
            shorter.trans (Nat.le_of_succ_le_succ enough)
          exact .cons opened whole (ih room fun next rest same => behind next rest same)

theorem flatten_chunkIngestRowsFrom {fuel : Nat} (enough : rows.length ≤ fuel) :
    (chunkIngestRowsFrom target fuel rows).flatten = rows := by
  induction fuel generalizing rows with
  | zero =>
      obtain rfl := List.length_eq_zero_iff.mp (Nat.le_zero.mp enough)
      rfl
  | succ fuel ih =>
      cases rows with
      | nil => rfl
      | cons row rows =>
          have shorter := length_fillChunk_le target (rowCost row) row.1 rows
          have room : (fillChunk target (rowCost row) row.1 rows).2.length ≤ fuel :=
            shorter.trans (Nat.le_of_succ_le_succ enough)
          rw [chunkIngestRowsFrom, List.flatten_cons, ih room, List.cons_append, fillChunk_append]

theorem cut_chunkIngestRows (rows : List Row) (target : Nat) :
    Cut target [] (chunkIngestRows rows target) :=
  cut_chunkIngestRowsFrom le_rfl fun row rest same held paced => by cases paced

theorem flatten_chunkIngestRows (rows : List Row) (target : Nat) :
    (chunkIngestRows rows target).flatten = rows :=
  flatten_chunkIngestRowsFrom le_rfl

namespace Cut

variable {target : Nat} {before : List Row} {chunks : List (List Row)}

variable (cut : Cut target before chunks)

include cut

theorem ne_nil : ∀ chunk ∈ chunks, chunk ≠ [] := by
  induction cut with
  | nil => exact List.forall_mem_nil _
  | cons opens whole later ih => exact List.forall_mem_cons.mpr ⟨List.cons_ne_nil _ _, ih⟩

theorem isChain :
    chunks.IsChain fun chunk next =>
      ∀ last ∈ chunk.getLast?, ∀ first ∈ next.head?, last.1 ≠ first.1 := by
  induction cut with
  | nil => exact .nil
  | cons opens whole later ih =>
      rename_i before row inner chunks
      cases later with
      | nil => exact .singleton _
      | cons opened =>
          refine .cons_cons ?_ ih
          rintro last found first ⟨rfl⟩ same
          obtain ⟨front, whole_eq⟩ := List.getLast?_eq_some_iff.mp found
          rw [whole_eq, ← List.append_assoc] at opened
          exact opened.ne_last same.symm

theorem exists_of_opens {left rest : List Row} (split : chunks.flatten = left ++ row :: rest)
    (opens : Opens target (before ++ left) row) :
    ∃ front inner behind, chunks = front ++ (row :: inner) :: behind ∧ left = front.flatten ∧
      rest = inner ++ behind.flatten := by
  induction cut generalizing left with
  | nil => simp at split
  | cons opened whole later ih =>
      rename_i before first inner chunks
      rw [List.flatten_cons, List.cons_append] at split
      cases left with
      | nil =>
          obtain ⟨rfl, rfl⟩ := List.cons.inj split
          exact ⟨[], inner, chunks, rfl, rfl, rfl⟩
      | cons other left =>
          obtain ⟨rfl, rest_eq⟩ := List.cons.inj split
          rcases List.append_eq_append_iff.mp rest_eq with ⟨between, left_eq, behind⟩ |
            ⟨between, inner_eq, behind⟩
          · rw [left_eq, ← List.cons_append, ← List.append_assoc] at opens
            obtain ⟨front, inner', behind', rfl, rfl, rfl⟩ := ih behind opens
            refine ⟨(first :: inner) :: front, inner', behind', rfl, ?_, rfl⟩
            rw [left_eq]
            rfl
          · cases between with
            | nil =>
                rw [List.append_nil] at inner_eq
                subst inner_eq
                rw [List.nil_append] at behind
                obtain ⟨front, inner', behind', rfl, front_eq, rfl⟩ :=
                  @ih [] behind.symm (by rwa [List.append_nil])
                refine ⟨(first :: _) :: front, inner', behind', rfl, ?_, rfl⟩
                rw [List.flatten_cons, ← front_eq, List.append_nil]
            | cons next between =>
                obtain ⟨rfl, -⟩ := List.cons.inj behind
                exact absurd opens (whole left row between inner_eq)

end Cut

end WeftDb
