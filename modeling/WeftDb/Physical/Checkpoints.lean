import WeftDb.Foundation.PartitionPoint
import WeftDb.Physical.Columns

/-!
# Searching a column from its checkpoints

A column of second differences is read from its start.  Checkpoints, recorded every few rows, let a
search of a sorted column resume behind the rows which are too early.
-/

namespace WeftDb.Physical

/-- A row, its timestamp and the difference which led to it. -/
structure DodCheckpoint where
  row : Nat
  timestamp : Int
  delta : Int
  deriving DecidableEq

structure DodCheckpoints where
  /-- Rows between checkpoints. -/
  stride : Nat
  points : List DodCheckpoint
  /-- Rows of the column. -/
  rows : Nat
  deriving DecidableEq

/-- The next row. -/
def DodCheckpoint.advance (point : DodCheckpoint) (dod : Int) : DodCheckpoint where
  row := point.row + 1
  timestamp := wrappingAdd point.timestamp (wrappingAdd point.delta dod)
  delta := wrappingAdd point.delta dod

/-- The checkpoints behind a row, at the multiples of the stride. -/
def recordFrom (stride : Nat) (point : DodCheckpoint) : List Int → List DodCheckpoint
  | [] => []
  | dod :: dods =>
      let next := point.advance dod
      if next.row % stride = 0 then next :: recordFrom stride next dods
      else recordFrom stride next dods

/-- The first row with a difference before it. -/
def secondRow (column : DeltaOfDeltaColumn) (firstDelta : Int) : DodCheckpoint where
  row := 1
  timestamp := wrappingAdd column.first firstDelta
  delta := firstDelta

/-- The checkpoints of a column, at least a row apart. -/
def checkpoints (column : DeltaOfDeltaColumn) (stride : Nat) : DodCheckpoints :=
  let stride := max stride 1
  match column.firstDelta with
  | none => ⟨stride, [], 1⟩
  | some firstDelta =>
      let point := secondRow column firstDelta
      ⟨stride, point :: recordFrom stride point column.dods, column.dods.length + 2⟩

section Search

variable (target : Int) (accept : Nat → Bool)

/-- Read rows on from one until the target is found or passed. -/
def scan (point : DodCheckpoint) (dods : List Int) : Option Nat :=
  if point.timestamp = target ∧ accept point.row then some point.row
  else if target < point.timestamp then none
  else
    match dods with
    | [] => none
    | dod :: dods => scan (point.advance dod) dods

/-- Read rows on from a checkpoint. -/
def scanFrom (column : DeltaOfDeltaColumn) (point : DodCheckpoint) : Option Nat :=
  -- Row `r` is left by the difference at `r - 1`.
  scan target accept point (if point.row = 0 then [] else column.dods.drop (point.row - 1))

/-- The first row of a sorted column with the target which is accepted. -/
def DodCheckpoints.searchSortedWith (checkpoints : DodCheckpoints) (column : DeltaOfDeltaColumn) :
    Option Nat :=
  match column.firstDelta with
  | none => if column.first = target ∧ accept 0 then some 0 else none
  | some firstDelta =>
      if column.first = target ∧ accept 0 then some 0
      else
        let idx := partitionPoint (fun point => point.timestamp < target) checkpoints.points
        let start :=
          if idx = 0 then secondRow column firstDelta
          else (checkpoints.points[idx - 1]?).getD (secondRow column firstDelta)
        scanFrom target accept column start

end Search

/-- The rows from one on. -/
def rowsFrom (point : DodCheckpoint) : List Int → List DodCheckpoint
  | [] => [point]
  | dod :: dods => point :: rowsFrom (point.advance dod) dods

theorem timestamps_rowsFrom (point : DodCheckpoint) (dods : List Int) :
    (rowsFrom point dods).map (·.timestamp) = resume point.delta point.timestamp dods := by
  induction dods generalizing point with
  | nil => rfl
  | cons dod dods ih =>
      rw [rowsFrom, List.map_cons, ih, resume]
      rfl

theorem places_rowsFrom (point : DodCheckpoint) (dods : List Int) :
    (rowsFrom point dods).map (fun row => (row.timestamp, row.row)) =
      ((rowsFrom point dods).map (·.timestamp)).zipIdx point.row := by
  induction dods generalizing point with
  | nil => rfl
  | cons dod dods ih =>
      rw [rowsFrom, List.map_cons, List.map_cons, List.zipIdx_cons, ih]
      rfl

variable {point : DodCheckpoint} {dods : List Int}

theorem rowsFrom_of_mem {start : DodCheckpoint} (member : point ∈ rowsFrom start dods) :
    ∃ before, rowsFrom start dods = before ++ rowsFrom point (dods.drop (point.row - start.row)) ∧
      start.row ≤ point.row := by
  induction dods generalizing start with
  | nil =>
      obtain rfl := List.mem_singleton.mp member
      exact ⟨[], by rw [List.drop_nil]; rfl, le_rfl⟩
  | cons dod dods ih =>
      rcases List.mem_cons.mp member with rfl | behind
      · exact ⟨[], by rw [Nat.sub_self]; rfl, le_rfl⟩
      · obtain ⟨before, split, above⟩ := ih behind
        have next : (start.advance dod).row = start.row + 1 := rfl
        have steps : point.row - start.row = point.row - (start.advance dod).row + 1 := by omega
        refine ⟨start :: before, ?_, by omega⟩
        rw [rowsFrom, split, steps, List.drop_succ_cons]
        rfl

theorem recordFrom_sublist (stride : Nat) (point : DodCheckpoint) (dods : List Int) :
    (point :: recordFrom stride point dods).Sublist (rowsFrom point dods) := by
  induction dods generalizing point with
  | nil => exact .refl _
  | cons dod dods ih =>
      rw [recordFrom, rowsFrom]
      refine .cons_cons _ ?_
      split
      · exact ih _
      · exact (List.sublist_cons_self _ _).trans (ih _)

section Found

variable {target : Int} {accept : Nat → Bool}

/-- The first accepted row with the target. -/
def firstRow (target : Int) (accept : Nat → Bool) (rows : List DodCheckpoint) : Option Nat :=
  (rows.find? fun row => row.timestamp = target ∧ accept row.row).map (·.row)

theorem scan_eq
    (sorted : (rowsFrom point dods).Pairwise fun left right => left.timestamp ≤ right.timestamp) :
    scan target accept point dods = firstRow target accept (rowsFrom point dods) := by
  induction dods generalizing point with
  | nil =>
      rw [scan, rowsFrom, firstRow]
      by_cases here : point.timestamp = target ∧ accept point.row
      · rw [if_pos here, List.find?_cons_of_pos (by simpa using here)]
        rfl
      · rw [if_neg here, List.find?_cons_of_neg (by simpa using here)]
        split <;> rfl
  | cons dod dods ih =>
      obtain ⟨least, later⟩ := List.pairwise_cons.mp sorted
      rw [scan, rowsFrom, firstRow]
      by_cases here : point.timestamp = target ∧ accept point.row
      · rw [if_pos here, List.find?_cons_of_pos (by simpa using here)]
        rfl
      · rw [if_neg here, List.find?_cons_of_neg (by simpa using here)]
        by_cases passed : target < point.timestamp
        · rw [if_pos passed, List.find?_eq_none.mpr]
          · rfl
          · intro row member found
            have above := least row member
            have same : row.timestamp = target := (of_decide_eq_true found).1
            omega
        · rw [if_neg passed]
          exact ih later

theorem firstRow_append {before rows : List DodCheckpoint}
    (early : ∀ row ∈ before, row.timestamp < target) :
    firstRow target accept (before ++ rows) = firstRow target accept rows := by
  have missed : before.find? (fun row => row.timestamp = target ∧ accept row.row) = none :=
    List.find?_eq_none.mpr fun row member found =>
      (early row member).ne (of_decide_eq_true found).1
  rw [firstRow, List.find?_append, missed, Option.none_or, firstRow]

theorem mem_rowsFrom_self (point : DodCheckpoint) (dods : List Int) :
    point ∈ rowsFrom point dods := by
  cases dods <;> exact List.mem_cons_self

section Column

variable {column : DeltaOfDeltaColumn} {start : DodCheckpoint} (second : start.row = 1)
  (sorted : (rowsFrom start column.dods).Pairwise fun left right =>
    left.timestamp ≤ right.timestamp)

include second sorted

theorem scanFrom_start :
    scanFrom target accept column start = firstRow target accept (rowsFrom start column.dods) := by
  rw [scanFrom, if_neg (by omega), second, Nat.sub_self, List.drop_zero, scan_eq sorted]

theorem scanFrom_of_early (member : point ∈ rowsFrom start column.dods)
    (early : point.timestamp < target) :
    scanFrom target accept column point =
      firstRow target accept (rowsFrom start column.dods) := by
  obtain ⟨before, split, above⟩ := rowsFrom_of_mem member
  have parts := List.pairwise_append.mp (split ▸ sorted)
  rw [second] at split above parts
  rw [scanFrom, if_neg (by omega), scan_eq parts.2.1, split, firstRow_append]
  exact fun row held => (parts.2.2 row held point (mem_rowsFrom_self _ _)).trans_lt early

theorem scanFrom_checkpoint {points : List DodCheckpoint}
    (recorded : points.Sublist (rowsFrom start column.dods)) :
    scanFrom target accept column
        (if partitionPoint (fun point => point.timestamp < target) points = 0 then start
         else (points[partitionPoint (fun point => point.timestamp < target) points - 1]?).getD
          start) =
      firstRow target accept (rowsFrom start column.dods) := by
  have cut : CutBy (fun point : DodCheckpoint => decide (point.timestamp < target)) points :=
    CutBy.of_sorted (sorted.sublist recorded) target
  split
  · exact scanFrom_start second sorted
  · rename_i some_early
    have place := partitionPoint_eq cut
    have bound := (List.takeWhile_sublist
      (fun point : DodCheckpoint => decide (point.timestamp < target)) (l := points)).length_le
    have inside : partitionPoint (fun point => point.timestamp < target) points - 1 <
        points.length := by omega
    have early := (any_getElem?_iff cut
      (partitionPoint (fun point => point.timestamp < target) points - 1)).mpr (by omega)
    rw [List.getElem?_eq_getElem inside, Option.getD_some]
    rw [List.getElem?_eq_getElem inside, Option.any_some, decide_eq_true_eq] at early
    exact scanFrom_of_early second sorted (recorded.subset (List.getElem_mem inside)) early

end Column

end Found

/-- The first row of a column with the target which is accepted, by reading all of it. -/
def firstAccepted (target : Int) (accept : Nat → Bool) (timestamps : List Int) : Option Nat :=
  (timestamps.zipIdx.find? fun row => row.1 = target ∧ accept row.2).map Prod.snd

theorem firstRow_rowsFrom (target : Int) (accept : Nat → Bool) (point : DodCheckpoint)
    (dods : List Int) :
    firstRow target accept (rowsFrom point dods) =
      (((resume point.delta point.timestamp dods).zipIdx point.row).find? fun row =>
        row.1 = target ∧ accept row.2).map Prod.snd := by
  rw [← timestamps_rowsFrom, ← places_rowsFrom, List.find?_map, Option.map_map]
  rfl

theorem searchSortedWith_eq (column : DeltaOfDeltaColumn) (stride : Nat) (target : Int)
    (accept : Nat → Bool) (sorted : (decodeDeltaOfDelta column).Pairwise (· ≤ ·)) :
    (checkpoints column stride).searchSortedWith target accept column =
      firstAccepted target accept (decodeDeltaOfDelta column) := by
  unfold DodCheckpoints.searchSortedWith checkpoints
  unfold decodeDeltaOfDelta at sorted ⊢
  cases difference : column.firstDelta with
  | none =>
      by_cases here : column.first = target ∧ accept 0 <;> simp [firstAccepted, here]
  | some firstDelta =>
      rw [difference] at sorted
      simp only [firstAccepted, List.zipIdx_cons]
      by_cases here : column.first = target ∧ accept 0
      · rw [if_pos here, List.find?_cons_of_pos (by simpa using here)]
        rfl
      · rw [if_neg here, List.find?_cons_of_neg (by simpa using here)]
        have rows := firstRow_rowsFrom target accept (secondRow column firstDelta) column.dods
        refine (scanFrom_checkpoint rfl ?_ (recordFrom_sublist _ _ _)).trans rows
        have later := (List.pairwise_cons.mp sorted).2
        have same := timestamps_rowsFrom (secondRow column firstDelta) column.dods
        exact List.pairwise_map.mp (same ▸ later)

/-- On a sorted column the search from its checkpoints finds the first accepted row whose decoded
timestamp is the target. -/
theorem searchSortedWith_encode {timestamps : List Int} (sorted : timestamps.Pairwise (· ≤ ·))
    (fits : ∀ timestamp ∈ timestamps, Word64.Fits timestamp) (stride : Nat) (target : Int)
    (accept : Nat → Bool) :
    (checkpoints (encodeDeltaOfDelta timestamps) stride).searchSortedWith target accept
        (encodeDeltaOfDelta timestamps) =
      firstAccepted target accept (decodeDeltaOfDelta (encodeDeltaOfDelta timestamps)) ∧
      (timestamps ≠ [] → decodeDeltaOfDelta (encodeDeltaOfDelta timestamps) = timestamps) := by
  have decoded := fun filled : timestamps ≠ [] => decode_encodeDeltaOfDelta filled fits
  refine ⟨searchSortedWith_eq _ _ _ _ ?_, decoded⟩
  rcases eq_or_ne timestamps [] with rfl | filled
  · exact List.pairwise_singleton _ _
  · rwa [decoded filled]

/-- A run of equal timestamps over checkpoints at every row, its first row rejected. -/
theorem searchSortedWith_encode_run :
    (checkpoints (encodeDeltaOfDelta [5, 5, 7, 7, 7, 9]) 0).searchSortedWith 7 (· != 2)
      (encodeDeltaOfDelta [5, 5, 7, 7, 7, 9]) = some 3 := by
  have sorted : [(5 : Int), 5, 7, 7, 7, 9].Pairwise (· ≤ ·) := by decide
  exact (searchSortedWith_encode sorted (by decide) 0 7 (· != 2)).1.trans (by decide)

end WeftDb.Physical
