import Mathlib.Data.List.GetD
import Mathlib.Data.Option.Basic
import WeftDb.Segment.Frame

/-!
# The columns beside the values

A null mask tells which rows have a value, one bit each, and the timestamps are stored as second
differences.  Both are read back as they were written.
-/

namespace WeftDb.Physical

/-- Which rows are present: a bit each, from the lowest of a byte, or nothing when all of them
are. -/
structure NullMask where
  rowCount : Nat
  nullCount : Nat
  bits : Option (List (BitVec 8))
  deriving DecidableEq

/-- Set a bit. -/
def setBit (bits : List (BitVec 8)) (index : Nat) : List (BitVec 8) :=
  bits.modify (index / 8) (· ||| 1#8 <<< (index % 8))

/-- Read a bit. -/
def bitAt (bits : List (BitVec 8)) (index : Nat) : Bool :=
  (bits.getD (index / 8) 0#8 >>> (index % 8)) &&& 1#8 == 1#8

/-- Set a bit for every row which is present. -/
def setPresent (rows : List (Bool × Nat)) (bits : List (BitVec 8)) : List (BitVec 8) :=
  rows.foldl (fun bits row => if row.1 then setBit bits row.2 else bits) bits

namespace NullMask

/-- The mask without a null. -/
def allPresent (rowCount : Nat) : NullMask where
  rowCount := rowCount
  nullCount := 0
  bits := none

def fromPresence (present : List Bool) : NullMask :=
  let nullCount := present.count false
  if nullCount = 0 then allPresent present.length
  else
    { rowCount := present.length
      nullCount := nullCount
      bits := some (setPresent present.zipIdx (List.replicate ((present.length + 7) / 8) 0#8)) }

/-- Whether a row has a value; none beyond the column has. -/
def isPresent (nulls : NullMask) (index : Nat) : Bool :=
  if index < nulls.rowCount then nulls.bits.all (bitAt · index) else false

end NullMask

theorem bitAt_eq (bits : List (BitVec 8)) (index : Nat) :
    bitAt bits index = (bits.getD (index / 8) 0#8).getLsbD (index % 8) := by
  rw [bitAt, BitVec.and_one_eq_setWidth_ofBool_getLsbD, BitVec.getLsbD_ushiftRight, Nat.add_zero]
  cases (bits.getD (index / 8) 0#8).getLsbD (index % 8) <;> rfl

theorem getLsbD_one_shiftLeft {place other : Nat} (low : other < 8) :
    (1#8 <<< place).getLsbD other = decide (other = place) := by
  rw [BitVec.getLsbD_shiftLeft, BitVec.getLsbD_one]
  grind

theorem length_setBit (bits : List (BitVec 8)) (index : Nat) :
    (setBit bits index).length = bits.length :=
  List.length_modify ..

theorem bitAt_setBit {bits : List (BitVec 8)} {index : Nat} (inside : index / 8 < bits.length)
    (other : Nat) :
    bitAt (setBit bits index) other = (decide (other = index) || bitAt bits other) := by
  have low : other % 8 < 8 := Nat.mod_lt _ (by decide)
  rw [bitAt_eq, bitAt_eq, setBit, List.getD_eq_getElem?_getD, List.getD_eq_getElem?_getD,
    List.getElem?_modify]
  by_cases byte : index / 8 = other / 8
  · have same : other % 8 = index % 8 ↔ other = index := by omega
    simp only [← byte, List.getElem?_eq_getElem inside, if_true, Option.map_eq_map,
      Option.map_some, Option.getD_some, BitVec.getLsbD_or, getLsbD_one_shiftLeft low, same,
      Bool.or_comm]
  · have apart : other ≠ index := by
      rintro rfl
      exact byte rfl
    simp only [if_neg byte, Option.map_eq_map, Option.map_id_fun', decide_eq_false apart,
      Bool.false_or, id_eq]

theorem bitAt_replicate_zero (bytes index : Nat) :
    bitAt (List.replicate bytes 0#8) index = false := by
  rw [bitAt_eq, List.getD_eq_getElem?_getD, List.getElem?_getD_replicate_default_eq,
    BitVec.getLsbD_zero]

theorem bitAt_setPresent (present : List Bool) (start : Nat) (bits : List (BitVec 8))
    (room : start + present.length ≤ 8 * bits.length) (index : Nat) :
    bitAt (setPresent (present.zipIdx start) bits) index =
      ((decide (start ≤ index) && present.getD (index - start) false) || bitAt bits index) := by
  induction present generalizing start bits with
  | nil => simp [setPresent]
  | cons flag present ih =>
      rw [List.length_cons] at room
      have step : setPresent ((flag :: present).zipIdx start) bits =
          setPresent (present.zipIdx (start + 1)) (if flag then setBit bits start else bits) := rfl
      have own : bitAt (if flag then setBit bits start else bits) index =
          ((flag && decide (index = start)) || bitAt bits index) := by
        cases flag
        · rfl
        · exact bitAt_setBit (by omega) index
      have long : start + 1 + present.length ≤
          8 * (if flag then setBit bits start else bits).length := by
        rw [apply_ite List.length, length_setBit, ite_self]
        omega
      rw [step, ih (start + 1) _ long, own]
      rcases Nat.lt_trichotomy index start with before | rfl | after
      · simp [Nat.not_le.mpr before, before.ne, Nat.not_le.mpr (Nat.lt_succ_of_lt before)]
      · simp
      · obtain ⟨more, rfl⟩ := Nat.exists_eq_add_of_lt after
        have shift : start + more + 1 - start = more + 1 := by omega
        have less : start + more + 1 - (start + 1) = more := by omega
        rw [shift, less, List.getD_cons_succ]
        have inside : start + 1 ≤ start + more + 1 := by omega
        have beyond : start ≤ start + more + 1 := by omega
        have apart : start + more + 1 ≠ start := by omega
        simp only [inside, beyond, apart, decide_true, decide_false, Bool.true_and,
          Bool.and_false, Bool.false_or]

theorem NullMask.isPresent_fromPresence (present : List Bool) (index : Nat) :
    (fromPresence present).isPresent index = present.getD index false := by
  unfold fromPresence
  rcases Nat.lt_or_ge index present.length with inside | beyond
  · dsimp only
    split
    · rename_i full
      have there : present[index] = true :=
        eq_true_of_ne_false fun absent =>
          List.count_eq_zero.mp full (absent ▸ List.getElem_mem inside)
      rw [isPresent, allPresent, if_pos inside, Option.all_none,
        List.getD_eq_getElem _ _ inside, there]
    · have room : 0 + present.length ≤
          8 * (List.replicate ((present.length + 7) / 8) 0#8).length := by
        rw [List.length_replicate]
        omega
      rw [isPresent, if_pos inside, Option.all_some, bitAt_setPresent present 0 _ room,
        bitAt_replicate_zero, Bool.or_false, Nat.sub_zero, decide_eq_true (Nat.zero_le index),
        Bool.true_and]
  · have count : (if present.count false = 0 then allPresent present.length else
        { rowCount := present.length, nullCount := present.count false,
          bits := some (setPresent present.zipIdx
            (List.replicate ((present.length + 7) / 8) 0#8)) }).rowCount = present.length := by
      split <;> rfl
    rw [isPresent, count, if_neg (Nat.not_lt.mpr beyond), List.getD_eq_default _ _ beyond]

/-- Put the present values back among the nulls, for `count` rows from `row` on, where `next` is the
place of the next value. -/
def interleave (nulls : NullMask) (present : List BigDecimal) :
    Nat → Nat → Nat → List (Option BigDecimal)
  | 0, _, _ => []
  | count + 1, row, next =>
      if nulls.isPresent row then
        present[next]? :: interleave nulls present count (row + 1) (next + 1)
      else none :: interleave nulls present count (row + 1) next

theorem interleave_forall₂ {nulls : NullMask} {present : List BigDecimal}
    {near : BigDecimal → BigDecimal → Prop} (values : List (Option BigDecimal)) (row next : Nat)
    (mask : ∀ place, place < values.length →
      nulls.isPresent (row + place) = (values.map Option.isSome).getD place false)
    (matched : List.Forall₂ near (presentValues values) (present.drop next)) :
    List.Forall₂ (Option.Rel near) values (interleave nulls present values.length row next) := by
  induction values generalizing row next with
  | nil => exact .nil
  | cons value values ih =>
      have own := mask 0 (Nat.succ_pos _)
      have later (place : Nat) (inside : place < values.length) :
          nulls.isPresent (row + 1 + place) = (values.map Option.isSome).getD place false := by
        have shifted := mask (place + 1) (Nat.succ_lt_succ inside)
        rwa [← Nat.add_assoc, Nat.add_right_comm] at shifted
      rw [List.length_cons, interleave]
      cases value with
      | none =>
          rw [if_neg (by simpa using own)]
          exact .cons .none (ih _ _ later matched)
      | some value =>
          rw [if_pos (by simpa using own)]
          obtain ⟨decoded, rest, first, matches', split⟩ := List.forall₂_cons_left_iff.mp matched
          have found : present[next]? = some decoded := by
            rw [← List.head?_drop, split, List.head?_cons]
          have tail : present.drop (next + 1) = rest := by
            rw [← List.drop_drop, split, List.drop_one, List.tail_cons]
          rw [found]
          exact .cons (.some first) (ih _ _ later (tail ▸ matches'))

theorem length_interleave (nulls : NullMask) (present : List BigDecimal) (count row next : Nat) :
    (interleave nulls present count row next).length = count := by
  induction count generalizing row next with
  | zero => rfl
  | succ count ih =>
      rw [interleave]
      split <;> rw [List.length_cons, ih]

theorem interleave_nil (nulls : NullMask) (count row next : Nat) :
    interleave nulls [] count row next = List.replicate count none := by
  induction count generalizing row next with
  | zero => rfl
  | succ count ih =>
      rw [interleave, List.replicate_succ, ih, ih]
      split <;> rfl

/-- Addition of 64-bit integers, wrapping around. -/
def wrappingAdd (left right : Int) : Int :=
  Int.bmod (left + right) (2 ^ 64)

/-- The timestamps from `current` on, which was reached by `delta`. -/
def resume (delta current : Int) : List Int → List Int
  | [] => [current]
  | dod :: dods =>
      current ::
        resume (wrappingAdd delta dod) (wrappingAdd current (wrappingAdd delta dod)) dods

def decodeDeltaOfDelta (column : DeltaOfDeltaColumn) : List Int :=
  match column.firstDelta with
  | none => [column.first]
  | some firstDelta =>
      column.first :: resume firstDelta (wrappingAdd column.first firstDelta) column.dods

theorem wrappingAdd_wrappingSub (left : Int) {right : Int} (fits : Word64.Fits right) :
    wrappingAdd left (wrappingSub right left) = right := by
  rw [wrappingAdd, wrappingSub, Int.add_bmod_bmod, add_sub_cancel]
  obtain ⟨low, high⟩ := fits
  refine Int.bmod_eq_of_le ?_ ?_
  · simpa [Word64.least] using low
  · have := Int.lt_add_one_iff.mpr high
    simpa [Word64.greatest] using this

theorem fits_wrappingSub (left right : Int) : Word64.Fits (wrappingSub left right) := by
  have wide : 0 < 2 ^ 64 := Nat.two_pow_pos 64
  have low : _ ≤ wrappingSub left right := Int.le_bmod wide
  have high : wrappingSub left right < _ := Int.bmod_lt wide
  constructor
  · simpa [Word64.least] using low
  · have := Int.le_sub_one_of_lt high
    simpa [Word64.greatest] using this

theorem resume_deltas (first second : Int) (later : List Int) (fits : Word64.Fits second)
    (others : ∀ timestamp ∈ later, Word64.Fits timestamp) :
    resume (wrappingSub second first) second (deltas (deltas (first :: second :: later))) =
      second :: later := by
  induction later generalizing first second with
  | nil => rfl
  | cons third later ih =>
      obtain ⟨own, rest⟩ := List.forall_mem_cons.mp others
      have step := ih second third own rest
      rw [deltas, deltas, deltas, resume, wrappingAdd_wrappingSub _ (fits_wrappingSub _ _),
        wrappingAdd_wrappingSub _ own]
      rw [deltas] at step
      rw [step]

theorem decode_encodeDeltaOfDelta {timestamps : List Int} (nonempty : timestamps ≠ [])
    (fits : ∀ timestamp ∈ timestamps, Word64.Fits timestamp) :
    decodeDeltaOfDelta (encodeDeltaOfDelta timestamps) = timestamps := by
  match timestamps, nonempty with
  | [first], _ => rfl
  | first :: second :: later, _ =>
      obtain ⟨-, rest⟩ := List.forall_mem_cons.mp fits
      obtain ⟨own, others⟩ := List.forall_mem_cons.mp rest
      change first :: resume (wrappingSub second first)
        (wrappingAdd first (wrappingSub second first))
        (deltas (deltas (first :: second :: later))) = _
      rw [wrappingAdd_wrappingSub _ own, resume_deltas first second later own others]

end WeftDb.Physical
