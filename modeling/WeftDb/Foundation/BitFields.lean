import Mathlib.Data.Nat.Bitwise
import WeftDb.Foundation.BitStream

/-!
# Fields of bits, most significant first

A stream of bits is followed by zeros.  A field is a number in a fixed count of bits, its most
significant bit first, and so are the bytes of a stream.
-/

namespace BitFields

open BitStream

/-- The low bits of a number, most significant first. -/
def field (value : Nat) : Nat → List Bool
  | 0 => []
  | count + 1 => value.testBit count :: field value count

/-- The number in the first bits of a stream. -/
def read : Nat → List Bool → Nat
  | 0, _ => 0
  | count + 1, bits => 2 ^ count * (bits.headD false).toNat + read count bits.tail

@[simp]
theorem length_field (value count : Nat) : (field value count).length = count := by
  induction count with
  | zero => rfl
  | succ count ih => rw [field, List.length_cons, ih]

theorem getD_field (value count place : Nat) :
    (field value count).getD place false =
      (decide (place < count) && value.testBit (count - 1 - place)) := by
  induction count generalizing place with
  | zero => simp [field]
  | succ count ih =>
      cases place with
      | zero => simp [field]
      | succ place =>
          rw [field, List.getD_cons_succ, ih, decide_eq_decide.mpr Nat.add_lt_add_iff_right,
            show count + 1 - 1 - (place + 1) = count - 1 - place by omega]

theorem field_add (value high low : Nat) :
    field value (high + low) = field (value / 2 ^ low) high ++ field value low := by
  induction high with
  | zero => rw [Nat.zero_add, field, List.nil_append]
  | succ high ih =>
      rw [Nat.add_right_comm, field, ih, field, List.cons_append, Nat.testBit_div_two_pow]

variable {value count place : Nat} {bytes : List Byte}

theorem field_congr {other : Nat}
    (same : ∀ place < count, value.testBit place = other.testBit place) :
    field value count = field other count := by
  induction count with
  | zero => rfl
  | succ count ih =>
      rw [field, field, same count (Nat.lt_succ_self count),
        ih fun place below => same place (Nat.lt_succ_of_lt below)]

theorem field_two_pow_mul_add (above : Nat) {low : Nat} (fits : value < 2 ^ low) (high : Nat) :
    field (2 ^ low * above + value) (high + low) =
      field above high ++ field value low := by
  rw [field_add, Nat.mul_add_div (Nat.two_pow_pos low), Nat.div_eq_of_lt fits, Nat.add_zero]
  refine congrArg (field above high ++ ·) (field_congr fun place below => ?_)
  rw [Nat.testBit_two_pow_mul_add above fits, if_pos below]

theorem read_lt (count : Nat) (bits : List Bool) : read count bits < 2 ^ count := by
  induction count generalizing bits with
  | zero => exact Nat.one_pos
  | succ count ih =>
      have low := ih bits.tail
      rw [read, Nat.pow_succ]
      cases bits.headD false
      · rw [Bool.toNat_false, Nat.mul_zero]
        omega
      · rw [Bool.toNat_true, Nat.mul_one]
        omega

@[simp]
theorem read_nil (count : Nat) : read count [] = 0 := by
  induction count with
  | zero => rfl
  | succ count ih => rw [read, List.tail_nil, ih, List.headD_nil, Bool.toNat_false, Nat.mul_zero]

theorem testBit_read (count : Nat) (bits : List Bool) (place : Nat) :
    (read count bits).testBit place =
      (decide (place < count) && bits.getD (count - 1 - place) false) := by
  induction count generalizing bits with
  | zero => simp [read]
  | succ count ih =>
      rw [read, Nat.testBit_two_pow_mul_add _ (read_lt count bits.tail)]
      split
      · rename_i below
        rw [ih, decide_eq_true below, decide_eq_true (show place < count + 1 by omega)]
        cases bits with
        | nil => rfl
        | cons bit bits =>
            rw [show count + 1 - 1 - place = count - 1 - place + 1 by omega, List.getD_cons_succ,
              List.tail_cons]
      · rename_i above
        by_cases top : place = count
        · rw [top, Nat.sub_self, decide_eq_true (Nat.lt_succ_self count), Bool.true_and,
            Nat.add_sub_cancel, Nat.sub_self]
          cases bits with
          | nil => rfl
          | cons bit bits => cases bit <;> simp
        · rw [decide_eq_false (show ¬place < count + 1 by omega), Bool.false_and]
          cases bits.headD false
          · exact Nat.zero_testBit _
          · rw [Bool.toNat_true]
            exact Nat.testBit_lt_two_pow (Nat.one_lt_two_pow (by omega))

theorem read_add (high low : Nat) (bits : List Bool) :
    read (high + low) bits = 2 ^ low * read high bits + read low (bits.drop high) := by
  induction high generalizing bits with
  | zero => rw [Nat.zero_add, read, Nat.mul_zero, Nat.zero_add, List.drop_zero]
  | succ high ih =>
      rw [Nat.add_right_comm, read, ih, read, Nat.mul_add, ← Nat.mul_assoc, ← Nat.pow_add,
        Nat.add_comm low, List.drop_tail, Nat.add_assoc]

theorem read_field (fits : value < 2 ^ count) (rest : List Bool) :
    read count (field value count ++ rest) = value := by
  refine Nat.eq_of_testBit_eq fun place => ?_
  rw [testBit_read]
  by_cases within : place < count
  · rw [decide_eq_true within, Bool.true_and, List.getD_append _ _ _ _ (by simp; omega),
      getD_field, decide_eq_true (show count - 1 - place < count by omega), Bool.true_and,
      show count - 1 - (count - 1 - place) = place by omega]
  · rw [decide_eq_false within, Bool.false_and]
    exact (Nat.testBit_lt_two_pow
      (fits.trans_le (Nat.pow_le_pow_right (by decide) (not_lt.mp within)))).symm

theorem read_take_le (count kept : Nat) (bits : List Bool) :
    read count (bits.take kept) ≤ read count bits := by
  induction count generalizing kept bits with
  | zero => exact Nat.le_refl _
  | succ count ih =>
      cases kept with
      | zero =>
          rw [List.take_zero, read_nil]
          exact Nat.zero_le _
      | succ kept =>
          cases bits with
          | nil => exact Nat.le_refl _
          | cons bit bits =>
              rw [List.take_succ_cons, read, read, List.tail_cons, List.tail_cons]
              exact Nat.add_le_add_left (ih kept bits) _

theorem read_take {kept : Nat} (enough : count ≤ kept) (bits : List Bool) :
    read count (bits.take kept) = read count bits := by
  refine Nat.eq_of_testBit_eq fun place => ?_
  rw [testBit_read, testBit_read]
  by_cases within : place < count
  · rw [List.getD_eq_getElem?_getD, List.getElem?_take_of_lt (by omega),
      List.getD_eq_getElem?_getD]
  · rw [decide_eq_false within, Bool.false_and, Bool.false_and]

theorem read_eq_zero_iff (count : Nat) (bits : List Bool) :
    read count bits = 0 ↔ ∀ bit ∈ bits.take count, bit = false := by
  induction count generalizing bits with
  | zero => simp [read]
  | succ count ih =>
      cases bits with
      | nil => simp
      | cons bit bits =>
          rw [read, List.take_succ_cons, List.forall_mem_cons, ← ih, Nat.add_eq_zero_iff]
          cases bit <;> simp

/-- The bit at a place of a stream whose bytes have their most significant bit first. -/
def msbAt (bytes : List Byte) (place : Nat) : Bool :=
  (bytes.getD (place / 8) 0).getLsbD (7 - place % 8)

theorem msbAt_eq_bitAt (bytes : List Byte) (place : Nat) :
    msbAt bytes place = bitAt bytes (8 * (place / 8) + (7 - place % 8)) := by
  rw [msbAt, bitAt, show (8 * (place / 8) + (7 - place % 8)) / 8 = place / 8 by omega,
    show (8 * (place / 8) + (7 - place % 8)) % 8 = 7 - place % 8 by omega]

theorem msbAt_eq_false (past : 8 * bytes.length ≤ place) : msbAt bytes place = false := by
  rw [msbAt_eq_bitAt]
  exact bitAt_eq_false (by omega)

theorem msbAt_take (bytes : List Byte) (kept place : Nat) :
    msbAt (bytes.take kept) place = (decide (place < 8 * kept) && msbAt bytes place) := by
  rw [msbAt_eq_bitAt, msbAt_eq_bitAt, bitAt_take]
  congr 1
  exact decide_eq_decide.mpr (by omega)

theorem msbAt_drop (bytes : List Byte) (skipped place : Nat) :
    msbAt (bytes.drop skipped) place = msbAt bytes (8 * skipped + place) := by
  rw [msbAt_eq_bitAt, msbAt_eq_bitAt, bitAt_drop]
  congr 1
  omega

theorem msbAt_append_zeros (bytes : List Byte) (count place : Nat) :
    msbAt (bytes ++ List.replicate count 0) place = msbAt bytes place := by
  rw [msbAt_eq_bitAt, msbAt_eq_bitAt]
  by_cases within : 8 * (place / 8) + (7 - place % 8) < 8 * bytes.length
  · exact bitAt_append_of_lt within _
  · rw [bitAt_append_of_le (not_lt.mp within), bitAt_replicate, bitAt_eq_false (not_lt.mp within)]

theorem msbAt_modify_or {index : Nat} (inside : index < bytes.length) (byte : Byte) (place : Nat) :
    msbAt (bytes.modify index fun old => old ||| byte) place =
      (msbAt bytes place || (decide (place / 8 = index) && byte.getLsbD (7 - place % 8))) := by
  rw [msbAt, msbAt, List.getD_eq_getElem?_getD, List.getElem?_modify, List.getD_eq_getElem?_getD]
  by_cases here : index = place / 8
  · simp only [if_pos here]
    rw [← here, List.getElem?_eq_getElem inside]
    simp
  · simp only [if_neg here]
    rw [decide_eq_false (Ne.symm here), Bool.false_and, Bool.or_false]
    simp

/-- The word whose bytes are given, most significant first. -/
def fromBeBytes (width : Nat) (bytes : List Byte) : BitVec width :=
  fromLeBytes width bytes.reverse

theorem bitAt_reverse (bytes : List Byte) (within : place < 8 * bytes.length) :
    bitAt bytes.reverse place = msbAt bytes (8 * bytes.length - 1 - place) := by
  rw [bitAt, msbAt, List.getD_eq_getElem?_getD, List.getElem?_reverse (by omega),
    List.getD_eq_getElem?_getD, show (8 * bytes.length - 1 - place) / 8 =
      bytes.length - 1 - place / 8 by omega,
    show 7 - (8 * bytes.length - 1 - place) % 8 = place % 8 by omega]

theorem getLsbD_fromBeBytes {width : Nat} (whole : width = 8 * bytes.length)
    (within : place < width) :
    (fromBeBytes width bytes).getLsbD place = msbAt bytes (width - 1 - place) := by
  rw [fromBeBytes, getLsbD_fromLeBytes within, bitAt_reverse bytes (whole ▸ within), whole]

end BitFields
