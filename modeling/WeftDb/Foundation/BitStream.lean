import Mathlib.Data.List.GetD
import Mathlib.Tactic.ByContra

/-!
# Bytes as a stream of bits

The least significant bit of each byte comes first.  Words are little-endian, so the bits of a word
are those of its bytes.
-/

namespace BitStream

abbrev Byte := BitVec 8

/-- The bit at a place; past the end every bit is zero. -/
def bitAt (bytes : List Byte) (place : Nat) : Bool :=
  (bytes.getD (place / 8) 0).getLsbD (place % 8)

/-- The word whose bytes are given, least significant first. -/
def fromLeBytes (width : Nat) : List Byte → BitVec width
  | [] => 0
  | byte :: bytes => byte.setWidth width ||| fromLeBytes width bytes <<< 8

variable {width : Nat}

/-- The first bytes of a word, least significant first. -/
def toLeBytes (count : Nat) (word : BitVec width) : List Byte :=
  (List.range count).map fun index => word.extractLsb' (8 * index) 8

/-- OR bytes into others, as far as both go. -/
def orBytes : List Byte → List Byte → List Byte
  | dst :: out, src :: field => (dst ||| src) :: orBytes out field
  | out, _ => out

variable {bytes out field : List Byte} {place : Nat}

theorem bitAt_eq_false (past : 8 * bytes.length ≤ place) : bitAt bytes place = false := by
  have beyond : bytes.length ≤ place / 8 := by omega
  rw [bitAt, List.getD_eq_default bytes 0 beyond]
  simp

theorem bitAt_cons_of_lt {byte : Byte} (within : place < 8) :
    bitAt (byte :: bytes) place = byte.getLsbD place := by
  rw [bitAt, Nat.div_eq_of_lt within, Nat.mod_eq_of_lt within, List.getD_cons_zero]

theorem bitAt_cons_of_le {byte : Byte} (beyond : 8 ≤ place) :
    bitAt (byte :: bytes) place = bitAt bytes (place - 8) := by
  have index : place / 8 = (place - 8) / 8 + 1 := by omega
  have offset : place % 8 = (place - 8) % 8 := by omega
  rw [bitAt, index, offset, List.getD_cons_succ, bitAt]

theorem bitAt_drop (skipped : Nat) :
    bitAt (bytes.drop skipped) place = bitAt bytes (8 * skipped + place) := by
  induction skipped generalizing bytes with
  | zero => simp
  | succ skipped ih =>
      cases bytes with
      | nil => simp [bitAt]
      | cons byte bytes =>
          rw [List.drop_succ_cons, ih, bitAt_cons_of_le (by omega)]
          congr 1
          omega

theorem bitAt_take (count : Nat) :
    bitAt (bytes.take count) place = (decide (place < 8 * count) && bitAt bytes place) := by
  induction count generalizing bytes place with
  | zero => simp [bitAt]
  | succ count ih =>
      cases bytes with
      | nil => simp [bitAt]
      | cons byte bytes =>
          rw [List.take_succ_cons]
          by_cases within : place < 8
          · rw [bitAt_cons_of_lt within, bitAt_cons_of_lt within, decide_eq_true (by omega),
              Bool.true_and]
          · have beyond := Nat.le_of_not_lt within
            rw [bitAt_cons_of_le beyond, bitAt_cons_of_le beyond, ih]
            congr 2
            exact propext (by omega)

theorem bitAt_append_of_lt (within : place < 8 * bytes.length) (more : List Byte) :
    bitAt (bytes ++ more) place = bitAt bytes place := by
  have below : place / 8 < bytes.length := by omega
  rw [bitAt, bitAt, List.getD_append bytes more 0 _ below]

theorem bitAt_append_of_le (beyond : 8 * bytes.length ≤ place) (more : List Byte) :
    bitAt (bytes ++ more) place = bitAt more (place - 8 * bytes.length) := by
  have whole := @bitAt_drop (bytes ++ more) (place - 8 * bytes.length) bytes.length
  rw [List.drop_left, Nat.add_sub_cancel' beyond] at whole
  exact whole.symm

theorem bitAt_replicate (count : Nat) : bitAt (List.replicate count 0) place = false := by
  rw [bitAt, List.getD_eq_getElem?_getD, List.getElem?_replicate]
  split <;> simp

theorem getLsbD_fromLeBytes (within : place < width) :
    (fromLeBytes width bytes).getLsbD place = bitAt bytes place := by
  induction bytes generalizing place with
  | nil => simp [fromLeBytes, bitAt]
  | cons byte bytes ih =>
      rw [fromLeBytes, BitVec.getLsbD_or, BitVec.getLsbD_setWidth, BitVec.getLsbD_shiftLeft,
        decide_eq_true within, Bool.true_and, Bool.true_and]
      by_cases first : place < 8
      · rw [bitAt_cons_of_lt first]
        simp [first]
      · have beyond := Nat.le_of_not_lt first
        rw [bitAt_cons_of_le beyond, BitVec.getLsbD_of_ge byte place beyond, ih (by omega)]
        simp [first]

theorem length_toLeBytes (count : Nat) (word : BitVec width) :
    (toLeBytes count word).length = count := by
  rw [toLeBytes, List.length_map, List.length_range]

theorem bitAt_toLeBytes {count : Nat} (word : BitVec width) :
    bitAt (toLeBytes count word) place = (decide (place < 8 * count) && word.getLsbD place) := by
  by_cases within : place < 8 * count
  · have below : place / 8 < count := by omega
    have split : 8 * (place / 8) + place % 8 = place := Nat.div_add_mod place 8
    rw [bitAt, toLeBytes, List.getD_eq_getElem?_getD, List.getElem?_map,
      List.getElem?_range below, Option.map_some, Option.getD_some, BitVec.getLsbD_extractLsb',
      split, decide_eq_true within, decide_eq_true (Nat.mod_lt place (by omega))]
  · rw [bitAt_eq_false (by rw [length_toLeBytes]; omega), decide_eq_false within, Bool.false_and]

theorem length_orBytes : (orBytes out field).length = out.length := by
  induction out generalizing field with
  | nil => rw [orBytes.eq_def]
  | cons dst out ih =>
      cases field with
      | nil => rw [orBytes.eq_def]
      | cons src field => rw [orBytes, List.length_cons, ih, List.length_cons]

theorem bitAt_orBytes : bitAt (orBytes out field) place =
    (bitAt out place || (decide (place < 8 * out.length) && bitAt field place)) := by
  induction out generalizing field place with
  | nil => simp [orBytes, bitAt]
  | cons dst out ih =>
      cases field with
      | nil => simp [orBytes, bitAt]
      | cons src field =>
          rw [orBytes, List.length_cons]
          by_cases within : place < 8
          · rw [bitAt_cons_of_lt within, bitAt_cons_of_lt within, bitAt_cons_of_lt within,
              BitVec.getLsbD_or, decide_eq_true (by omega), Bool.true_and]
          · have beyond := Nat.le_of_not_lt within
            rw [bitAt_cons_of_le beyond, bitAt_cons_of_le beyond, bitAt_cons_of_le beyond, ih]
            congr 3
            exact propext (by omega)

end BitStream
