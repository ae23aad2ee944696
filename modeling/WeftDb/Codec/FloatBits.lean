import WeftDb.Codec.Words
import WeftDb.Foundation.BitFields

/-!
# The bit writer and reader of the value codecs

Both go most significant bit first.  The writer ORs a field into its last byte, as far as there is
room, and goes on in a new one; the reader shifts a field out of a word, or of a wider one near the
end, where missing bytes are zero.
-/

namespace WeftDb.Codec

open BitStream BitFields BlockWalk

/-- Bytes which are being written, and how many bits of the last one are. -/
structure BitWriter where
  bytes : List U8
  bit : Nat
  bit_lt : bit < 8

variable {count : Nat}

namespace BitWriter

def new : BitWriter where
  bytes := []
  bit := 0
  bit_lt := Nat.zero_lt_succ 7

/-- Start a byte where the last one is full. -/
def opened (w : BitWriter) : List U8 :=
  if w.bit = 0 then w.bytes ++ [0] else w.bytes

/-- OR a byte into the last one, which then holds some bits more. -/
def orLast (w : BitWriter) (byte : U8) (more : Nat) : BitWriter where
  bytes := w.opened.modify (w.opened.length - 1) fun last => last ||| byte
  bit := (w.bit + more) % 8
  bit_lt := Nat.mod_lt _ (Nat.zero_lt_succ 7)

/-- Write one bit, the low one of a word. -/
def putBit (w : BitWriter) (b : U64) : BitWriter :=
  w.orLast (if b &&& 1 = 1 then (1 : U8) <<< (7 - w.bit) else 0) 1

/-- A word as a byte; one which is too large is zero. -/
def byteOf (word : U64) : U8 := if word.toNat < 256 then word.setWidth 8 else 0

/-- Write the low bits of a word which remain, a byte's room at a time; `fuel` bounds the steps. -/
def putBitsFrom (value : U64) : Nat → BitWriter → Nat → BitWriter
  | 0, w, _ => w
  | fuel + 1, w, remaining =>
      if remaining = 0 then w
      else
        let room := 8 - w.bit
        let count := min room remaining
        let chunk := (value >>> (remaining - count)) &&& ((1 : U64) <<< count - 1)
        putBitsFrom value fuel (w.orLast (byteOf (chunk <<< (room - count))) count)
          (remaining - count)

/-- Write the low bits of a word, most significant first. -/
def putBits (w : BitWriter) (value : U64) (count : Nat) : BitWriter :=
  putBitsFrom value (min count 64) w (min count 64)

/-- Whether a writer has written some bits, and nothing behind them. -/
structure Written (w : BitWriter) (bits : List Bool) : Prop where
  length : w.bytes.length = divCeil bits.length 8
  offset : w.bit = bits.length % 8
  places : ∀ place, msbAt w.bytes place = bits.getD place false

theorem written_new : new.Written [] where
  length := rfl
  offset := rfl
  places place := by rw [msbAt_eq_false (Nat.zero_le _), List.getD_nil]

variable {w : BitWriter} {bits : List Bool}

theorem Written.orLast (written : w.Written bits) {value more : Nat} {byte : U8}
    (positive : 0 < more) (room : w.bit + more ≤ 8)
    (holds : ∀ place < 8, byte.getLsbD (7 - place) =
      (decide (w.bit ≤ place ∧ place < w.bit + more) &&
        value.testBit (more - 1 - (place - w.bit)))) :
    (w.orLast byte more).Written (bits ++ field value more) := by
  have offset := written.offset
  have opened_length : w.opened.length = bits.length / 8 + 1 := by
    rw [opened]
    split
    · rw [List.length_append, written.length, List.length_singleton, divCeil]
      omega
    · rw [written.length, divCeil]
      omega
  have opened_places (place : Nat) : msbAt w.opened place = bits.getD place false := by
    rw [opened, ← written.places]
    split
    · exact msbAt_append_zeros w.bytes 1 place
    · rfl
  refine ⟨?_, ?_, fun place => ?_⟩
  · rw [BitWriter.orLast, List.length_modify, opened_length, List.length_append, length_field,
      divCeil]
    omega
  · change (w.bit + more) % 8 = _
    rw [List.length_append, length_field, offset]
    exact Nat.mod_add_mod _ _ _
  · rw [BitWriter.orLast, msbAt_modify_or (by omega), opened_places, opened_length,
      Nat.add_sub_cancel, holds _ (Nat.mod_lt _ (by decide))]
    by_cases before : place < bits.length
    · rw [List.getD_append _ _ _ _ before]
      by_cases last : place / 8 = bits.length / 8
      · rw [decide_eq_false (show ¬(w.bit ≤ place % 8 ∧ place % 8 < w.bit + more) by omega),
          Bool.false_and, Bool.and_false, Bool.or_false]
      · rw [decide_eq_false last, Bool.false_and, Bool.or_false]
    · have behind := Nat.le_of_not_lt before
      rw [List.getD_append_right _ _ _ _ behind, List.getD_eq_default _ _ behind, Bool.false_or,
        getD_field]
      by_cases inside : place - bits.length < more
      · rw [decide_eq_true inside, decide_eq_true (show place / 8 = bits.length / 8 by omega),
          decide_eq_true (show w.bit ≤ place % 8 ∧ place % 8 < w.bit + more by omega),
          Bool.true_and, Bool.true_and, Bool.true_and,
          show place % 8 - w.bit = place - bits.length by omega]
      · rw [decide_eq_false inside, Bool.false_and, ← Bool.and_assoc, ← Bool.decide_and,
          decide_eq_false, Bool.false_and]
        omega

theorem Written.putBit (written : w.Written bits) (b : U64) :
    (w.putBit b).Written (bits ++ [b.getLsbD 0]) := by
  have room := w.bit_lt
  have shape : [b.getLsbD 0] = field b.toNat 1 := rfl
  rw [shape]
  refine written.orLast Nat.one_pos room fun place within => ?_
  have bit : (b &&& 1 = 1) ↔ b.getLsbD 0 = true := by
    rw [show (1 : U64) = 1#64 from rfl, BitVec.and_one_eq_setWidth_ofBool_getLsbD]
    cases b.getLsbD 0
    · decide
    · decide
  rw [show 1 - 1 - (place - w.bit) = 0 by omega]
  by_cases set : b.getLsbD 0 = true
  · rw [if_pos (bit.mpr set), show b.toNat.testBit 0 = true from set, Bool.and_true,
      BitVec.getLsbD_shiftLeft, show (1 : U8) = 1#8 from rfl, BitVec.getLsbD_one]
    simp only [← Bool.decide_and, ← decide_not]
    exact decide_eq_decide.mpr (by omega)
  · rw [if_neg (bit.not.mpr set), show b.toNat.testBit 0 = false from
      Bool.eq_false_of_not_eq_true set, Bool.and_false]
    exact BitVec.getLsbD_zero

theorem getLsbD_byteOf (value : U64) {shift room place : Nat} (fits : count ≤ room)
    (narrow : room ≤ 8) (within : place < 8) :
    (byteOf (((value >>> shift) &&& ((1 : U64) <<< count - 1)) <<< (room - count))).getLsbD place =
      (decide (room - count ≤ place ∧ place < room) &&
        (value.toNat / 2 ^ shift).testBit (place - (room - count))) := by
  have mask : ∀ count ≤ 8, ((1 : U64) <<< count - 1).toNat = 2 ^ count - 1 := by decide
  have chunk : ((value >>> shift) &&& ((1 : U64) <<< count - 1)).toNat =
      value.toNat / 2 ^ shift % 2 ^ count := by
    rw [BitVec.toNat_and, mask count (fits.trans narrow), Nat.and_two_pow_sub_one_eq_mod,
      BitVec.toNat_ushiftRight, Nat.shiftRight_eq_div_pow]
  have small : value.toNat / 2 ^ shift % 2 ^ count * 2 ^ (room - count) < 256 := by
    have below := Nat.mod_lt (value.toNat / 2 ^ shift) (Nat.two_pow_pos count)
    calc value.toNat / 2 ^ shift % 2 ^ count * 2 ^ (room - count)
        < 2 ^ count * 2 ^ (room - count) :=
          Nat.mul_lt_mul_of_pos_right below (Nat.two_pow_pos _)
      _ = 2 ^ room := by rw [← Nat.pow_add, Nat.add_sub_cancel' fits]
      _ ≤ 2 ^ 8 := Nat.pow_le_pow_right (by decide) narrow
  have moved : (((value >>> shift) &&& ((1 : U64) <<< count - 1)) <<< (room - count)).toNat =
      value.toNat / 2 ^ shift % 2 ^ count * 2 ^ (room - count) := by
    rw [BitVec.toNat_shiftLeft, chunk, Nat.shiftLeft_eq, Nat.mod_eq_of_lt (by omega)]
  rw [byteOf, if_pos (moved ▸ small), BitVec.getLsbD_setWidth, decide_eq_true within,
    Bool.true_and, ← BitVec.testBit_toNat, moved, Nat.mul_comm, Nat.testBit_two_pow_mul]
  by_cases reached : room - count ≤ place
  · rw [decide_eq_true reached, Bool.true_and, Nat.testBit_mod_two_pow]
    congr 1
    exact decide_eq_decide.mpr (by omega)
  · rw [decide_eq_false reached, decide_eq_false (by omega), Bool.false_and, Bool.false_and]

variable (written : w.Written bits)

include written

theorem Written.putBitsFrom (value : U64) {fuel remaining : Nat} (enough : remaining ≤ fuel) :
    (putBitsFrom value fuel w remaining).Written (bits ++ field value.toNat remaining) := by
  induction fuel generalizing w bits remaining with
  | zero =>
      rw [Nat.le_zero.mp enough, field, List.append_nil]
      exact written
  | succ fuel ih =>
      rw [BitWriter.putBitsFrom]
      split
      · rename_i none_left
        rw [none_left, field, List.append_nil]
        exact written
      · rename_i some_left
        have room := w.bit_lt
        dsimp only
        generalize count_eq : min (8 - w.bit) remaining = count
        have split := field_add value.toNat count (remaining - count)
        rw [Nat.add_sub_cancel' (by omega)] at split
        rw [split, ← List.append_assoc]
        refine ih (written.orLast (by omega) (by omega) fun place within => ?_) (by omega)
        rw [getLsbD_byteOf value (by omega) (by omega) (by omega)]
        by_cases inside : w.bit ≤ place ∧ place < w.bit + count
        · rw [decide_eq_true inside, decide_eq_true (by omega),
            show 7 - place - (8 - w.bit - count) = count - 1 - (place - w.bit) by omega]
        · rw [decide_eq_false inside, decide_eq_false (by omega), Bool.false_and, Bool.false_and]

theorem Written.putBits (value : U64) (narrow : count ≤ 64) :
    (w.putBits value count).Written (bits ++ field value.toNat count) := by
  rw [BitWriter.putBits, Nat.min_eq_left narrow]
  exact written.putBitsFrom value (Nat.le_refl count)

theorem Written.putNumber (value : Nat) (narrow : count ≤ 64) :
    (w.putBits (BitVec.ofNat 64 value) count).Written (bits ++ field value count) := by
  have low : field (BitVec.ofNat 64 value).toNat count = field value count := by
    refine field_congr fun place below => ?_
    rw [BitVec.toNat_ofNat, Nat.testBit_mod_two_pow, decide_eq_true (by omega), Bool.true_and]
  exact low ▸ written.putBits (BitVec.ofNat 64 value) narrow

end BitWriter

/-- Bytes which are being read, and the next bit. -/
structure BitReader where
  bytes : List U8
  pos : Nat

namespace BitReader

def new (bytes : List U8) : BitReader where
  bytes := bytes
  pos := 0

/-- Read one bit; past the end it is zero. -/
def getBit (r : BitReader) : U64 × BitReader :=
  let off := r.pos % 8
  (r.bytes[r.pos / 8]?.elim 0 fun byte => ((byte >>> (7 - off)) &&& 1).setWidth 64,
    { r with pos := r.pos + 1 })

/-- A wide word as a word; one which is too large is zero. -/
def wordOf (wide : BitVec 128) : U64 := if wide.toNat < 2 ^ 64 then wide.setWidth 64 else 0

/-- Read a field as the low bits of a word. -/
def getBits (r : BitReader) (count : Nat) : U64 × BitReader :=
  let width := min count 64
  if width = 0 then (0, r)
  else
    let byte := r.pos / 8
    let off := r.pos % 8
    let next := { r with pos := r.pos + width }
    if off + width ≤ 64 ∧ byte + 8 ≤ r.bytes.length then
      ((fromBeBytes 64 ((r.bytes.drop byte).take 8) <<< off) >>> (64 - width), next)
    else
      let tail := (r.bytes.drop byte).take 16
      let be := tail ++ List.replicate (16 - tail.length) 0
      (wordOf ((fromBeBytes 128 be <<< off) >>> (128 - width)), next)

/-- Whether the bits from here on are some bits, and zeros behind them. -/
def Reads (r : BitReader) (bits : List Bool) : Prop :=
  ∀ place, msbAt r.bytes (r.pos + place) = bits.getD place false

variable {r : BitReader} {bits : List Bool}
variable {w : BitWriter}

theorem Reads.drop (reads : r.Reads bits) (count : Nat) :
    Reads { r with pos := r.pos + count } (bits.drop count) := by
  intro place
  rw [List.getD_eq_getElem?_getD, List.getElem?_drop, ← List.getD_eq_getElem?_getD, ← reads,
    Nat.add_assoc]

theorem reads_new (written : w.Written bits) : (new w.bytes).Reads bits := by
  intro place
  rw [new, Nat.zero_add, written.places]

theorem reads_new_take (written : w.Written bits) (kept : Nat) :
    (new (w.bytes.take kept)).Reads (bits.take (8 * kept)) := by
  intro place
  rw [new, Nat.zero_add, msbAt_take, written.places]
  by_cases within : place < 8 * kept
  · rw [decide_eq_true within, Bool.true_and, List.getD_eq_getElem?_getD,
      List.getD_eq_getElem?_getD, List.getElem?_take_of_lt within]
  · rw [decide_eq_false within, Bool.false_and, List.getD_eq_default]
    rw [List.length_take]
    omega

theorem getBit_eq (reads : r.Reads bits) :
    r.getBit = (BitVec.ofNat 64 (BitFields.read 1 bits), { r with pos := r.pos + 1 }) := by
  have here := reads 0
  rw [Nat.add_zero, msbAt, List.getD_eq_getElem?_getD] at here
  have first : BitFields.read 1 bits = (bits.getD 0 false).toNat := by
    cases bits with
    | nil => rfl
    | cons bit bits => cases bit <;> rfl
  rw [getBit, first, ← here]
  congr 1
  cases r.bytes[r.pos / 8]? with
  | none => simp
  | some byte =>
      simp only [Option.elim_some, Option.getD_some]
      rw [show (1 : U8) = 1#8 from rfl, BitVec.and_one_eq_setWidth_ofBool_getLsbD,
        BitVec.getLsbD_ushiftRight, Nat.add_zero]
      cases byte.getLsbD (7 - r.pos % 8) <;> rfl

theorem getLsbD_window {width window : Nat} {bytes : List U8} {off place : Nat}
    (whole : window = 8 * bytes.length) (positive : 0 < width) (inside : off + width ≤ window) :
    ((fromBeBytes window bytes <<< off) >>> (window - width)).getLsbD place =
      (decide (place < width) && msbAt bytes (off + (width - 1 - place))) := by
  rw [BitVec.getLsbD_ushiftRight, BitVec.getLsbD_shiftLeft]
  by_cases within : place < width
  · rw [decide_eq_true within, decide_eq_true (by omega), decide_eq_false (by omega),
      Bool.not_false, Bool.true_and, Bool.true_and, Bool.true_and,
      getLsbD_fromBeBytes whole (by omega),
      show window - 1 - (window - width + place - off) = off + (width - 1 - place) by omega]
  · rw [decide_eq_false within, decide_eq_false (by omega), Bool.false_and, Bool.false_and,
      Bool.false_and]

theorem getBits_eq (reads : r.Reads bits) (narrow : count ≤ 64) :
    r.getBits count =
      (BitVec.ofNat 64 (BitFields.read count bits), { r with pos := r.pos + count }) := by
  have here : 8 * (r.pos / 8) + r.pos % 8 = r.pos := Nat.div_add_mod r.pos 8
  have in_byte : r.pos % 8 < 8 := Nat.mod_lt _ (by decide)
  have places (place : Nat) : msbAt (r.bytes.drop (r.pos / 8)) (r.pos % 8 + place) =
      bits.getD place false := by
    rw [msbAt_drop, ← reads, ← Nat.add_assoc, here]
  have field_bits (place : Nat) : (BitVec.ofNat 64 (BitFields.read count bits)).getLsbD place =
      (decide (place < count) && bits.getD (count - 1 - place) false) := by
    rw [BitVec.getLsbD_ofNat, testBit_read]
    by_cases within : place < count
    · rw [decide_eq_true within, decide_eq_true (by omega), Bool.true_and]
    · rw [decide_eq_false within, Bool.false_and, Bool.and_false]
  rw [getBits, Nat.min_eq_left narrow]
  dsimp only
  split
  · rename_i none
    subst none
    rfl
  · rename_i some
    split
    · rename_i aligned
      refine congrArg (·, _) (BitVec.eq_of_getLsbD_eq fun place _ => ?_)
      rw [getLsbD_window (by rw [List.length_take, List.length_drop]; omega) (by omega) aligned.1,
        msbAt_take, places, field_bits, decide_eq_true (show r.pos % 8 + (count - 1 - place) < 8 * 8
          by omega), Bool.true_and]
    · generalize tail_eq : (r.bytes.drop (r.pos / 8)).take 16 = tail
      have short : tail.length ≤ 16 := by
        rw [← tail_eq]
        exact List.length_take_le _ _
      have wide_bits (place : Nat) :
          ((fromBeBytes 128 (tail ++ List.replicate (16 - tail.length) 0) <<< (r.pos % 8)) >>>
            (128 - count)).getLsbD place =
              (decide (place < count) && bits.getD (count - 1 - place) false) := by
        rw [getLsbD_window (by rw [List.length_append, List.length_replicate]; omega) (by omega)
          (by omega), msbAt_append_zeros, ← tail_eq, msbAt_take, places,
          decide_eq_true (show r.pos % 8 + (count - 1 - place) < 8 * 16 by omega), Bool.true_and]
      refine congrArg (·, _) ?_
      rw [wordOf, if_pos]
      · refine BitVec.eq_of_getLsbD_eq fun place within => ?_
        rw [BitVec.getLsbD_setWidth, wide_bits, field_bits, decide_eq_true within, Bool.true_and]
      · refine Nat.lt_pow_two_of_testBit _ fun place above => ?_
        rw [BitVec.testBit_toNat, wide_bits, decide_eq_false (by omega), Bool.false_and]

end BitReader

end WeftDb.Codec
