import WeftDb.Foundation.BitStream
import WeftDb.Foundation.BlockWalk

/-!
# Words, fields of bits and varints

Values are 64-bit words.  A field of at most 64 bits may start at any bit of a byte list; a varint
spends one byte on each seven bits.
-/

namespace WeftDb.Codec

open BitStream BlockWalk

abbrev I64 := BitVec 64
abbrev U64 := BitVec 64
abbrev U8 := BitVec 8

/-- A byte of a buffer; past the end it is zero. -/
def byteAt (bytes : List U8) (pos : Nat) : U8 := bytes.getD pos 0

/-- How many bits a word has without its leading zeros. -/
def bitLength (word : U64) : Nat := 64 - word.clz.toNat

def zigzag (value : I64) : U64 := (value <<< 1) ^^^ value.sshiftRight 63

def unzigzag (z : U64) : I64 := (z >>> 1) ^^^ -(z &&& 1)

/-- Read the field of a width at a bit; a width past 64 is read as 64. -/
def readBits (data : List U8) (bit width : Nat) : U64 :=
  if width = 0 then 0
  else
    let width := min width 64
    let byte := bit / 8
    let shift := bit % 8
    let mask : U64 := BitVec.allOnes 64 >>> (64 - width)
    if shift + width ≤ 64 ∧ byte + 8 ≤ data.length then
      (fromLeBytes 64 ((data.drop byte).take 8) >>> shift) &&& mask
    else
      let wide : BitVec 128 := fromLeBytes 128 ((data.drop byte).take 16) >>> shift
      wide.setWidth 64 &&& mask

/-- OR the low bits of a value into a byte list. -/
def writeBits (out : List U8) (bit : Nat) (value : U64) (width : Nat) : List U8 :=
  if width = 0 then out
  else
    let width := min width 64
    let byte := bit / 8
    let shift := bit % 8
    let field : BitVec 128 :=
      (value &&& (BitVec.allOnes 64 >>> (64 - width))).setWidth 128 <<< shift
    out.take byte ++
      orBytes (out.drop byte) ((toLeBytes 16 field).take (divCeil (shift + width) 8))

/-- The fields from an index on, each written at its place. -/
def writeFields (width : Nat) (out : List U8) : Nat → List U64 → List U8
  | _, [] => out
  | index, field :: fields =>
      writeFields width (writeBits out (index * width) field width) (index + 1) fields

/-- Fields of one width, back to back. -/
def packFields (width : Nat) (fields : List U64) : List U8 :=
  writeFields width (List.replicate (divCeil (fields.length * width) 8) 0) 0 fields

def forPushUvarint (value : U64) : List U8 :=
  let byte : U8 := (value &&& 0x7F).setWidth 8
  let rest := value >>> 7
  if rest = 0 then [byte] else (byte ||| 0x80) :: forPushUvarint rest
termination_by value.toNat
decreasing_by
  rename_i more
  have shifted : (value >>> 7).toNat = value.toNat / 128 := by
    rw [BitVec.toNat_ushiftRight, Nat.shiftRight_eq_div_pow]
  have some : (value >>> 7).toNat ≠ 0 := fun zero => more (BitVec.eq_of_toNat_eq zero)
  omega

/-- The bits of a varint from a byte on, and the place behind it. -/
def forReadUvarintFrom (bytes : List U8) (pos : Nat) (result : U64) (shift : Nat) : U64 × Nat :=
  let byte := byteAt bytes pos
  let result := result ||| (byte &&& 0x7F).setWidth 64 <<< shift
  if byte &&& 0x80 = 0 ∨ 63 ≤ shift then (result, pos + 1)
  else forReadUvarintFrom bytes (pos + 1) result (shift + 7)
termination_by 63 - shift
decreasing_by omega

def forReadUvarint (bytes : List U8) (pos : Nat) : U64 × Nat :=
  forReadUvarintFrom bytes pos 0 0

def zigzagVarintLen (value : I64) : Nat := divCeil (max (bitLength (zigzag value)) 1) 7

theorem getLsbD_zigzag (value : I64) {place : Nat} (within : place < 64) :
    (zigzag value).getLsbD place =
      ((decide (1 ≤ place) && value.getLsbD (place - 1)) ^^ value.getLsbD 63) := by
  have sign : (value.sshiftRight 63).getLsbD place = value.getLsbD 63 := by
    rw [BitVec.getLsbD_sshiftRight, decide_eq_false (by omega), Bool.not_false, Bool.true_and]
    split
    · rw [show place = 0 by omega]
    · rfl
  rw [zigzag, BitVec.getLsbD_xor, sign, BitVec.getLsbD_shiftLeft, decide_eq_true within,
    Bool.true_and, ← decide_not]
  congr 3
  exact propext (by omega)

theorem neg_low (z : U64) : -(z &&& 1) = if z.getLsbD 0 then BitVec.allOnes 64 else 0 := by
  have low : z &&& 1 = if z.getLsbD 0 then 1 else 0 := by
    rw [show (1 : U64) = 1#64 from rfl, BitVec.and_one_eq_setWidth_ofBool_getLsbD]
    cases z.getLsbD 0 <;> rfl
  rw [low]
  split <;> rfl

theorem getLsbD_unzigzag (z : U64) {place : Nat} (within : place < 64) :
    (unzigzag z).getLsbD place = (z.getLsbD (1 + place) ^^ z.getLsbD 0) := by
  rw [unzigzag, BitVec.getLsbD_xor, BitVec.getLsbD_ushiftRight, neg_low]
  congr 1
  split
  · rename_i odd
    rw [BitVec.getLsbD_allOnes, decide_eq_true within, odd]
  · rename_i even
    rw [Bool.eq_false_of_not_eq_true even]
    exact BitVec.getLsbD_zero

theorem unzigzag_zigzag (value : I64) : unzigzag (zigzag value) = value := by
  have low : (zigzag value).getLsbD 0 = value.getLsbD 63 := by
    rw [getLsbD_zigzag value (by omega), decide_eq_false (by omega), Bool.false_and,
      Bool.false_xor]
  refine BitVec.eq_of_getLsbD_eq fun place within => ?_
  rw [getLsbD_unzigzag _ within, low]
  by_cases last : place < 63
  · rw [getLsbD_zigzag value (by omega), Nat.add_sub_cancel_left, decide_eq_true (by omega),
      Bool.true_and, Bool.xor_assoc, Bool.xor_self, Bool.xor_false]
  · rw [BitVec.getLsbD_of_ge _ _ (by omega), show place = 63 by omega, Bool.false_xor]

theorem bitLength_le_iff {word : U64} {width : Nat} :
    bitLength word ≤ width ↔ word.toNat < 2 ^ width := by
  constructor
  · intro fits
    exact BitVec.toNat_lt_two_pow_sub_clz.trans_le (Nat.pow_le_pow_right (by omega) fits)
  · intro below
    by_cases zero : word = 0
    · rw [bitLength, zero]
      exact Nat.zero_le width
    · have above := BitVec.two_pow_sub_clz_le_toNat_of_ne_zero (by omega) zero
      have := (Nat.pow_lt_pow_iff_right (by omega)).mp (above.trans_lt below)
      rw [bitLength]
      omega

variable {data out : List U8} {bit width place : Nat} {value : U64}

theorem getLsbD_and_mask (word : U64) (narrow : width ≤ 64) :
    (word &&& (BitVec.allOnes 64 >>> (64 - width))).getLsbD place =
      (decide (place < width) && word.getLsbD place) := by
  rw [BitVec.getLsbD_and, BitVec.getLsbD_ushiftRight, BitVec.getLsbD_allOnes, Bool.and_comm]
  congr 2
  exact propext (by omega)

theorem getLsbD_readBits :
    (readBits data bit width).getLsbD place =
      (decide (place < min width 64) && bitAt data (bit + place)) := by
  have split : 8 * (bit / 8) + (bit % 8 + place) = bit + place := by omega
  rw [readBits]
  split
  · rename_i none
    rw [none, Nat.zero_min, decide_eq_false (Nat.not_lt_zero place), Bool.false_and]
    exact BitVec.getLsbD_zero
  · simp only []
    split
    · rename_i fits
      rw [getLsbD_and_mask _ (Nat.min_le_right _ _)]
      by_cases within : place < min width 64
      · rw [BitVec.getLsbD_ushiftRight, getLsbD_fromLeBytes (by omega), bitAt_take, bitAt_drop,
          split, decide_eq_true (show bit % 8 + place < 8 * 8 by omega), Bool.true_and]
      · rw [decide_eq_false within, Bool.false_and, Bool.false_and]
    · rw [getLsbD_and_mask _ (Nat.min_le_right _ _)]
      by_cases within : place < min width 64
      · rw [BitVec.getLsbD_setWidth, BitVec.getLsbD_ushiftRight, getLsbD_fromLeBytes (by omega),
          bitAt_take, bitAt_drop, split, decide_eq_true (show bit % 8 + place < 8 * 16 by omega),
          decide_eq_true (show place < 64 by omega), Bool.true_and, Bool.true_and]
      · rw [decide_eq_false within, Bool.false_and, Bool.false_and]

theorem length_writeBits : (writeBits out bit value width).length = out.length := by
  rw [writeBits]
  split
  · rfl
  · rw [List.length_append, length_orBytes, List.length_take, List.length_drop]
    omega

theorem bitAt_field {shift : Nat} (narrow : width ≤ 64) (inner : shift < 8) :
    bitAt ((toLeBytes 16 ((value &&& (BitVec.allOnes 64 >>> (64 - width))).setWidth 128 <<<
        shift)).take (divCeil (shift + width) 8)) place =
      (decide (shift ≤ place ∧ place < shift + width) && value.getLsbD (place - shift)) := by
  rw [bitAt_take, bitAt_toLeBytes, BitVec.getLsbD_shiftLeft, BitVec.getLsbD_setWidth,
    getLsbD_and_mask _ narrow, divCeil]
  by_cases within : shift ≤ place ∧ place < shift + width
  · rw [decide_eq_true within, decide_eq_true (show place - shift < width by omega),
      decide_eq_true (show place - shift < 128 by omega),
      decide_eq_true (show place < 8 * 16 by omega),
      decide_eq_false (show ¬place < shift by omega),
      decide_eq_true (show place < 8 * ((shift + width + (8 - 1)) / 8) by omega)]
    rfl
  · rw [decide_eq_false within, Bool.false_and]
    by_cases early : place < shift
    · rw [decide_eq_true early, Bool.not_true, Bool.and_false, Bool.false_and, Bool.and_false,
        Bool.and_false]
    · rw [decide_eq_false (show ¬place - shift < width by omega), Bool.false_and, Bool.and_false,
        Bool.and_false, Bool.and_false, Bool.and_false]

theorem bitAt_writeBits : bitAt (writeBits out bit value width) place =
    (bitAt out place || (decide (bit ≤ place ∧ place < bit + min width 64 ∧
      place < 8 * out.length) && value.getLsbD (place - bit))) := by
  rw [writeBits]
  split
  · rename_i none
    rw [none, decide_eq_false (by omega), Bool.false_and, Bool.or_false]
  · simp only []
    by_cases before : place < 8 * (out.take (bit / 8)).length
    · rw [bitAt_append_of_lt before, bitAt_take]
      rw [List.length_take] at before
      rw [decide_eq_true (by omega), Bool.true_and, decide_eq_false (by omega), Bool.false_and,
        Bool.or_false]
    · have behind := Nat.le_of_not_lt before
      rw [bitAt_append_of_le behind, bitAt_orBytes, bitAt_field (Nat.min_le_right _ _)
        (Nat.mod_lt _ (by omega)), bitAt_drop, List.length_drop]
      rw [List.length_take] at behind ⊢
      rcases Nat.lt_or_ge out.length (bit / 8) with past | inside
      · rw [Nat.sub_eq_zero_of_le past.le, decide_eq_false (Nat.not_lt_zero _), Bool.false_and,
          bitAt_eq_false (by omega), bitAt_eq_false (by omega), decide_eq_false (by omega),
          Bool.false_and]
      · rw [Nat.min_eq_left inside] at behind ⊢
        rw [Nat.add_sub_cancel' behind, ← Bool.and_assoc, ← Bool.decide_and,
          show place - 8 * (bit / 8) - bit % 8 = place - bit by omega]
        congr 3
        exact propext (by omega)

theorem length_writeFields (width : Nat) (out : List U8) (index : Nat) (fields : List U64) :
    (writeFields width out index fields).length = out.length := by
  induction fields generalizing out index with
  | nil => rfl
  | cons field fields ih => rw [writeFields, ih, length_writeBits]

theorem length_packFields (width : Nat) (fields : List U64) :
    (packFields width fields).length = divCeil (fields.length * width) 8 := by
  rw [packFields, length_writeFields, List.length_replicate]

theorem bitAt_writeFields (positive : 0 < width) (narrow : width ≤ 64) (out : List U8)
    (index : Nat) (fields : List U64) :
    bitAt (writeFields width out index fields) place =
      (bitAt out place || (decide (index * width ≤ place ∧ place < 8 * out.length) &&
        (fields.getD ((place - index * width) / width) 0).getLsbD
          ((place - index * width) % width))) := by
  induction fields generalizing out index with
  | nil => simp [writeFields]
  | cons field fields ih =>
      rw [writeFields, ih, bitAt_writeBits, length_writeBits, Nat.min_eq_left narrow, Bool.or_assoc]
      congr 1
      have next : (index + 1) * width = index * width + width := Nat.succ_mul index width
      by_cases early : place < index * width
      · rw [decide_eq_false (by omega), decide_eq_false (by omega), decide_eq_false (by omega)]
        simp only [Bool.false_and, Bool.or_false]
      · by_cases own : place < index * width + width
        · have offset : place - index * width < width := by omega
          rw [Nat.div_eq_of_lt offset, Nat.mod_eq_of_lt offset, List.getD_cons_zero,
            decide_eq_false (show ¬((index + 1) * width ≤ place ∧ place < 8 * out.length) by omega),
            Bool.false_and, Bool.or_false]
          congr 2
          exact propext (by omega)
        · have apart : place - index * width = place - (index + 1) * width + width := by omega
          rw [apart, Nat.add_div_right _ positive, Nat.add_mod_right, List.getD_cons_succ,
            decide_eq_false (show ¬(index * width ≤ place ∧ place < index * width + width ∧
              place < 8 * out.length) by omega), Bool.false_and, Bool.false_or]
          congr 2
          exact propext (by omega)

theorem getLsbD_of_lt_two_pow {word : U64} (fits : word.toNat < 2 ^ width) (past : width ≤ place) :
    word.getLsbD place = false :=
  Nat.testBit_lt_two_pow (fits.trans_le (Nat.pow_le_pow_right (by omega) past))

theorem readBits_packFields {fields : List U64} {index : Nat} {field : U64}
    (narrow : width ≤ 64) (found : fields[index]? = some field)
    (fits : field.toNat < 2 ^ width) :
    readBits (packFields width fields) (index * width) width = field := by
  obtain ⟨inside, -⟩ := List.getElem?_eq_some_iff.mp found
  refine BitVec.eq_of_getLsbD_eq fun place _ => ?_
  rw [getLsbD_readBits, Nat.min_eq_left narrow]
  by_cases within : place < width
  · have room : index * width + place < 8 * divCeil (fields.length * width) 8 := by
      have : (index + 1) * width ≤ fields.length * width := Nat.mul_le_mul_right width inside
      rw [Nat.succ_mul] at this
      rw [divCeil]
      omega
    rw [decide_eq_true within, Bool.true_and, packFields,
      bitAt_writeFields (by omega) narrow, bitAt_replicate, Bool.false_or, List.length_replicate,
      Nat.zero_mul, decide_eq_true ⟨Nat.zero_le _, room⟩, Bool.true_and, Nat.sub_zero,
      Nat.mul_comm, Nat.mul_add_div (by omega), Nat.div_eq_of_lt within, Nat.add_zero,
      Nat.mul_add_mod, Nat.mod_eq_of_lt within, List.getD_eq_getElem?_getD, found,
      Option.getD_some]
  · rw [decide_eq_false within, Bool.false_and,
      getLsbD_of_lt_two_pow fits (Nat.le_of_not_lt within)]

theorem bitLength_shift (value : U64) : bitLength (value >>> 7) = bitLength value - 7 := by
  have shifted : (value >>> 7).toNat = value.toNat / 2 ^ 7 := by
    rw [BitVec.toNat_ushiftRight, Nat.shiftRight_eq_div_pow]
  have same (width : Nat) : bitLength (value >>> 7) ≤ width ↔ bitLength value - 7 ≤ width := by
    rw [bitLength_le_iff, shifted, Nat.div_lt_iff_lt_mul (by decide), ← Nat.pow_add,
      ← bitLength_le_iff]
    omega
  exact Nat.le_antisymm ((same _).mpr le_rfl) ((same _).mp le_rfl)

theorem length_forPushUvarint (value : U64) :
    (forPushUvarint value).length = divCeil (max (bitLength value) 1) 7 := by
  induction value using forPushUvarint.induct with
  | case1 value rest none =>
      rw [forPushUvarint, if_pos none, divCeil]
      have short : bitLength value - 7 = bitLength (0 : U64) := by
        rw [← bitLength_shift, ← none]
      have zero : bitLength (0 : U64) = 0 := by decide
      simp only [List.length_singleton]
      omega
  | case2 value rest more ih =>
      rw [forPushUvarint, if_neg more, List.length_cons, ih, bitLength_shift, divCeil, divCeil]
      have some : ¬bitLength (value >>> 7) ≤ 0 := fun zero => more <| by
        have := bitLength_le_iff.mp zero
        exact BitVec.eq_of_toNat_eq (Nat.lt_one_iff.mp this)
      rw [bitLength_shift] at some
      omega

theorem byteAt_append (before after : List U8) (byte : U8) :
    byteAt (before ++ byte :: after) before.length = byte := by
  rw [byteAt, List.getD_append_right _ _ _ _ le_rfl, Nat.sub_self, List.getD_cons_zero]

theorem getLsbD_low (value : U64) (place : Nat) :
    (value &&& 0x7F).getLsbD place = (decide (place < 7) && value.getLsbD place) :=
  @getLsbD_and_mask 7 place value (by decide)

theorem getLsbD_payload_mask : ∀ place < 8, (0x7F : U8).getLsbD place = decide (place < 7) := by
  decide

theorem getLsbD_continuation : ∀ place < 8, (0x80 : U8).getLsbD place = decide (place = 7) := by
  decide

theorem payload_eq (value : U64) :
    (((value &&& 0x7F).setWidth 8 : U8) &&& 0x7F).setWidth 64 = value &&& 0x7F := by
  refine BitVec.eq_of_getLsbD_eq fun place within => ?_
  rw [BitVec.getLsbD_setWidth, BitVec.getLsbD_and, BitVec.getLsbD_setWidth, getLsbD_low,
    decide_eq_true within, Bool.true_and]
  rcases Nat.lt_or_ge place 8 with inner | outer
  · rw [getLsbD_payload_mask place inner, decide_eq_true inner, Bool.true_and]
    cases decide (place < 7)
    · rfl
    · rw [Bool.true_and, Bool.and_true]
  · rw [decide_eq_false (show ¬place < 8 by omega), decide_eq_false (show ¬place < 7 by omega),
      Bool.false_and, Bool.false_and, Bool.false_and]

theorem low_and_continuation (value : U64) :
    ((value &&& 0x7F).setWidth 8 : U8) &&& 0x80 = 0 := by
  refine BitVec.eq_of_getLsbD_eq fun place within => ?_
  rw [BitVec.getLsbD_and, BitVec.getLsbD_setWidth, getLsbD_low, getLsbD_continuation place within]
  refine Eq.trans ?_ BitVec.getLsbD_zero.symm
  by_cases last : place = 7
  · rw [decide_eq_false (show ¬place < 7 by omega), Bool.false_and, Bool.and_false, Bool.false_and]
  · rw [decide_eq_false last, Bool.and_false]

theorem continued_payload (byte : U8) : (byte ||| 0x80) &&& 0x7F = byte &&& 0x7F := by
  rw [BitVec.and_comm, BitVec.and_or_distrib_left, show (0x7F : U8) &&& 0x80 = 0 from rfl,
    BitVec.and_comm]
  exact BitVec.or_zero

theorem continued_ne_zero (byte : U8) : (byte ||| 0x80) &&& 0x80 ≠ 0 := by
  intro zero
  have bit : ((byte ||| 0x80) &&& 0x80).getLsbD 7 = true := by
    rw [BitVec.getLsbD_and, BitVec.getLsbD_or, getLsbD_continuation 7 (by decide)]
    simp
  rw [zero] at bit
  exact absurd bit (by decide)

theorem low_or_rest (value : U64) (shift : Nat) :
    (value &&& 0x7F) <<< shift ||| (value >>> 7) <<< (shift + 7) = value <<< shift := by
  refine BitVec.eq_of_getLsbD_eq fun place within => ?_
  rw [BitVec.getLsbD_or, BitVec.getLsbD_shiftLeft, BitVec.getLsbD_shiftLeft,
    BitVec.getLsbD_shiftLeft, BitVec.getLsbD_ushiftRight, getLsbD_low, decide_eq_true within]
  simp only [Bool.true_and]
  rcases Nat.lt_or_ge place shift with below | above
  · rw [decide_eq_true below, decide_eq_true (show place < shift + 7 by omega)]
    rfl
  · rcases Nat.lt_or_ge place (shift + 7) with low | high
    · rw [decide_eq_true low, decide_eq_true (show place - shift < 7 by omega), Bool.not_true,
        Bool.false_and, Bool.or_false, Bool.true_and]
    · rw [decide_eq_false (show ¬place - shift < 7 by omega),
        decide_eq_false (show ¬place < shift + 7 by omega), decide_eq_false (by omega),
        Bool.false_and, Bool.and_false, Bool.false_or,
        show 7 + (place - (shift + 7)) = place - shift by omega]

theorem low_eq_of_rest {value : U64} (none : value >>> 7 = 0) (shift : Nat) :
    (value &&& 0x7F) <<< shift = value <<< shift := by
  have whole := low_or_rest value shift
  rw [none, show (0 : U64) <<< (shift + 7) = 0 from BitVec.zero_shiftLeft _] at whole
  exact BitVec.or_zero.symm.trans whole

theorem room_of_rest {value : U64} {shift : Nat} (more : value >>> 7 ≠ 0)
    (room : bitLength value + shift ≤ 64) :
    bitLength (value >>> 7) + (shift + 7) ≤ 64 ∧ shift + 7 < 64 := by
  have some : ¬bitLength (value >>> 7) ≤ 0 := fun zero => more <|
    BitVec.eq_of_toNat_eq (Nat.lt_one_iff.mp (bitLength_le_iff.mp zero))
  have shorter := bitLength_shift value
  omega

theorem forReadUvarintFrom_push (value : U64) (before after : List U8) (result : U64)
    (shift : Nat) (room : bitLength value + shift ≤ 64) :
    forReadUvarintFrom (before ++ (forPushUvarint value ++ after)) before.length result shift =
      (result ||| value <<< shift, before.length + (forPushUvarint value).length) := by
  induction value using forPushUvarint.induct generalizing before result shift with
  | case1 value rest none =>
      rw [forPushUvarint, if_pos none, forReadUvarintFrom, List.singleton_append, byteAt_append,
        if_pos (.inl (low_and_continuation value)), payload_eq, low_eq_of_rest none,
        List.length_singleton]
  | case2 value rest more ih =>
      obtain ⟨room, short⟩ := room_of_rest more room
      have next := ih (before ++ [((value &&& 0x7F).setWidth 8 ||| 0x80 : U8)])
        (result ||| (value &&& 0x7F) <<< shift) (shift + 7) room
      rw [List.append_assoc, List.singleton_append, List.length_append, List.length_singleton]
        at next
      rw [forPushUvarint, if_neg more, forReadUvarintFrom, List.cons_append, byteAt_append,
        if_neg (not_or.mpr ⟨continued_ne_zero _, by omega⟩), continued_payload, payload_eq, next,
        BitVec.or_assoc, low_or_rest, List.length_cons]
      rw [Nat.add_assoc, Nat.add_comm 1]

theorem forReadUvarint_push (value : U64) (before after : List U8) :
    forReadUvarint (before ++ (forPushUvarint value ++ after)) before.length =
      (value, before.length + (forPushUvarint value).length) := by
  have room : bitLength value ≤ 64 := Nat.sub_le 64 _
  rw [forReadUvarint, forReadUvarintFrom_push value before after 0 0 room]
  simp

end WeftDb.Codec
