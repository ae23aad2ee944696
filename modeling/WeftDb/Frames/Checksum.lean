import WeftDb.Foundation.Crc
import WeftDb.Frames.Primitives

/-!
# The checksum of a frame

A frame ends in the CRC-32 of the bytes before.  It is computed sixteen bytes at a time from sixteen
tables, and is that of a division bit by bit.  A frame of which some bytes are exchanged, not more
than four and in one place, is refused.
-/

namespace WeftDb.Frames

open BitStream Codec Crc

/-- The IEEE polynomial, lowest bit first. -/
def crc32Poly : U32 := 0xEDB88320

/-- Divide by one bit. -/
def crc32Bit (crc : U32) : U32 :=
  if crc &&& 1 = 1 then (crc >>> 1) ^^^ crc32Poly else crc >>> 1

/-- What each byte leaves behind. -/
def crc32Table : List U32 :=
  (List.range 256).map fun i => crc32Bit^[8] (BitVec.ofNat 32 i)

/-- What each byte leaves behind when some zero bytes follow it. -/
def crc32Slice : Nat → List U32
  | 0 => crc32Table
  | k + 1 => (crc32Slice k).map fun prev : U32 =>
      (prev >>> 8) ^^^ crc32Table.getD (prev &&& 0xFF).toNat 0

/-- The tables for sixteen bytes at a time. -/
def crc32Slices : List (List U32) := (List.range 16).map crc32Slice

/-- An entry of a table. -/
def crc32Entry (k index : Nat) : U32 := (crc32Slices.getD k []).getD index 0

/-- Take in sixteen bytes. -/
def crc32Chunk (crc : U32) (c : List U8) : U32 :=
  let a := crc ^^^ fromLeBytes 32 (c.take 4)
  let t := crc32Entry
  let b := fun index => (byteAt c index).toNat
  t 15 (a &&& 0xFF).toNat ^^^ t 14 ((a >>> 8) &&& 0xFF).toNat ^^^
    t 13 ((a >>> 16) &&& 0xFF).toNat ^^^ t 12 (a >>> 24).toNat ^^^ t 11 (b 4) ^^^ t 10 (b 5) ^^^
    t 9 (b 6) ^^^ t 8 (b 7) ^^^ t 7 (b 8) ^^^ t 6 (b 9) ^^^ t 5 (b 10) ^^^ t 4 (b 11) ^^^
    t 3 (b 12) ^^^ t 2 (b 13) ^^^ t 1 (b 14) ^^^ t 0 (b 15)

/-- Take in one byte. -/
def crc32Byte (crc : U32) (byte : U8) : U32 :=
  let idx := ((crc ^^^ byte.setWidth 32) &&& 0xFF).toNat
  (crc >>> 8) ^^^ crc32Table.getD idx 0

/-- Take in bytes, sixteen at a time as long as there are so many. -/
def crc32From (crc : U32) (data : List U8) : U32 :=
  if 16 ≤ data.length then crc32From (crc32Chunk crc (data.take 16)) (data.drop 16)
  else data.foldl crc32Byte crc
termination_by data.length
decreasing_by
  rw [List.length_drop]
  omega

def crc32 (data : List U8) : U32 :=
  crc32From 0xFFFFFFFF data ^^^ 0xFFFFFFFF

theorem crc32Bit_eq (crc : U32) : crc32Bit crc = shift crc32Poly crc := by
  have lowest : crc &&& 1 = 1 ↔ crc.getLsbD 0 = true := by
    rw [show (1 : U32) = 1#32 from rfl, BitVec.and_one_eq_setWidth_ofBool_getLsbD]
    cases crc.getLsbD 0 <;> decide
  unfold crc32Bit shift
  simp only [lowest]

theorem low_byte (word : U32) : (word &&& 0xFF).toNat = (word.setWidth 8).toNat := by
  rw [BitVec.toNat_and, BitVec.toNat_setWidth]
  exact Nat.and_two_pow_sub_one_eq_mod word.toNat 8

theorem getD_crc32Table (byte : U8) :
    crc32Table.getD byte.toNat 0 = shifts crc32Poly 8 (byte.setWidth 32) := by
  rw [crc32Table, List.getD_eq_getElem _ _ (by simp [byte.isLt]), List.getElem_map,
    List.getElem_range, BitVec.ofNat_toNat, shifts, funext crc32Bit_eq]

theorem crc32Byte_eq (crc : U32) (byte : U8) : crc32Byte crc byte = update crc32Poly crc byte := by
  rw [crc32Byte, low_byte, getD_crc32Table, update_eq_table _ _ (by decide)]

theorem length_crc32Slice (k : Nat) : (crc32Slice k).length = 256 := by
  induction k with
  | zero => rw [crc32Slice, crc32Table, List.length_map, List.length_range]
  | succ k ih => rw [crc32Slice, List.length_map, ih]

/-- A table has what a byte leaves behind at its distance. -/
theorem getD_crc32Slice (k : Nat) (byte : U8) :
    (crc32Slice k).getD byte.toNat 0 = shifts crc32Poly (8 * (k + 1)) (byte.setWidth 32) := by
  induction k with
  | zero => exact getD_crc32Table byte
  | succ k ih =>
      have inside : byte.toNat < (crc32Slice k).length := by
        rw [length_crc32Slice]
        exact byte.isLt
      rw [List.getD_eq_getElem _ _ inside] at ih
      rw [crc32Slice, List.getD_eq_getElem _ _ (by rwa [List.length_map]), List.getElem_map, ih]
      have zero := crc32Byte_eq (shifts crc32Poly (8 * (k + 1)) (byte.setWidth 32)) 0#8
      rw [crc32Byte, BitVec.setWidth_zero, BitVec.xor_zero, update_zero_byte, ← shifts_add] at zero
      exact zero.trans (congrArg (shifts crc32Poly · _) (by omega))

theorem crc32Entry_eq {k : Nat} (inside : k < 16) (byte : U8) :
    crc32Entry k byte.toNat = shifts crc32Poly (8 * (k + 1)) (byte.setWidth 32) := by
  have slice : crc32Slices.getD k [] = crc32Slice k := by
    rw [crc32Slices, List.getD_eq_getElem _ _ (by simpa using inside), List.getElem_map,
      List.getElem_range]
  rw [crc32Entry, slice, getD_crc32Slice]

variable {bytes body : List U8} {index : Nat}

theorem contributions_drop (inside : index < bytes.length) :
    contributions crc32Poly (bytes.drop index) =
      shifts crc32Poly (8 * (bytes.length - index)) ((byteAt bytes index).setWidth 32) ^^^
        contributions crc32Poly (bytes.drop (index + 1)) := by
  rw [List.drop_eq_getElem_cons inside, contributions, byteAt, List.getD_eq_getElem _ _ inside,
    List.length_drop, show bytes.length - (index + 1) + 1 = bytes.length - index by omega]

theorem byteAt_xorBytes {left right : List U8} (inside : index < left.length)
    (same : left.length = right.length) :
    byteAt (xorBytes left right) index = byteAt left index ^^^ byteAt right index := by
  have there : index < (xorBytes left right).length := by
    rw [xorBytes, List.length_zipWith]
    omega
  rw [byteAt, byteAt, byteAt, List.getD_eq_getElem _ _ there, List.getD_eq_getElem _ _ inside,
    List.getD_eq_getElem _ _ (same ▸ inside)]
  exact List.getElem_zipWith

/-- A byte of a word. -/
theorem byteAt_toLeBytes (word : U32) (inside : index < 4) :
    byteAt (toLeBytes 4 word) index = (word >>> (8 * index)).setWidth 8 := by
  rw [byteAt, List.getD_eq_getElem _ _ (by rwa [length_toLeBytes])]
  simp only [toLeBytes, List.getElem_map, List.getElem_range]
  refine BitVec.eq_of_getLsbD_eq fun place within => ?_
  rw [BitVec.getLsbD_extractLsb', BitVec.getLsbD_setWidth, BitVec.getLsbD_ushiftRight]

/-- Sixteen bytes at once are sixteen bytes one by one. -/
theorem crc32Chunk_eq (crc : U32) {c : List U8} (sixteen : c.length = 16) :
    crc32Chunk crc c = feed crc32Poly crc c := by
  let register := toLeBytes 4 crc ++ List.replicate (c.length - 4) 0#8
  have same : register.length = c.length := by
    rw [List.length_append, length_toLeBytes, List.length_replicate]
    omega
  let mixed := xorBytes register c
  have length : mixed.length = 16 := by
    rw [show mixed = List.zipWith _ register c from rfl, List.length_zipWith, same, min_self, sixteen]
  have unroll (index : Nat) (inside : index < 16) : contributions crc32Poly (mixed.drop index) =
      crc32Entry (15 - index) (byteAt mixed index).toNat ^^^
        contributions crc32Poly (mixed.drop (index + 1)) := by
    rw [contributions_drop (length ▸ inside), crc32Entry_eq (by omega), length,
      show 15 - index + 1 = 16 - index by omega]
  have front (index : Nat) (low : index < 4) : byteAt mixed index =
      ((crc ^^^ fromLeBytes 32 (c.take 4)) >>> (8 * index)).setWidth 8 := by
    have own : byteAt register index = byteAt (toLeBytes 4 crc) index := by
      rw [byteAt, List.getD_append _ _ _ _ (by rwa [length_toLeBytes]), byteAt]
    have word : byteAt c index =
        (fromLeBytes 32 (c.take 4) >>> (8 * index)).setWidth 8 := by
      refine BitVec.eq_of_getLsbD_eq fun place within => ?_
      rw [BitVec.getLsbD_setWidth, decide_eq_true within, Bool.true_and,
        BitVec.getLsbD_ushiftRight, getLsbD_fromLeBytes (by omega), bitAt_take,
        decide_eq_true (by omega), Bool.true_and, bitAt,
        show (8 * index + place) / 8 = index by omega,
        show (8 * index + place) % 8 = place by omega]
      rfl
    rw [byteAt_xorBytes (by omega) same, own, byteAt_toLeBytes crc low, word,
      BitVec.ushiftRight_xor_distrib, BitVec.setWidth_xor]
  have behind (index : Nat) (low : 4 ≤ index) (inside : index < 16) :
      byteAt mixed index = byteAt c index := by
    have zero : byteAt register index = 0#8 := by
      rw [byteAt, List.getD_append_right _ _ _ _ (by rwa [length_toLeBytes]),
        List.getD_eq_getElem _ _ (by rw [length_toLeBytes, List.length_replicate]; omega),
        List.getElem_replicate]
    rw [byteAt_xorBytes (by omega) same, zero, BitVec.zero_xor]
  have none : contributions crc32Poly (mixed.drop 16) = 0#32 := by
    rw [List.drop_of_length_le length.le]
    rfl
  have last (word : U32) : (word >>> 24).toNat = ((word >>> 24).setWidth 8).toNat := by
    rw [BitVec.toNat_setWidth, BitVec.toNat_ushiftRight, Nat.shiftRight_eq_div_pow]
    omega
  have whole : feed crc32Poly crc c = contributions crc32Poly (mixed.drop 0) :=
    feed_eq_contributions (show 8 * 4 = 32 from rfl) (by omega) crc
  rw [whole, unroll 0 (by decide), unroll 1 (by decide), unroll 2 (by decide), unroll 3 (by decide),
    unroll 4 (by decide), unroll 5 (by decide), unroll 6 (by decide), unroll 7 (by decide),
    unroll 8 (by decide), unroll 9 (by decide), unroll 10 (by decide), unroll 11 (by decide),
    unroll 12 (by decide), unroll 13 (by decide), unroll 14 (by decide), unroll 15 (by decide), none,
    BitVec.xor_zero, front 0 (by decide), front 1 (by decide), front 2 (by decide),
    front 3 (by decide), behind 4 (by decide) (by decide), behind 5 (by decide) (by decide),
    behind 6 (by decide) (by decide), behind 7 (by decide) (by decide),
    behind 8 (by decide) (by decide), behind 9 (by decide) (by decide),
    behind 10 (by decide) (by decide), behind 11 (by decide) (by decide),
    behind 12 (by decide) (by decide), behind 13 (by decide) (by decide),
    behind 14 (by decide) (by decide), behind 15 (by decide) (by decide), Nat.mul_zero,
    BitVec.ushiftRight_zero, crc32Chunk]
  simp only [low_byte, last, BitVec.xor_assoc]

theorem crc32From_eq (crc : U32) (data : List U8) : crc32From crc data = feed crc32Poly crc data := by
  induction crc, data using crc32From.induct with
  | case1 crc data many ih =>
      have sixteen : (data.take 16).length = 16 := by
        rw [List.length_take]
        omega
      rw [crc32From, if_pos many, ih, crc32Chunk_eq crc sixteen, ← feed_append,
        List.take_append_drop]
  | case2 crc data few =>
      rw [crc32From, if_neg few, feed, funext₂ crc32Byte_eq]

theorem crc32_eq_feed (data : List U8) :
    crc32 data = feed crc32Poly 0xFFFFFFFF data ^^^ 0xFFFFFFFF := by
  rw [crc32, crc32From_eq]

/-- The sixteen tables compute what one table computes byte by byte, which is what the division
computes bit by bit. -/
theorem crc32_eq_division (data : List U8) :
    crc32 data = data.foldl crc32Byte 0xFFFFFFFF ^^^ 0xFFFFFFFF ∧
      crc32 data = feed crc32Poly 0xFFFFFFFF data ^^^ 0xFFFFFFFF := by
  refine ⟨?_, crc32_eq_feed data⟩
  rw [crc32_eq_feed, feed, funext₂ crc32Byte_eq]

example : crc32 [0x31, 0x32, 0x33, 0x34, 0x35, 0x36, 0x37, 0x38, 0x39] = 0xCBF43926 := by
  rw [crc32_eq_feed]
  decide +kernel

/-- Put the checksum behind the body of a frame. -/
def withTrailer (body : List U8) : List U8 := body ++ putU32Le (crc32 body)

/-- The body of a frame whose trailer matches it. -/
def checkedBody (bytes : List U8) : Except WeftSegError (List U8) :=
  if bytes.length < 4 then .error (.unexpectedEof 4 bytes.length)
  else
    let body := bytes.take (bytes.length - 4)
    let stored := fromLeBytes 32 (bytes.drop (bytes.length - 4))
    let computed := crc32 body
    if stored ≠ computed then .error (.checksumMismatch stored computed) else .ok body

theorem length_putU32Le (word : U32) : (putU32Le word).length = 4 :=
  length_toLeBytes 4 word

theorem fromLeBytes_putU32Le (word : U32) : fromLeBytes 32 (putU32Le word) = word :=
  fromLeBytes_toLeBytes (show 32 = 8 * 4 from rfl) word

theorem checkedBody_append (body : List U8) (stored : U32) :
    checkedBody (body ++ putU32Le stored) =
      if stored ≠ crc32 body then .error (.checksumMismatch stored (crc32 body)) else .ok body := by
  have length : (body ++ putU32Le stored).length = body.length + 4 := by
    rw [List.length_append, length_putU32Le]
  rw [checkedBody, if_neg (by omega), length, Nat.add_sub_cancel, List.take_left, List.drop_left,
    fromLeBytes_putU32Le]

theorem checkedBody_withTrailer (body : List U8) : checkedBody (withTrailer body) = .ok body := by
  rw [withTrailer, checkedBody_append, if_neg (not_not.mpr rfl)]

/-- Bytes which are long enough are some body and some trailer. -/
theorem exists_trailer (long : 4 ≤ bytes.length) :
    ∃ body stored, bytes = body ++ putU32Le stored := by
  have four : (bytes.drop (bytes.length - 4)).length = 4 := by
    rw [List.length_drop]
    omega
  have word := toLeBytes_fromLeBytes (show 32 = 8 * (bytes.drop (bytes.length - 4)).length by omega)
  rw [four] at word
  refine ⟨bytes.take (bytes.length - 4), fromLeBytes 32 (bytes.drop (bytes.length - 4)), ?_⟩
  rw [putU32Le, word, List.take_append_drop]

/-- The bodies which are accepted are those which were sealed. -/
theorem checkedBody_eq_ok : checkedBody bytes = .ok body ↔ bytes = withTrailer body := by
  constructor
  · intro accepted
    by_cases short : bytes.length < 4
    · rw [checkedBody, if_pos short] at accepted
      cases accepted
    · obtain ⟨front, stored, rfl⟩ := exists_trailer (Nat.le_of_not_lt short)
      rw [checkedBody_append] at accepted
      by_cases same : stored = crc32 front
      · rw [if_neg (not_not.mpr same)] at accepted
        obtain rfl := Except.ok.inj accepted
        rw [same, withTrailer]
      · rw [if_pos same] at accepted
        cases accepted
  · rintro rfl
    exact checkedBody_withTrailer body

theorem crc32Poly_monic : Monic crc32Poly := by
  rw [Monic]
  decide

/-- The division of a frame whose trailer matches leaves a fixed remainder. -/
theorem feed_trailer_iff (body : List U8) (stored : U32) :
    feed crc32Poly 0xFFFFFFFF (body ++ putU32Le stored) = shifts crc32Poly 32 0xFFFFFFFF ↔
      stored = crc32 body := by
  have trailer : feed crc32Poly (feed crc32Poly 0xFFFFFFFF body) (putU32Le stored) =
      shifts crc32Poly 32 (feed crc32Poly 0xFFFFFFFF body ^^^ stored) := by
    rw [feed_eq_shifts (by rw [length_putU32Le]), fromLeBytes_putU32Le, length_putU32Le]
  rw [feed_append, trailer, (shifts_injective crc32Poly_monic 32).eq_iff, crc32_eq_feed]
  generalize feed crc32Poly 0xFFFFFFFF body = crc
  constructor
  · intro whole
    rw [← whole, ← BitVec.xor_assoc, BitVec.xor_self, BitVec.zero_xor]
  · rintro rfl
    rw [← BitVec.xor_assoc, BitVec.xor_self, BitVec.zero_xor]

/-- Where up to four bytes in one place of a frame are exchanged, its trailer does not match. -/
theorem checkedBody_damaged {before first second after : List U8}
    (same : first.length = second.length) (short : first.length ≤ 4)
    (accepted : checkedBody (before ++ (first ++ after)) = .ok body) (damaged : first ≠ second) :
    ∃ stored computed, checkedBody (before ++ (second ++ after)) =
      .error (.checksumMismatch stored computed) := by
  have length : (before ++ (second ++ after)).length = (before ++ (first ++ after)).length := by
    simp only [List.length_append, same]
  have whole := checkedBody_eq_ok.mp accepted
  have long : 4 ≤ (before ++ (second ++ after)).length := by
    rw [length, whole, withTrailer, List.length_append, length_putU32Le]
    exact Nat.le_add_left 4 _
  obtain ⟨other, stored, split⟩ := exists_trailer long
  rw [split, checkedBody_append]
  by_cases unnoticed : stored = crc32 other
  · have fed : feed crc32Poly 0xFFFFFFFF (before ++ (first ++ after)) =
        feed crc32Poly 0xFFFFFFFF (before ++ (second ++ after)) := by
      rw [split, (feed_trailer_iff other stored).mpr unnoticed, whole]
      exact (feed_trailer_iff body _).mpr rfl
    exact absurd (eq_of_feed_window crc32Poly_monic same (by omega) fed) damaged
  · exact ⟨stored, crc32 other, if_pos unnoticed⟩

end WeftDb.Frames
