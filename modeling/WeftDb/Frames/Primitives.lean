import WeftDb.Codec.Words
import WeftDb.Foundation.Reading

/-!
# The bytes of a frame

A frame is written as little-endian words, varints and blocks with their length in front.  Every
field is read back as it was written, whatever follows it.
-/

namespace WeftDb.Frames

open BitStream Codec Reading

abbrev U16 := BitVec 16
abbrev U32 := BitVec 32

/-- Why a bitmap is no null mask. -/
inductive NullMaskError
  | bitmapLength (expected found : Nat)
  | nullCountMismatch (declared actual : Nat)
  deriving DecidableEq

/-- Why the bytes of a frame cannot be read. -/
inductive WeftSegError
  | unexpectedEof (needed remaining : Nat)
  | varintTooLong
  | invalidUtf8
  | invalidDecimal
  | decimalOutOfRange (digits : Nat)
  | badMagic
  | unsupportedVersion (found : U16)
  | invalidTag (kind : String) (value : U8)
  | checksumMismatch (stored computed : U32)
  | trailingBytes (remaining : Nat)
  | invalidNullMask (error : NullMaskError)
  | codecNotEnabled (codec feature : String)
  | unknownCriticalExtension (id : Nat)
  | envelopeBodyMismatch (declared found : U16)
  | decodeLimit (limit : String) (found max : Nat)
  | columnLengthMismatch (column : String) (expected found : Nat)
  deriving DecidableEq

/-- A cursor over the bytes of a frame. -/
abbrev ByteReader := Reader U8 WeftSegError

def putU8 (value : U8) : List U8 := [value]

def putU16Le (value : U16) : List U8 := toLeBytes 2 value

def putU32Le (value : U32) : List U8 := toLeBytes 4 value

/-- Seven bits a byte, the lowest first. -/
def putUvarint (value : U64) : List U8 := forPushUvarint value

/-- A count, or another number of the machine's width. -/
def putCount (count : Nat) : List U8 := putUvarint (BitVec.ofNat 64 count)

def putBytes (bytes : List U8) : List U8 := putCount bytes.length ++ bytes

def takeBytes (count : Nat) : ByteReader (List U8) := take .unexpectedEof count

def readU8 : ByteReader U8 := do
  return (← takeBytes 1).headD 0

def readU16Le : ByteReader U16 := do
  return fromLeBytes 16 (← takeBytes 2)

/-- The bytes of a varint from the one at a shift on. -/
def readUvarintFrom (result : U64) (shift : Nat) : ByteReader U64 := do
  let byte ← readU8
  let result := result ||| (byte &&& 0x7F).setWidth 64 <<< shift
  if byte &&& 0x80 = 0 then return result
  else if 64 ≤ shift + 7 then refuse .varintTooLong
  else readUvarintFrom result (shift + 7)
termination_by 64 - shift

def readUvarint : ByteReader U64 := readUvarintFrom 0 0

/-- A count, which fits the machine's width. -/
def readCount : ByteReader Nat := do
  return (← readUvarint).toNat

def readBytes : ByteReader (List U8) := do
  takeBytes (← readCount)

/-- A word is that of its bytes. -/
theorem fromLeBytes_toLeBytes {width count : Nat} (whole : width = 8 * count)
    (word : BitVec width) : fromLeBytes width (toLeBytes count word) = word := by
  refine BitVec.eq_of_getLsbD_eq fun place within => ?_
  rw [getLsbD_fromLeBytes within, bitAt_toLeBytes, decide_eq_true (whole ▸ within), Bool.true_and]

variable {bytes : List U8}

/-- Bytes are those of their word. -/
theorem toLeBytes_fromLeBytes {width : Nat} (whole : width = 8 * bytes.length) :
    toLeBytes bytes.length (fromLeBytes width bytes) = bytes := by
  refine List.ext_getElem (length_toLeBytes _ _) fun index left right => ?_
  refine BitVec.eq_of_getLsbD_eq fun place within => ?_
  simp only [toLeBytes, List.getElem_map, List.getElem_range]
  rw [BitVec.getLsbD_extractLsb', decide_eq_true within, Bool.true_and,
    getLsbD_fromLeBytes (by omega), bitAt, show (8 * index + place) / 8 = index by omega,
    show (8 * index + place) % 8 = place by omega, List.getD_eq_getElem _ _ right]

theorem reads_takeBytes (bytes : List U8) : Reads (takeBytes bytes.length) bytes bytes :=
  .take _ bytes

/-- A word of some bytes is read back. -/
theorem reads_word (width count : Nat) (whole : width = 8 * count) (word : BitVec width) :
    Reads (takeBytes count >>= fun bytes => pure (fromLeBytes width bytes)) (toLeBytes count word)
      word := by
  have bytes := reads_takeBytes (toLeBytes count word)
  rw [length_toLeBytes] at bytes
  refine bytes.last ?_
  rw [fromLeBytes_toLeBytes whole]
  exact .pure word

theorem reads_u8 (value : U8) : Reads readU8 (putU8 value) value :=
  (reads_takeBytes [value]).last (.pure value)

theorem reads_u16 (value : U16) : Reads readU16Le (putU16Le value) value :=
  reads_word 16 2 rfl value

/-- What is pushed is read, ORed into the bits before it. -/
theorem reads_uvarintFrom (value result : U64) (shift : Nat)
    (room : bitLength value + shift ≤ 64) :
    Reads (readUvarintFrom result shift) (forPushUvarint value) (result ||| value <<< shift) := by
  induction value using forPushUvarint.induct generalizing result shift with
  | case1 value rest none =>
      rw [forPushUvarint, if_pos none, readUvarintFrom]
      refine (reads_u8 _).last ?_
      rw [if_pos (low_and_continuation value), payload_eq, low_eq_of_rest none]
      exact .pure _
  | case2 value rest more ih =>
      obtain ⟨room, short⟩ := room_of_rest more room
      have later := ih (result ||| (value &&& 0x7F) <<< shift) (shift + 7) room
      rw [BitVec.or_assoc, low_or_rest] at later
      rw [forPushUvarint, if_neg more, readUvarintFrom]
      refine (reads_u8 _).bind ?_
      rw [if_neg (continued_ne_zero _), if_neg short.not_ge, continued_payload, payload_eq]
      exact later

theorem reads_uvarint (value : U64) : Reads readUvarint (putUvarint value) value := by
  have room : bitLength value ≤ 64 := Nat.sub_le 64 _
  have whole := reads_uvarintFrom value 0 0 room
  rw [BitVec.shiftLeft_zero, show (0 : U64) ||| value = value from BitVec.zero_or] at whole
  exact whole

theorem reads_count {count : Nat} (fits : count < 2 ^ 64) :
    Reads readCount (putCount count) count := by
  refine (reads_uvarint _).last ?_
  rw [BitVec.toNat_ofNat, Nat.mod_eq_of_lt fits]
  exact .pure count

theorem reads_bytes (fits : bytes.length < 2 ^ 64) : Reads readBytes (putBytes bytes) bytes :=
  (reads_count fits).bind (reads_takeBytes bytes)

end WeftDb.Frames
