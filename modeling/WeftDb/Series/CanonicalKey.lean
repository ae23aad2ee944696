import Mathlib
import WeftDb.Foundation.Results

/-!
# Canonical series keys

The tags of a series are stored as one byte string: sorted by key, each key before its value, with a
separator between the two and another between tags.  Texts are their UTF-8 bytes.
-/

namespace WeftDb.Tags

abbrev Bytes := List UInt8

/-- A tag: its key and its value. -/
abbrev Pair := Bytes × Bytes

def maxTagKeyBytes : Nat := 128

def maxTagValueBytes : Nat := 256

def maxTags : Nat := 16

def maxSeriesKeyBytes : Nat := 1024

/-- The byte between a key and its value, the unit separator. -/
def tagKeyValueSeparator : UInt8 := 0x1F

/-- The byte between two tags, the record separator. -/
def tagPairSeparator : UInt8 := 0x1E

/-- Two underscores. -/
def reservedTagKeyPrefix : Bytes := [0x5F, 0x5F]

/-- What a list of tags or a byte string is refused for; a key is quoted by its first bytes. -/
inductive TagError
  | emptyKey
  | keyTooLong (key : Bytes) (len : Nat)
  | invalidKey (key : Bytes) (index : Nat)
  | reservedKey (key : Bytes)
  | emptyValue (key : Bytes)
  | valueTooLong (key : Bytes) (len : Nat)
  | controlCharacter (key : Bytes) (index : Nat) (character : Char)
  | valueNotUtf8 (key : Bytes) (index : Nat)
  | duplicateKey (key : Bytes)
  | tooManyTags (count : Nat)
  | seriesKeyTooLong (len : Nat)
  | missingSeparator (pair : Nat)
  | unsortedKeys (key previous : Bytes)
  deriving DecidableEq

/-- Whether bytes are valid UTF-8. -/
def IsText (bytes : Bytes) : Prop := ByteArray.IsValidUTF8 ⟨bytes.toArray⟩

instance (bytes : Bytes) : Decidable (IsText bytes) :=
  inferInstanceAs (Decidable (ByteArray.IsValidUTF8 _))

/-- The length of the longest start which is valid. -/
def validUpTo (bytes : Bytes) : Nat :=
  (((List.range (bytes.length + 1)).filter fun count => IsText (bytes.take count)).max?).getD 0

/-- Whether a byte does not continue a character. -/
def isCharBoundary (bytes : Bytes) (place : Nat) : Bool :=
  match bytes[place]? with
  | none => true
  | some byte => byte < 0x80 || 0xC0 ≤ byte

/-- The last boundary by a place. -/
def boundaryBy (bytes : Bytes) : Nat → Nat
  | 0 => 0
  | place + 1 =>
      if isCharBoundary bytes (place + 1) then place + 1 else boundaryBy bytes place

/-- Whether a byte continues a character. -/
def isContinuation (byte : UInt8) : Bool := decide (0x80 ≤ byte ∧ byte ≤ 0xBF)

/-- Whether two bytes start a character of three bytes. -/
def startsThree (first second : UInt8) : Bool :=
  decide ((first = 0xE0 ∧ 0xA0 ≤ second ∧ second ≤ 0xBF) ∨
    (0xE1 ≤ first ∧ first ≤ 0xEF ∧ first ≠ 0xED ∧ isContinuation second) ∨
    (first = 0xED ∧ 0x80 ≤ second ∧ second ≤ 0x9F))

/-- Whether two bytes start a character of four bytes. -/
def startsFour (first second : UInt8) : Bool :=
  decide ((first = 0xF0 ∧ 0x90 ≤ second ∧ second ≤ 0xBF) ∨
    (0xF1 ≤ first ∧ first ≤ 0xF3 ∧ isContinuation second) ∨
    (first = 0xF4 ∧ 0x80 ≤ second ∧ second ≤ 0x8F))

/-- How many bytes one replacement stands for, where no character starts: the start of a character
as far as it goes, or one byte. -/
def brokenLength : Bytes → Nat
  | first :: second :: rest =>
      if startsThree first second then 2
      else if startsFour first second then if rest.head?.any isContinuation then 3 else 2
      else 1
  | _ => 1

/-- The bytes as a text, with U+FFFD for what is not valid; `fuel` bounds the replacements. -/
def fromUtf8Lossy : Nat → Bytes → Bytes
  | 0, _ => []
  | fuel + 1, bytes =>
      let valid := validUpTo bytes
      let rest := bytes.drop valid
      bytes.take valid ++
        if rest = [] then []
        else [0xEF, 0xBF, 0xBD] ++ fromUtf8Lossy fuel (rest.drop (brokenLength rest))

/-- A key as an error quotes it. -/
def keyForError (key : Bytes) : Bytes :=
  let cut := min key.length maxTagKeyBytes
  let quoted := key.take (if IsText key then boundaryBy key cut else cut)
  fromUtf8Lossy (quoted.length + 1) quoted

inductive ReservedKeys
  | reject
  | accept
  deriving DecidableEq

def isAsciiAlphabetic (byte : UInt8) : Bool :=
  decide ((0x41 ≤ byte ∧ byte ≤ 0x5A) ∨ (0x61 ≤ byte ∧ byte ≤ 0x7A))

def isAsciiDigit (byte : UInt8) : Bool := decide (0x30 ≤ byte ∧ byte ≤ 0x39)

def isAsciiControl (byte : UInt8) : Bool := decide (byte < 0x20 ∨ byte = 0x7F)

def isKeyStart (byte : UInt8) : Bool := isAsciiAlphabetic byte || byte == 0x5F

def isKeyByte (byte : UInt8) : Bool :=
  isAsciiAlphabetic byte || isAsciiDigit byte || byte == 0x5F || byte == 0x2E || byte == 0x2D

def checkKey (key : Bytes) (reserved : ReservedKeys) : Except TagError Bytes :=
  match key with
  | [] => .error .emptyKey
  | first :: later =>
      if maxTagKeyBytes < key.length then .error (.keyTooLong (keyForError key) key.length)
      else if !isKeyStart first then .error (.invalidKey (keyForError key) 0)
      else
        match later.findIdx? fun byte => !isKeyByte byte with
        | some offset => .error (.invalidKey (keyForError key) (offset + 1))
        | none =>
            if reserved = .reject ∧ reservedTagKeyPrefix <+: key then
              .error (.reservedKey (keyForError key))
            else if IsText key then .ok key
            else .error (.invalidKey (keyForError key) (validUpTo key))

def checkValue (key value : Bytes) : Except TagError Bytes :=
  if value = [] then .error (.emptyValue (keyForError key))
  else if maxTagValueBytes < value.length then
    .error (.valueTooLong (keyForError key) value.length)
  else
    match value.findIdx? isAsciiControl with
    | some index =>
        .error (.controlCharacter (keyForError key) index (Char.ofNat (value.getD index 0).toNat))
    | none =>
        if IsText value then .ok value
        else .error (.valueNotUtf8 (keyForError key) (validUpTo value))

/-- Append a tag, behind a separator unless it is the first. -/
def pushPair (canonical key value : Bytes) : Bytes :=
  (if canonical = [] then [] else canonical ++ [tagPairSeparator]) ++
    key ++ [tagKeyValueSeparator] ++ value

/-- Tags one after the other. -/
def canonicalForm (pairs : List Pair) : Bytes :=
  pairs.foldl (fun canonical pair => pushPair canonical pair.1 pair.2) []

/-- The bytewise order of keys. -/
def KeyLE {Value : Type} (left right : Bytes × Value) : Prop :=
  (compare left.1 right.1).isLE = true

instance {Value : Type} : DecidableRel (@KeyLE Value) := fun left right =>
  inferInstanceAs (Decidable ((compare left.1 right.1).isLE = true))

/-- The first key which the next one repeats. -/
def repeatedKey {Value : Type} : List (Bytes × Value) → Option Bytes
  | first :: second :: pairs =>
      if first.1 = second.1 then some first.1 else repeatedKey (second :: pairs)
  | _ => none

/-- Check the tags in order, each key before its value. -/
def checkPairs : List Pair → Except TagError (List Pair)
  | [] => .ok []
  | (key, value) :: pairs => do
      let key ← checkKey key .reject
      let value ← checkValue key value
      let held ← checkPairs pairs
      return (key, value) :: held

/-- The canonical key of tags in any order. -/
def fromPairs (pairs : List Pair) : Except TagError Bytes :=
  if maxTags < pairs.length then .error (.tooManyTags (maxTags + 1))
  else do
    let held ← checkPairs pairs
    let held := held.insertionSort KeyLE
    match repeatedKey held with
    | some key => .error (.duplicateKey (keyForError key))
    | none =>
        let len := (held.map fun pair => pair.1.length + 1 + pair.2.length).sum + (held.length - 1)
        if maxSeriesKeyBytes < len then .error (.seriesKeyTooLong len)
        else .ok (canonicalForm held)

/-- The bytes before the first separator and those behind it. -/
def splitOnce (separator : UInt8) (bytes : Bytes) : Option (Bytes × Bytes) :=
  if separator ∈ bytes then
    some (bytes.takeWhile (· != separator), (bytes.dropWhile (· != separator)).tail)
  else none

/-- Read the tags from an index on, behind the previous key: the text rebuilt and the count. -/
def readPairs : Nat → Option Bytes → Bytes → List Bytes → Except TagError (Bytes × Nat)
  | index, _, canonical, [] => .ok (canonical, index)
  | index, previous, canonical, pair :: pairs =>
      match splitOnce tagKeyValueSeparator pair with
      | none => .error (.missingSeparator index)
      | some (key, value) => do
          let keyText ← checkKey key .accept
          let valueText ← checkValue key value
          match previous.map fun previous => (compare previous key, previous) with
          | some (.eq, _) => .error (.duplicateKey (keyForError key))
          | some (.gt, previous) =>
              .error (.unsortedKeys (keyForError key) (keyForError previous))
          | _ => readPairs (index + 1) (some key) (pushPair canonical keyText valueText) pairs

/-- A canonical key read back from stored bytes. -/
def fromCanonical (bytes : Bytes) : Except TagError Bytes :=
  if maxSeriesKeyBytes < bytes.length then .error (.seriesKeyTooLong bytes.length)
  else if bytes = [] then .ok []
  else do
    let (canonical, count) ← readPairs 0 none [] (bytes.splitOn tagPairSeparator)
    if maxTags < count then .error (.tooManyTags count) else .ok canonical

theorem length_lt_of_splitOnce {separator : UInt8} {bytes first rest : Bytes}
    (found : splitOnce separator bytes = some (first, rest)) : rest.length < bytes.length := by
  unfold splitOnce at found
  split at found
  · rename_i member
    cases found
    have filled : 0 < bytes.length := List.length_pos_of_mem member
    have shorter := (List.dropWhile_sublist (· != separator) (l := bytes)).length_le
    rw [List.length_tail]
    omega
  · cases found

/-- The tags of a canonical key. -/
def iter (rest : Bytes) : List Pair :=
  if rest = [] then []
  else
    match found : splitOnce tagPairSeparator rest with
    | none => (splitOnce tagKeyValueSeparator rest).toList
    | some (pair, later) =>
        match splitOnce tagKeyValueSeparator pair with
        | none => []
        | some pair => pair :: iter later
termination_by rest.length
decreasing_by exact length_lt_of_splitOnce found

/-- The value of a key among sorted tags. -/
def find (key : Bytes) : List Pair → Option Bytes
  | [] => none
  | (candidate, value) :: pairs =>
      match compare candidate key with
      | .lt => find key pairs
      | .eq => some value
      | .gt => none

def get (canonical key : Bytes) : Option Bytes := find key (iter canonical)

def len (canonical : Bytes) : Nat :=
  if canonical = [] then 0 else canonical.count tagPairSeparator + 1

end WeftDb.Tags
