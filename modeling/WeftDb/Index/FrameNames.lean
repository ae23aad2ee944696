import Mathlib.Tactic.IntervalCases
import WeftDb.Foundation.Integers
import WeftDb.Index.IndexDb

/-!
# Write-once frame names

A frame of an aspect is named by the aspect's stem, its generation and its adoption order.  The
stem is the escaped aspect name, shortened and hashed when it would be too long; only an escaped
name can be read back.
-/

namespace WeftDb

/-- Whether a byte of an aspect name is written as it is. -/
def isLiteral (byte : UInt8) : Bool :=
  decide ((97 ≤ byte ∧ byte ≤ 122) ∨ (48 ≤ byte ∧ byte ≤ 57) ∨ byte = 95)

def hexDigits : List Char :=
  ['0', '1', '2', '3', '4', '5', '6', '7', '8', '9', 'A', 'B', 'C', 'D', 'E', 'F']

/-- Escape one byte of an aspect name. -/
def encodeByte (byte : UInt8) : List Char :=
  if isLiteral byte then
    [Char.ofNat byte.toNat]
  else
    ['%', hexDigits.getD (byte.toNat / 16) '0', hexDigits.getD (byte.toNat % 16) '0']

/-- Escape an aspect name. -/
def encode (aspect : AspectName) : List Char :=
  (aspect.toList.flatMap String.utf8EncodeChar).flatMap encodeByte

/-- Read an escaped name back; only what `encode` writes is accepted. -/
def decode : List Char → Option (List UInt8)
  | [] => some []
  | '%' :: high :: low :: later =>
      match hexDigits.idxOf? high, hexDigits.idxOf? low with
      | some upper, some lower =>
          let byte := UInt8.ofNat (16 * upper + lower)
          if isLiteral byte then none else (decode later).map (byte :: ·)
      | _, _ => none
  | char :: later =>
      let byte := UInt8.ofNat char.toNat
      if char.toNat < 128 ∧ isLiteral byte then (decode later).map (byte :: ·) else none

/-- The longest escaped name which a stem holds as it is. -/
def maxPlainStemBytes : Nat := 200

/-- How much of an overlong escaped name a stem keeps. -/
def hashedPrefixBytes : Nat := 160

/-- Sixteen lowercase hexadecimal digits. -/
def hex16 (word : UInt64) : List Char :=
  let digits := Nat.toDigits 16 word.toNat
  List.replicate (16 - digits.length) '0' ++ digits

/-- The stem every write-once frame of an aspect starts with. -/
def stem (aspect : AspectName) : String :=
  let encoded := encode aspect
  if encoded.length ≤ maxPlainStemBytes then
    String.ofList encoded
  else
    -- The cut moves back when it would fall inside an escape.
    let cut :=
      if encoded[hashedPrefixBytes - 1]? = some '%' then hashedPrefixBytes - 1
      else if encoded[hashedPrefixBytes - 2]? = some '%' then hashedPrefixBytes - 2
      else hashedPrefixBytes
    let hash := Fnv1a.feed Fnv1a.new (aspect.toList.flatMap String.utf8EncodeChar)
    String.ofList (encoded.take cut ++ ['~', 'h'] ++ hex16 hash)

/-- The name of an aspect's frame. -/
def frameName (aspect : AspectName) (gen prec : Nat) : FrameName :=
  .writeOnce (stem aspect) gen prec

namespace FrameName

/-- The aspect which a write-once name names by itself.  A plain stem longer than any which is
written is no stem. -/
def aspect (name : FrameName) : Option AspectName :=
  match name with
  | .writeOnce stem _ _ =>
      if stem.toList.length ≤ maxPlainStemBytes then
        (decode stem.toList).bind fun bytes => String.fromUTF8? ⟨bytes.toArray⟩
      else
        none
  | _ => none

/-- The generation which a write-once name carries. -/
def gen (name : FrameName) : Option Nat :=
  match name with
  | .writeOnce _ gen _ => some gen
  | _ => none

/-- The generation which a write-once name of a stem carries. -/
def genOf (wanted : String) (name : FrameName) : Option Nat :=
  match name with
  | .writeOnce stem gen _ => if stem = wanted then some gen else none
  | _ => none

/-- The id which a legacy name of an aspect carries. -/
def legacyIdOf (wanted : AspectName) (name : FrameName) : Option Nat :=
  match name with
  | .legacy aspect id => if aspect = wanted then some id else none
  | _ => none

end FrameName

/-- One past a value, or `0` without one. -/
def past (value : Option Nat) : Nat :=
  (value.map (· + 1)).getD 0

/-- The largest id of an aspect's legacy names in a directory. -/
def legacyFileId (names : List FrameName) (aspect : AspectName) : Option Nat :=
  (names.filterMap (FrameName.legacyIdOf aspect)).max?

/-- The largest generation of a stem's frames in a directory. -/
def frameGenOnDisk (names : List FrameName) (wanted : String) : Option Nat :=
  (names.filterMap (FrameName.genOf wanted)).max?

variable {value : Nat} {names : List FrameName} {aspect : AspectName}

theorem lt_past_of_mem {values : List Nat} (member : value ∈ values) :
    value < past values.max? := by
  cases largest : values.max? with
  | none =>
      rw [List.max?_eq_none_iff.mp largest] at member
      cases member
  | some most =>
      have bound := (List.max?_eq_some_iff.mp largest).2 value member
      simp only [past, Option.map_some, Option.getD_some]
      omega

theorem lt_past_frameGenOnDisk {wanted : String} {gen prec : Nat}
    (member : FrameName.writeOnce wanted gen prec ∈ names) :
    gen < past (frameGenOnDisk names wanted) := by
  refine lt_past_of_mem (List.mem_filterMap.mpr ⟨_, member, ?_⟩)
  simp [FrameName.genOf]

theorem lt_past_legacyFileId {id : Nat} (member : FrameName.legacy aspect id ∈ names) :
    id < past (legacyFileId names aspect) := by
  refine lt_past_of_mem (List.mem_filterMap.mpr ⟨_, member, ?_⟩)
  simp [FrameName.legacyIdOf]

theorem hexDigits_idxOf (small : value < 16) :
    hexDigits.idxOf? (hexDigits.getD value '0') = some value := by
  interval_cases value <;> decide

theorem hexDigits_getD {digit : Char} (found : hexDigits.idxOf? digit = some value) :
    value < 16 ∧ hexDigits.getD value '0' = digit := by
  obtain ⟨bound, same, -⟩ := List.findIdx?_eq_some_iff_getElem.mp found
  refine ⟨bound, ?_⟩
  rw [List.getD_eq_getElem?_getD, List.getElem?_eq_getElem bound]
  exact beq_iff_eq.mp same

theorem toNat_ofNat_byte (byte : UInt8) : (Char.ofNat byte.toNat).toNat = byte.toNat := by
  have small := byte.toNat_lt_size
  simp only [UInt8.size] at small
  rw [Char.toNat, Char.ofNat, dif_pos (.inl (by omega))]
  rfl

theorem isLiteral_bounds {byte : UInt8} (literal : isLiteral byte = true) :
    byte.toNat < 128 ∧ byte.toNat ≠ 37 ∧ byte.toNat ≠ 126 := by
  simp only [isLiteral, decide_eq_true_eq, UInt8.le_iff_toNat_le, ← UInt8.toNat_inj] at literal
  simp at literal
  omega

theorem decode_literal {char : Char} (different : char ≠ '%') (later : List Char) :
    decode (char :: later) =
      if char.toNat < 128 ∧ isLiteral (UInt8.ofNat char.toNat) then
        (decode later).map (UInt8.ofNat char.toNat :: ·)
      else none := by
  rw [decode]
  rintro _ _ _ ⟨⟩
  exact absurd rfl different

theorem decode_encodeByte (byte : UInt8) (later : List Char) :
    decode (encodeByte byte ++ later) = (decode later).map (byte :: ·) := by
  unfold encodeByte
  split
  · rename_i literal
    obtain ⟨ascii, percent, -⟩ := isLiteral_bounds literal
    have back := toNat_ofNat_byte byte
    have different : Char.ofNat byte.toNat ≠ '%' := by
      intro same
      rw [same] at back
      exact percent back.symm
    rw [List.singleton_append, decode_literal different, back, UInt8.ofNat_toNat,
      if_pos ⟨ascii, literal⟩]
  · rename_i escaped
    have small := byte.toNat_lt_size
    simp only [UInt8.size] at small
    have whole : 16 * (byte.toNat / 16) + byte.toNat % 16 = byte.toNat := by omega
    simp only [List.cons_append, List.nil_append]
    rw [decode, hexDigits_idxOf (by omega), hexDigits_idxOf (by omega)]
    simp only [whole, UInt8.ofNat_toNat]
    rw [if_neg escaped]

theorem decode_encodeBytes (bytes : List UInt8) :
    decode (bytes.flatMap encodeByte) = some bytes := by
  induction bytes with
  | nil => rfl
  | cons byte bytes ih =>
      rw [List.flatMap_cons, decode_encodeByte, ih]
      rfl

theorem encodeBytes_of_decode {chars : List Char} {bytes : List UInt8}
    (decoded : decode chars = some bytes) : bytes.flatMap encodeByte = chars := by
  induction chars using decode.induct generalizing bytes with
  | case1 =>
      cases decoded
      rfl
  | case2 high low later upper lower low_found high_found byte =>
      rename_i literal
      rw [decode, high_found, low_found] at decoded
      simp only at decoded
      rw [if_pos literal] at decoded
      cases decoded
  | case3 high low later upper lower low_found high_found byte escaped =>
      rename_i ih
      rw [decode, high_found, low_found] at decoded
      simp only at decoded
      rw [if_neg escaped] at decoded
      obtain ⟨rest, rest_decoded, rfl⟩ := Option.map_eq_some_iff.mp decoded
      obtain ⟨high_small, high_digit⟩ := hexDigits_getD high_found
      obtain ⟨low_small, low_digit⟩ := hexDigits_getD low_found
      have value : (UInt8.ofNat (16 * upper + lower)).toNat = 16 * upper + lower := by
        rw [UInt8.toNat_ofNat']
        omega
      rw [List.flatMap_cons, ih rest_decoded, encodeByte, if_neg escaped, value]
      have upper_eq : (16 * upper + lower) / 16 = upper := by omega
      have lower_eq : (16 * upper + lower) % 16 = lower := by omega
      rw [upper_eq, lower_eq, high_digit, low_digit]
      rfl
  | case4 high low later missing =>
      rw [decode] at decoded
      split at decoded
      · rename_i upper lower high_found low_found
        exact (missing upper lower high_found low_found).elim
      · cases decoded
  | case5 char later plain byte literal =>
      rename_i ih
      rw [decode, if_pos literal] at decoded
      · obtain ⟨rest, rest_decoded, rfl⟩ := Option.map_eq_some_iff.mp decoded
        have value : (UInt8.ofNat char.toNat).toNat = char.toNat := by
          rw [UInt8.toNat_ofNat']
          omega
        rw [List.flatMap_cons, ih rest_decoded, encodeByte, if_pos literal.2, value,
          Char.ofNat_toNat]
        rfl
      · exact plain
  | case6 char later plain byte =>
      rename_i other
      rw [decode, if_neg other] at decoded
      · cases decoded
      · exact plain

theorem tilde_not_mem_encodeByte (byte : UInt8) : '~' ∉ encodeByte byte := by
  unfold encodeByte
  split
  · rename_i literal
    intro member
    have back := toNat_ofNat_byte byte
    rw [← List.mem_singleton.mp member] at back
    exact (isLiteral_bounds literal).2.2 back.symm
  · have small := byte.toNat_lt_size
    simp only [UInt8.size] at small
    have upper : byte.toNat / 16 < 16 := by omega
    have lower : byte.toNat % 16 < 16 := by omega
    have digit : ∀ value < 16, hexDigits.getD value '0' ≠ '~' := by decide
    simp only [List.mem_cons, List.not_mem_nil, or_false, not_or]
    exact ⟨by decide, (digit _ upper).symm, (digit _ lower).symm⟩

theorem utf8_bytes (aspect : AspectName) :
    (⟨(aspect.toList.flatMap String.utf8EncodeChar).toArray⟩ : ByteArray) = aspect.toByteArray := by
  rw [← String.utf8Encode_toList, List.utf8Encode]
  exact ByteArray.ext (by rw [List.data_toByteArray])

theorem FrameName.eq_frameName {name : FrameName} (named : name.aspect = some aspect) :
    ∃ gen prec, name = frameName aspect gen prec := by
  cases name with
  | writeOnce stem gen prec =>
      simp only [FrameName.aspect] at named
      split at named
      · rename_i short
        obtain ⟨bytes, decoded, named⟩ := Option.bind_eq_some_iff.mp named
        unfold String.fromUTF8? at named
        split at named
        · rename_i valid
          cases named
          have encoded : encode (String.fromUTF8 ⟨bytes.toArray⟩ valid) = stem.toList := by
            have same := utf8_bytes (String.fromUTF8 ⟨bytes.toArray⟩ valid)
            have bytes_eq := congrArg (fun array : ByteArray => array.data.toList) same
            rw [encode, ← encodeBytes_of_decode decoded]
            exact congrArg _ bytes_eq
          refine ⟨gen, prec, ?_⟩
          rw [frameName, WeftDb.stem]
          simp only
          rw [encoded, if_pos short, String.ofList_toList]
        · cases named
      · cases named
  | _ => cases named

theorem aspect_of_frameName {own : AspectName} {gen prec : Nat}
    (named : (frameName own gen prec).aspect = some aspect) : aspect = own := by
  simp only [frameName, FrameName.aspect] at named
  split at named
  · obtain ⟨bytes, decoded, named⟩ := Option.bind_eq_some_iff.mp named
    unfold stem at decoded
    simp only at decoded
    split at decoded
    · rw [String.toList_ofList, encode, decode_encodeBytes, Option.some.injEq] at decoded
      unfold String.fromUTF8? at named
      split at named
      · cases named
        apply String.toByteArray_inj.mp
        rw [← utf8_bytes own, decoded]
        rfl
      · cases named
    · have escaped := encodeBytes_of_decode decoded
      rw [String.toList_ofList] at escaped
      have tilde : '~' ∈ bytes.flatMap encodeByte := by
        rw [escaped]
        simp
      obtain ⟨byte, -, member⟩ := List.mem_flatMap.mp tilde
      exact absurd member (tilde_not_mem_encodeByte byte)
  · cases named

end WeftDb
