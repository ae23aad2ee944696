import WeftDb.Foundation.PlainText
import WeftDb.Index.FrameNames

/-!
# The text of a frame name

A write-once name is written as its stem, its generation and its adoption order, and read from the
right.  The generation and the order are read as they are written.  A plain stem is the name of its
aspect; of a hashed one only the form is checked, since the hash is not read back.
-/

namespace WeftDb.FrameText

open PlainText Option

abbrev Text := List Char

def extension : Text := ['.', 'w', 'e', 'f', 't', 's', 'e', 'g']

def sidecarExtension : Text := ['.', 'w', 'e', 'f', 't', 'p', 'a', 'r', 't']

/-- The file name of an aspect's frame. -/
def frameName (aspect : AspectName) (gen prec : UInt64) : Text :=
  (stem aspect).toList ++ (['~', 'g'] ++ Nat.toDigits 10 gen.toNat) ++
    (['~', 'p'] ++ Nat.toDigits 10 prec.toNat) ++ extension

/-- The aspect whose escaped name a text is. -/
def decodeName (encoded : Text) : Option AspectName :=
  (decode encoded).bind fun bytes => String.fromUTF8? ⟨bytes.toArray⟩

/-- A number which is written without a sign and without a leading zero. -/
def canonicalU64 (digits : Text) : Option UInt64 :=
  if digits = [] ∨ ¬digits.all Char.isDigit ∨ 1 < digits.length ∧ digits.head? = some '0' then none
  else
    let value := Nat.ofDigitChars 10 digits 0
    if value < UInt64.size then some (UInt64.ofNat value) else none

/-- A character of an escaped name. -/
def isStemChar (char : Char) : Bool :=
  decide ('a' ≤ char ∧ char ≤ 'z' ∨ '0' ≤ char ∧ char ≤ '9' ∨ char = '_' ∨ char = '%' ∨
    'A' ≤ char ∧ char ≤ 'F')

def isHashDigit (char : Char) : Bool :=
  decide ('0' ≤ char ∧ char ≤ '9' ∨ 'a' ≤ char ∧ char ≤ 'f')

/-- Whether a text is taken for a stem. -/
def canonicalStem (text : Text) : Bool :=
  match splitOnce ['~', 'h'] text with
  | none => decide (text ≠ [] ∧ text.length ≤ maxPlainStemBytes ∧ (decodeName text).isSome)
  | some (front, hash) =>
      decide (front ≠ [] ∧ front.length ≤ hashedPrefixBytes ∧ front.all isStemChar ∧
        hash.length = 16 ∧ hash.all isHashDigit)

/-- Read a write-once frame name. -/
def parse (name : Text) : Option FrameName := do
  let body ← stripSuffix extension name
  let (rest, prec) ← rsplitOnce ['~', 'p'] body
  let (text, gen) ← rsplitOnce ['~', 'g'] rest
  let gen ← canonicalU64 gen
  let prec ← canonicalU64 prec
  if canonicalStem text then some (.writeOnce (String.ofList text) gen.toNat prec.toNat) else none

/-- The aspect and the id of a legacy name. -/
def legacyFileId (name : Text) : Option (Text × UInt64) := do
  let body ← (stripSuffix extension name).or (stripSuffix sidecarExtension name)
  let (aspect, id) ← rsplitOnce ['-'] body
  if aspect = [] ∨ id = [] ∨ ¬id.all Char.isDigit then none
  else
    let value := Nat.ofDigitChars 10 id 0
    if value < UInt64.size then some (aspect, UInt64.ofNat value) else none

theorem canonicalU64_eq_some {digits : Text} {value : UInt64} :
    canonicalU64 digits = some value ↔ digits = Nat.toDigits 10 value.toNat := by
  have canonical : Canonical digits ↔
      ¬(digits = [] ∨ ¬digits.all Char.isDigit ∨ 1 < digits.length ∧ digits.head? = some '0') := by
    simp [Canonical, List.all_eq_true, not_or, not_and]
  constructor
  · intro read
    unfold canonicalU64 at read
    split at read
    · cases read
    · rename_i kept
      simp only at read
      split at read
      · rename_i small
        obtain rfl := some.inj read
        rw [UInt64.toNat_ofNat_of_lt' small]
        exact (toDigits_ofDigitChars (canonical.mpr kept)).symm
      · cases read
  · rintro rfl
    rw [canonicalU64, if_neg (canonical.mp (canonical_toDigits _))]
    simp only [Nat.ofDigitChars_ten_toDigits]
    rw [if_pos value.toNat_lt, UInt64.ofNat_toNat]

variable {aspect other : AspectName} {text name : Text} {char : Char}

theorem decodeName_eq_some {encoded : Text} :
    decodeName encoded = some aspect ↔ encode aspect = encoded := by
  constructor
  · intro read
    obtain ⟨bytes, decoded, named⟩ := bind_eq_some_iff.mp read
    unfold String.fromUTF8? at named
    split at named
    · rename_i valid
      cases named
      have same := utf8_bytes (String.fromUTF8 ⟨bytes.toArray⟩ valid)
      have bytes_eq := congrArg (fun array : ByteArray => array.data.toList) same
      rw [encode, ← encodeBytes_of_decode decoded]
      exact congrArg _ bytes_eq
    · cases named
  · rintro rfl
    have valid : String.fromUTF8? aspect.toByteArray = some aspect := by
      unfold String.fromUTF8?
      rw [dif_pos aspect.isValidUTF8]
      rfl
    rw [decodeName, encode, decode_encodeBytes, bind_some, utf8_bytes, valid]

theorem isStemChar_encode (aspect : AspectName) : ∀ char ∈ encode aspect, isStemChar char := by
  have codes : ∀ byte < 256, (encodeByte (UInt8.ofNat byte)).all isStemChar = true := by
    decide +kernel
  intro char member
  obtain ⟨byte, -, member⟩ := List.mem_flatMap.mp member
  have own := codes byte.toNat byte.toNat_lt
  rw [UInt8.ofNat_toNat] at own
  exact List.all_eq_true.mp own char member

theorem not_mem_of_isStemChar (stem_chars : ∀ char ∈ text, isStemChar char)
    (other : isStemChar char = false) : char ∉ text := by
  intro member
  rw [stem_chars char member] at other
  cases other

theorem isHashDigit_hex16 (word : UInt64) :
    (hex16 word).length = 16 ∧ ∀ char ∈ hex16 word, isHashDigit char := by
  have digits (number : Nat) : ∀ char ∈ Nat.toDigits 16 number, isHashDigit char := by
    have single : ∀ digit < 16, isHashDigit (Nat.digitChar digit) := by decide
    induction number using Nat.strong_induction_on with
    | _ number ih =>
        intro char member
        rw [Nat.toDigits_eq_if (by decide)] at member
        split at member
        · rename_i small
          rw [List.mem_singleton.mp member]
          exact single number small
        · rcases List.mem_append.mp member with member | member
          · exact ih (number / 16) (by omega) char member
          · rw [List.mem_singleton.mp member]
            exact single _ (Nat.mod_lt _ (by decide))
  have short : (Nat.toDigits 16 word.toNat).length ≤ 16 :=
    (Nat.length_toDigits_le_iff (by decide) (by decide)).mpr word.toNat_lt
  constructor
  · simp only [hex16, List.length_append, List.length_replicate]
    omega
  · intro char member
    rcases List.mem_append.mp member with member | member
    · rw [List.eq_of_mem_replicate member]
      decide
    · exact digits word.toNat char member

/-- A name which is short enough to be its own stem. -/
def Unhashed (aspect : AspectName) : Prop := (encode aspect).length ≤ maxPlainStemBytes

theorem stem_of_unhashed (short : Unhashed aspect) : (stem aspect).toList = encode aspect := by
  rw [stem]
  simp only
  rw [if_pos (show (encode aspect).length ≤ maxPlainStemBytes from short), String.toList_ofList]

theorem stem_of_hashed (long : ¬Unhashed aspect) :
    ∃ cut hash, 158 ≤ cut ∧ cut ≤ hashedPrefixBytes ∧ hash.length = 16 ∧
      (∀ char ∈ hash, isHashDigit char) ∧
        (stem aspect).toList = (encode aspect).take cut ++ (['~', 'h'] ++ hash) := by
  rw [stem]
  simp only
  rw [if_neg (show ¬(encode aspect).length ≤ maxPlainStemBytes from long), String.toList_ofList]
  obtain ⟨length, digits⟩ :=
    isHashDigit_hex16 (Fnv1a.feed Fnv1a.new (aspect.toList.flatMap String.utf8EncodeChar))
  refine ⟨_, _, ?_, ?_, length, digits, List.append_assoc ..⟩
  · unfold hashedPrefixBytes
    split_ifs <;> omega
  · unfold hashedPrefixBytes
    split_ifs <;> omega

theorem encode_ne_nil (named : aspect ≠ "") : encode aspect ≠ [] := by
  intro empty
  have same : encode aspect = encode "" := empty
  have read := decodeName_eq_some.mpr same
  rw [decodeName_eq_some.mpr (rfl : encode "" = encode "")] at read
  exact named (some.inj read).symm

theorem canonicalStem_stem (named : aspect ≠ "") : canonicalStem (stem aspect).toList = true := by
  have escaped := isStemChar_encode aspect
  by_cases short : Unhashed aspect
  · have whole : splitOnce ['~', 'h'] (encode aspect) = none :=
      splitOnce_eq_none (not_mem_of_isStemChar escaped (by decide)) _
    rw [canonicalStem, stem_of_unhashed short, whole]
    exact decide_eq_true ⟨encode_ne_nil named, short, by rw [decodeName_eq_some.mpr rfl]; rfl⟩
  · obtain ⟨cut, hash, above, below, length, digits, shape⟩ := stem_of_hashed short
    have front : ∀ char ∈ (encode aspect).take cut, isStemChar char :=
      fun char member => escaped char (List.mem_of_mem_take member)
    rw [canonicalStem, shape,
      splitOnce_append (not_mem_of_isStemChar front (by decide)) ['h'] hash]
    have kept : ((encode aspect).take cut).length = cut := by
      unfold Unhashed maxPlainStemBytes at short
      unfold hashedPrefixBytes at below
      rw [List.length_take]
      omega
    refine decide_eq_true ⟨?_, kept.le.trans below, List.all_eq_true.mpr front, length,
      List.all_eq_true.mpr digits⟩
    intro empty
    rw [empty] at kept
    simp only [List.length_nil] at kept
    omega

theorem not_mem_toDigits (other : char.isDigit = false) (number : Nat) :
    char ∉ Nat.toDigits 10 number := by
  intro member
  rw [Nat.isDigit_of_mem_toDigits (by decide) (by decide) member] at other
  cases other

/-- The file name with a stem, a generation and an adoption order. -/
def withStem (text : Text) (gen prec : UInt64) : Text :=
  text ++ (['~', 'g'] ++ Nat.toDigits 10 gen.toNat) ++
    (['~', 'p'] ++ Nat.toDigits 10 prec.toNat) ++ extension

theorem parse_withStem (canonical : canonicalStem text = true) (gen prec : UInt64) :
    parse (withStem text gen prec) =
      some (.writeOnce (String.ofList text) gen.toNat prec.toNat) := by
  have no_tilde (number : Nat) : '~' ∉ Nat.toDigits 10 number :=
    not_mem_toDigits (by decide) number
  have order := rsplitOnce_append ['p'] (by decide)
    (text ++ (['~', 'g'] ++ Nat.toDigits 10 gen.toNat)) (no_tilde prec.toNat)
  have generation := rsplitOnce_append ['g'] (by decide) text (no_tilde gen.toNat)
  rw [parse, withStem, stripSuffix_append]
  simp only [bind_eq_bind, bind_some, order, generation,
    canonicalU64_eq_some.mpr rfl, canonical, if_true]

theorem parse_frameName (named : aspect ≠ "") (gen prec : UInt64) :
    parse (frameName aspect gen prec) =
      some (.writeOnce (stem aspect) gen.toNat prec.toNat) :=
  (parse_withStem (canonicalStem_stem named) gen prec).trans (by rw [String.ofList_toList])

theorem eq_of_parse {parsed : FrameName} (read : parse name = some parsed) :
    ∃ text gen prec, canonicalStem text = true ∧
      parsed = .writeOnce (String.ofList text) gen.toNat prec.toNat ∧
        name = withStem text gen prec := by
  simp only [parse, bind_eq_bind, bind_eq_some_iff] at read
  obtain ⟨body, stripped, ⟨rest, order⟩, last, ⟨text, generation⟩, before, gen, gen_read, prec,
    prec_read, read⟩ := read
  split at read
  · rename_i stem_read
    refine ⟨text, gen, prec, stem_read, (some.inj read).symm, ?_⟩
    rw [withStem, ← canonicalU64_eq_some.mp gen_read, ← canonicalU64_eq_some.mp prec_read,
      ← eq_of_rsplitOnce before, ← eq_of_rsplitOnce last]
    exact eq_of_stripSuffix stripped
  · cases read

/-- A prefix and a hash which the parser takes for a hashed stem. -/
structure HashedStem (front hash : Text) : Prop where
  nonempty : front ≠ []
  short : front.length ≤ hashedPrefixBytes
  escaped : ∀ char ∈ front, isStemChar char
  length : hash.length = 16
  digits : ∀ char ∈ hash, isHashDigit char

theorem HashedStem.canonicalStem {front hash : Text} (hashed : HashedStem front hash) :
    canonicalStem (front ++ (['~', 'h'] ++ hash)) = true := by
  rw [FrameText.canonicalStem,
    splitOnce_append (not_mem_of_isStemChar hashed.escaped (by decide)) ['h'] hash]
  exact decide_eq_true ⟨hashed.nonempty, hashed.short, List.all_eq_true.mpr hashed.escaped,
    hashed.length, List.all_eq_true.mpr hashed.digits⟩

theorem stem_of_canonicalStem (canonical : canonicalStem text = true) :
    (∃ aspect, aspect ≠ "" ∧ Unhashed aspect ∧ text = (stem aspect).toList) ∨
      ∃ front hash, text = front ++ (['~', 'h'] ++ hash) ∧ HashedStem front hash := by
  unfold canonicalStem at canonical
  split at canonical
  · left
    obtain ⟨held, short, named⟩ := of_decide_eq_true canonical
    obtain ⟨aspect, named⟩ := isSome_iff_exists.mp named
    obtain rfl := decodeName_eq_some.mp named
    refine ⟨aspect, ?_, short, (stem_of_unhashed short).symm⟩
    rintro rfl
    exact held rfl
  · right
    rename_i front hash cut
    obtain ⟨nonempty, short, escaped, length, digits⟩ := of_decide_eq_true canonical
    exact ⟨front, hash, eq_of_splitOnce cut, nonempty, short, List.all_eq_true.mp escaped, length,
      List.all_eq_true.mp digits⟩

/-- A name with a hashed stem which is the stem of no aspect. -/
def Forged (name : Text) : Prop :=
  ∃ front hash gen prec, HashedStem front hash ∧
    name = withStem (front ++ (['~', 'h'] ++ hash)) gen prec ∧
      ∀ aspect, (stem aspect).toList ≠ front ++ (['~', 'h'] ++ hash)

theorem parse_isSome_iff (genuine : ¬Forged name) :
    (parse name).isSome ↔ ∃ aspect gen prec, aspect ≠ "" ∧ name = frameName aspect gen prec := by
  constructor
  · intro read
    obtain ⟨parsed, read⟩ := isSome_iff_exists.mp read
    obtain ⟨text, gen, prec, canonical, -, rfl⟩ := eq_of_parse read
    rcases stem_of_canonicalStem canonical with ⟨aspect, named, -, rfl⟩ | ⟨front, hash, rfl, hashed⟩
    · exact ⟨aspect, gen, prec, named, rfl⟩
    · by_contra unwritten
      refine genuine ⟨front, hash, gen, prec, hashed, rfl, fun aspect same => ?_⟩
      refine unwritten ⟨aspect, gen, prec, ?_, by rw [frameName, same, withStem]⟩
      rintro rfl
      exact List.append_ne_nil_of_left_ne_nil hashed.nonempty _ same.symm
  · rintro ⟨aspect, gen, prec, named, rfl⟩
    rw [parse_frameName named]
    rfl

theorem parse_of_forged (forged : Forged name) :
    (parse name).isSome ∧
      ¬∃ aspect gen prec, aspect ≠ "" ∧ name = frameName aspect gen prec := by
  obtain ⟨front, hash, gen, prec, hashed, rfl, unwritten⟩ := forged
  have read := parse_withStem hashed.canonicalStem gen prec
  refine ⟨by rw [read]; rfl, ?_⟩
  rintro ⟨aspect, otherGen, otherPrec, named, written⟩
  rw [written, parse_frameName named] at read
  have same := (FrameName.writeOnce.inj (some.inj read)).1
  exact unwritten aspect (by rw [same, String.toList_ofList])

/-- The characters which a frame name is made of. -/
def isNameChar (char : Char) : Bool :=
  isStemChar char || decide (char ∈ ['~', 'g', 'h', 'p', '.', 'w', 't', 's'])

theorem isNameChar_stem (aspect : AspectName) : ∀ char ∈ (stem aspect).toList, isNameChar char := by
  have escaped := isStemChar_encode aspect
  by_cases short : Unhashed aspect
  · rw [stem_of_unhashed short]
    intro char member
    rw [isNameChar, escaped char member, Bool.true_or]
  · obtain ⟨cut, hash, -, -, -, digits, shape⟩ := stem_of_hashed short
    rw [shape]
    intro char member
    rcases List.mem_append.mp member with front | member
    · rw [isNameChar, escaped char (List.mem_of_mem_take front), Bool.true_or]
    rcases List.mem_append.mp member with marker | member
    · exact List.all_eq_true.mp (show ['~', 'h'].all isNameChar by decide) char marker
    · have digit := of_decide_eq_true (digits char member)
      have stem_char : isStemChar char = true := by
        refine decide_eq_true ?_
        rcases digit with decimal | letter
        · exact .inr (.inl decimal)
        · exact .inl ⟨letter.1, Char.le_trans letter.2 (by decide)⟩
      rw [isNameChar, stem_char, Bool.true_or]

theorem isNameChar_frameName (aspect : AspectName) (gen prec : UInt64) :
    ∀ char ∈ frameName aspect gen prec, isNameChar char := by
  have digits (number : Nat) : ∀ char ∈ Nat.toDigits 10 number, isNameChar char := by
    intro char member
    have decimal := Nat.isDigit_of_mem_toDigits (by decide) (by decide) member
    simp only [Char.isDigit, Bool.and_eq_true, decide_eq_true_eq] at decimal
    rw [isNameChar, isStemChar, decide_eq_true (.inr (.inl decimal)), Bool.true_or]
  have marker : ∀ char ∈ ['~', 'g'] ++ ['~', 'p'] ++ extension, isNameChar char :=
    List.all_eq_true.mp (by decide)
  intro char member
  rcases List.mem_append.mp member with member | member
  · rcases List.mem_append.mp member with member | member
    · rcases List.mem_append.mp member with member | member
      · exact isNameChar_stem aspect char member
      rcases List.mem_append.mp member with member | member
      · exact marker char (List.mem_append_left _ (List.mem_append_left _ member))
      · exact digits _ char member
    · rcases List.mem_append.mp member with member | member
      · exact marker char (List.mem_append_left _ (List.mem_append_right _ member))
      · exact digits _ char member
  · exact marker char (List.mem_append_right _ member)

theorem not_mem_frameName (other : isNameChar char = false) (aspect : AspectName)
    (gen prec : UInt64) : char ∉ frameName aspect gen prec := by
  intro member
  rw [isNameChar_frameName aspect gen prec char member] at other
  cases other

theorem length_stem_le (aspect : AspectName) : (stem aspect).toList.length ≤ maxPlainStemBytes := by
  by_cases short : Unhashed aspect
  · rw [stem_of_unhashed short]
    exact short
  · obtain ⟨cut, hash, -, below, length, -, shape⟩ := stem_of_hashed short
    simp only [shape, List.length_append, List.length_take, length, List.length_cons,
      List.length_nil, maxPlainStemBytes]
    unfold hashedPrefixBytes at below
    omega

theorem length_frameName_le (aspect : AspectName) (gen prec : UInt64) :
    (frameName aspect gen prec).length ≤ 255 := by
  have number (value : UInt64) : (Nat.toDigits 10 value.toNat).length ≤ 20 :=
    (Nat.length_toDigits_le_iff (by decide) (by decide)).mpr
      (value.toNat_lt.trans (by decide))
  have front := length_stem_le aspect
  have generation := number gen
  have order := number prec
  simp only [frameName, extension, List.length_append, List.length_cons, List.length_nil]
  unfold maxPlainStemBytes at front
  omega

theorem utf8ByteSize_of_isNameChar (name_chars : ∀ char ∈ text, isNameChar char) :
    (String.ofList text).utf8ByteSize = text.length := by
  induction text with
  | nil => rfl
  | cons char text ih =>
      obtain ⟨own, others⟩ := List.forall_mem_cons.mp name_chars
      have ascii : char.val ≤ 127 := by
        have below (bound : Char) (small : bound.val ≤ 127) (under : char ≤ bound) :
            char.val ≤ 127 := UInt32.le_trans under small
        have markers : ∀ char ∈ ['~', 'g', 'h', 'p', '.', 'w', 't', 's'], char.val ≤ 127 :=
          List.forall_iff_forall_mem.mp (by decide)
        simp only [isNameChar, isStemChar, Bool.or_eq_true, decide_eq_true_eq] at own
        rcases own with (small | digit | rfl | rfl | capital) | marker
        · exact below 'z' (by decide) small.2
        · exact below '9' (by decide) digit.2
        · decide
        · decide
        · exact below 'F' (by decide) capital.2
        · exact markers char marker
      rw [String.ofList_cons, String.utf8ByteSize_append, ih others, String.utf8ByteSize_singleton,
        Char.utf8Size_eq_one_iff.mpr ascii, List.length_cons, Nat.add_comm]

theorem legacyFileId_frameName (aspect : AspectName) (gen prec : UInt64) :
    legacyFileId (frameName aspect gen prec) = none := by
  have no_hyphen := not_mem_frameName (by decide : isNameChar '-' = false) aspect gen prec
  unfold legacyFileId
  cases stripped : (stripSuffix extension (frameName aspect gen prec)).or
      (stripSuffix sidecarExtension (frameName aspect gen prec)) with
  | none => rfl
  | some body =>
      have absent : '-' ∉ body := by
        intro member
        rcases or_eq_some_iff.mp stripped with front | ⟨-, front⟩
        · exact no_hyphen (eq_of_stripSuffix front ▸ List.mem_append_left _ member)
        · exact no_hyphen (eq_of_stripSuffix front ▸ List.mem_append_left _ member)
      simp only [bind_eq_bind, bind_some, rsplitOnce_eq_none absent,
        bind_none]

def fold (text : Text) : Text := text.map Char.toLower

/-- Read one folded byte. -/
def readFolded : Text → Option (UInt8 × Text)
  | '%' :: high :: low :: later =>
      match (hexDigits.map Char.toLower).idxOf? high, (hexDigits.map Char.toLower).idxOf? low with
      | some upper, some lower => some (UInt8.ofNat (16 * upper + lower), later)
      | _, _ => none
  | char :: later => some (UInt8.ofNat char.toNat, later)
  | [] => none

theorem readFolded_fold (byte : UInt8) (later : Text) :
    readFolded (fold (encodeByte byte) ++ later) = some (byte, later) := by
  have digit : ∀ value < 16, (hexDigits.map Char.toLower).idxOf?
      (Char.toLower (hexDigits.getD value '0')) = some value := by decide
  unfold encodeByte
  split
  · rename_i literal
    have same : ∀ value < 256, isLiteral (UInt8.ofNat value) = true →
        (Char.ofNat value).toLower = Char.ofNat value := by decide +kernel
    have own := same byte.toNat byte.toNat_lt (by rwa [UInt8.ofNat_toNat])
    obtain ⟨-, percent, -⟩ := isLiteral_bounds literal
    have back := toNat_ofNat_byte byte
    rw [fold, List.map_singleton, own, List.singleton_append, readFolded, back, UInt8.ofNat_toNat]
    intro _ _ _ same _
    rw [same] at back
    exact percent back.symm
  · have small := byte.toNat_lt_size
    simp only [UInt8.size] at small
    have whole : 16 * (byte.toNat / 16) + byte.toNat % 16 = byte.toNat := by omega
    have high := digit (byte.toNat / 16) (by omega)
    have low := digit (byte.toNat % 16) (by omega)
    simp only [fold, List.map_cons, List.map_nil, List.cons_append, List.nil_append,
      show Char.toLower '%' = '%' by decide]
    rw [readFolded, high, low]
    simp only [whole, UInt8.ofNat_toNat]

theorem fold_encode_injective (same : fold (encode aspect) = fold (encode other)) :
    aspect = other := by
  have nonempty (byte : UInt8) : fold (encodeByte byte) ≠ [] := by
    unfold encodeByte
    split <;> exact List.cons_ne_nil _ _
  rw [encode, encode, fold, fold, List.map_flatMap, List.map_flatMap] at same
  have bytes := flatMap_injective_of_read readFolded_fold nonempty same
  have encoded : encode aspect = encode other := congrArg (List.flatMap encodeByte) bytes
  have read := decodeName_eq_some.mpr encoded
  rw [decodeName_eq_some.mpr rfl] at read
  exact (some.inj read).symm

theorem fold_toDigits (number : Nat) : fold (Nat.toDigits 10 number) = Nat.toDigits 10 number := by
  have lower : ∀ digit < 10, (Nat.digitChar digit).toLower = Nat.digitChar digit := by decide
  refine (List.map_congr_left fun char member => ?_).trans (List.map_id _)
  have decimal := Nat.isDigit_of_mem_toDigits (by decide) (by decide) member
  obtain ⟨small, same⟩ := digitChar_ofDigit decimal
  rw [← same]
  exact lower _ small

theorem fold_frameName_injective {gen prec otherGen otherPrec : UInt64} (short : Unhashed aspect)
    (other_short : Unhashed other)
    (same : fold (frameName aspect gen prec) = fold (frameName other otherGen otherPrec)) :
    aspect = other ∧ gen = otherGen ∧ prec = otherPrec := by
  have no_tilde (name : AspectName) : '~' ∉ fold (encode name) := by
    have codes : ∀ byte < 256, '~' ∉ fold (encodeByte (UInt8.ofNat byte)) := by decide +kernel
    rw [encode, fold, List.map_flatMap]
    intro member
    obtain ⟨byte, -, member⟩ := List.mem_flatMap.mp member
    have own := codes byte.toNat byte.toNat_lt
    rw [UInt8.ofNat_toNat] at own
    exact own member
  have digits (number : Nat) : '~' ∉ Nat.toDigits 10 number ∧ '.' ∉ Nat.toDigits 10 number :=
    ⟨not_mem_toDigits (by decide) number, not_mem_toDigits (by decide) number⟩
  have shape (name : AspectName) (gen prec : UInt64) (unhashed : Unhashed name) :
      fold (frameName name gen prec) = fold (encode name) ++ '~' ::
        (('g' :: Nat.toDigits 10 gen.toNat) ++ '~' ::
          (('p' :: Nat.toDigits 10 prec.toNat) ++ '.' :: ['w', 'e', 'f', 't', 's', 'e', 'g'])) := by
    have markers : fold ['~', 'g'] = ['~', 'g'] ∧ fold ['~', 'p'] = ['~', 'p'] ∧
        fold extension = extension := by decide
    obtain ⟨gen_marker, prec_marker, ending⟩ := markers
    have joined (left right : Text) : fold (left ++ right) = fold left ++ fold right :=
      List.map_append
    rw [frameName, stem_of_unhashed unhashed]
    simp only [joined, gen_marker, prec_marker, ending, fold_toDigits]
    simp only [extension, List.append_assoc, List.cons_append, List.nil_append]
  rw [shape aspect gen prec short, shape other otherGen otherPrec other_short] at same
  obtain ⟨encoded, rest⟩ := append_cons_inj (no_tilde aspect) (no_tilde other) same
  obtain ⟨generation, rest⟩ := append_cons_inj (by simp [digits]) (by simp [digits]) rest
  obtain ⟨order, -⟩ := append_cons_inj (by simp [digits]) (by simp [digits]) rest
  have number {value wanted : UInt64}
      (written : Nat.toDigits 10 value.toNat = Nat.toDigits 10 wanted.toNat) : value = wanted := by
    have read := congrArg (fun digits => Nat.ofDigitChars 10 digits 0) written
    simp only [Nat.ofDigitChars_ten_toDigits] at read
    exact UInt64.toNat_inj.mp read
  exact ⟨fold_encode_injective encoded, number (List.cons.inj generation).2,
    number (List.cons.inj order).2⟩

end WeftDb.FrameText
