import WeftDb.Frames.Checksum
import WeftDb.Segment.Frame

/-!
# Envelopes

An envelope is a frame around another frame, with a table of extensions in front.  The frame inside
is kept byte for byte.  A reader which does not know an extension passes over it, unless the writer
called it critical.  A frame which cannot be read is damaged, or it is ahead of its reader.
-/

namespace WeftDb.Frames

open BitStream Codec Reading

/-- "WEFTSEG" -/
def magic : List U8 := [0x57, 0x45, 0x46, 0x54, 0x53, 0x45, 0x47]

/-- "DSPSEG\0" -/
def legacyMagic : List U8 := [0x44, 0x53, 0x50, 0x53, 0x45, 0x47, 0x00]

def IsKnownMagic (bytes : List U8) : Prop := bytes = magic ∨ bytes = legacyMagic

instance (bytes : List U8) : Decidable (IsKnownMagic bytes) :=
  inferInstanceAs (Decidable (_ ∨ _))

def frameSingleBlock : U16 := 5
def framePaged : U16 := 6
def frameEnvelope : U16 := 7

/-- The newest version which is known. -/
def frameVersionMaxKnown : U16 := frameEnvelope

inductive FrameLayout
  | singleBlock
  | paged
  deriving DecidableEq

def layoutOf (version : U16) : Option FrameLayout :=
  if version = frameSingleBlock then some .singleBlock
  else if version = framePaged then some .paged
  else none

structure FrameExtension where
  id : U32
  /-- Whether a reader which does not know the extension must refuse the frame. -/
  critical : Bool
  payload : List U8
  deriving DecidableEq

/-- The extension which carries the series key of the rows. -/
def extSeriesKey : U32 := 1

def knownExtensions : List U32 := [extSeriesKey]

def isKnownExtension (id : U32) : Bool := knownExtensions.contains id

/-- Whether an extension must be known and is not. -/
def FrameExtension.refused (extension : FrameExtension) : Bool :=
  extension.critical && !isKnownExtension extension.id

structure FrameInfo where
  version : U16
  bodyVersion : U16
  layout : Option FrameLayout
  extensions : List FrameExtension
  unknownCritical : Bool
  deriving DecidableEq

/-- Whether a frame may be decoded. -/
def FrameInfo.decodable (info : FrameInfo) : Bool :=
  info.layout.isSome && !info.unknownCritical

/-- Why a frame cannot be read: it is damaged, or this build has no reader for it. -/
inductive FrameFault
  | integrity
  | undecodable (newerFormat : Bool)
  deriving DecidableEq

def frameFaultOf : WeftSegError → FrameFault
  | .unsupportedVersion found => .undecodable (frameVersionMaxKnown < found)
  | .codecNotEnabled _ _ | .unknownCriticalExtension _ => .undecodable false
  | _ => .integrity

/-- The version which a frame names. -/
def frameVersion (bytes : List U8) : Except WeftSegError U16 :=
  if bytes.length < magic.length + 2 then .error (.unexpectedEof (magic.length + 2) bytes.length)
  else if ¬IsKnownMagic (bytes.take magic.length) then .error .badMagic
  else .ok (fromLeBytes 16 ((bytes.drop magic.length).take 2))

/-- The layout of the frame, or of the frame inside the envelope. -/
def frameLayoutOf (bytes : List U8) : Except WeftSegError FrameLayout := do
  let version ← frameVersion bytes
  match layoutOf version with
  | some layout => return layout
  | none =>
      if version ≠ frameEnvelope then throw (.unsupportedVersion version)
      else if bytes.length < magic.length + 4 then
        throw (.unexpectedEof (magic.length + 4) bytes.length)
      else
        let bodyVersion := fromLeBytes 16 ((bytes.drop (magic.length + 2)).take 2)
        match layoutOf bodyVersion with
        | some layout => return layout
        | none => throw (.unsupportedVersion bodyVersion)

structure FrameParts where
  version : U16
  bodyVersion : U16
  extensions : List FrameExtension
  unknownCritical : Bool
  body : List U8
  deriving DecidableEq

def readExtension : ByteReader FrameExtension := do
  let id ← readUvarint
  check (id.toNat < 2 ^ 32) .varintTooLong
  let value ← readU8
  check (value = 0 ∨ value = 1) (.invalidTag "extension critical flag" value)
  let payload ← readBytes
  return ⟨id.setWidth 32, value = 1, payload⟩

/-- The version of the frame inside, and the table of extensions. -/
def readEnvelope : ByteReader (U16 × List FrameExtension) := do
  let bodyVersion ← readU16Le
  let count ← readCount
  check (count ≤ maxFrameExtensions) (.decodeLimit "extension_count" count maxFrameExtensions)
  let extensions ← readMany readExtension count
  return (bodyVersion, extensions)

def frameParts (bytes : List U8) : Except WeftSegError FrameParts := do
  let version ← frameVersion bytes
  if bytes.length < magic.length + 6 then
    throw (.unexpectedEof (magic.length + 6) bytes.length)
  else
    let framed ← checkedBody bytes
    if version ≠ frameEnvelope then return ⟨version, version, [], false, bytes⟩
    else
      let (header, body) ← readEnvelope (framed.drop (magic.length + 2))
      let found ← frameVersion body
      if found ≠ header.1 then throw (.envelopeBodyMismatch header.1 found)
      else
        return ⟨version, header.1, header.2, header.2.any FrameExtension.refused, body⟩

def writeExtension (extension : FrameExtension) : List U8 :=
  putUvarint (extension.id.setWidth 64) ++ (putU8 (if extension.critical then 1 else 0) ++
    putBytes extension.payload)

def wrapFrameEnvelope (inner : List U8) (extensions : List FrameExtension) :
    Except WeftSegError (List U8) := do
  let bodyVersion ← frameVersion inner
  if layoutOf bodyVersion = none then throw (.unsupportedVersion bodyVersion)
  else
    return withTrailer (magic ++ (putU16Le frameEnvelope ++ (putU16Le bodyVersion ++
      (putCount extensions.length ++ (extensions.flatMap writeExtension ++ inner)))))

/-- Refuse parts with a critical extension which is not known. -/
def FrameParts.checkCritical (parts : FrameParts) : Except WeftSegError Unit :=
  if parts.unknownCritical then
    match parts.extensions.find? FrameExtension.refused with
    | some extension => .error (.unknownCriticalExtension extension.id.toNat)
    | none => .ok ()
  else .ok ()

def unwrapFrameEnvelope (bytes : List U8) : Except WeftSegError (List U8) := do
  let parts ← frameParts bytes
  parts.checkCritical
  return parts.body

def describeFrame (bytes : List U8) : Except FrameFault FrameInfo :=
  match frameParts bytes with
  | .ok parts =>
      .ok ⟨parts.version, parts.bodyVersion, layoutOf parts.bodyVersion, parts.extensions,
        parts.unknownCritical⟩
  | .error error => .error (frameFaultOf error)

/-- The frame inside and its layout. -/
def readFrameBody (bytes : List U8) : Except WeftSegError (List U8 × FrameLayout) := do
  let parts ← frameParts bytes
  parts.checkCritical
  let body := if parts.version = frameEnvelope then parts.body else bytes
  match layoutOf parts.bodyVersion with
  | some layout => return (body, layout)
  | none => throw (.unsupportedVersion parts.bodyVersion)

section Envelopes

variable {bytes inner : List U8} {version : U16}
variable {layout : FrameLayout} {parts : FrameParts} {error : WeftSegError}

theorem length_putU16Le (word : U16) : (putU16Le word).length = 2 :=
  length_toLeBytes 2 word

theorem fromLeBytes_putU16Le (word : U16) : fromLeBytes 16 (putU16Le word) = word :=
  fromLeBytes_toLeBytes (show 16 = 8 * 2 from rfl) word

theorem IsKnownMagic.length {head : List U8} (known : IsKnownMagic head) : head.length = 7 := by
  rcases known with rfl | rfl <;> rfl

/-- A frame names a version behind a magic which is known. -/
theorem frameVersion_eq_ok :
    frameVersion bytes = .ok version ↔
      ∃ head rest, IsKnownMagic head ∧ bytes = head ++ (putU16Le version ++ rest) := by
  unfold frameVersion
  constructor
  · intro named
    split at named
    · cases named
    · rename_i long
      split at named
      · cases named
      · rename_i known
        have two : ((bytes.drop magic.length).take 2).length = 2 := by
          rw [List.length_take, List.length_drop]
          omega
        have word := toLeBytes_fromLeBytes
          (show 16 = 8 * ((bytes.drop magic.length).take 2).length by rw [two])
        rw [two, Except.ok.inj named] at word
        refine ⟨bytes.take magic.length, (bytes.drop magic.length).drop 2, not_not.mp known, ?_⟩
        rw [putU16Le, word, List.take_append_drop, List.take_append_drop]
  · rintro ⟨head, rest, known, rfl⟩
    have seven := known.length
    have word := length_putU16Le version
    have front : magic.length = head.length := seven.symm
    rw [if_neg (by simp only [List.length_append, word, front]; omega), front, List.take_left,
      if_neg (not_not.mpr known), List.drop_left, ← word, List.take_left, fromLeBytes_putU16Le]

theorem frameVersion_magic (version : U16) (rest : List U8) :
    frameVersion (magic ++ (putU16Le version ++ rest)) = .ok version :=
  frameVersion_eq_ok.mpr ⟨magic, rest, .inl rfl, rfl⟩

theorem reads_extension {extension : FrameExtension} (fits : extension.payload.length < 2 ^ 64) :
    Reads readExtension (writeExtension extension) extension := by
  have narrow : (extension.id.setWidth 64).toNat < 2 ^ 32 := by
    rw [BitVec.toNat_setWidth]
    omega
  have flag : (if extension.critical then (1 : U8) else 0) = 0 ∨
      (if extension.critical then (1 : U8) else 0) = 1 := by
    cases extension.critical
    · exact .inl rfl
    · exact .inr rfl
  refine (reads_uvarint _).bind ((Reads.check narrow).step ((reads_u8 _).bind
    ((Reads.check flag).step ((reads_bytes fits).last ?_))))
  have same : (⟨(extension.id.setWidth 64).setWidth 32,
      decide ((if extension.critical then (1 : U8) else 0) = 1), extension.payload⟩ :
        FrameExtension) = extension := by
    obtain ⟨id, critical, payload⟩ := extension
    congr 1
    · rw [BitVec.setWidth_setWidth_of_le _ (by decide), BitVec.setWidth_eq]
    · cases critical <;> rfl
  rw [same]
  exact .pure extension

/-- Whether extensions can be written so that they are read. -/
structure Tabled (extensions : List FrameExtension) : Prop where
  few : extensions.length ≤ maxFrameExtensions
  fits : ∀ extension ∈ extensions, extension.payload.length < 2 ^ 64

variable {extensions : List FrameExtension}

theorem reads_envelope (tabled : Tabled extensions) :
    Reads readEnvelope
      (putU16Le version ++ (putCount extensions.length ++ extensions.flatMap writeExtension))
      (version, extensions) := by
  have few := tabled.few
  unfold maxFrameExtensions at few
  exact (reads_u16 version).bind ((reads_count (by omega)).bind ((Reads.check tabled.few).step
    ((Reads.many_map fun extension member => reads_extension (tabled.fits extension member)).last
      (.pure _))))

/-- A frame inside an envelope. -/
def enveloped (version : U16) (extensions : List FrameExtension) (inner : List U8) : List U8 :=
  withTrailer (magic ++ (putU16Le frameEnvelope ++ (putU16Le version ++
    (putCount extensions.length ++ (extensions.flatMap writeExtension ++ inner)))))

theorem wrapFrameEnvelope_eq_ok :
    wrapFrameEnvelope inner extensions = .ok bytes ↔
      ∃ version, frameVersion inner = .ok version ∧ layoutOf version ≠ none ∧
        bytes = enveloped version extensions inner := by
  unfold wrapFrameEnvelope
  cases frameVersion inner with
  | error error =>
      constructor
      · intro wrong
        cases wrong
      · rintro ⟨_, wrong, _⟩
        cases wrong
  | ok version =>
      simp only [bind, Except.bind, Except.ok.injEq, exists_eq_left']
      by_cases unknown : layoutOf version = none
      · rw [if_pos unknown]
        exact iff_of_false (fun wrong => by cases wrong) fun wrong => wrong.1 unknown
      · rw [if_neg unknown]
        exact ⟨fun same => ⟨unknown, (Except.ok.inj same).symm⟩, fun same => by rw [same.2]; rfl⟩

theorem frameVersion_enveloped (version : U16) (extensions : List FrameExtension)
    (inner : List U8) : frameVersion (enveloped version extensions inner) = .ok frameEnvelope := by
  rw [enveloped, withTrailer, List.append_assoc, List.append_assoc]
  exact frameVersion_magic _ _

/-- An envelope is taken apart into what was put into it. -/
theorem frameParts_enveloped (named : frameVersion inner = .ok version)
    (tabled : Tabled extensions) :
    frameParts (enveloped version extensions inner) =
      .ok ⟨frameEnvelope, version, extensions, extensions.any FrameExtension.refused, inner⟩ := by
  have outer := frameVersion_enveloped version extensions inner
  have long : ¬(enveloped version extensions inner).length < magic.length + 6 := by
    simp only [enveloped, withTrailer, List.length_append, length_putU16Le, length_putU32Le]
    omega
  have behind : ∀ rest, (magic ++ (putU16Le frameEnvelope ++ rest)).drop (magic.length + 2) = rest :=
    fun rest => rfl
  have table := @reads_envelope version _ tabled inner
  rw [List.append_assoc, List.append_assoc] at table
  rw [frameParts, outer]
  simp only [bind, Except.bind]
  rw [if_neg long, enveloped, checkedBody_withTrailer]
  simp only [behind, table, named]
  rw [if_neg (not_not.mpr rfl), if_neg (not_not.mpr rfl)]
  rfl

/-- The layout of the frame inside is read off the header of the envelope. -/
theorem frameLayoutOf_enveloped (laid : layoutOf version = some layout) :
    frameLayoutOf (enveloped version extensions inner) = .ok layout := by
  have long : ¬(enveloped version extensions inner).length < magic.length + 4 := by
    simp only [enveloped, withTrailer, List.length_append, length_putU16Le, length_putU32Le]
    omega
  have inside : ((enveloped version extensions inner).drop (magic.length + 2)).take 2 =
      putU16Le version := rfl
  rw [frameLayoutOf, frameVersion_enveloped]
  simp only [bind, Except.bind]
  rw [show layoutOf frameEnvelope = none by decide]
  dsimp only
  rw [if_neg (not_not.mpr rfl), if_neg long, inside, fromLeBytes_putU16Le, laid]
  rfl

/-- What is refused of an envelope is its first critical extension which is not known. -/
theorem checkCritical_eq (parts : FrameParts)
    (flag : parts.unknownCritical = parts.extensions.any FrameExtension.refused) :
    parts.checkCritical = ((parts.extensions.find? FrameExtension.refused).elim (.ok ())
      fun extension => .error (.unknownCriticalExtension extension.id.toNat)) := by
  rw [FrameParts.checkCritical, flag]
  cases found : parts.extensions.find? FrameExtension.refused with
  | none =>
      split <;> rfl
  | some extension =>
      have refused := List.find?_some found
      rw [if_pos (List.any_eq_true.mpr ⟨extension, List.mem_of_find?_eq_some found, refused⟩)]
      rfl

theorem readFrameBody_of_frameParts (taken : frameParts bytes = .ok parts)
    (flag : parts.unknownCritical = parts.extensions.any FrameExtension.refused)
    (known : parts.extensions.find? FrameExtension.refused = none)
    (laid : layoutOf parts.bodyVersion = some layout) :
    unwrapFrameEnvelope bytes = .ok parts.body ∧
      readFrameBody bytes =
        .ok (if parts.version = frameEnvelope then parts.body else bytes, layout) := by
  have critical := checkCritical_eq parts flag
  rw [known] at critical
  constructor
  · rw [unwrapFrameEnvelope, taken]
    simp only [bind, Except.bind, critical]
    rfl
  · rw [readFrameBody, taken]
    simp only [bind, Except.bind, critical, laid]
    rfl

/-- An envelope around a frame is read as the frame inside, unless it has a critical extension which
is not known; the first of these is named. -/
theorem envelope_round_trip (wrapped : wrapFrameEnvelope inner extensions = .ok bytes)
    (tabled : Tabled extensions) :
    ∃ version layout, frameVersion inner = .ok version ∧ layoutOf version = some layout ∧
      frameLayoutOf bytes = .ok layout ∧
      describeFrame bytes = .ok ⟨frameEnvelope, version, some layout, extensions,
        extensions.any FrameExtension.refused⟩ ∧
      (extensions.find? FrameExtension.refused = none →
        unwrapFrameEnvelope bytes = .ok inner ∧ readFrameBody bytes = .ok (inner, layout)) ∧
      ∀ extension, extensions.find? FrameExtension.refused = some extension →
        unwrapFrameEnvelope bytes = .error (.unknownCriticalExtension extension.id.toNat) ∧
          readFrameBody bytes = .error (.unknownCriticalExtension extension.id.toNat) := by
  obtain ⟨version, named, known, rfl⟩ := wrapFrameEnvelope_eq_ok.mp wrapped
  obtain ⟨layout, laid⟩ := Option.ne_none_iff_exists'.mp known
  have parts := frameParts_enveloped named tabled
  have critical := checkCritical_eq
    ⟨frameEnvelope, version, extensions, extensions.any FrameExtension.refused, inner⟩ rfl
  refine ⟨version, layout, named, laid, frameLayoutOf_enveloped laid, ?_,
    fun none => readFrameBody_of_frameParts parts rfl none laid, fun extension found => ?_⟩
  · rw [describeFrame, parts]
    dsimp only
    rw [laid]
  · rw [found] at critical
    constructor
    · rw [unwrapFrameEnvelope, parts]
      simp only [bind, Except.bind, critical]
      rfl
    · rw [readFrameBody, parts]
      simp only [bind, Except.bind, critical, laid]
      rfl

/-- A series key, and an extension which no reader knows. -/
def newerExtensions : List FrameExtension := [⟨extSeriesKey, true, [7]⟩, ⟨9, true, []⟩]

theorem newer_envelope_is_refused :
    ∃ inner bytes : List U8, wrapFrameEnvelope inner newerExtensions = .ok bytes ∧
      readFrameBody bytes = .error (.unknownCriticalExtension 9) := by
  have named := frameVersion_magic frameSingleBlock []
  have wrapped : wrapFrameEnvelope _ newerExtensions = .ok _ :=
    wrapFrameEnvelope_eq_ok.mpr ⟨frameSingleBlock, named, by decide, rfl⟩
  obtain ⟨_, _, -, -, -, -, -, refused⟩ := envelope_round_trip wrapped ⟨by decide, by decide⟩
  exact ⟨_, _, wrapped, (refused ⟨9, true, []⟩ (by decide)).2⟩

/-- A frame which is no envelope is read as it is. -/
theorem frameParts_withTrailer (apart : version ≠ frameEnvelope) (rest : List U8) :
    frameParts (withTrailer (magic ++ (putU16Le version ++ rest))) =
      .ok ⟨version, version, [], false, withTrailer (magic ++ (putU16Le version ++ rest))⟩ := by
  have named : frameVersion (withTrailer (magic ++ (putU16Le version ++ rest))) = .ok version := by
    rw [withTrailer, List.append_assoc, List.append_assoc]
    exact frameVersion_magic _ _
  have long : ¬(withTrailer (magic ++ (putU16Le version ++ rest))).length < magic.length + 6 := by
    simp only [withTrailer, List.length_append, length_putU16Le, length_putU32Le]
    omega
  rw [frameParts, named]
  simp only [bind, Except.bind]
  rw [if_neg long, checkedBody_withTrailer]
  exact if_pos apart

/-- A frame which is taken apart matches its checksum, and is an envelope around a frame of the
version which it names, or the frame itself. -/
theorem frameParts_eq_ok (taken : frameParts bytes = .ok parts) :
    frameVersion bytes = .ok parts.version ∧
      parts.unknownCritical = parts.extensions.any FrameExtension.refused ∧
      frameVersion parts.body = .ok parts.bodyVersion ∧
      ∃ framed, checkedBody bytes = .ok framed ∧
        ((parts.version ≠ frameEnvelope ∧ parts.bodyVersion = parts.version ∧
            parts.extensions = [] ∧ parts.body = bytes) ∨
          (parts.version = frameEnvelope ∧ magic.length + 2 ≤ framed.length ∧
            readEnvelope (framed.drop (magic.length + 2)) =
              .ok ((parts.bodyVersion, parts.extensions), parts.body))) := by
  unfold frameParts at taken
  obtain ⟨version, named, taken⟩ := WeftDb.bind_eq_ok.mp taken
  split at taken
  · cases taken
  rename_i long
  obtain ⟨framed, sealed, taken⟩ := WeftDb.bind_eq_ok.mp taken
  split at taken
  · rename_i apart
    obtain rfl := Except.ok.inj taken
    exact ⟨named, rfl, named, framed, sealed, .inl ⟨apart, rfl, rfl, rfl⟩⟩
  rename_i envelope
  obtain ⟨⟨header, body⟩, table, taken⟩ := WeftDb.bind_eq_ok.mp taken
  obtain ⟨found, inside, taken⟩ := WeftDb.bind_eq_ok.mp taken
  split at taken
  · cases taken
  rename_i same
  obtain rfl := Except.ok.inj taken
  have length := congrArg List.length (checkedBody_eq_ok.mp sealed)
  rw [withTrailer, List.length_append, length_putU32Le] at length
  rw [not_not.mp same] at inside
  exact ⟨named, rfl, inside, framed, sealed, .inr ⟨not_not.mp envelope, by omega, table⟩⟩

theorem body_of_frameParts (taken : frameParts bytes = .ok parts) :
    (if parts.version = frameEnvelope then parts.body else bytes) = parts.body := by
  obtain ⟨-, -, -, _, -, ⟨apart, -, -, same⟩ | ⟨envelope, -⟩⟩ := frameParts_eq_ok taken
  · rw [if_neg apart, same]
  · exact if_pos envelope

/-- The header of an envelope names the version of the frame inside. -/
theorem drop_of_readEnvelope {header : U16 × List FrameExtension} {rest : List U8}
    (table : readEnvelope bytes = .ok (header, rest)) :
    ∃ behind, bytes = putU16Le header.1 ++ behind := by
  obtain ⟨found, middle, word, table⟩ := Reading.bind_eq_ok.mp table
  obtain ⟨_, _, -, table⟩ := Reading.bind_eq_ok.mp table
  obtain ⟨_, _, -, table⟩ := Reading.bind_eq_ok.mp table
  obtain ⟨_, _, -, table⟩ := Reading.bind_eq_ok.mp table
  obtain ⟨rfl, -⟩ := Reading.pure_eq_ok.mp table
  obtain ⟨two, behind, taken, word⟩ := Reading.bind_eq_ok.mp word
  obtain ⟨rfl, -⟩ := Reading.pure_eq_ok.mp word
  obtain ⟨rfl, length⟩ := take_eq_ok.mp taken
  have whole := toLeBytes_fromLeBytes (show 16 = 8 * two.length by rw [length])
  rw [length] at whole
  exact ⟨behind, by rw [putU16Le, whole]⟩

theorem frameLayoutOf_of_frameVersion (named : frameVersion bytes = .ok version)
    (laid : layoutOf version = some layout) : frameLayoutOf bytes = .ok layout := by
  rw [frameLayoutOf, named]
  simp only [bind, Except.bind, laid]
  rfl

/-- The layout is that of the frame inside, which the header of an envelope names. -/
theorem frameLayoutOf_of_frameParts (taken : frameParts bytes = .ok parts)
    (laid : layoutOf parts.bodyVersion = some layout) : frameLayoutOf bytes = .ok layout := by
  obtain ⟨named, -, -, framed, sealed, inside⟩ := frameParts_eq_ok taken
  rcases inside with ⟨-, same, -⟩ | ⟨envelope, long, table⟩
  · exact frameLayoutOf_of_frameVersion named (same ▸ laid)
  · obtain ⟨behind, front⟩ := drop_of_readEnvelope table
    have two := length_putU16Le parts.bodyVersion
    have dropped : bytes.drop (magic.length + 2) =
        putU16Le parts.bodyVersion ++ (behind ++ putU32Le (crc32 framed)) := by
      rw [checkedBody_eq_ok.mp sealed, withTrailer, List.drop_append_of_le_length long, front,
        List.append_assoc]
    have enough := congrArg List.length dropped
    rw [List.length_drop, List.length_append, two] at enough
    rw [frameLayoutOf, named]
    simp only [bind, Except.bind]
    rw [envelope, show layoutOf frameEnvelope = none by decide]
    dsimp only
    rw [if_neg (not_not.mpr rfl), if_neg (by omega), dropped, ← two, List.take_left,
      fromLeBytes_putU16Le, laid]
    rfl

theorem describeFrame_of_frameParts (taken : frameParts bytes = .ok parts) :
    describeFrame bytes = .ok ⟨parts.version, parts.bodyVersion, layoutOf parts.bodyVersion,
      parts.extensions, parts.unknownCritical⟩ := by
  rw [describeFrame, taken]

/-- What is refused of a frame which can be taken apart is ahead of its reader, and not damaged. -/
theorem checkCritical_eq_error (refused : parts.checkCritical = .error error) :
    parts.unknownCritical = true ∧ frameFaultOf error = .undecodable false := by
  unfold FrameParts.checkCritical at refused
  split at refused
  · rename_i critical
    refine ⟨critical, ?_⟩
    split at refused
    · cases refused
      rfl
    · cases refused
  · cases refused

theorem find?_of_checkCritical {nothing : Unit}
    (flag : parts.unknownCritical = parts.extensions.any FrameExtension.refused)
    (passed : parts.checkCritical = .ok nothing) :
    parts.extensions.find? FrameExtension.refused = none ∧ parts.unknownCritical = false := by
  rw [checkCritical_eq parts flag] at passed
  cases found : parts.extensions.find? FrameExtension.refused with
  | none =>
      refine ⟨rfl, ?_⟩
      rw [flag, List.any_eq_false]
      exact List.find?_eq_none.mp found
  | some extension =>
      rw [found] at passed
      cases passed

/-- A frame is damaged, or it is described and not read, or it is described and read. -/
theorem read_frame_cases (bytes : List U8) :
    (∃ fault, describeFrame bytes = .error (frameFaultOf fault) ∧
      readFrameBody bytes = .error fault) ∨
    (∃ info fault newer, describeFrame bytes = .ok info ∧ info.decodable = false ∧
      readFrameBody bytes = .error fault ∧ frameFaultOf fault = .undecodable newer) ∨
    ∃ info body layout, describeFrame bytes = .ok info ∧ info.decodable = true ∧
      info.layout = some layout ∧ unwrapFrameEnvelope bytes = .ok body ∧
      readFrameBody bytes = .ok (body, layout) ∧ frameLayoutOf bytes = .ok layout ∧
      frameLayoutOf body = .ok layout := by
  cases taken : frameParts bytes with
  | error fault =>
      refine .inl ⟨fault, ?_, ?_⟩
      · rw [describeFrame, taken]
      · rw [readFrameBody, taken]
        rfl
  | ok parts =>
      have described := describeFrame_of_frameParts taken
      obtain ⟨-, flag, inside, -⟩ := frameParts_eq_ok taken
      cases critical : parts.checkCritical with
      | error fault =>
          obtain ⟨unknown, ahead⟩ := checkCritical_eq_error critical
          refine .inr (.inl ⟨_, fault, false, described, ?_, ?_, ahead⟩)
          · rw [FrameInfo.decodable, unknown, Bool.not_true, Bool.and_false]
          · rw [readFrameBody, taken]
            simp only [bind, Except.bind, critical]
      | ok nothing =>
          obtain ⟨known, decodable⟩ := find?_of_checkCritical flag critical
          cases laid : layoutOf parts.bodyVersion with
          | none =>
              refine .inr (.inl ⟨_, .unsupportedVersion parts.bodyVersion,
                frameVersionMaxKnown < parts.bodyVersion, described, ?_, ?_, rfl⟩)
              · rw [FrameInfo.decodable, laid]
                rfl
              · rw [readFrameBody, taken]
                simp only [bind, Except.bind, critical, laid]
                rfl
          | some layout =>
              obtain ⟨unwrapped, read⟩ := readFrameBody_of_frameParts taken flag known laid
              rw [body_of_frameParts taken] at read
              refine .inr (.inr ⟨_, parts.body, layout, described, ?_, laid, unwrapped, read,
                frameLayoutOf_of_frameParts taken laid, frameLayoutOf_of_frameVersion inside laid⟩)
              rw [FrameInfo.decodable, laid, decodable]
              rfl

/-- The readers of a frame agree, whatever the bytes are.  What is read is what is described as
decodable, and its layout is the one which the header names; what is refused is described as
damaged, or as a frame which this build cannot decode. -/
theorem read_frame_is_described (bytes : List U8) :
    (∀ body layout, readFrameBody bytes = .ok (body, layout) ↔
      unwrapFrameEnvelope bytes = .ok body ∧ ∃ info, describeFrame bytes = .ok info ∧
        info.decodable = true ∧ info.layout = some layout) ∧
    (∀ body layout, readFrameBody bytes = .ok (body, layout) →
      frameLayoutOf bytes = .ok layout ∧ frameLayoutOf body = .ok layout) ∧
    ∀ error, readFrameBody bytes = .error error →
      describeFrame bytes = .error (frameFaultOf error) ∨ ∃ info newer,
        describeFrame bytes = .ok info ∧ info.decodable = false ∧
          frameFaultOf error = .undecodable newer := by
  rcases read_frame_cases bytes with ⟨fault, described, refused⟩ |
    ⟨info, fault, newer, described, undecodable, refused, ahead⟩ |
    ⟨info, body, layout, described, decodable, laid, unwrapped, read, outer, inner⟩
  · rw [refused, described]
    refine ⟨fun body layout => ⟨fun wrong => ?_, fun wrong => ?_⟩, fun body layout wrong => ?_,
      fun error same => .inl ?_⟩
    · cases wrong
    · obtain ⟨-, info, wrong, -⟩ := wrong
      cases wrong
    · cases wrong
    · rw [Except.error.inj same]
  · rw [refused, described]
    refine ⟨fun body layout => ⟨fun wrong => ?_, fun wrong => ?_⟩, fun body layout wrong => ?_,
      fun error same => .inr ⟨info, newer, rfl, undecodable, ?_⟩⟩
    · cases wrong
    · obtain ⟨-, other, same, decodable, -⟩ := wrong
      obtain rfl := Except.ok.inj same
      cases undecodable.symm.trans decodable
    · cases wrong
    · rw [← Except.error.inj same, ahead]
  · rw [read, unwrapped, described]
    refine ⟨fun other found => ⟨fun same => ?_, fun same => ?_⟩, fun other found same => ?_,
      fun error wrong => ?_⟩
    · obtain ⟨rfl, rfl⟩ := Prod.mk.inj (Except.ok.inj same)
      exact ⟨rfl, info, rfl, decodable, laid⟩
    · obtain ⟨own, _, same, -, there⟩ := same
      obtain rfl := Except.ok.inj same
      rw [Except.ok.inj own, Option.some.inj (laid.symm.trans there)]
    · obtain ⟨rfl, rfl⟩ := Prod.mk.inj (Except.ok.inj same)
      exact ⟨outer, inner⟩
    · cases wrong

theorem integrity_of_frameVersion (refused : frameVersion bytes = .error error) :
    frameFaultOf error = .integrity := by
  unfold frameVersion at refused
  split at refused
  · cases refused
    rfl
  · split at refused
    · cases refused
      rfl
    · cases refused

/-- A frame which does not match its checksum is damaged, whatever version it names. -/
theorem frameParts_of_mismatch {stored computed : U32}
    (mismatch : checkedBody bytes = .error (.checksumMismatch stored computed)) :
    ∃ error, frameParts bytes = .error error ∧ frameFaultOf error = .integrity := by
  unfold frameParts
  cases named : frameVersion bytes with
  | error error => exact ⟨error, rfl, integrity_of_frameVersion named⟩
  | ok version =>
      simp only [bind, Except.bind]
      split
      · exact ⟨_, rfl, rfl⟩
      · rw [mismatch]
        exact ⟨_, rfl, rfl⟩

/-- Where up to four bytes in one place of a frame are exchanged, every reader refuses it, and it is
called damaged and not newer. -/
theorem damaged_frame_is_refused {before first second after : List U8} {info : FrameInfo}
    (accepted : describeFrame (before ++ (first ++ after)) = .ok info)
    (same : first.length = second.length) (short : first.length ≤ 4) (damaged : first ≠ second) :
    describeFrame (before ++ (second ++ after)) = .error .integrity ∧
      ∃ error, unwrapFrameEnvelope (before ++ (second ++ after)) = .error error ∧
        readFrameBody (before ++ (second ++ after)) = .error error ∧
        frameFaultOf error = .integrity := by
  unfold describeFrame at accepted
  cases taken : frameParts (before ++ (first ++ after)) with
  | error error =>
      rw [taken] at accepted
      cases accepted
  | ok parts =>
      obtain ⟨-, -, -, body, sealed, -⟩ := frameParts_eq_ok taken
      obtain ⟨stored, computed, mismatch⟩ := checkedBody_damaged same short sealed damaged
      obtain ⟨error, refused, damage⟩ := frameParts_of_mismatch mismatch
      refine ⟨?_, error, ?_, ?_, damage⟩
      · rw [describeFrame, refused]
        exact congrArg Except.error damage
      · rw [unwrapFrameEnvelope, refused]
        rfl
      · rw [readFrameBody, refused]
        rfl

/-- A single block is not taken for pages. -/
theorem renamed_frame_is_refused :
    ∃ after : List U8, describeFrame (magic ++ (putU16Le framePaged ++ after)) = .error .integrity := by
  have parts := @frameParts_withTrailer frameSingleBlock (by decide) []
  rw [withTrailer, List.append_assoc, List.append_assoc] at parts
  exact ⟨_, (@damaged_frame_is_refused magic (putU16Le frameSingleBlock) (putU16Le framePaged) _ _
    (describeFrame_of_frameParts parts) rfl (by decide) (by decide)).1⟩

end Envelopes

end WeftDb.Frames
