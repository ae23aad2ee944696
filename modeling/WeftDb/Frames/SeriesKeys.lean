import WeftDb.Frames.Envelope
import WeftDb.Series.KeyReading

/-!
# The series key of a frame

The frame of a tagged series is put into an envelope which carries the series key as its one
extension.  Recovery describes the frame, and binds its rows to the key it finds there.
-/

namespace WeftDb.Frames

open Codec
open Tags (Bytes TagError fromCanonical fromCanonical_eq_ok)

/-- The extension which carries a series key. -/
def seriesKeyExtension (key : Bytes) : FrameExtension :=
  ⟨extSeriesKey, true, key.map UInt8.toBitVec⟩

/-- Put the frame of a tagged series into the envelope which names the series. -/
def tagFrame (bytes : List U8) : Option Bytes → Except WeftSegError (List U8)
  | some key => if key ≠ [] then wrapFrameEnvelope bytes [seriesKeyExtension key] else .ok bytes
  | none => .ok bytes

/-- The series key which a frame carries, or why its rows cannot be bound to one. -/
def frameSeriesKey (display : TagError → String) (info : FrameInfo) : Except String Bytes :=
  match info.extensions.filter fun extension => extension.id = extSeriesKey with
  | [] => .ok []
  | [first] =>
      if first.payload = [] then
        .error "the SERIES_KEY extension is empty, but an untagged frame carries no envelope"
      else
        match fromCanonical (first.payload.map UInt8.ofBitVec) with
        | .ok key => .ok key
        | .error error =>
            .error ("the SERIES_KEY payload is not a canonical series key: " ++ display error)
  | _ => .error "the frame carries more than one SERIES_KEY extension"

variable {bytes : List U8} {key : Bytes} {info : FrameInfo} {layout : FrameLayout}

theorem tabled_seriesKey (canonical : fromCanonical key = .ok key) :
    Tabled [seriesKeyExtension key] where
  few := show 1 ≤ maxFrameExtensions by decide
  fits extension member := by
    obtain ⟨-, pairs, inside, rfl⟩ := fromCanonical_eq_ok.mp canonical
    have short := inside.short
    unfold Tags.maxSeriesKeyBytes at short
    rw [List.mem_singleton.mp member, seriesKeyExtension, List.length_map]
    omega

theorem frameSeriesKey_of_extension (display : TagError → String) (tagged : key ≠ [])
    (canonical : fromCanonical key = .ok key) (own : info.extensions = [seriesKeyExtension key]) :
    frameSeriesKey display info = .ok key := by
  have back : (key.map UInt8.toBitVec).map UInt8.ofBitVec = key := by
    rw [List.map_map, show UInt8.ofBitVec ∘ UInt8.toBitVec = id from rfl, List.map_id]
  have filled : ¬(seriesKeyExtension key).payload = [] :=
    fun none => tagged (List.map_eq_nil_iff.mp none)
  have one : [seriesKeyExtension key].filter (fun extension => extension.id = extSeriesKey) =
      [seriesKeyExtension key] := rfl
  rw [frameSeriesKey, own, one]
  dsimp only
  rw [if_neg filled, seriesKeyExtension, back, canonical]

theorem tagFrame_enveloped {version : U16} {extensions : List FrameExtension} {inner : List U8}
    (tagged : key ≠ []) :
    tagFrame (enveloped version extensions inner) (some key) =
      .error (.unsupportedVersion frameEnvelope) := by
  rw [tagFrame, if_pos tagged, wrapFrameEnvelope, frameVersion_enveloped]
  simp only [bind, Except.bind]
  rw [if_pos (by decide)]
  rfl

/-- Whatever key the frame of a series is tagged with, recovery finds this key in it and reads the
frame as it was.  The empty key leaves the frame as it is, and a frame is tagged once. -/
theorem tagged_frame_is_bound (display : TagError → String)
    (described : describeFrame bytes = .ok info) (plain : info.version ≠ frameEnvelope)
    (laid : info.layout = some layout) (canonical : fromCanonical key = .ok key) :
    ∃ tagged again, tagFrame bytes (some key) = .ok tagged ∧ describeFrame tagged = .ok again ∧
      again.decodable = true ∧ frameSeriesKey display again = .ok key ∧
      readFrameBody tagged = .ok (bytes, layout) ∧ (key = [] → tagged = bytes) ∧
      (key ≠ [] → ∀ other, other ≠ [] →
        tagFrame tagged (some other) = .error (.unsupportedVersion frameEnvelope)) := by
  cases taken : frameParts bytes with
  | error fault =>
      rw [describeFrame, taken] at described
      cases described
  | ok parts =>
      have own := describeFrame_of_frameParts taken
      obtain rfl := Except.ok.inj (own.symm.trans described)
      obtain ⟨named, flag, -, _, -, ⟨-, same, bare, whole⟩ | ⟨envelope, -⟩⟩ := frameParts_eq_ok taken
      · by_cases untagged : key = []
        · subst untagged
          have known : parts.extensions.find? FrameExtension.refused = none := by
            rw [bare]
            rfl
          have read := (readFrameBody_of_frameParts taken flag known laid).2
          rw [body_of_frameParts taken, whole] at read
          refine ⟨bytes, _, rfl, own, ?_, ?_, read, fun _ => rfl, fun wrong => absurd rfl wrong⟩
          · rw [FrameInfo.decodable, laid, flag, bare]
            rfl
          · rw [frameSeriesKey, bare]
            rfl
        · rw [same] at laid
          have known : layoutOf parts.version ≠ none := Option.ne_none_iff_exists'.mpr ⟨_, laid⟩
          have wrapped : wrapFrameEnvelope bytes [seriesKeyExtension key] = .ok _ :=
            wrapFrameEnvelope_eq_ok.mpr ⟨parts.version, named, known, rfl⟩
          have apart := frameParts_enveloped named (tabled_seriesKey canonical)
          have read := (readFrameBody_of_frameParts apart rfl rfl laid).2
          refine ⟨_, _, (if_pos untagged).trans wrapped, describeFrame_of_frameParts apart, ?_,
            frameSeriesKey_of_extension display untagged canonical rfl, read,
            fun empty => absurd empty untagged, fun _ other filled => tagFrame_enveloped filled⟩
          rw [FrameInfo.decodable, laid]
          rfl
      · exact absurd envelope plain

/-- A single block is tagged with the key of host `a`. -/
theorem tagged_block_is_bound :
    ∃ bytes tagged again, tagFrame bytes (some [0x68, 0x1F, 0x61]) = .ok tagged ∧
      describeFrame tagged = .ok again ∧
      frameSeriesKey (fun _ => "") again = .ok [0x68, 0x1F, 0x61] := by
  have described := describeFrame_of_frameParts
    (@frameParts_withTrailer frameSingleBlock (by decide) [])
  obtain ⟨tagged, again, sealed, found, -, bound, -⟩ := tagged_frame_is_bound (fun _ => "")
    described (by decide) rfl (show fromCanonical [0x68, 0x1F, 0x61] = .ok _ by decide)
  exact ⟨_, tagged, again, sealed, found, bound⟩

end WeftDb.Frames
