import WeftDb.Codec.BitSlices

/-!
# Round trips and random access

Every codec gives back what it encoded, in as many bytes as it estimates.  On any buffer whatever, a
range is that stretch of the whole decode, and a gather reads each place as the whole decode has it.
-/

namespace WeftDb.Codec

open BitStream BlockWalk

theorem blockedBitpack_round_trip (values : List I64) (block : Nat) :
    blockedBitpackDecode (blockedBitpackEncode values block) block values.length = values ∧
      (blockedBitpackEncode values block).length = blockedBitpackBytes values block := by
  refine ⟨decode_encode blockedBitpack_reads block values, ?_⟩
  rw [blockedBitpackEncode, length_encode, blockedBitpackBytes, chunks_sum_nil]
  simp only [length_blockedBitpackBlock]

theorem forBitpack_round_trip (values : List I64) (block : Nat) :
    forBitpackDecode (forBitpackEncode values block) block values.length = values ∧
      (forBitpackEncode values block).length = forBitpackBytes values block := by
  refine ⟨decode_encode for_reads block values, ?_⟩
  rw [forBitpackEncode, length_encode, forBitpackBytes, chunks_sum_nil]
  simp only [length_forBlock]

theorem transposeBitpack_round_trip (values : List I64) (tile : Nat) :
    transposeBitpackDecode (transposeBitpackEncode values tile) tile values.length = values ∧
      (transposeBitpackEncode values tile).length = transposeBitpackBytes values tile := by
  refine ⟨decode_encode transpose_reads tile values, ?_⟩
  rw [transposeBitpackEncode, length_encode, transposeBitpackBytes, chunks_sum_nil]
  simp only [length_transposeTile]

variable (bytes : List U8) (block count start len : Nat)
variable {lanes : List Nat}

theorem length_bitpackDecode (width : Nat) (data : List U8) (n : Nat) :
    (bitpackDecode width data n).length = n := by
  rw [bitpackDecode_eq, List.length_map, List.length_range]

theorem length_transposeTileDecode (width : Nat) (planes : List U8) (n : Nat) :
    (transposeTileDecode width planes n).length = n := by
  rw [transposeTileDecode_eq, List.length_map, List.length_range]

theorem map_range_slice {Value : Type} (lane : Nat → Value) {n lo hi : Nat} (ordered : lo ≤ hi)
    (inside : hi ≤ n) :
    (List.range' lo (hi - lo)).map lane = (((List.range n).map lane).take hi).drop lo := by
  rw [← List.map_take, ← List.map_drop]
  congr 1
  refine List.ext_getElem ?_ fun index _ _ => ?_
  · rw [List.length_range', List.length_drop, List.length_take, List.length_range]
    omega
  · rw [List.getElem_range', List.getElem_drop, List.getElem_take, List.getElem_range, one_mul]

theorem blockedBitpackDecodeRange_eq :
    blockedBitpackDecodeRange bytes block count start len =
      ((blockedBitpackDecode bytes block count).drop start).take len :=
  decodeRange_eq length_bitpackDecode (fun _ _ _ _ _ _ _ => rfl) start len

theorem transposeBitpackDecodeRange_eq :
    transposeBitpackDecodeRange bytes block count start len =
      ((transposeBitpackDecode bytes block count).drop start).take len := by
  refine decodeRange_eq length_transposeTileDecode (fun width data n lo hi ordered inside => ?_)
    start len
  rw [transposeSpan]
  split
  · rw [transposeTileDecode_eq, map_range_slice _ ordered inside]
  · rfl

theorem length_forRows (state : I64 × Nat) (data : List U8) (rows : List Nat) :
    (forRows state data rows).length = rows.length :=
  List.length_map _

theorem forBitpackDecodeRange_eq :
    forBitpackDecodeRange bytes block count start len =
      ((forBitpackDecode bytes block count).drop start).take len := by
  refine decodeRange_eq (fun state data n => ?_) (fun state data n lo hi ordered inside => ?_)
    start len
  · rw [length_forRows, List.length_range]
  · exact map_range_slice _ ordered inside

theorem dforBitpackDecodeRange_eq_decode :
    dforBitpackDecodeRange bytes block count start len =
      ((decode dforReadHeader
        (fun state data blockLen => dforRows state data (List.range blockLen)) bytes block
          count).drop start).take len := by
  refine decodeRange_eq (fun state data n => ?_) (fun state data n lo hi ordered inside => ?_)
    start len
  · rw [dforRows, List.length_map, List.length_range]
  · exact map_range_slice _ ordered inside

theorem dforBitpackDecode_eq :
    dforBitpackDecode bytes block count =
      decode dforReadHeader
        (fun state data blockLen => dforRows state data (List.range blockLen)) bytes block count := by
  rw [dforBitpackDecode, dforBitpackDecodeRange_eq_decode, List.drop_zero]
  refine List.take_of_length_le (le_of_eq ?_)
  refine length_decodeFrom (fun state data n => ?_) count 0
  rw [dforRows, List.length_map, List.length_range]

theorem dforBitpackDecodeRange_eq :
    dforBitpackDecodeRange bytes block count start len =
      ((dforBitpackDecode bytes block count).drop start).take len := by
  rw [dforBitpackDecodeRange_eq_decode, dforBitpackDecode_eq]

theorem dforBitpack_round_trip (values : List I64) (block : Nat) :
    dforBitpackDecode (dforBitpackEncode values block) block values.length = values ∧
      (dforBitpackEncode values block).length = dforBitpackBytes values block := by
  constructor
  · rw [dforBitpackDecode_eq]
    exact decode_encode dfor_reads block values
  · rw [dforBitpackEncode, length_encode, dforBitpackBytes]
    simp only [length_dforEncodeBlock]

/-- Each codec decodes the list it encoded, whose encoding is as long as estimated. -/
theorem block_codecs_round_trip (values : List I64) (block : Nat) :
    (blockedBitpackDecode (blockedBitpackEncode values block) block values.length = values ∧
      (blockedBitpackEncode values block).length = blockedBitpackBytes values block) ∧
    (forBitpackDecode (forBitpackEncode values block) block values.length = values ∧
      (forBitpackEncode values block).length = forBitpackBytes values block) ∧
    (dforBitpackDecode (dforBitpackEncode values block) block values.length = values ∧
      (dforBitpackEncode values block).length = dforBitpackBytes values block) ∧
    (transposeBitpackDecode (transposeBitpackEncode values block) block values.length = values ∧
      (transposeBitpackEncode values block).length = transposeBitpackBytes values block) :=
  ⟨blockedBitpack_round_trip values block, forBitpack_round_trip values block,
    dforBitpack_round_trip values block, transposeBitpack_round_trip values block⟩

theorem map_some_getD {decoded : List I64} (inside : ∀ lane ∈ lanes, lane < decoded.length) :
    (lanes.map fun lane => decoded.getD lane 0).map some = lanes.map fun lane => decoded[lane]? := by
  rw [List.map_map]
  refine List.map_congr_left fun lane member => ?_
  rw [Function.comp_apply, List.getD_eq_getElem _ _ (inside lane member),
    List.getElem?_eq_getElem (inside lane member)]

theorem map_some_of_range {lane : Nat → I64} {n : Nat} (inside : ∀ lane ∈ lanes, lane < n) :
    (lanes.map lane).map some = lanes.map fun index => ((List.range n).map lane)[index]? := by
  rw [List.map_map]
  refine List.map_congr_left fun index member => ?_
  rw [Function.comp_apply, List.getElem?_map, List.getElem?_range (inside index member),
    Option.map_some]

theorem blockedBitpackDecodeGather_eq (indices : List Nat) :
    blockedBitpackDecodeGather bytes block count indices =
      indices.map fun index => (blockedBitpackDecode bytes block count)[index]? := by
  refine gatherWalk_eq length_bitpackDecode (fun width data n lanes inside => ?_) indices
  rw [blockedBitpackLanes]
  split
  · exact map_some_getD fun lane member => by
      rw [length_bitpackDecode]
      exact inside lane member
  · rw [bitpackDecode_eq]
    exact map_some_of_range inside

theorem forBitpackDecodeGather_eq (indices : List Nat) :
    forBitpackDecodeGather bytes block count indices =
      indices.map fun index => (forBitpackDecode bytes block count)[index]? := by
  refine gatherWalk_eq (fun state data n => ?_) (fun state data n lanes inside => ?_) indices
  · rw [length_forRows, List.length_range]
  · exact map_some_of_range inside

theorem transposeBitpackDecodeGather_eq (indices : List Nat) :
    transposeBitpackDecodeGather bytes block count indices =
      indices.map fun index => (transposeBitpackDecode bytes block count)[index]? := by
  refine gatherWalk_eq length_transposeTileDecode (fun width data n lanes inside => ?_) indices
  rw [transposeLanes]
  split
  · exact map_some_getD fun lane member => by
      rw [length_transposeTileDecode]
      exact inside lane member
  · rw [transposeTileDecode_eq]
    exact map_some_of_range inside

/-- On every buffer, each range decode is a slice of the full decode and each gather reads its
elements. -/
theorem random_access_of_full_decode (bytes : List U8) (block count start len : Nat)
    (indices : List Nat) :
    (blockedBitpackDecodeRange bytes block count start len =
        ((blockedBitpackDecode bytes block count).drop start).take len ∧
      blockedBitpackDecodeGather bytes block count indices =
        indices.map fun index => (blockedBitpackDecode bytes block count)[index]?) ∧
    (forBitpackDecodeRange bytes block count start len =
        ((forBitpackDecode bytes block count).drop start).take len ∧
      forBitpackDecodeGather bytes block count indices =
        indices.map fun index => (forBitpackDecode bytes block count)[index]?) ∧
    dforBitpackDecodeRange bytes block count start len =
      ((dforBitpackDecode bytes block count).drop start).take len ∧
    (transposeBitpackDecodeRange bytes block count start len =
        ((transposeBitpackDecode bytes block count).drop start).take len ∧
      transposeBitpackDecodeGather bytes block count indices =
        indices.map fun index => (transposeBitpackDecode bytes block count)[index]?) :=
  ⟨⟨blockedBitpackDecodeRange_eq bytes block count start len,
      blockedBitpackDecodeGather_eq bytes block count indices⟩,
    ⟨forBitpackDecodeRange_eq bytes block count start len,
      forBitpackDecodeGather_eq bytes block count indices⟩,
    dforBitpackDecodeRange_eq bytes block count start len,
    ⟨transposeBitpackDecodeRange_eq bytes block count start len,
      transposeBitpackDecodeGather_eq bytes block count indices⟩⟩

end WeftDb.Codec
