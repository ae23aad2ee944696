import WeftDb.Codec.Words

/-!
# The block codecs

Each cuts a list of words into blocks and packs every block at its own width: bit-packing the
zigzag codes themselves, frame of reference the distances from the block's minimum, its decimal form
those of the values less a common power of ten, and the bit-sliced codec one plane for each bit.
-/

namespace WeftDb.Codec

open BitStream BlockWalk

/-- The bits which the widest of some words needs. -/
def widest (words : List U64) : Nat := (words.map bitLength).max?.getD 0

/-- A width as its header byte. -/
def widthByte (width : Nat) : U8 := if width < 256 then BitVec.ofNat 8 width else 64

/-- From this many lanes on, a gather decodes the whole block. -/
def gatherWholeTileThreshold : Nat := 10

def bitpackWidth (values : List I64) : Nat := widest (values.map zigzag)

def bitpackEncode (values : List I64) : Nat × List U8 :=
  let width := bitpackWidth values
  if width = 0 then (0, []) else (width, packFields width (values.map zigzag))

def bitpackDecodeAt (width : Nat) (bytes : List U8) (index : Nat) : I64 :=
  if width = 0 then 0 else unzigzag (readBits bytes (index * width) width)

def bitpackDecode (width : Nat) (bytes : List U8) (count : Nat) : List I64 :=
  if width = 0 then List.replicate count 0
  else (List.range count).map fun index => unzigzag (readBits bytes (index * width) width)

def blockedBitpackBytes (values : List I64) (block : Nat) : Nat :=
  if values = [] then 0
  else ((chunks block values).map fun chunk =>
    1 + divCeil (chunk.length * bitpackWidth chunk) 8).sum

def blockedBitpackBlock (chunk : List I64) : List U8 :=
  let (width, packed) := bitpackEncode chunk
  widthByte width :: packed

def blockedBitpackEncode (values : List I64) (block : Nat) : List U8 :=
  encode blockedBitpackBlock block values

/-- The width of a block. -/
def blockedHeader : NextBlock U8 Nat := fun bytes pos blockLen =>
  let width := (byteAt bytes pos).toNat
  (1, divCeil (blockLen * width) 8, width)

def blockedBitpackDecode (bytes : List U8) (block count : Nat) : List I64 :=
  decode blockedHeader bitpackDecode bytes block count

def blockedBitpackSpan (width : Nat) (data : List U8) (blockLen lo hi : Nat) : List I64 :=
  ((bitpackDecode width data blockLen).take hi).drop lo

def blockedBitpackDecodeRange (bytes : List U8) (block count start len : Nat) : List I64 :=
  decodeRange blockedHeader blockedBitpackSpan bytes block count start len

def blockedBitpackLanes (width : Nat) (data : List U8) (blockLen : Nat) (lanes : List Nat) :
    List I64 :=
  if gatherWholeTileThreshold ≤ lanes.length then
    let decoded := bitpackDecode width data blockLen
    lanes.map fun lane => decoded.getD lane 0
  else lanes.map fun lane => bitpackDecodeAt width data lane

def blockedBitpackDecodeGather (bytes : List U8) (block count : Nat) (indices : List Nat) :
    List (Option I64) :=
  gatherWalk blockedHeader blockedBitpackLanes bytes block count indices

def transposeBitpackBytes (values : List I64) (tile : Nat) : Nat :=
  if values = [] then 0
  else ((chunks tile values).map fun chunk =>
    1 + bitpackWidth chunk * divCeil chunk.length 8).sum

/-- Set the bits of one lane in the planes from one on. -/
def setPlanes (planeBytes lane : Nat) (zz : U64) (out : List U8) (planes : List Nat) : List U8 :=
  planes.foldl (fun out b =>
    if zz >>> b &&& (1 : U64) = 1 then
      out.modify (b * planeBytes + lane / 8) fun byte => byte ||| (1 : U8) <<< (lane % 8)
    else out) out

/-- Set the bits of the lanes from one on. -/
def setLanes (width planeBytes : Nat) (out : List U8) : Nat → List I64 → List U8
  | _, [] => out
  | lane, value :: values =>
      setLanes width planeBytes
        (setPlanes planeBytes lane (zigzag value) out (List.range width)) (lane + 1) values

def transposeTile (chunk : List I64) : List U8 :=
  let width := bitpackWidth chunk
  let planeBytes := divCeil chunk.length 8
  widthByte width ::
    if width = 0 then []
    else setLanes width planeBytes (List.replicate (width * planeBytes) 0) 0 chunk

def transposeBitpackEncode (values : List I64) (tile : Nat) : List U8 :=
  encode transposeTile tile values

/-- Each bit of a byte moved to a byte of its own. -/
def spread (byte : U8) : U64 :=
  (List.range 8).foldl (fun word k =>
    if byte >>> k &&& (1 : U8) = 1 then word ||| (1 : U64) <<< (8 * k) else word) 0

/-- The bits which one byte column of up to eight planes holds, a byte for each lane. -/
def spreadColumn (groupPlanes : List U8) (planeBytes count column : Nat) : U64 :=
  (List.range count).foldl (fun word j =>
    word ||| spread (byteAt groupPlanes (j * planeBytes + column)) <<< j) 0

/-- OR the bits of the planes from one on, eight at most, into the lanes. -/
def transposeGroup (planes : List U8) (planeBytes width : Nat) (lanes : List U64)
    (group : Nat) : List U64 :=
  let count := min (group + 8) width - group
  let groupPlanes := (planes.drop (group * planeBytes)).take (count * planeBytes)
  lanes.mapIdx fun l lane =>
    let column := spreadColumn groupPlanes planeBytes count (l / 8)
    lane ||| ((column >>> (8 * (l % 8))) &&& 0xff) <<< group

def transposeTileDecode (width : Nat) (planes : List U8) (len : Nat) : List I64 :=
  if width = 0 then List.replicate len 0
  else
    let width := min width 64
    let planeBytes := divCeil len 8
    let need := width * planeBytes
    let planes :=
      if need ≤ planes.length then planes.take need
      else planes ++ List.replicate (need - planes.length) 0
    let groups := (List.range (divCeil width 8)).map fun index => 8 * index
    let lanes := groups.foldl (transposeGroup planes planeBytes width) (List.replicate len 0)
    lanes.map unzigzag

def transposeLaneDecode (planes : List U8) (width len lane : Nat) : I64 :=
  let planeBytes := divCeil len 8
  unzigzag ((List.range (min width 64)).foldl (fun zz b =>
    if byteAt planes (b * planeBytes + lane / 8) >>> (lane % 8) &&& (1 : U8) = 1 then
      zz ||| (1 : U64) <<< b
    else zz) 0)

/-- The width of a tile. -/
def transposeHeader : NextBlock U8 Nat := fun bytes pos tileLen =>
  let width := (byteAt bytes pos).toNat
  (1, width * divCeil tileLen 8, width)

def transposeBitpackDecode (bytes : List U8) (tile count : Nat) : List I64 :=
  decode transposeHeader transposeTileDecode bytes tile count

/-- A short stretch is read lane by lane. -/
def transposeSpan (width : Nat) (planes : List U8) (tileLen lo hi : Nat) : List I64 :=
  if hi - lo < gatherWholeTileThreshold then
    (List.range' lo (hi - lo)).map fun lane => transposeLaneDecode planes width tileLen lane
  else ((transposeTileDecode width planes tileLen).take hi).drop lo

def transposeBitpackDecodeRange (bytes : List U8) (tile count start len : Nat) : List I64 :=
  decodeRange transposeHeader transposeSpan bytes tile count start len

def transposeLanes (width : Nat) (planes : List U8) (tileLen : Nat) (lanes : List Nat) :
    List I64 :=
  if gatherWholeTileThreshold ≤ lanes.length then
    let decoded := transposeTileDecode width planes tileLen
    lanes.map fun lane => decoded.getD lane 0
  else lanes.map fun lane => transposeLaneDecode planes width tileLen lane

def transposeBitpackDecodeGather (bytes : List U8) (tile count : Nat) (indices : List Nat) :
    List (Option I64) :=
  gatherWalk transposeHeader transposeLanes bytes tile count indices

def forResidual (v min : I64) : U64 := v - min

def forReconstruct (min : I64) (r : U64) : I64 := min + r

/-- The least value, and zero of none. -/
def minimum : List I64 → I64
  | [] => 0
  | value :: values =>
      values.foldl (fun least value => if value.slt least then value else least) value

def forBitpackBytes (values : List I64) (block : Nat) : Nat :=
  if values = [] then 0
  else ((chunks block values).map fun chunk =>
    let min := minimum chunk
    let width := widest (chunk.map fun v => forResidual v min)
    zigzagVarintLen min + 1 + divCeil (chunk.length * width) 8).sum

def forBlock (chunk : List I64) : List U8 :=
  let min := minimum chunk
  let residuals := chunk.map fun v => forResidual v min
  let width := widest residuals
  forPushUvarint (zigzag min) ++ widthByte width ::
    if width = 0 then [] else packFields width residuals

def forBitpackEncode (values : List I64) (block : Nat) : List U8 :=
  encode forBlock block values

/-- The reference of a block and its width. -/
def forHeader : NextBlock U8 (I64 × Nat) := fun bytes pos blockLen =>
  let (z, p) := forReadUvarint bytes pos
  let width := (byteAt bytes p).toNat
  (p + 1 - pos, divCeil (blockLen * width) 8, unzigzag z, width)

def forRows (state : I64 × Nat) (data : List U8) (rows : List Nat) : List I64 :=
  rows.map fun row => forReconstruct state.1 (readBits data (row * state.2) state.2)

def forBitpackDecode (bytes : List U8) (block count : Nat) : List I64 :=
  decode forHeader (fun state data blockLen => forRows state data (List.range blockLen)) bytes
    block count

def forBitpackDecodeRange (bytes : List U8) (block count start len : Nat) : List I64 :=
  decodeRange forHeader (fun state data _ lo hi => forRows state data (List.range' lo (hi - lo)))
    bytes block count start len

def forBitpackDecodeGather (bytes : List U8) (block count : Nat) (indices : List Nat) :
    List (Option I64) :=
  gatherWalk forHeader (fun state data _ lanes => forRows state data lanes) bytes block count
    indices

def dforMaxExponent : Nat := 18

/-- Divide out tens, up to the greatest exponent. -/
def trailingZerosFrom (m k : Nat) : Nat :=
  if k < dforMaxExponent ∧ m % 10 = 0 then trailingZerosFrom (m / 10) (k + 1) else k
termination_by dforMaxExponent - k

def decimalTrailingZeros (v : I64) : Nat :=
  let m := v.toInt.natAbs
  if m = 0 then dforMaxExponent else trailingZerosFrom m 0

/-- A power of ten as a word. -/
def tenPow (k : Nat) : I64 := BitVec.ofNat 64 (10 ^ k)

/-- The exponent common to a block, its values less that, their minimum and the width. -/
def dforBlock (chunk : List I64) : Nat × List I64 × I64 × Nat :=
  let k := (chunk.map decimalTrailingZeros).min?.getD 0
  let divisor := tenPow k
  let reduced := chunk.map fun v => v.sdiv divisor
  let min := minimum reduced
  (k, reduced, min, widest (reduced.map fun v => forResidual v min))

def dforBitpackBytes (values : List I64) (block : Nat) : Nat :=
  ((chunks block values).map fun chunk =>
    let (_, _, min, width) := dforBlock chunk
    zigzagVarintLen min + 2 + divCeil (chunk.length * width) 8).sum

def dforEncodeBlock (chunk : List I64) : List U8 :=
  let (k, reduced, min, width) := dforBlock chunk
  forPushUvarint (zigzag min) ++
    (if k < 256 then BitVec.ofNat 8 k else 0) :: widthByte width ::
      packFields width (reduced.map fun v => forResidual v min)

def dforBitpackEncode (values : List I64) (block : Nat) : List U8 :=
  encode dforEncodeBlock block values

/-- The reference of a block, its multiplier and its width. -/
def dforReadHeader : NextBlock U8 (I64 × I64 × Nat) := fun bytes pos blockLen =>
  let (z, p) := forReadUvarint bytes pos
  let k := min (byteAt bytes p).toNat dforMaxExponent
  let width := (byteAt bytes (p + 1)).toNat
  (p + 2 - pos, divCeil (blockLen * width) 8, unzigzag z, tenPow k, width)

def dforRows (state : I64 × I64 × Nat) (data : List U8) (rows : List Nat) : List I64 :=
  rows.map fun row =>
    forReconstruct state.1 (readBits data (row * state.2.2) state.2.2) * state.2.1

def dforBitpackDecodeRange (bytes : List U8) (block count start len : Nat) : List I64 :=
  decodeRange dforReadHeader
    (fun state data _ lo hi => dforRows state data (List.range' lo (hi - lo))) bytes block count
    start len

def dforBitpackDecode (bytes : List U8) (block count : Nat) : List I64 :=
  dforBitpackDecodeRange bytes block count 0 count

end WeftDb.Codec
