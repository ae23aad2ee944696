import WeftDb.Codec.Words

/-!
# The Gorilla codec of second differences

A second difference has a bucket, and its bits are as many ones as the bucket says, a zero unless
there are four, and the difference in the width of the bucket.  The buffer is sized first, and the
fields are written into it least significant bit first.
-/

namespace WeftDb.Codec

open BitStream BlockWalk

/-- How many bits a second difference takes. -/
def gorillaDodBits (dod : I64) : Nat :=
  if dod = 0 then 1
  else if -63 ≤ dod.toInt ∧ dod.toInt ≤ 64 then 2 + 7
  else if -255 ≤ dod.toInt ∧ dod.toInt ≤ 256 then 3 + 9
  else if -2047 ≤ dod.toInt ∧ dod.toInt ≤ 2048 then 4 + 12
  else 4 + 64

/-- The size of a column which is weighed against other codecs. -/
def gorillaBytes (dods : List I64) : Nat :=
  divCeil (dods.map gorillaDodBits).sum 8

/-- The ones of a second difference, and the width in which it is written. -/
def gorillaControl (dod : I64) : Nat × Nat :=
  if dod = 0 then (0, 0)
  else if -63 ≤ dod.toInt ∧ dod.toInt ≤ 64 then (1, 7)
  else if -255 ≤ dod.toInt ∧ dod.toInt ≤ 256 then (2, 9)
  else if -2047 ≤ dod.toInt ∧ dod.toInt ≤ 2048 then (3, 12)
  else (4, 64)

/-- What is added to a second difference in a width. -/
def gorillaBias (width : Nat) : I64 := (1 : I64) <<< (width - 1) - 1

/-- A buffer, and the bit at which it is written or read next. -/
abbrev BitCursor := List U8 × Nat

def gorillaPutBits (out : BitCursor) (value : U64) (n : Nat) : BitCursor :=
  (writeBits out.1 out.2 value n, out.2 + n)

def gorillaPut (out : BitCursor) (dod : I64) : BitCursor :=
  let (ones, width) := gorillaControl dod
  let out := (fun out => gorillaPutBits out 1 1)^[ones] out
  let out := if ones < 4 then gorillaPutBits out 0 1 else out
  if width = 64 then gorillaPutBits out dod 64
  else if 0 < width then gorillaPutBits out (dod + gorillaBias width) width
  else out

def encodeGorillaDods (dods : List I64) : List U8 :=
  let totalBits := (dods.map gorillaDodBits).sum
  (dods.foldl gorillaPut (List.replicate (divCeil totalBits 8) 0, 0)).1

def gorillaGetBits (source : BitCursor) (n : Nat) : U64 × BitCursor :=
  (readBits source.1 source.2 n, source.1, source.2 + n)

/-- Count ones, of which some are found already; `left` is how many more there may be. -/
def gorillaOnes : Nat → Nat → BitCursor → Nat × BitCursor
  | 0, ones, source => (ones, source)
  | left + 1, ones, source =>
      let (bit, source) := gorillaGetBits source 1
      if bit = 1 then gorillaOnes left (ones + 1) source else (ones, source)

def gorillaGet (source : BitCursor) : I64 × BitCursor :=
  let (ones, source) := gorillaOnes 4 0 source
  match ones with
  | 0 => (0, source)
  | 1 =>
      let (offset, source) := gorillaGetBits source 7
      (offset - gorillaBias 7, source)
  | 2 =>
      let (offset, source) := gorillaGetBits source 9
      (offset - gorillaBias 9, source)
  | 3 =>
      let (offset, source) := gorillaGetBits source 12
      (offset - gorillaBias 12, source)
  | _ => gorillaGetBits source 64

/-- Read some count of second differences. -/
def gorillaGetMany : Nat → BitCursor → List I64
  | 0, _ => []
  | count + 1, source =>
      let (dod, source) := gorillaGet source
      dod :: gorillaGetMany count source

def decodeGorillaDods (bytes : List U8) (count : Nat) : List I64 :=
  gorillaGetMany count (bytes, 0)

/-- The low bits of a word, least significant first. -/
def lsbField (value : U64) (n : Nat) : List Bool := (List.range n).map value.getLsbD

/-- The number which is written in a width. -/
def gorillaOffset (dod : I64) (width : Nat) : U64 :=
  if width = 64 then dod else dod + gorillaBias width

/-- The ones, and the zero behind them unless there are as many as there may be. -/
def onesField (ones most : Nat) : List Bool :=
  List.replicate ones true ++ if ones < most then [false] else []

def gorillaField (dod : I64) : List Bool :=
  onesField (gorillaControl dod).1 4 ++
    lsbField (gorillaOffset dod (gorillaControl dod).2) (gorillaControl dod).2

@[simp]
theorem length_lsbField (value : U64) (n : Nat) : (lsbField value n).length = n := by
  rw [lsbField, List.length_map, List.length_range]

theorem getD_lsbField (value : U64) (n place : Nat) :
    (lsbField value n).getD place false = (decide (place < n) && value.getLsbD place) := by
  by_cases within : place < n
  · rw [List.getD_eq_getElem _ _ ((length_lsbField value n).symm ▸ within), decide_eq_true within,
      Bool.true_and]
    simp [lsbField]
  · rw [List.getD_eq_default _ _ ((length_lsbField value n).symm ▸ Nat.le_of_not_lt within),
      decide_eq_false within, Bool.false_and]

theorem toNat_add_bias {dod : I64} {bias : Nat} (low : -(bias : Int) ≤ dod.toInt)
    (high : dod.toInt ≤ bias + 1) :
    (dod + BitVec.ofNat 64 bias).toNat ≤ 2 * bias + 1 := by
  have signed := BitVec.toInt_eq_toNat_cond dod
  have below := dod.isLt
  rw [BitVec.toNat_add, BitVec.toNat_ofNat]
  split at signed <;> omega

theorem gorillaControl_spec (dod : I64) :
    (gorillaControl dod = (0, 0) ∧ dod = 0) ∨ gorillaControl dod = (4, 64) ∨
      ∃ ones width, gorillaControl dod = (ones, width) ∧
        ((ones, width) = (1, 7) ∨ (ones, width) = (2, 9) ∨ (ones, width) = (3, 12)) ∧
        (dod + gorillaBias width).toNat < 2 ^ width := by
  rw [gorillaControl]
  split
  · rename_i zero
    exact .inl ⟨rfl, zero⟩
  · split
    · rename_i narrow
      exact .inr (.inr ⟨1, 7, rfl, .inl rfl,
        (@toNat_add_bias dod 63 narrow.1 narrow.2).trans_lt (by decide)⟩)
    · split
      · rename_i middle
        exact .inr (.inr ⟨2, 9, rfl, .inr (.inl rfl),
          (@toNat_add_bias dod 255 middle.1 middle.2).trans_lt (by decide)⟩)
      · split
        · rename_i wide
          exact .inr (.inr ⟨3, 12, rfl, .inr (.inr rfl),
            (@toNat_add_bias dod 2047 wide.1 wide.2).trans_lt (by decide)⟩)
        · exact .inr (.inl rfl)

theorem length_gorillaField (dod : I64) : (gorillaField dod).length = gorillaDodBits dod := by
  rw [gorillaField, List.length_append, length_lsbField, onesField, gorillaControl, gorillaDodBits]
  split
  · rfl
  · split
    · rfl
    · split
      · rfl
      · split
        · rfl
        · rfl

namespace BitCursor

/-- Whether some bits are written, as far as there is room, and nothing behind them. -/
structure Written (out : BitCursor) (bits : List Bool) : Prop where
  offset : out.2 = bits.length
  places : ∀ place, bitAt out.1 place = (decide (place < 8 * out.1.length) && bits.getD place false)

/-- Whether the bits from here on are some bits, and zeros behind them. -/
def Reads (source : BitCursor) (bits : List Bool) : Prop :=
  ∀ place, bitAt source.1 (source.2 + place) = bits.getD place false

variable {out source : BitCursor} {bits rest : List Bool} {n : Nat}

theorem Written.putBits (written : Written out bits) (value : U64) (narrow : n ≤ 64) :
    Written (gorillaPutBits out value n) (bits ++ lsbField value n) where
  offset := by rw [gorillaPutBits, written.offset, List.length_append, length_lsbField]
  places place := by
    rw [gorillaPutBits, bitAt_writeBits, length_writeBits, written.places, written.offset,
      Nat.min_eq_left narrow]
    by_cases before : place < bits.length
    · rw [List.getD_append _ _ _ _ before, decide_eq_false (show ¬(bits.length ≤ place ∧ _) from
        fun here => Nat.not_lt.mpr here.1 before), Bool.false_and, Bool.or_false]
    · have behind := Nat.le_of_not_lt before
      rw [List.getD_append_right _ _ _ _ behind, List.getD_eq_default _ _ behind, Bool.and_false,
        Bool.false_or, getD_lsbField, ← Bool.and_assoc, ← Bool.decide_and]
      congr 1
      exact decide_eq_decide.mpr (by omega)

theorem Written.putOnes (written : Written out bits) (ones : Nat) :
    Written ((fun out => gorillaPutBits out 1 1)^[ones] out)
      (bits ++ List.replicate ones true) := by
  induction ones generalizing out bits with
  | zero =>
      rw [List.replicate_zero, List.append_nil]
      exact written
  | succ ones ih =>
      rw [Function.iterate_succ_apply, List.replicate_succ, List.append_cons]
      exact ih (written.putBits 1 (by decide))

theorem Written.put (written : Written out bits) (dod : I64) :
    Written (gorillaPut out dod) (bits ++ gorillaField dod) := by
  have ones_written := written.putOnes (gorillaControl dod).1
  have control_written : Written
      (if (gorillaControl dod).1 < 4 then
        gorillaPutBits ((fun out => gorillaPutBits out 1 1)^[(gorillaControl dod).1] out) 0 1
      else (fun out => gorillaPutBits out 1 1)^[(gorillaControl dod).1] out)
      (bits ++ onesField (gorillaControl dod).1 4) := by
    rw [onesField, ← List.append_assoc]
    split
    · exact ones_written.putBits 0 (by decide)
    · rw [List.append_nil]
      exact ones_written
  rw [gorillaPut, gorillaField, gorillaOffset, ← List.append_assoc]
  dsimp only
  split
  · rename_i whole
    rw [whole]
    exact control_written.putBits dod (le_refl 64)
  · split
    · refine control_written.putBits _ ?_
      obtain ⟨same, -⟩ | same | ⟨ones, width, same, cases, -⟩ := gorillaControl_spec dod
      · rw [same]
        decide
      · rw [same]
      · rw [same]
        obtain same | same | same := cases <;> cases same <;> decide
    · rename_i none
      rw [Nat.eq_zero_of_not_pos none]
      exact (List.append_nil _).symm ▸ control_written

theorem Reads.drop (reads : Reads source bits) (n : Nat) :
    Reads (source.1, source.2 + n) (bits.drop n) := by
  intro place
  rw [List.getD_eq_getElem?_getD, List.getElem?_drop, ← List.getD_eq_getElem?_getD, ← reads,
    Nat.add_assoc]

theorem Reads.getBits {value : U64} (reads : Reads source (lsbField value n ++ rest))
    (narrow : n ≤ 64) (fits : value.toNat < 2 ^ n) :
    gorillaGetBits source n = (value, source.1, source.2 + n) ∧
      Reads (source.1, source.2 + n) rest := by
  have behind := reads.drop n
  rw [List.drop_left' (length_lsbField value n)] at behind
  refine ⟨?_, behind⟩
  rw [gorillaGetBits]
  refine congrArg (·, _) (BitVec.eq_of_getLsbD_eq fun place _ => ?_)
  rw [getLsbD_readBits, Nat.min_eq_left narrow]
  by_cases within : place < n
  · rw [decide_eq_true within, Bool.true_and, reads, List.getD_append _ _ _ _ (by simpa),
      getD_lsbField, decide_eq_true within, Bool.true_and]
  · rw [decide_eq_false within, Bool.false_and,
      getLsbD_of_lt_two_pow fits (Nat.le_of_not_lt within)]

theorem Reads.ones (found : Nat) {ones left : Nat} (few : ones ≤ left)
    (reads : Reads source (onesField ones left ++ rest)) :
    ∃ source', gorillaOnes left found source = (found + ones, source') ∧ Reads source' rest := by
  induction left generalizing found ones source with
  | zero =>
      rw [Nat.le_zero.mp few] at reads ⊢
      exact ⟨source, rfl, reads⟩
  | succ left ih =>
      rw [gorillaOnes]
      cases ones with
      | zero =>
          obtain ⟨bit_read, behind⟩ := @Reads.getBits source rest 1 0 reads (by decide) (by decide)
          exact ⟨_, by rw [bit_read]; rfl, behind⟩
      | succ ones =>
          have shape : onesField (ones + 1) (left + 1) = lsbField 1 1 ++ onesField ones left := by
            rw [onesField, onesField, List.replicate_succ, List.cons_append]
            simp only [Nat.add_lt_add_iff_right]
            rfl
          rw [shape, List.append_assoc] at reads
          obtain ⟨bit_read, behind⟩ := reads.getBits (by decide) (by decide)
          obtain ⟨source', counted, behind⟩ := ih (found + 1)
            (Nat.le_of_succ_le_succ few) behind
          refine ⟨source', ?_, behind⟩
          rw [bit_read]
          dsimp only
          rw [if_pos rfl, counted, Nat.add_right_comm, Nat.add_assoc]

theorem Reads.get {dod : I64} (reads : Reads source (gorillaField dod ++ rest)) :
    ∃ source', gorillaGet source = (dod, source') ∧ Reads source' rest := by
  rw [gorillaField, List.append_assoc] at reads
  have unbiased (width : Nat) : dod + gorillaBias width - gorillaBias width = dod :=
    add_sub_cancel_right dod (gorillaBias width)
  obtain ⟨same, zero⟩ | same | ⟨ones, width, same, cases, fits⟩ := gorillaControl_spec dod
  · rw [same] at reads
    obtain ⟨source', counted, behind⟩ := reads.ones 0 (by decide)
    refine ⟨source', ?_, behind⟩
    rw [gorillaGet, counted, zero]
    rfl
  · rw [same] at reads
    obtain ⟨source', counted, behind⟩ := reads.ones 0 (by decide)
    obtain ⟨word_read, behind⟩ := behind.getBits (le_refl 64) (BitVec.isLt _)
    refine ⟨_, ?_, behind⟩
    rw [gorillaGet, counted]
    exact word_read
  · rw [same] at reads
    have narrow : width ≤ 64 ∧ width ≠ 64 ∧ ones ≤ 4 := by
      obtain same | same | same := cases <;> cases same <;> decide
    obtain ⟨source', counted, behind⟩ := reads.ones 0 narrow.2.2
    rw [gorillaOffset, if_neg narrow.2.1] at behind
    obtain ⟨offset_read, behind⟩ := behind.getBits narrow.1 fits
    refine ⟨_, ?_, behind⟩
    rw [gorillaGet, counted]
    obtain same | same | same := cases
    all_goals
      cases same
      dsimp only
      rw [offset_read]
      dsimp only
      rw [unbiased]
      rfl

end BitCursor

theorem written_foldl_gorillaPut (dods : List I64) {out : BitCursor} {bits : List Bool}
    (written : BitCursor.Written out bits) :
    BitCursor.Written (dods.foldl gorillaPut out) (bits ++ dods.flatMap gorillaField) := by
  induction dods generalizing out bits with
  | nil =>
      rw [List.flatMap_nil, List.append_nil]
      exact written
  | cons dod dods ih =>
      rw [List.foldl_cons, List.flatMap_cons, ← List.append_assoc]
      exact ih (written.put dod)

theorem gorillaGetMany_fields (dods : List I64) {source : BitCursor}
    (reads : BitCursor.Reads source (dods.flatMap gorillaField)) :
    gorillaGetMany dods.length source = dods := by
  induction dods generalizing source with
  | nil => rfl
  | cons dod dods ih =>
      rw [List.flatMap_cons] at reads
      obtain ⟨source', found, behind⟩ := reads.get
      rw [List.length_cons, gorillaGetMany, found]
      dsimp only
      rw [ih behind]

theorem length_gorillaPut (out : BitCursor) (dod : I64) :
    (gorillaPut out dod).1.length = out.1.length := by
  have put (out : BitCursor) (value : U64) (n : Nat) :
      (gorillaPutBits out value n).1.length = out.1.length := length_writeBits
  have ones (count : Nat) (out : BitCursor) :
      ((fun out => gorillaPutBits out 1 1)^[count] out).1.length = out.1.length := by
    induction count generalizing out with
    | zero => rfl
    | succ count ih => rw [Function.iterate_succ_apply, ih, put]
  rw [gorillaPut]
  dsimp only
  split <;> split <;> simp only [put, ones, apply_ite Prod.fst, apply_ite List.length, ite_self]

theorem length_encodeGorillaDods (dods : List I64) :
    (encodeGorillaDods dods).length = gorillaBytes dods := by
  have kept (out : BitCursor) : (dods.foldl gorillaPut out).1.length = out.1.length := by
    induction dods generalizing out with
    | nil => rfl
    | cons dod dods ih => rw [List.foldl_cons, ih, length_gorillaPut]
  rw [encodeGorillaDods, kept, List.length_replicate, gorillaBytes]

theorem decode_encodeGorillaDods (dods : List I64) :
    decodeGorillaDods (encodeGorillaDods dods) dods.length = dods := by
  refine gorillaGetMany_fields dods fun place => ?_
  have start : BitCursor.Written
      (List.replicate (divCeil (dods.map gorillaDodBits).sum 8) 0, 0) [] :=
    ⟨rfl, fun place => by rw [bitAt_replicate, List.getD_nil, Bool.and_false]⟩
  have written := (written_foldl_gorillaPut dods start).places place
  have size : (dods.flatMap gorillaField).length = (dods.map gorillaDodBits).sum := by
    rw [List.length_flatMap]
    simp only [length_gorillaField]
  have room := length_encodeGorillaDods dods
  rw [gorillaBytes, divCeil] at room
  rw [encodeGorillaDods] at room
  rw [Nat.zero_add, encodeGorillaDods, written, room, List.nil_append]
  by_cases within : place < (dods.flatMap gorillaField).length
  · rw [decide_eq_true (by omega), Bool.true_and]
  · rw [List.getD_eq_default _ _ (Nat.le_of_not_lt within), Bool.and_false]

end WeftDb.Codec
