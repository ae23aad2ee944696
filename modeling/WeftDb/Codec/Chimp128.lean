import WeftDb.Codec.Chimp
import WeftDb.Codec.GorillaDods
import WeftDb.Codec.XorFloat

/-!
# The Chimp128 codec of value columns

A value is XORed with one of the last 128, which a ring holds.  The encoder finds it by the low bits
of the value and writes its slot; the decoder keeps the same ring.  Where none is found the value
before stands in.

Like the other codecs it decodes a whole column to itself.  Of a column which is cut the decoder of
the first XOR codec reads something; those of the other two shift by the width of a word where the
cut leaves nothing but zeros of the header of a trimmed value.
-/

namespace WeftDb.Codec

open BitFields StepCodec Option

/-- How many earlier values can be named. -/
def previousValues : Nat := 128

/-- The bits of a slot. -/
def previousValuesLog2 : Nat := 7

/-- A named value has more trailing zeros in common than this. -/
def chimp128Threshold : Nat := 6 + previousValuesLog2

/-- The last values: each stands in the slot of its index. -/
abbrev Ring := Vector U64 previousValues

variable {slot : Nat} {value : U64} {r behind : BitReader}

namespace Ring

def slotOf (index : Nat) : Fin previousValues :=
  ⟨index % previousValues, Nat.mod_lt _ (Nat.succ_pos 127)⟩

/-- The value with an index. -/
def lookup (ring : Ring) (index : Nat) : U64 := ring.get (slotOf index)

def store (ring : Ring) (index : Nat) (value : U64) : Ring :=
  ring.set (slotOf index).1 value (slotOf index).2

/-- The ring behind the first value. -/
def start (first : U64) : Ring := store (Vector.replicate previousValues 0) 0 first

theorem getElem?_slotOf (ring : Ring) (index : Nat) :
    ring[(slotOf index).1]? = some (ring.lookup index) :=
  Vector.getElem?_eq_getElem (slotOf index).2

theorem exists_getElem? (ring : Ring) (narrow : slot < 2 ^ 7) : ∃ value, ring[slot]? = some value :=
  ⟨_, Vector.getElem?_eq_getElem narrow⟩

end Ring

/-- The low bits of a value, by which it is found. -/
def lowKey (value : U64) : Nat :=
  (value &&& ((1 : U64) <<< (chimp128Threshold + 1) - 1)).toNat

/-- The index of no value. -/
def noIndex : Nat := 2 ^ 64 - 1

/-- What the encoder remembers: the ring, the index under which a value with some low bits was last
stored, the class which was last written, and the index of the value which is next. -/
structure Chimp128Writer where
  ring : Ring
  indices : Nat → Nat
  stored : Nat
  count : Nat
  earlier : ∀ key, indices key ≠ noIndex → indices key < count

/-- What the decoder remembers. -/
structure Chimp128Reader where
  ring : Ring
  stored : Nat
  count : Nat

namespace Chimp128Writer

def start (first : U64) : Chimp128Writer where
  ring := Ring.start first
  indices := Function.update (fun _ => noIndex) (lowKey first) 0
  -- No class is established yet.
  stored := u32Max
  count := 1
  earlier key known := by
    rw [Function.update_apply] at known ⊢
    split at known
    · rename_i here
      rw [if_pos here]
      exact Nat.one_pos
    · exact (known rfl).elim

/-- Store a value under its index. -/
def record (state : Chimp128Writer) (value : U64) (stored : Nat) : Chimp128Writer where
  ring := state.ring.store state.count value
  indices := Function.update state.indices (lowKey value) state.count
  stored := stored
  count := state.count + 1
  earlier key known := by
    rw [Function.update_apply] at known ⊢
    split
    · exact Nat.lt_succ_self _
    · rename_i elsewhere
      rw [if_neg elsewhere] at known
      exact Nat.lt_succ_of_lt (state.earlier key known)

/-- The index of the last value with the same low bits. -/
def candidate (state : Chimp128Writer) (value : U64) : Nat := state.indices (lowKey value)

/-- Whether that value is still in the ring, and has enough trailing zeros in common.  Its index is
an earlier one, so the difference does not fall below zero. -/
def Windowed (state : Chimp128Writer) (value : U64) : Prop :=
  state.candidate value ≠ noIndex ∧ state.count - state.candidate value < previousValues ∧
    chimp128Threshold < trailingZeros (value ^^^ state.ring.lookup (state.candidate value))

instance (state : Chimp128Writer) (value : U64) : Decidable (state.Windowed value) :=
  inferInstanceAs (Decidable (_ ∧ _))

/-- The index of the value with which a value is XORed. -/
def reference (state : Chimp128Writer) (value : U64) : Nat :=
  if state.Windowed value then state.candidate value else state.count - 1

/-- The result of the XOR. -/
def xor (state : Chimp128Writer) (value : U64) : U64 :=
  value ^^^ state.ring.lookup (state.reference value)

end Chimp128Writer

def chimp128Write (state : Chimp128Writer) (w : BitWriter) (value : U64) :
    Chimp128Writer × BitWriter :=
  let refSlot := (Ring.slotOf (state.reference value)).1
  let xor := state.xor value
  let trailing := trailingZeros xor
  if xor = 0 then
    (state.record value u32Max, w.putBits (BitVec.ofNat 64 refSlot) (2 + previousValuesLog2))
  else
    let (leadCode, leading) := leadClass xor
    if state.Windowed value then
      let significant := 64 - leading - trailing
      -- The flag is the high bit of 128 behind a zero.
      let packed := 512 * (previousValues + refSlot) + 64 * leadCode + significant
      let w := w.putBits (BitVec.ofNat 64 packed) (2 + previousValuesLog2 + 3 + 6)
      (state.record value u32Max, w.putBits (xor >>> trailing) significant)
    else if leading = state.stored then
      (state.record value state.stored, (w.putBits 2 2).putBits xor (64 - leading))
    else
      (state.record value leading,
        ((w.putBits 3 2).putBits (BitVec.ofNat 64 leadCode) 3).putBits xor (64 - leading))

/-- The value behind a flag, and the class which is remembered then. -/
def chimp128Value (flag : U64) (state : Chimp128Reader) (r : BitReader) :
    Option (U64 × Nat × BitReader) :=
  if flag = 0 then
    let (slot, r) := r.getBits previousValuesLog2
    state.ring[slot.toNat]?.map fun value => (value, state.stored, r)
  else if flag = 1 then do
    let (slot, r) := r.getBits previousValuesLog2
    let (xor, _, r) ← getTrimmed r
    let value ← state.ring[slot.toNat]?
    -- The encoder forgets its class here, so the last one which was read is not asked for.
    return (value ^^^ xor, state.stored, r)
  else if flag = 2 then
    (getLow state.stored r).map fun (xor, stored, r) =>
      (state.ring.lookup (state.count - 1) ^^^ xor, stored, r)
  else
    (getFresh r).map fun (xor, stored, r) =>
      (state.ring.lookup (state.count - 1) ^^^ xor, stored, r)

def chimp128Read (state : Chimp128Reader) (r : BitReader) :
    Option (U64 × Chimp128Reader × BitReader) :=
  let (flag, r) := r.getBits 2
  (chimp128Value flag state r).map fun (value, stored, r) =>
    (value, ⟨state.ring.store state.count value, stored, state.count + 1⟩, r)

def chimp128Codec : ValueCodec Chimp128Writer Chimp128Reader where
  startWriter := Chimp128Writer.start
  write := chimp128Write
  startReader first := ⟨Ring.start first, 0, 1⟩
  read := chimp128Read

def chimp128F64Encode (values : List U64) : List U8 := chimp128Codec.encode values

def chimp128F64Decode (bytes : List U8) (count : Nat) : Option (List U64) :=
  chimp128Codec.decode bytes count

def chimp128F64Bytes (values : List U64) : Nat := (chimp128F64Encode values).length

variable {state : Chimp128Writer}

namespace Chimp128Writer

/-- The bits of the slot which is named. -/
def slotField (state : Chimp128Writer) (value : U64) : List Bool :=
  field (Ring.slotOf (state.reference value)).1 previousValuesLog2

/-- The bits of a value behind a state. -/
def field (state : Chimp128Writer) (value : U64) : List Bool :=
  let xor := state.xor value
  if xor = 0 then BitFields.field 0 2 ++ state.slotField value
  else if state.Windowed value then
    BitFields.field 1 2 ++ (state.slotField value ++ trimmedField xor)
  else if (leadClass xor).2 = state.stored then BitFields.field 2 2 ++ lowField xor
  else BitFields.field 3 2 ++ freshField xor

/-- The state behind a value. -/
def next (state : Chimp128Writer) (value : U64) : Chimp128Writer :=
  let xor := state.xor value
  state.record value
    (if xor = 0 ∨ state.Windowed value then u32Max else (leadClass xor).2)

/-- Whether a value behind a state is written without its trailing zeros. -/
def Trims (state : Chimp128Writer) (value : U64) : Prop :=
  state.xor value ≠ 0 ∧ state.Windowed value

instance (state : Chimp128Writer) (value : U64) : Decidable (state.Trims value) :=
  inferInstanceAs (Decidable (_ ∧ _))

/-- Whether a prefix of a value's bits keeps the flag of a trimmed result, and nothing but zeros of
the header behind its slot. -/
def Faults (state : Chimp128Writer) (value : U64) (kept : Nat) : Prop :=
  state.Trims value ∧ 2 ≤ kept ∧ HeaderLost (state.xor value) (kept - 2 - previousValuesLog2)

instance (state : Chimp128Writer) (value : U64) (kept : Nat) :
    Decidable (state.Faults value kept) :=
  inferInstanceAs (Decidable (_ ∧ _))

theorem Windowed.trailing_pos (windowed : state.Windowed value) :
    0 < trailingZeros (state.xor value) := by
  rw [xor, reference, if_pos windowed]
  exact Nat.zero_lt_of_lt windowed.2.2

theorem lookup_xor (state : Chimp128Writer) (value : U64) :
    state.ring.lookup (state.reference value) ^^^ state.xor value = value := by
  rw [xor, BitVec.xor_comm value, ← BitVec.xor_assoc, BitVec.xor_self, BitVec.zero_xor]

theorem exists_flag (state : Chimp128Writer) (value : U64) :
    ∃ flag more, state.field value = BitFields.field flag 2 ++ more := by
  rw [field]
  split
  · exact ⟨0, _, rfl⟩
  · split
    · exact ⟨1, _, rfl⟩
    · split
      · exact ⟨2, _, rfl⟩
      · exact ⟨3, _, rfl⟩

end Chimp128Writer

def chimp128Layout : Layout U64 Chimp128Writer where
  field := Chimp128Writer.field
  next := Chimp128Writer.next

/-- A reader which follows the writer has its ring, and in any case a class; it is the writer's
class where the writer has one. -/
structure Chimp128Reader.Follows (state : Chimp128Writer) (reader : Chimp128Reader) : Prop where
  ring : reader.ring = state.ring
  count : reader.count = state.count
  within : reader.stored ≤ 24
  stored : state.stored = u32Max ∨ reader.stored = state.stored

theorem field_packed {code significant : Nat} (slot_lt : slot < 2 ^ 7) (code_lt : code < 2 ^ 3)
    (significant_lt : significant < 2 ^ 6) :
    field (512 * (previousValues + slot) + 64 * code + significant)
        (2 + previousValuesLog2 + 3 + 6) =
      field 1 2 ++ (field slot previousValuesLog2 ++ (field code 3 ++ field significant 6)) := by
  have flagged := field_two_pow_mul_add 1 slot_lt 2
  have classed := field_two_pow_mul_add (2 ^ 7 * 1 + slot) code_lt 9
  have packed := field_two_pow_mul_add (2 ^ 3 * (2 ^ 7 * 1 + slot) + code) significant_lt 12
  rw [classed, flagged] at packed
  rw [previousValues, show 512 * (128 + slot) + 64 * code + significant =
    2 ^ 6 * (2 ^ 3 * (2 ^ 7 * 1 + slot) + code) + significant by omega]
  refine packed.trans ?_
  simp only [List.append_assoc]
  rfl

theorem chimp128Layout_emits : Emits chimp128Layout chimp128Write BitWriter.Written where
  next state sink value := by
    change (chimp128Write state sink value).1 = state.next value
    rw [chimp128Write, Chimp128Writer.next]
    dsimp only
    by_cases same : state.xor value = 0
    · rw [if_pos same, if_pos (.inl same)]
    · rw [if_neg same]
      by_cases windowed : state.Windowed value
      · rw [if_pos windowed, if_pos (.inr windowed)]
      · rw [if_neg windowed, if_neg (not_or.mpr ⟨same, windowed⟩)]
        split
        · rename_i reuses
          rw [reuses]
        · rfl
  write_field {state sink value bits} written := by
    change (chimp128Write state sink value).2.Written (bits ++ state.field value)
    have slot_lt : (Ring.slotOf (state.reference value)).1 < 2 ^ 7 := Fin.isLt _
    have narrow : 64 - (leadClass (state.xor value)).2 ≤ 64 := Nat.sub_le _ _
    rw [chimp128Write, Chimp128Writer.field, Chimp128Writer.slotField]
    dsimp only
    generalize (Ring.slotOf (state.reference value)).1 = slot at slot_lt ⊢
    by_cases same : state.xor value = 0
    · rw [if_pos same, if_pos same]
      have slot_written := written.putNumber slot (by decide : 2 + previousValuesLog2 ≤ 64)
      have split := field_two_pow_mul_add 0 slot_lt 2
      rw [Nat.mul_zero, Nat.zero_add] at split
      exact split ▸ slot_written
    · rw [if_neg same, if_neg same]
      by_cases windowed : state.Windowed value
      · rw [if_pos windowed, if_pos windowed]
        obtain ⟨-, significant_lt, -⟩ := significant_bounds same windowed.trailing_pos
        have packed := field_packed slot_lt (leadClass_spec (state.xor value)).1 significant_lt
        have header_written := written.putNumber (512 * (previousValues + slot) +
          64 * (leadClass (state.xor value)).1 + (64 - (leadClass (state.xor value)).2 -
            trailingZeros (state.xor value))) (by decide : 2 + previousValuesLog2 + 3 + 6 ≤ 64)
        have bits_written := header_written.putBits
          (state.xor value >>> trailingZeros (state.xor value))
          (show 64 - (leadClass (state.xor value)).2 - trailingZeros (state.xor value) ≤ 64 by
            omega)
        rw [packed] at bits_written
        rw [trimmedField, trimmedHeader]
        simpa only [List.append_assoc] using bits_written
      · rw [if_neg windowed, if_neg windowed]
        split
        · have flag_written := written.putBits 2 (by decide : 2 ≤ 64)
          rw [← List.append_assoc]
          exact flag_written.putBits _ narrow
        · have flag_written := written.putBits 3 (by decide : 2 ≤ 64)
          rw [freshField, ← List.append_assoc, ← List.append_assoc]
          exact (flag_written.putNumber _ (by decide)).putBits _ narrow

section

variable (state : Chimp128Reader)

theorem chimp128Read_of_value {flag : U64} (flag_read : r.getBits 2 = (flag, behind)) {stored : Nat}
    {rest : BitReader} (found : chimp128Value flag state behind = some (value, stored, rest)) :
    chimp128Read state r =
      some (value, ⟨state.ring.store state.count value, stored, state.count + 1⟩, rest) := by
  rw [chimp128Read, flag_read]
  dsimp only
  rw [found, map_some]

theorem chimp128Value_named
    (slot_read : r.getBits previousValuesLog2 = (BitVec.ofNat 64 slot, behind))
    (slot_lt : slot < 2 ^ 7) (held : state.ring[slot]? = some value) :
    chimp128Value 0 state r = some (value, state.stored, behind) := by
  rw [chimp128Value, if_pos rfl, slot_read]
  dsimp only
  rw [toNat_number (slot_lt.trans (by decide)), held, map_some]

theorem chimp128Value_trimmed
    (slot_read : r.getBits previousValuesLog2 = (BitVec.ofNat 64 slot, behind))
    (slot_lt : slot < 2 ^ 7) (held : state.ring[slot]? = some value) :
    chimp128Value 1 state r =
      (getTrimmed behind).map fun found => (value ^^^ found.1, state.stored, found.2.2) := by
  rw [chimp128Value, if_neg (by decide), if_pos rfl, slot_read]
  dsimp only
  rw [toNat_number (slot_lt.trans (by decide)), held]
  cases getTrimmed behind with
  | none => rfl
  | some found => rfl

theorem chimp128Value_low (r : BitReader) :
    chimp128Value 2 state r = (getLow state.stored r).map fun found =>
      (state.ring.lookup (state.count - 1) ^^^ found.1, found.2.1, found.2.2) :=
  rfl

theorem chimp128Value_fresh (r : BitReader) :
    chimp128Value 3 state r = (getFresh r).map fun found =>
      (state.ring.lookup (state.count - 1) ^^^ found.1, found.2.1, found.2.2) :=
  rfl

end

theorem Chimp128Reader.Follows.held {reader : Chimp128Reader} (follows : Follows state reader)
    (index : Nat) : reader.ring[(Ring.slotOf index).1]? = some (state.ring.lookup index) := by
  rw [follows.ring]
  exact Ring.getElem?_slotOf state.ring index

theorem chimp128Layout_inverts :
    Inverts chimp128Layout chimp128Read BitReader.Reads Chimp128Reader.Follows where
  read_field {state reader source value rest} follows reads := by
    change source.Reads (state.field value ++ rest) at reads
    change ∃ reader' source', _ ∧ Chimp128Reader.Follows (state.next value) reader' ∧ _
    have value_eq := state.lookup_xor value
    have class_le := (leadClass_spec (state.xor value)).2.2.2
    have slot_lt : (Ring.slotOf (state.reference value)).1 < 2 ^ 7 := Fin.isLt _
    have held := follows.held (state.reference value)
    have ring_eq : reader.ring.store reader.count value = state.ring.store state.count value := by
      rw [follows.ring, follows.count]
    have count_eq : reader.count + 1 = state.count + 1 := by rw [follows.count]
    rw [Chimp128Writer.field, Chimp128Writer.slotField] at reads
    rw [Chimp128Writer.next]
    by_cases same : state.xor value = 0
    · rw [if_pos same, List.append_assoc] at reads
      obtain ⟨flag_read, behind⟩ := reads.getBits_field (by decide) (by decide)
      obtain ⟨slot_read, behind⟩ := behind.getBits_field (by decide) slot_lt
      have found := chimp128Read_of_value reader flag_read
        (chimp128Value_named reader slot_read slot_lt held)
      rw [same] at value_eq
      rw [show state.ring.lookup (state.reference value) = value from
        BitVec.xor_zero.symm.trans value_eq] at found
      rw [if_pos (.inl same)]
      exact ⟨_, _, found, ⟨ring_eq, count_eq, follows.within, .inl rfl⟩, behind⟩
    · rw [if_neg same] at reads
      by_cases windowed : state.Windowed value
      · rw [if_pos windowed, List.append_assoc, List.append_assoc] at reads
        obtain ⟨flag_read, behind⟩ := reads.getBits_field (by decide) (by decide)
        obtain ⟨slot_read, behind⟩ := behind.getBits_field (by decide) slot_lt
        obtain ⟨r', trimmed_read, behind⟩ := getTrimmed_field same windowed.trailing_pos behind
        have named := chimp128Value_trimmed reader slot_read slot_lt held
        rw [trimmed_read, map_some, value_eq] at named
        rw [if_pos (.inr windowed)]
        exact ⟨_, _, chimp128Read_of_value reader flag_read named,
          ⟨ring_eq, count_eq, follows.within, .inl rfl⟩, behind⟩
      · rw [if_neg windowed] at reads
        rw [if_neg (not_or.mpr ⟨same, windowed⟩)]
        rw [Chimp128Writer.reference, if_neg windowed, ← follows.ring, ← follows.count] at value_eq
        by_cases reuses : (leadClass (state.xor value)).2 = state.stored
        · rw [if_pos reuses, List.append_assoc] at reads
          obtain ⟨flag_read, behind⟩ := reads.getBits_field (by decide) (by decide)
          obtain ⟨r', low_read, behind⟩ := getLow_field behind
          have stored_eq := stored_eq follows.stored reuses
          have low := chimp128Value_low reader { source with pos := source.pos + 2 }
          rw [stored_eq, low_read, map_some, value_eq] at low
          exact ⟨_, _, chimp128Read_of_value reader flag_read low,
            ⟨ring_eq, count_eq, class_le, .inr rfl⟩, behind⟩
        · rw [if_neg reuses, List.append_assoc] at reads
          obtain ⟨flag_read, behind⟩ := reads.getBits_field (by decide) (by decide)
          obtain ⟨r', fresh_read, behind⟩ := getFresh_field behind
          have fresh := chimp128Value_fresh reader { source with pos := source.pos + 2 }
          rw [fresh_read, map_some, value_eq] at fresh
          exact ⟨_, _, chimp128Read_of_value reader flag_read fresh,
            ⟨ring_eq, count_eq, class_le, .inr rfl⟩, behind⟩

theorem chimp128Codec_laws : chimp128Codec.Laws chimp128Layout Chimp128Reader.Follows where
  emits := chimp128Layout_emits
  inverts := chimp128Layout_inverts
  starts _ := ⟨rfl, rfl, Nat.zero_le _, .inl rfl⟩

theorem exists_chimp128Read (state : Chimp128Reader) {flag : U64}
    (flag_read : r.getBits 2 = (flag, behind)) {found : U64 × Nat × BitReader}
    (value_read : chimp128Value flag state behind = some found) (ends : found.2.2.Reads []) :
    ∃ found, chimp128Read state r = some found ∧ found.2.2.Reads [] :=
  ⟨_, chimp128Read_of_value state flag_read value_read, ends⟩

theorem exists_slot (state : Chimp128Reader) {kept : Nat} {more : List Bool}
    (reads : r.Reads ((field slot previousValuesLog2 ++ more).take kept)) :
    ∃ slot' value, slot' < 2 ^ 7 ∧ state.ring[slot']? = some value ∧
      r.getBits previousValuesLog2 = (BitVec.ofNat 64 slot', { r with pos := r.pos + 7 }) ∧
        BitReader.Reads { r with pos := r.pos + 7 } (more.take (kept - previousValuesLog2)) := by
  obtain ⟨slot_read, behind⟩ := reads.getBits_take (by decide : previousValuesLog2 ≤ 64)
  rw [List.drop_left' (length_field _ _)] at behind
  obtain ⟨value, held⟩ := Ring.exists_getElem? state.ring (read_lt previousValuesLog2 _)
  exact ⟨_, value, read_lt _ _, held, slot_read, behind⟩

/-- A column whose end is missing decodes, unless it ends in a trimmed result of whose header only
zeros are left. -/
theorem chimp128Layout_truncates : Truncates chimp128Layout chimp128Read BitReader.Reads
    Chimp128Reader.Follows Chimp128Writer.Faults where
  exhausted reader {source} reads := by
    have flag_read := BitReader.getBits_eq reads (by decide : 2 ≤ 64)
    have behind := reads.drop 2
    have slot_read := BitReader.getBits_eq behind (by decide : previousValuesLog2 ≤ 64)
    obtain ⟨value, held⟩ := Ring.exists_getElem? reader.ring (read_lt previousValuesLog2 _)
    exact exists_chimp128Read reader flag_read
      (chimp128Value_named reader slot_read (read_lt _ _) held) (behind.drop 7)
  faults {state reader source value kept} follows inside reads fault := by
    change source.Reads ((state.field value).take kept) at reads
    obtain ⟨⟨changed, windowed⟩, flag_kept, lost⟩ := fault
    obtain ⟨kept, rfl⟩ := Nat.exists_eq_add_of_le' flag_kept
    rw [Chimp128Writer.field] at reads
    rw [if_neg changed, if_pos windowed] at reads
    obtain ⟨flag_read, behind⟩ := getFlag_field (by decide) reads
    obtain ⟨slot, value', slot_lt, held, slot_read, behind⟩ := exists_slot reader behind
    have named := chimp128Value_trimmed reader slot_read slot_lt held
    rw [getTrimmed_lost behind lost, map_none] at named
    rw [chimp128Read, flag_read]
    exact map_eq_none_iff.mpr named
  survives {state reader source value kept} follows inside reads survives := by
    change source.Reads ((state.field value).take kept) at reads
    change kept < (state.field value).length at inside
    have within := follows.within
    by_cases short : kept < 2
    · obtain ⟨flag, more, shape⟩ := state.exists_flag value
      rw [shape] at reads
      obtain ⟨cut, rfl | rfl, flag_read, behind⟩ := getFlag_cut short reads
      · have slot_read := BitReader.getBits_eq behind (by decide : previousValuesLog2 ≤ 64)
        obtain ⟨value, held⟩ := Ring.exists_getElem? reader.ring (read_lt previousValuesLog2 _)
        exact exists_chimp128Read reader flag_read
          (chimp128Value_named reader slot_read (read_lt _ _) held) (behind.drop 7)
      · obtain ⟨found, low_read, -, ends⟩ := exists_getLow within behind (Nat.zero_le _)
        have value_read := chimp128Value_low reader { source with pos := source.pos + 2 }
        rw [low_read, map_some] at value_read
        exact exists_chimp128Read reader flag_read value_read ends
    · obtain ⟨kept, rfl⟩ := Nat.exists_eq_add_of_le' (Nat.le_of_not_lt short)
      rw [Chimp128Writer.field, Chimp128Writer.slotField] at reads inside
      by_cases same : state.xor value = 0
      · rw [if_pos same] at reads inside
        obtain ⟨flag_read, behind⟩ := getFlag_field (by decide) reads
        rw [← List.append_nil (field _ previousValuesLog2)] at behind
        obtain ⟨slot, value', slot_lt, held, slot_read, behind⟩ := exists_slot reader behind
        rw [List.take_nil] at behind
        exact exists_chimp128Read reader flag_read
          (chimp128Value_named reader slot_read slot_lt held) behind
      · rw [if_neg same] at reads inside
        by_cases windowed : state.Windowed value
        · have kept_header : ¬HeaderLost (state.xor value) (kept - previousValuesLog2) :=
            fun lost => survives ⟨⟨same, windowed⟩, Nat.le_add_left _ _, lost⟩
          rw [if_pos windowed] at reads
          obtain ⟨flag_read, behind⟩ := getFlag_field (by decide) reads
          obtain ⟨slot, value', slot_lt, held, slot_read, behind⟩ := exists_slot reader behind
          obtain ⟨found, trimmed_read, -, ends⟩ :=
            exists_getTrimmed same windowed.trailing_pos behind kept_header
          have value_read := chimp128Value_trimmed reader slot_read slot_lt held
          rw [trimmed_read, map_some] at value_read
          exact exists_chimp128Read reader flag_read value_read ends
        · rw [if_neg windowed] at reads inside
          by_cases reuses : (leadClass (state.xor value)).2 = state.stored
          · rw [if_pos reuses] at reads
            obtain ⟨flag_read, behind⟩ := getFlag_field (by decide) reads
            obtain ⟨found, low_read, -, ends⟩ := exists_getLow within behind (by
              rw [stored_eq follows.stored reuses]
              exact (List.length_take_le' _ _).trans_eq (length_field _ _))
            have value_read := chimp128Value_low reader { source with pos := source.pos + 2 }
            rw [low_read, map_some] at value_read
            exact exists_chimp128Read reader flag_read value_read ends
          · rw [if_neg reuses] at reads
            obtain ⟨flag_read, behind⟩ := getFlag_field (by decide) reads
            obtain ⟨found, fresh_read, -, ends⟩ := exists_getFresh behind
            have value_read := chimp128Value_fresh reader { source with pos := source.pos + 2 }
            rw [fresh_read, map_some] at value_read
            exact exists_chimp128Read reader flag_read value_read ends

/-- Each codec gives back its column, in as many bytes as it is charged. -/
theorem columns_round_trip :
    (∀ dods : List I64, decodeGorillaDods (encodeGorillaDods dods) dods.length = dods ∧
      (encodeGorillaDods dods).length = gorillaBytes dods) ∧
    ∀ values : List U64,
      (xorF64Decode (xorF64Encode values) values.length = some values ∧
        (xorF64Encode values).length = xorF64Bytes values) ∧
      (chimpF64Decode (chimpF64Encode values) values.length = some values ∧
        (chimpF64Encode values).length = chimpF64Bytes values) ∧
      chimp128F64Decode (chimp128F64Encode values) values.length = some values ∧
        (chimp128F64Encode values).length = chimp128F64Bytes values := by
  refine ⟨fun dods => ⟨decode_encodeGorillaDods dods, length_encodeGorillaDods dods⟩,
    fun values => ⟨⟨?_, rfl⟩, ⟨?_, rfl⟩, ?_, rfl⟩⟩
  · exact xorCodec_laws.decode_encode values
  · exact chimpCodec_laws.decode_encode values
  · exact chimp128Codec_laws.decode_encode values

/-- A prefix of a column decodes in the first codec.  In the others it does exactly when it does not
end in a trimmed value, behind the flag and with only zeros of the header. -/
theorem decode_prefix_isSome_iff (values : List U64) (kept : Nat) :
    (xorF64Decode ((xorF64Encode values).take kept) values.length).isSome = true ∧
    ((chimpF64Decode ((chimpF64Encode values).take kept) values.length).isSome = true ↔
      ∀ cut ∈ chimpCodec.cutAt chimpLayout values kept, ¬cut.1.Faults cut.2.1 cut.2.2) ∧
    ((chimp128F64Decode ((chimp128F64Encode values).take kept) values.length).isSome = true ↔
      ∀ cut ∈ chimp128Codec.cutAt chimp128Layout values kept, ¬cut.1.Faults cut.2.1 cut.2.2) := by
  refine ⟨?_, ?_, ?_⟩
  · exact (xorCodec_laws.decode_take_isSome_iff xorLayout_truncates values kept).mpr
      fun _ _ fault => fault
  · exact chimpCodec_laws.decode_take_isSome_iff chimpLayout_truncates values kept
  · exact chimp128Codec_laws.decode_take_isSome_iff chimp128Layout_truncates values kept

/-- One and minus one: the second value is its sign bit, and nine bytes end in its header. -/
theorem sign_flip_prefix_faults :
    chimpF64Decode ((chimpF64Encode [0x3FF0000000000000, 0xBFF0000000000000]).take 9) 2 = none ∧
    chimp128F64Decode
      ((chimp128F64Encode [0x3FF0000000000000, 0xBFF0000000000000]).take 9) 2 = none := by
  decide +kernel

end WeftDb.Codec
