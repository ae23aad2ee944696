import WeftDb.Codec.ChimpParts

/-!
# The Chimp codec of value columns

A value is XORed with the one before it, and a flag of two bits says how the result is written:
not at all, trimmed, behind the class of an earlier value, or behind its own.
-/

namespace WeftDb.Codec

open BitFields StepCodec

/-- What writer and reader remember: the last value, and the class which was last written. -/
structure ChimpState where
  prev : U64
  stored : Nat

def chimpWrite (state : ChimpState) (w : BitWriter) (value : U64) : ChimpState × BitWriter :=
  let xor := state.prev ^^^ value
  if xor = 0 then ({ state with prev := value }, w.putBits 0 2)
  else
    let (leadCode, leading) := leadClass xor
    if chimpTrailingThreshold < trailingZeros xor then
      (⟨value, leading⟩, putTrimmed (w.putBits 1 2) xor)
    else if leading = state.stored then
      ({ state with prev := value }, (w.putBits 2 2).putBits xor (64 - leading))
    else
      (⟨value, leading⟩,
        ((w.putBits 3 2).putBits (BitVec.ofNat 64 leadCode) 3).putBits xor (64 - leading))

/-- The result behind a flag, and the class which is remembered then. -/
def chimpXor (flag : U64) (stored : Nat) (r : BitReader) : Option (U64 × Nat × BitReader) :=
  if flag = 0 then some (0, stored, r)
  else if flag = 1 then getTrimmed r
  else if flag = 2 then getLow stored r
  else getFresh r

def chimpRead (state : ChimpState) (r : BitReader) : Option (U64 × ChimpState × BitReader) :=
  let (flag, r) := r.getBits 2
  (chimpXor flag state.stored r).map fun (xor, stored, r) =>
    (state.prev ^^^ xor, ⟨state.prev ^^^ xor, stored⟩, r)

def chimpCodec : ValueCodec ChimpState ChimpState where
  -- No class is established yet.
  startWriter first := ⟨first, u32Max⟩
  write := chimpWrite
  startReader first := ⟨first, 0⟩
  read := chimpRead

def chimpF64Encode (values : List U64) : List U8 := chimpCodec.encode values

def chimpF64Decode (bytes : List U8) (count : Nat) : Option (List U64) :=
  chimpCodec.decode bytes count

def chimpF64Bytes (values : List U64) : Nat := (chimpF64Encode values).length

namespace ChimpState

/-- The bits of a value behind a state. -/
def field (state : ChimpState) (value : U64) : List Bool :=
  let xor := state.prev ^^^ value
  if xor = 0 then BitFields.field 0 2
  else if chimpTrailingThreshold < trailingZeros xor then BitFields.field 1 2 ++ trimmedField xor
  else if (leadClass xor).2 = state.stored then BitFields.field 2 2 ++ lowField xor
  else BitFields.field 3 2 ++ freshField xor

/-- The state behind a value. -/
def next (state : ChimpState) (value : U64) : ChimpState :=
  let xor := state.prev ^^^ value
  if xor = 0 then { state with prev := value } else ⟨value, (leadClass xor).2⟩

/-- Whether a value behind a state is written without its trailing zeros. -/
def Trims (state : ChimpState) (value : U64) : Prop :=
  state.prev ^^^ value ≠ 0 ∧ chimpTrailingThreshold < trailingZeros (state.prev ^^^ value)

instance (state : ChimpState) (value : U64) : Decidable (state.Trims value) :=
  inferInstanceAs (Decidable (_ ∧ _))

/-- Whether a prefix of a value's bits keeps the flag of a trimmed result, and nothing but zeros of
the header. -/
def Faults (state : ChimpState) (value : U64) (kept : Nat) : Prop :=
  state.Trims value ∧ 2 ≤ kept ∧ HeaderLost (state.prev ^^^ value) (kept - 2)

instance (state : ChimpState) (value : U64) (kept : Nat) : Decidable (state.Faults value kept) :=
  inferInstanceAs (Decidable (_ ∧ _))

/-- A reader which follows the writer has its last value and its class, and in any case a class. -/
structure Follows (state reader : ChimpState) : Prop where
  prev : reader.prev = state.prev
  within : reader.stored ≤ 24
  stored : state.stored = u32Max ∨ reader.stored = state.stored

end ChimpState

def chimpLayout : Layout U64 ChimpState where
  field := ChimpState.field
  next := ChimpState.next

theorem chimpLayout_emits : Emits chimpLayout chimpWrite BitWriter.Written where
  next state sink value := by
    change (chimpWrite state sink value).1 = state.next value
    rw [chimpWrite, ChimpState.next]
    dsimp only
    by_cases same : state.prev ^^^ value = 0
    · rw [if_pos same, if_pos same]
    · rw [if_neg same, if_neg same]
      split
      · rfl
      · split
        · rename_i reuses
          rw [← reuses]
        · rfl
  write_field {state sink value bits} written := by
    change (chimpWrite state sink value).2.Written (bits ++ state.field value)
    rw [chimpWrite, ChimpState.field]
    dsimp only
    generalize state.prev ^^^ value = xor
    have narrow : 64 - (leadClass xor).2 ≤ 64 := Nat.sub_le _ _
    split
    · exact written.putBits 0 (by decide)
    · split
      · have flag_written := written.putBits 1 (by decide : 2 ≤ 64)
        rw [← List.append_assoc]
        exact written_putTrimmed flag_written
      · split
        · have flag_written := written.putBits 2 (by decide : 2 ≤ 64)
          rw [← List.append_assoc]
          exact flag_written.putBits xor narrow
        · have flag_written := written.putBits 3 (by decide : 2 ≤ 64)
          rw [freshField, ← List.append_assoc, ← List.append_assoc]
          exact (flag_written.putNumber _ (by decide)).putBits xor narrow

variable {r behind : BitReader}

theorem chimpRead_of_xor (state : ChimpState) {flag : U64}
    (flag_read : r.getBits 2 = (flag, behind)) {xor : U64} {stored : Nat} {rest : BitReader}
    (found : chimpXor flag state.stored behind = some (xor, stored, rest)) :
    chimpRead state r = some (state.prev ^^^ xor, ⟨state.prev ^^^ xor, stored⟩, rest) := by
  rw [chimpRead, flag_read]
  dsimp only
  rw [found, Option.map_some]

theorem chimpLayout_inverts :
    Inverts chimpLayout chimpRead BitReader.Reads ChimpState.Follows where
  read_field {state reader source value rest} follows reads := by
    change source.Reads (state.field value ++ rest) at reads
    change ∃ reader' source', _ ∧ ChimpState.Follows (state.next value) reader' ∧ _
    have value_eq : reader.prev ^^^ (state.prev ^^^ value) = value := by
      rw [follows.prev, ← BitVec.xor_assoc, BitVec.xor_self, BitVec.zero_xor]
    rw [ChimpState.field] at reads
    rw [ChimpState.next]
    generalize state.prev ^^^ value = xor at reads value_eq ⊢
    have class_le := (leadClass_spec xor).2.2.2
    by_cases same : xor = 0
    · rw [if_pos same] at reads
      obtain ⟨flag_read, behind⟩ := reads.getBits_field (by decide) (by decide)
      have found := chimpRead_of_xor reader flag_read rfl
      rw [← same, value_eq] at found
      rw [if_pos same]
      exact ⟨_, _, found, ⟨rfl, follows.within, follows.stored⟩, behind⟩
    · rw [if_neg same] at reads
      rw [if_neg same]
      by_cases trims : chimpTrailingThreshold < trailingZeros xor
      · rw [if_pos trims, List.append_assoc] at reads
        obtain ⟨flag_read, behind⟩ := reads.getBits_field (by decide) (by decide)
        obtain ⟨r', trimmed_read, behind⟩ := getTrimmed_field same (Nat.zero_lt_of_lt trims) behind
        have found := chimpRead_of_xor reader flag_read trimmed_read
        rw [value_eq] at found
        exact ⟨_, _, found, ⟨rfl, class_le, .inr rfl⟩, behind⟩
      · rw [if_neg trims] at reads
        by_cases reuses : (leadClass xor).2 = state.stored
        · rw [if_pos reuses, List.append_assoc] at reads
          obtain ⟨flag_read, behind⟩ := reads.getBits_field (by decide) (by decide)
          obtain ⟨r', low_read, behind⟩ := getLow_field behind
          have held := stored_eq follows.stored reuses
          rw [← held] at low_read
          have found := chimpRead_of_xor reader flag_read low_read
          rw [value_eq] at found
          exact ⟨_, _, found, ⟨rfl, follows.within, .inr held⟩, behind⟩
        · rw [if_neg reuses, List.append_assoc] at reads
          obtain ⟨flag_read, behind⟩ := reads.getBits_field (by decide) (by decide)
          obtain ⟨r', fresh_read, behind⟩ := getFresh_field behind
          have found := chimpRead_of_xor reader flag_read fresh_read
          rw [value_eq] at found
          exact ⟨_, _, found, ⟨rfl, class_le, .inr rfl⟩, behind⟩

theorem chimpCodec_laws : chimpCodec.Laws chimpLayout ChimpState.Follows where
  emits := chimpLayout_emits
  inverts := chimpLayout_inverts
  starts _ := ⟨rfl, Nat.zero_le _, .inl rfl⟩

theorem exists_chimpRead (state : ChimpState) {flag : U64}
    (flag_read : r.getBits 2 = (flag, behind)) {found : U64 × Nat × BitReader}
    (xor_read : chimpXor flag state.stored behind = some found) (ends : found.2.2.Reads []) :
    ∃ found, chimpRead state r = some found ∧ found.2.2.Reads [] :=
  ⟨_, chimpRead_of_xor state flag_read xor_read, ends⟩

theorem ChimpState.exists_flag (state : ChimpState) (value : U64) :
    ∃ flag more, state.field value = BitFields.field flag 2 ++ more := by
  rw [ChimpState.field]
  split
  · exact ⟨0, [], (List.append_nil _).symm⟩
  · split
    · exact ⟨1, _, rfl⟩
    · split
      · exact ⟨2, _, rfl⟩
      · exact ⟨3, _, rfl⟩

/-- A column whose end is missing decodes, unless it ends in the header of a trimmed result of
which only zeros are left. -/
theorem chimpLayout_truncates : Truncates chimpLayout chimpRead BitReader.Reads
    ChimpState.Follows ChimpState.Faults where
  exhausted reader {source} reads := by
    have flag_read := BitReader.getBits_eq reads (by decide : 2 ≤ 64)
    exact exists_chimpRead reader flag_read rfl (reads.drop 2)
  faults {state reader source value kept} follows inside reads fault := by
    change source.Reads ((state.field value).take kept) at reads
    obtain ⟨⟨changed, trims⟩, flag_kept, lost⟩ := fault
    obtain ⟨kept, rfl⟩ := Nat.exists_eq_add_of_le' flag_kept
    rw [ChimpState.field] at reads
    rw [if_neg changed, if_pos trims] at reads
    obtain ⟨flag_read, behind⟩ := getFlag_field (by decide) reads
    rw [chimpRead, flag_read]
    dsimp only
    rw [show chimpXor (BitVec.ofNat 64 1) reader.stored = getTrimmed from rfl,
      getTrimmed_lost behind lost, Option.map_none]
  survives {state reader source value kept} follows inside reads survives := by
    change source.Reads ((state.field value).take kept) at reads
    change kept < (state.field value).length at inside
    have within := follows.within
    by_cases short : kept < 2
    · obtain ⟨flag, more, shape⟩ := state.exists_flag value
      rw [shape] at reads
      obtain ⟨cut, rfl | rfl, flag_read, behind⟩ := getFlag_cut short reads
      · exact exists_chimpRead reader flag_read rfl behind
      · obtain ⟨found, low_read, -, ends⟩ := exists_getLow within behind (Nat.zero_le _)
        exact exists_chimpRead reader flag_read low_read ends
    · obtain ⟨kept, rfl⟩ := Nat.exists_eq_add_of_le' (Nat.le_of_not_lt short)
      have held (trims : state.Trims value) : ¬HeaderLost (state.prev ^^^ value) kept :=
        fun lost => survives ⟨trims, Nat.le_add_left _ _, lost⟩
      rw [ChimpState.Trims] at held
      rw [ChimpState.field] at reads inside
      generalize state.prev ^^^ value = xor at reads inside held
      by_cases same : xor = 0
      · rw [if_pos same, length_field] at inside
        omega
      · rw [if_neg same] at reads inside
        by_cases trims : chimpTrailingThreshold < trailingZeros xor
        · rw [if_pos trims] at reads
          obtain ⟨flag_read, behind⟩ := getFlag_field (by decide) reads
          obtain ⟨found, trimmed_read, -, ends⟩ := exists_getTrimmed same (Nat.zero_lt_of_lt trims)
            behind (held ⟨same, trims⟩)
          exact exists_chimpRead reader flag_read trimmed_read ends
        · rw [if_neg trims] at reads inside
          by_cases reuses : (leadClass xor).2 = state.stored
          · rw [if_pos reuses] at reads
            obtain ⟨flag_read, behind⟩ := getFlag_field (by decide) reads
            obtain ⟨found, low_read, -, ends⟩ := exists_getLow within behind (by
              rw [stored_eq follows.stored reuses]
              exact (List.length_take_le' _ _).trans_eq (length_field _ _))
            exact exists_chimpRead reader flag_read low_read ends
          · rw [if_neg reuses] at reads
            obtain ⟨flag_read, behind⟩ := getFlag_field (by decide) reads
            obtain ⟨found, fresh_read, -, ends⟩ := exists_getFresh behind
            exact exists_chimpRead reader flag_read fresh_read ends

end WeftDb.Codec
