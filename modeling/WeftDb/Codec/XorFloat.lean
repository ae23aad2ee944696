import WeftDb.Codec.ValueCodec

/-!
# The Gorilla codec of value columns

A value is XORed with the one before it.  What lies between the zeros of the result is written in
the window of an earlier value, if it fits there, or behind a header which gives its own window.
-/

namespace WeftDb.Codec

open BitFields StepCodec

/-- What the encoder remembers: the last value, and the window in which bits were last written. -/
structure XorWriter where
  prev : U64
  leading : Nat
  trailing : Nat

/-- What the decoder remembers. -/
structure XorReader where
  prev : U64
  leading : Nat
  trailing : Nat

/-- Whether the bits of a value are written in the window of an earlier one. -/
def XorWriter.Reuses (state : XorWriter) (xor : U64) : Prop :=
  state.leading ≠ u32Max ∧ state.leading ≤ min (leadingZeros xor) 31 ∧
    state.trailing ≤ trailingZeros xor

instance (state : XorWriter) (xor : U64) : Decidable (state.Reuses xor) :=
  inferInstanceAs (Decidable (_ ∧ _))

def xorWrite (state : XorWriter) (w : BitWriter) (value : U64) : XorWriter × BitWriter :=
  let xor := state.prev ^^^ value
  if xor = 0 then ({ state with prev := value }, w.putBit 0)
  else
    let w := w.putBit 1
    let leading := min (leadingZeros xor) 31
    let trailing := trailingZeros xor
    if state.Reuses xor then
      let w := w.putBit 0
      let significant := 64 - state.leading - state.trailing
      ({ state with prev := value }, w.putBits (xor >>> state.trailing) significant)
    else
      let w := w.putBit 1
      let significant := 64 - leading - trailing
      let w := w.putBits (BitVec.ofNat 64 leading) 5
      let w := w.putBits (BitVec.ofNat 64 (significant - 1)) 6
      (⟨value, leading, trailing⟩, w.putBits (xor >>> trailing) significant)

/-- The window of a changed value: its leading zeros and its significant bits. -/
def xorWindow (state : XorReader) (r : BitReader) : Option (Nat × Nat × BitReader) :=
  let (fresh, r) := r.getBit
  if fresh = 0 then
    (restOfWord state.leading state.trailing).map fun significant =>
      (state.leading, significant, r)
  else
    let (leading, r) := r.getBits 5
    let (significant, r) := r.getBits 6
    some (leading.toNat, significant.toNat + 1, r)

def xorRead (state : XorReader) (r : BitReader) : Option (U64 × XorReader × BitReader) :=
  let (changed, r) := r.getBit
  if changed = 0 then some (state.prev, state, r)
  else do
    let (leading, significant, r) ← xorWindow state r
    let trailing ← restOfWord leading significant
    let (meaningful, r) := r.getBits significant
    let xor ← checkedShl meaningful trailing
    return (state.prev ^^^ xor, ⟨state.prev ^^^ xor, leading, trailing⟩, r)

def xorCodec : ValueCodec XorWriter XorReader where
  -- No window is established yet.
  startWriter first := ⟨first, u32Max, 0⟩
  write := xorWrite
  startReader first := ⟨first, 0, 0⟩
  read := xorRead

def xorF64Encode (values : List U64) : List U8 := xorCodec.encode values

def xorF64Decode (bytes : List U8) (count : Nat) : Option (List U64) :=
  xorCodec.decode bytes count

def xorF64Bytes (values : List U64) : Nat := (xorF64Encode values).length

namespace XorWriter

/-- The header of a window. -/
def header (leading significant : Nat) : List Bool :=
  field leading 5 ++ field (significant - 1) 6

/-- The bits of a value behind a state. -/
def field (state : XorWriter) (value : U64) : List Bool :=
  let xor := state.prev ^^^ value
  let leading := min (leadingZeros xor) 31
  let trailing := trailingZeros xor
  let significant := 64 - leading - trailing
  if xor = 0 then [false]
  else if state.Reuses xor then
    true :: false :: BitFields.field (xor >>> state.trailing).toNat
      (64 - state.leading - state.trailing)
  else
    true :: true :: (header leading significant ++
      BitFields.field (xor >>> trailing).toNat significant)

/-- The state behind a value. -/
def next (state : XorWriter) (value : U64) : XorWriter :=
  let xor := state.prev ^^^ value
  if xor = 0 ∨ state.Reuses xor then { state with prev := value }
  else ⟨value, min (leadingZeros xor) 31, trailingZeros xor⟩

end XorWriter

def xorLayout : Layout U64 XorWriter where
  field := XorWriter.field
  next := XorWriter.next

/-- The decoder has the encoder's last value and window, and a window which lies in a word. -/
structure XorReader.Follows (state : XorWriter) (reader : XorReader) : Prop where
  prev : reader.prev = state.prev
  within : reader.leading + reader.trailing < 64
  window : state.leading = u32Max ∨
    reader.leading = state.leading ∧ reader.trailing = state.trailing

theorem xorLayout_emits : Emits xorLayout xorWrite BitWriter.Written where
  next state sink value := by
    change (xorWrite state sink value).1 = state.next value
    rw [xorWrite, XorWriter.next]
    dsimp only
    by_cases same : state.prev ^^^ value = 0
    · rw [if_pos same, if_pos (.inl same)]
    · rw [if_neg same]
      by_cases reuses : state.Reuses (state.prev ^^^ value)
      · rw [if_pos reuses, if_pos (.inr reuses)]
      · rw [if_neg reuses, if_neg (not_or.mpr ⟨same, reuses⟩)]
  write_field {state sink value bits} written := by
    have narrow (lead trail : Nat) : 64 - lead - trail ≤ 64 := by omega
    change (xorWrite state sink value).2.Written (bits ++ state.field value)
    rw [xorWrite, XorWriter.field]
    dsimp only
    generalize state.prev ^^^ value = xor
    split
    · exact written.putBit 0
    · have changed := written.putBit 1
      split
      · have bits_written := (changed.putBit 0).putBits (xor >>> state.trailing)
          (narrow state.leading state.trailing)
        simpa using bits_written
      · generalize min (leadingZeros xor) 31 = leading
        have header_written := ((changed.putBit 1).putNumber leading (by decide : 5 ≤ 64)).putNumber
          (64 - leading - trailingZeros xor - 1) (by decide : 6 ≤ 64)
        have bits_written := header_written.putBits (xor >>> trailingZeros xor)
          (narrow leading (trailingZeros xor))
        simpa [XorWriter.header] using bits_written

variable {reader : XorReader} {r behind opened : BitReader} {leading significant : Nat}

theorem XorReader.Follows.window_eq {state : XorWriter} (follows : Follows state reader) {xor : U64}
    (reuses : state.Reuses xor) :
    reader.leading = state.leading ∧ reader.trailing = state.trailing :=
  follows.window.resolve_left reuses.1

theorem xorRead_of_window (changed : r.getBit = (1, opened))
    (window : xorWindow reader opened = some (leading, significant, behind))
    (positive : 0 < significant) (within : leading + significant ≤ 64) :
    xorRead reader r =
      some (reader.prev ^^^ ((behind.getBits significant).1 <<< (64 - leading - significant)),
        ⟨reader.prev ^^^ ((behind.getBits significant).1 <<< (64 - leading - significant)), leading,
          64 - leading - significant⟩, (behind.getBits significant).2) := by
  rw [xorRead, changed]
  dsimp only
  rw [if_neg (by decide), window]
  simp only [Option.bind_eq_bind, Option.bind_some]
  rw [restOfWord_eq_some within, Option.bind_some, checkedShl_eq_some _ (by omega),
    Option.bind_some]
  rfl

theorem xorWindow_last (last : r.getBit = (0, behind))
    (within : reader.leading + reader.trailing < 64) :
    xorWindow reader r =
      some (reader.leading, 64 - reader.leading - reader.trailing, behind) := by
  rw [xorWindow, last]
  dsimp only
  rw [if_pos rfl, restOfWord_eq_some within.le, Option.map_some]

theorem xorWindow_fresh (reader : XorReader) {middle : BitReader} {leading significant : U64}
    (fresh : r.getBit = (1, opened)) (leading_read : opened.getBits 5 = (leading, middle))
    (significant_read : middle.getBits 6 = (significant, behind)) :
    xorWindow reader r = some (leading.toNat, significant.toNat + 1, behind) := by
  rw [xorWindow, fresh]
  dsimp only
  rw [if_neg (by decide), leading_read]
  dsimp only
  rw [significant_read]

theorem meaningful_back {xor : U64} {lead trail : Nat} (trail_le : trail ≤ trailingZeros xor)
    (within : lead + trail < 64) :
    BitVec.ofNat 64 (xor >>> trail).toNat <<< (64 - lead - (64 - lead - trail)) = xor := by
  rw [BitVec.ofNat_toNat, BitVec.setWidth_eq, show 64 - lead - (64 - lead - trail) = trail by omega]
  exact shift_back trail_le

theorem xorLayout_inverts :
    Inverts xorLayout xorRead BitReader.Reads XorReader.Follows where
  read_field {state reader source value rest} follows reads := by
    change source.Reads (state.field value ++ rest) at reads
    change ∃ reader' source', _ ∧ XorReader.Follows (state.next value) reader' ∧ _
    have prev := follows.prev
    have within := follows.within
    rw [XorWriter.field] at reads
    rw [XorWriter.next]
    have value_eq : reader.prev ^^^ (state.prev ^^^ value) = value := by
      rw [prev, ← BitVec.xor_assoc, BitVec.xor_self, BitVec.zero_xor]
    generalize state.prev ^^^ value = xor at reads value_eq ⊢
    by_cases same : xor = 0
    · rw [if_pos same] at reads
      obtain ⟨unchanged, behind⟩ := reads.getBit_cons
      rw [if_pos (.inl same)]
      have held : reader.prev = value := by
        rw [← value_eq, same]
        exact BitVec.xor_zero.symm
      refine ⟨reader, _, ?_, ⟨held, within, follows.window⟩, behind⟩
      rw [xorRead, unchanged]
      dsimp only
      rw [if_pos (by rfl), held]
    · rw [if_neg same] at reads
      by_cases reuses : state.Reuses xor
      · obtain ⟨leading_eq, trailing_eq⟩ := follows.window_eq reuses
        have lead_le := reuses.2.1
        have trail_le := reuses.2.2
        rw [if_pos reuses, List.cons_append, List.cons_append, ← leading_eq, ← trailing_eq] at reads
        obtain ⟨changed, reads⟩ := reads.getBit_cons
        obtain ⟨last, reads⟩ := reads.getBit_cons
        rw [← leading_eq] at lead_le
        rw [← trailing_eq] at trail_le
        obtain ⟨bits_read, behind⟩ := reads.getBits_field (by omega)
          (toNat_shift_lt (lead_le.trans (Nat.min_le_left _ _)) within.le)
        have found := xorRead_of_window changed (xorWindow_last last within) (by omega)
          (by omega)
        rw [bits_read] at found
        dsimp only at found
        rw [meaningful_back trail_le within, value_eq] at found
        rw [if_pos (.inr reuses)]
        refine ⟨_, _, found, ⟨rfl, ?_, .inr ⟨leading_eq, ?_⟩⟩, behind⟩
        · dsimp only
          omega
        · dsimp only
          omega
      · have zeros := leadingZeros_add_trailingZeros same
        rw [if_neg reuses] at reads
        rw [if_neg (not_or.mpr ⟨same, reuses⟩)]
        generalize leading_eq : min (leadingZeros xor) 31 = leading at reads ⊢
        generalize trailing_eq : trailingZeros xor = trailing at reads zeros ⊢
        rw [XorWriter.header, List.cons_append, List.cons_append, List.append_assoc,
          List.append_assoc] at reads
        obtain ⟨changed, reads⟩ := reads.getBit_cons
        obtain ⟨fresh, reads⟩ := reads.getBit_cons
        obtain ⟨leading_read, reads⟩ := reads.getBits_field (by decide) (by omega)
        obtain ⟨significant_read, reads⟩ := reads.getBits_field (by decide) (by omega)
        obtain ⟨bits_read, behind⟩ := reads.getBits_field (by omega)
          (toNat_shift_lt (by omega) (by omega))
        have window := xorWindow_fresh reader fresh leading_read significant_read
        rw [toNat_number (by omega), toNat_number (by omega), Nat.sub_add_cancel (by omega)]
          at window
        have found := xorRead_of_window changed window (by omega) (by omega)
        rw [bits_read] at found
        dsimp only at found
        rw [meaningful_back trailing_eq.ge (by omega), value_eq] at found
        refine ⟨_, _, found, ⟨rfl, ?_, .inr ⟨rfl, ?_⟩⟩, behind⟩
        · dsimp only
          omega
        · dsimp only
          omega

theorem xorCodec_laws : xorCodec.Laws xorLayout XorReader.Follows where
  emits := xorLayout_emits
  inverts := xorLayout_inverts
  starts _ := ⟨rfl, Nat.succ_pos 63, .inl rfl⟩

theorem exists_xorRead {bits : List Bool} (changed : r.getBit = (1, opened))
    (window : xorWindow reader opened = some (leading, significant, behind))
    (positive : 0 < significant) (within : leading + significant ≤ 64) (reads : behind.Reads bits)
    (ends : bits.length ≤ significant) :
    ∃ found, xorRead reader r = some found ∧ found.2.2.Reads [] :=
  ⟨_, xorRead_of_window changed window positive within, reads.getBits_end (by omega) ends⟩

/-- A column whose end is missing decodes: a shorter header gives a smaller window. -/
theorem xorLayout_truncates :
    Truncates xorLayout xorRead BitReader.Reads XorReader.Follows fun _ _ _ => False where
  faults _ _ _ fault := fault.elim
  exhausted reader {source} reads := by
    obtain ⟨unchanged, behind⟩ := reads.getBit_nil
    refine ⟨(reader.prev, reader, _), ?_, behind⟩
    rw [xorRead, unchanged]
    rfl
  survives {state reader source value kept} follows inside reads _ := by
    change source.Reads ((state.field value).take kept) at reads
    change kept < (state.field value).length at inside
    have within := follows.within
    cases kept with
    | zero =>
        obtain ⟨unchanged, behind⟩ := reads.getBit_nil
        refine ⟨(reader.prev, reader, _), ?_, behind⟩
        rw [xorRead, unchanged]
        rfl
    | succ kept =>
        rw [XorWriter.field] at reads inside
        generalize state.prev ^^^ value = xor at reads inside
        by_cases same : xor = 0
        · rw [if_pos same, List.length_singleton] at inside
          omega
        · rw [if_neg same] at reads inside
          by_cases reuses : state.Reuses xor
          · obtain ⟨leading_eq, trailing_eq⟩ := follows.window_eq reuses
            rw [if_pos reuses, List.take_succ_cons, ← leading_eq, ← trailing_eq] at reads
            obtain ⟨changed, reads⟩ := reads.getBit_cons
            cases kept with
            | zero =>
                obtain ⟨last, reads⟩ := reads.getBit_nil
                exact exists_xorRead changed (xorWindow_last last within) (by omega) (by omega)
                  reads (Nat.zero_le _)
            | succ kept =>
                obtain ⟨last, reads⟩ := reads.getBit_cons
                exact exists_xorRead changed (xorWindow_last last within) (by omega) (by omega)
                  reads ((List.length_take_le' _ _).trans_eq (length_field _ _))
          · have zeros := leadingZeros_add_trailingZeros same
            rw [if_neg reuses, List.take_succ_cons] at reads
            generalize leading_eq : min (leadingZeros xor) 31 = leading at reads
            generalize trailing_eq : trailingZeros xor = trailing at reads zeros
            obtain ⟨changed, reads⟩ := reads.getBit_cons
            cases kept with
            | zero =>
                obtain ⟨last, reads⟩ := reads.getBit_nil
                exact exists_xorRead changed (xorWindow_last last within) (by omega) (by omega)
                  reads (Nat.zero_le _)
            | succ kept =>
                obtain ⟨fresh, reads⟩ := reads.getBit_cons
                rw [XorWriter.header, List.append_assoc] at reads
                obtain ⟨leading_read, reads⟩ := reads.getBits_take (by decide : 5 ≤ 64)
                rw [List.drop_left' (length_field _ _)] at reads
                obtain ⟨significant_read, reads⟩ := reads.getBits_take (by decide : 6 ≤ 64)
                rw [List.drop_left' (length_field _ _)] at reads
                generalize bits_eq : field (xor >>> trailing).toNat (64 - leading - trailing) = bits
                  at leading_read significant_read reads
                have length_eq : bits.length = 64 - leading - trailing := by
                  rw [← bits_eq, length_field]
                -- Neither number of the header is more than it was.
                have leading_le := read_take_le 5 kept (field leading 5 ++
                  (field (64 - leading - trailing - 1) 6 ++ bits))
                rw [read_field (by omega)] at leading_le
                have significant_le := read_take_le 6 (kept - 5)
                  (field (64 - leading - trailing - 1) 6 ++ bits)
                rw [read_field (by omega)] at significant_le
                have whole (enough : 6 ≤ kept - 5) := read_take enough
                  (field (64 - leading - trailing - 1) 6 ++ bits)
                rw [read_field (by omega)] at whole
                have window := xorWindow_fresh reader fresh leading_read significant_read
                rw [toNat_number (by omega), toNat_number (by omega)] at window
                refine exists_xorRead changed window (Nat.succ_pos _) (by omega) reads ?_
                rw [List.length_take, length_eq]
                omega

end WeftDb.Codec
