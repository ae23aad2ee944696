import WeftDb.Codec.ValueCodec

/-!
# What the Chimp codecs write behind a flag

Leading zeros are rounded down to one of eight counts, a class.  Trailing zeros are trimmed where
there are many of them, behind a header of a class and a length; otherwise the bits behind the
class are written.  A decoder which finds nothing but zeros in a header shifts by the width of a
word.
-/

namespace WeftDb.Codec

open BitFields StepCodec Option

/-- The counts of leading zeros which a code of three bits can name. -/
def chimpLeadingRepr : List Nat := [0, 8, 12, 16, 18, 20, 22, 24]

/-- More trailing zeros than this are trimmed. -/
def chimpTrailingThreshold : Nat := 6

/-- The leading zeros which a code names. -/
def chimpRepr (code : Nat) : Nat := chimpLeadingRepr.getD code 0

/-- A count of leading zeros rounded down: the code and the count which it names. -/
def chimpLeadingClass (lead : Nat) : Nat × Nat :=
  let idx := (List.range 8).foldl (fun idx i => if chimpRepr i ≤ lead then i else idx) 0
  (idx, chimpRepr idx)

theorem chimpLeadingClass_spec : ∀ lead ≤ 64, (chimpLeadingClass lead).1 < 8 ∧
    chimpRepr (chimpLeadingClass lead).1 = (chimpLeadingClass lead).2 ∧
      (chimpLeadingClass lead).2 ≤ lead ∧ (chimpLeadingClass lead).2 ≤ 24 := by
  decide

theorem chimpRepr_le : ∀ code < 8, ∀ less ≤ code,
    chimpRepr less ≤ chimpRepr code ∧ (chimpRepr less = 0 → less = 0) ∧ chimpRepr less ≤ 24 := by
  decide

/-- The code and the count of the leading zeros of a word. -/
def leadClass (xor : U64) : Nat × Nat := chimpLeadingClass (leadingZeros xor)

theorem leadClass_spec (xor : U64) : (leadClass xor).1 < 8 ∧
    chimpRepr (leadClass xor).1 = (leadClass xor).2 ∧ (leadClass xor).2 ≤ leadingZeros xor ∧
      (leadClass xor).2 ≤ 24 :=
  chimpLeadingClass_spec _ BitVec.clz_le

/-- Write a result without its trailing zeros, behind its class and its length. -/
def putTrimmed (w : BitWriter) (xor : U64) : BitWriter :=
  let (leadCode, leading) := leadClass xor
  let trailing := trailingZeros xor
  let w := w.putBits (BitVec.ofNat 64 leadCode) 3
  let significant := 64 - leading - trailing
  let w := w.putBits (BitVec.ofNat 64 significant) 6
  w.putBits (xor >>> trailing) significant

/-- Read a class. -/
def getClass (r : BitReader) : Nat × BitReader :=
  let (leadCode, r) := r.getBits 3
  (chimpRepr (leadCode.toNat % 8), r)

/-- Read a trimmed result and its class. -/
def getTrimmed (r : BitReader) : Option (U64 × Nat × BitReader) := do
  let (leading, r) := getClass r
  let (significant, r) := r.getBits 6
  let trailing ← restOfWord leading significant.toNat
  let (meaningful, r) := r.getBits significant.toNat
  let xor ← checkedShl meaningful trailing
  return (xor, leading, r)

/-- Read the bits behind a class. -/
def getLow (leading : Nat) (r : BitReader) : Option (U64 × Nat × BitReader) :=
  (checkedSub 64 leading).map fun width =>
    let (xor, r) := r.getBits width
    (xor, leading, r)

/-- Read a class and the bits behind it. -/
def getFresh (r : BitReader) : Option (U64 × Nat × BitReader) :=
  let (leading, r) := getClass r
  getLow leading r

/-- The header of a trimmed result. -/
def trimmedHeader (xor : U64) : List Bool :=
  field (leadClass xor).1 3 ++ field (64 - (leadClass xor).2 - trailingZeros xor) 6

/-- The bits of a trimmed result. -/
def trimmedField (xor : U64) : List Bool :=
  trimmedHeader xor ++
    field (xor >>> trailingZeros xor).toNat (64 - (leadClass xor).2 - trailingZeros xor)

/-- The bits of a result behind its class. -/
def lowField (xor : U64) : List Bool := field xor.toNat (64 - (leadClass xor).2)

/-- The bits of a result with its class. -/
def freshField (xor : U64) : List Bool := field (leadClass xor).1 3 ++ lowField xor

/-- Whether nothing but zeros is left of the header of a trimmed result. -/
def HeaderLost (xor : U64) (kept : Nat) : Prop :=
  ∀ bit ∈ (trimmedHeader xor).take kept, bit = false

instance (xor : U64) (kept : Nat) : Decidable (HeaderLost xor kept) :=
  inferInstanceAs (Decidable (∀ bit ∈ _, _))

variable {xor : U64} {w : BitWriter} {r : BitReader} {bits rest : List Bool} {kept : Nat}
variable {leading : Nat}

theorem written_putTrimmed (written : w.Written bits) :
    (putTrimmed w xor).Written (bits ++ trimmedField xor) := by
  have parts := ((written.putNumber (leadClass xor).1 (by decide : 3 ≤ 64)).putNumber
    (64 - (leadClass xor).2 - trailingZeros xor) (by decide : 6 ≤ 64)).putBits
    (xor >>> trailingZeros xor) (show 64 - (leadClass xor).2 - trailingZeros xor ≤ 64 by omega)
  simpa [putTrimmed, trimmedField, trimmedHeader] using parts

theorem significant_bounds (changed : xor ≠ 0) (trimmed : 0 < trailingZeros xor) :
    0 < 64 - (leadClass xor).2 - trailingZeros xor ∧
      64 - (leadClass xor).2 - trailingZeros xor < 2 ^ 6 ∧
      (leadClass xor).2 + trailingZeros xor ≤ 64 := by
  have zeros := leadingZeros_add_trailingZeros changed
  have rounded := (leadClass_spec xor).2.2.1
  omega

theorem getClass_eq (reads : r.Reads bits) :
    getClass r = (chimpRepr (BitFields.read 3 bits), { r with pos := r.pos + 3 }) := by
  have small : BitFields.read 3 bits < 8 := read_lt 3 bits
  rw [getClass, BitReader.getBits_eq reads (by decide)]
  dsimp only
  rw [toNat_number (small.trans (by decide)), Nat.mod_eq_of_lt small]

theorem getTrimmed_eq (reads : r.Reads bits) :
    getTrimmed r =
      (restOfWord (chimpRepr (BitFields.read 3 bits))
          (BitFields.read 6 (bits.drop 3))).bind fun trailing =>
        let found := BitReader.getBits ⟨r.bytes, r.pos + 3 + 6⟩ (BitFields.read 6 (bits.drop 3))
        (checkedShl found.1 trailing).map fun xor =>
          (xor, chimpRepr (BitFields.read 3 bits), found.2) := by
  have small := read_lt 6 (bits.drop 3)
  rw [getTrimmed, getClass_eq reads]
  dsimp only
  rw [BitReader.getBits_eq (reads.drop 3) (by decide)]
  dsimp only
  rw [toNat_number (by omega)]
  simp only [bind_eq_bind, map_eq_bind]
  rfl

theorem getTrimmed_field (changed : xor ≠ 0) (trimmed : 0 < trailingZeros xor)
    (reads : r.Reads (trimmedField xor ++ rest)) :
    ∃ r', getTrimmed r = some (xor, (leadClass xor).2, r') ∧ r'.Reads rest := by
  obtain ⟨positive, narrow, fits⟩ := significant_bounds changed trimmed
  obtain ⟨code_lt, named, rounded, -⟩ := leadClass_spec xor
  have found := getTrimmed_eq reads
  rw [trimmedField, trimmedHeader, List.append_assoc, List.append_assoc] at reads found
  generalize significant_eq : 64 - (leadClass xor).2 - trailingZeros xor = significant at *
  have behind := (reads.drop 3).drop 6
  rw [List.drop_left' (length_field _ _), List.drop_left' (length_field _ _)] at behind
  rw [read_field code_lt, List.drop_left' (length_field _ _), read_field narrow, named,
    restOfWord_eq_some (by omega), bind_some] at found
  obtain ⟨bits_read, behind⟩ := behind.getBits_field (by omega)
    (significant_eq ▸ toNat_shift_lt rounded fits)
  dsimp only at found
  rw [bits_read, checkedShl_eq_some _ (by omega), map_some, BitVec.ofNat_toNat,
    BitVec.setWidth_eq, show 64 - (leadClass xor).2 - significant = trailingZeros xor by omega,
    shift_back (le_refl _)] at found
  exact ⟨_, found, behind⟩

theorem headerLost_iff :
    HeaderLost xor kept ↔ BitFields.read 9 ((trimmedField xor).take kept) = 0 := by
  have header : (trimmedField xor).take 9 = trimmedHeader xor :=
    List.take_left' (by rw [trimmedHeader, List.length_append, length_field, length_field])
  rw [read_eq_zero_iff, List.take_take, Nat.min_comm, ← List.take_take, header]
  rfl

theorem cut_header (changed : xor ≠ 0) (trimmed : 0 < trailingZeros xor) (kept : Nat) :
    chimpRepr (BitFields.read 3 ((trimmedField xor).take kept)) ≤ (leadClass xor).2 ∧
      BitFields.read 6 (((trimmedField xor).take kept).drop 3) ≤
        64 - (leadClass xor).2 - trailingZeros xor ∧
      (((trimmedField xor).take kept).drop 9).length ≤
        BitFields.read 6 (((trimmedField xor).take kept).drop 3) := by
  obtain ⟨positive, narrow, fits⟩ := significant_bounds changed trimmed
  obtain ⟨code_lt, named, -⟩ := leadClass_spec xor
  rw [trimmedField, trimmedHeader, List.append_assoc]
  generalize 64 - (leadClass xor).2 - trailingZeros xor = significant at *
  generalize bits_eq : field (xor >>> trailingZeros xor).toNat significant = bits
  have length_eq : bits.length = significant := by rw [← bits_eq, length_field]
  have code_le := read_take_le 3 kept (field (leadClass xor).1 3 ++ (field significant 6 ++ bits))
  rw [read_field code_lt] at code_le
  have significant_le := read_take_le 6 (kept - 3) (field significant 6 ++ bits)
  have whole (enough : 6 ≤ kept - 3) := read_take enough (field significant 6 ++ bits)
  rw [read_field narrow] at significant_le whole
  rw [List.drop_take, List.drop_left' (length_field _ _)]
  refine ⟨named ▸ (chimpRepr_le _ code_lt _ code_le).1, significant_le, ?_⟩
  rw [List.length_drop, List.length_take, List.length_append, List.length_append, length_field,
    length_field, length_eq]
  omega

theorem getTrimmed_lost (reads : r.Reads ((trimmedField xor).take kept))
    (lost : HeaderLost xor kept) : getTrimmed r = none := by
  have zeros := headerLost_iff.mp lost
  rw [read_add 3 6, Nat.add_eq_zero_iff] at zeros
  have code_zero : BitFields.read 3 ((trimmedField xor).take kept) = 0 := by omega
  rw [getTrimmed_eq reads, code_zero, zeros.2, show chimpRepr 0 = 0 from rfl,
    restOfWord_eq_some (by decide), bind_some]
  dsimp only
  rw [checkedShl_eq_none _ (by decide), map_none]

theorem exists_getTrimmed (changed : xor ≠ 0) (trimmed : 0 < trailingZeros xor)
    (reads : r.Reads ((trimmedField xor).take kept)) (held : ¬HeaderLost xor kept) :
    ∃ found, getTrimmed r = some found ∧ found.2.1 ≤ 24 ∧ found.2.2.Reads [] := by
  obtain ⟨positive, narrow, fits⟩ := significant_bounds changed trimmed
  obtain ⟨class_le, significant_le, ends⟩ := cut_header changed trimmed kept
  have rounded := (leadClass_spec xor).2.2.2
  have nonzero := headerLost_iff.not.mp held
  rw [read_add 3 6] at nonzero
  have behind := (reads.drop 3).drop 6
  rw [List.drop_drop] at behind
  have code_lt : BitFields.read 3 ((trimmedField xor).take kept) < 8 := read_lt 3 _
  have named := (chimpRepr_le _ code_lt _ (le_refl _)).2.1
  have found := getTrimmed_eq reads
  rw [restOfWord_eq_some (by omega), bind_some] at found
  dsimp only at found
  rw [checkedShl_eq_some _ (by omega), map_some] at found
  exact ⟨_, found, class_le.trans rounded, behind.getBits_end (by omega) ends⟩

theorem getLow_eq (within : leading ≤ 64) (r : BitReader) :
    getLow leading r =
      some ((r.getBits (64 - leading)).1, leading, (r.getBits (64 - leading)).2) := by
  rw [getLow, checkedSub, if_pos within, map_some]

theorem getLow_field (reads : r.Reads (lowField xor ++ rest)) :
    ∃ r', getLow (leadClass xor).2 r = some (xor, (leadClass xor).2, r') ∧ r'.Reads rest := by
  obtain ⟨-, -, rounded, class_le⟩ := leadClass_spec xor
  have narrow : xor.toNat < 2 ^ (64 - (leadClass xor).2) := by
    have fits := @toNat_shift_lt xor _ 0 rounded (by omega)
    rwa [BitVec.ushiftRight_zero, Nat.sub_zero] at fits
  obtain ⟨bits_read, behind⟩ := reads.getBits_field (Nat.sub_le _ _) narrow
  rw [getLow_eq (by omega), bits_read, BitVec.ofNat_toNat, BitVec.setWidth_eq]
  exact ⟨_, rfl, behind⟩

theorem exists_getLow (within : leading ≤ 24) (reads : r.Reads bits)
    (ends : bits.length ≤ 64 - leading) :
    ∃ found, getLow leading r = some found ∧ found.2.1 = leading ∧ found.2.2.Reads [] :=
  ⟨_, getLow_eq (by omega) r, rfl, reads.getBits_end (Nat.sub_le _ _) ends⟩

theorem stored_eq {written read : Nat} (stored : written = u32Max ∨ read = written)
    (reuses : (leadClass xor).2 = written) : read = (leadClass xor).2 := by
  refine (stored.resolve_left fun none_yet => ?_).trans reuses.symm
  have class_le := (leadClass_spec xor).2.2.2
  rw [reuses, none_yet, u32Max] at class_le
  omega

theorem getFresh_field (reads : r.Reads (freshField xor ++ rest)) :
    ∃ r', getFresh r = some (xor, (leadClass xor).2, r') ∧ r'.Reads rest := by
  obtain ⟨code_lt, named, -⟩ := leadClass_spec xor
  have behind := reads.drop 3
  rw [freshField, List.append_assoc] at reads behind
  rw [List.drop_left' (length_field _ _)] at behind
  rw [getFresh, getClass_eq reads, read_field code_lt, named]
  exact getLow_field behind

theorem exists_getFresh (reads : r.Reads ((freshField xor).take kept)) :
    ∃ found, getFresh r = some found ∧ found.2.1 ≤ 24 ∧ found.2.2.Reads [] := by
  obtain ⟨code_lt, named, -, class_le⟩ := leadClass_spec xor
  have left_over : (((freshField xor).take kept).drop 3).length ≤ 64 - (leadClass xor).2 := by
    rw [List.length_drop, List.length_take, freshField, List.length_append, length_field,
      lowField, length_field]
    omega
  have behind := reads.drop 3
  have code_le := read_take_le 3 kept (freshField xor)
  nth_rewrite 2 [freshField] at code_le
  rw [read_field code_lt] at code_le
  have fewer := (chimpRepr_le _ code_lt _ code_le).1
  rw [named] at fewer
  obtain ⟨found, low_read, same, ends⟩ := exists_getLow (fewer.trans class_le) behind
    (left_over.trans (Nat.sub_le_sub_left fewer 64))
  refine ⟨found, ?_, same ▸ fewer.trans class_le, ends⟩
  rw [getFresh, getClass_eq reads]
  exact low_read

theorem getFlag_field {flag : Nat} (known : flag < 4)
    (reads : r.Reads ((field flag 2 ++ bits).take (kept + 2))) :
    r.getBits 2 = (BitVec.ofNat 64 flag, { r with pos := r.pos + 2 }) ∧
      BitReader.Reads { r with pos := r.pos + 2 } (bits.take kept) := by
  rw [List.take_append, length_field, Nat.add_sub_cancel,
    List.take_of_length_le (by rw [length_field]; omega)] at reads
  exact reads.getBits_field (by decide) known

theorem getFlag_cut {flag : Nat} (short : kept < 2)
    (reads : r.Reads ((field flag 2 ++ bits).take kept)) :
    ∃ cut : U64, (cut = 0 ∨ cut = 2) ∧ r.getBits 2 = (cut, { r with pos := r.pos + 2 }) ∧
      BitReader.Reads { r with pos := r.pos + 2 } [] := by
  obtain ⟨flag_read, behind⟩ := reads.getBits_take (by decide : 2 ≤ 64)
  rw [Nat.sub_eq_zero_of_le short.le, List.take_zero] at behind
  refine ⟨_, ?_, flag_read, behind⟩
  obtain none_kept | one_kept : kept = 0 ∨ kept = 1 := by omega
  · rw [none_kept]
    exact .inl rfl
  · rw [one_kept, field, List.cons_append, List.take_succ_cons, List.take_zero]
    cases flag.testBit 1
    · exact .inl rfl
    · exact .inr rfl

end WeftDb.Codec
