import WeftDb.Codec.FloatBits
import WeftDb.Foundation.StepCodec

/-!
# Codecs of value columns

A column is a list of 64-bit patterns.  The first is written as it is, and each further one against
those before it.  A decoder is told how many there are; it faults where a difference would fall
below zero or a shift would reach the width of a word.
-/

namespace WeftDb.Codec

open BitFields StepCodec

/-- A difference which must not fall below zero. -/
def checkedSub (left right : Nat) : Option Nat :=
  if right ≤ left then some (left - right) else none

/-- The bits of a word beside two stretches of it. -/
def restOfWord (first second : Nat) : Option Nat :=
  (checkedSub 64 first).bind fun rest => checkedSub rest second

/-- A shift which must stay below the width of a word. -/
def checkedShl (word : U64) (shift : Nat) : Option U64 :=
  if shift < 64 then some (word <<< shift) else none

theorem restOfWord_eq_some {first second : Nat} (fits : first + second ≤ 64) :
    restOfWord first second = some (64 - first - second) := by
  rw [restOfWord, checkedSub, if_pos (by omega), Option.bind_some, checkedSub, if_pos (by omega)]

theorem checkedShl_eq_some (word : U64) {shift : Nat} (narrow : shift < 64) :
    checkedShl word shift = some (word <<< shift) :=
  if_pos narrow

theorem checkedShl_eq_none (word : U64) {shift : Nat} (wide : 64 ≤ shift) :
    checkedShl word shift = none :=
  if_neg (Nat.not_lt.mpr wide)

def leadingZeros (word : U64) : Nat := word.clz.toNat

def trailingZeros (word : U64) : Nat := word.ctz.toNat

variable {word : U64}

theorem leadingZeros_add_trailingZeros (nonzero : word ≠ 0) :
    leadingZeros word + trailingZeros word ≤ 63 := by
  have above : word.toNat < 2 ^ (64 - word.clz.toNat) := BitVec.toNat_lt_two_pow_sub_clz
  have below : 2 ^ word.ctz.toNat ≤ word.toNat := BitVec.two_pow_ctz_le_toNat_of_ne_zero nonzero
  have apart := (Nat.pow_lt_pow_iff_right (by decide)).mp (below.trans_lt above)
  rw [leadingZeros, trailingZeros]
  omega

theorem toNat_shift_lt {lead trail : Nat} (lead_le : lead ≤ leadingZeros word)
    (room : lead + trail ≤ 64) : (word >>> trail).toNat < 2 ^ (64 - lead - trail) := by
  have above : word.toNat < 2 ^ (64 - word.clz.toNat) := BitVec.toNat_lt_two_pow_sub_clz
  rw [BitVec.toNat_ushiftRight, Nat.shiftRight_eq_div_pow, Nat.div_lt_iff_lt_mul
    (Nat.two_pow_pos trail), ← Nat.pow_add, show 64 - lead - trail + trail = 64 - lead by omega]
  rw [leadingZeros] at lead_le
  exact above.trans_le (Nat.pow_le_pow_right (by decide) (by omega))

theorem shift_back {trail : Nat} (trail_le : trail ≤ trailingZeros word) :
    (word >>> trail) <<< trail = word := by
  refine BitVec.eq_of_getLsbD_eq fun place within => ?_
  rw [BitVec.getLsbD_shiftLeft, BitVec.getLsbD_ushiftRight, decide_eq_true within, Bool.true_and]
  by_cases low : place < trail
  · rw [decide_eq_true low, Bool.not_true, Bool.false_and]
    exact (BitVec.getLsbD_false_of_lt_ctz (low.trans_le trail_le)).symm
  · rw [decide_eq_false low, Bool.not_false, Bool.true_and,
      Nat.add_sub_cancel' (Nat.le_of_not_lt low)]

/-- The largest unsigned 32-bit word, for a count which is not there. -/
def u32Max : Nat := 2 ^ 32 - 1

theorem toNat_number {number : Nat} (narrow : number < 2 ^ 64) :
    (BitVec.ofNat 64 number).toNat = number := by
  rw [BitVec.toNat_ofNat, Nat.mod_eq_of_lt narrow]

namespace BitReader

variable {r : BitReader} {bits : List Bool}
variable {rest : List Bool} {count : Nat}

theorem Reads.getBits_field {value : Nat} (reads : r.Reads (field value count ++ rest))
    (narrow : count ≤ 64) (fits : value < 2 ^ count) :
    r.getBits count = (BitVec.ofNat 64 value, { r with pos := r.pos + count }) ∧
      Reads { r with pos := r.pos + count } rest := by
  have behind := reads.drop count
  rw [List.drop_append_of_le_length (by simp), List.drop_of_length_le (by simp),
    List.nil_append] at behind
  exact ⟨by rw [getBits_eq reads narrow, read_field fits], behind⟩

theorem Reads.getBit_cons {bit : Bool} (reads : r.Reads (bit :: rest)) :
    r.getBit = (BitVec.ofNat 64 bit.toNat, { r with pos := r.pos + 1 }) ∧
      Reads { r with pos := r.pos + 1 } rest := by
  refine ⟨?_, reads.drop 1⟩
  rw [getBit_eq reads]
  cases bit <;> rfl

theorem Reads.getBit_nil (reads : r.Reads []) :
    r.getBit = (0, { r with pos := r.pos + 1 }) ∧ Reads { r with pos := r.pos + 1 } [] :=
  ⟨getBit_eq reads, reads.drop 1⟩

theorem Reads.getBits_take {kept : Nat} (reads : r.Reads (bits.take kept)) (narrow : count ≤ 64) :
    r.getBits count =
        (BitVec.ofNat 64 (BitFields.read count (bits.take kept)),
          { r with pos := r.pos + count }) ∧
      Reads { r with pos := r.pos + count } ((bits.drop count).take (kept - count)) := by
  refine ⟨getBits_eq reads narrow, ?_⟩
  rw [← List.drop_take]
  exact reads.drop count

theorem Reads.getBits_end (reads : r.Reads bits) (narrow : count ≤ 64)
    (ends : bits.length ≤ count) : (r.getBits count).2.Reads [] := by
  rw [getBits_eq reads narrow, ← List.drop_of_length_le ends]
  exact reads.drop count

end BitReader

/-- A codec: what writer and reader remember behind the first value, and what they do with each
further one. -/
structure ValueCodec (Writer Reader : Type) where
  startWriter : U64 → Writer
  write : Writer → BitWriter → U64 → Writer × BitWriter
  startReader : U64 → Reader
  read : Reader → BitReader → Option (U64 × Reader × BitReader)

namespace ValueCodec

variable {Writer Reader : Type} (codec : ValueCodec Writer Reader)
  (layout : Layout U64 Writer)

def encode : List U64 → List U8
  | [] => []
  | first :: rest =>
      (writeMany codec.write rest (codec.startWriter first)
        (BitWriter.new.putBits first 64)).2.bytes

/-- Decode some count of values, unless one of them faults. -/
def decode (bytes : List U8) (count : Nat) : Option (List U64) :=
  if count = 0 then some []
  else
    let (first, r) := (BitReader.new bytes).getBits 64
    (readMany codec.read (count - 1) (codec.startReader first) r).map (first :: ·)

/-- The value behind the first one in whose bits a prefix of some bytes ends. -/
def cutAt (values : List U64) (kept : Nat) : Option (Writer × U64 × Nat) :=
  match values with
  | [] => none
  | first :: rest =>
      if kept < 8 then none else layout.cutAt (codec.startWriter first) rest (8 * kept - 64)

/-- Whether a codec writes a layout, and reads it while its states agree. -/
structure Laws (Follows : Writer → Reader → Prop) : Prop where
  emits : Emits layout codec.write BitWriter.Written
  inverts : Inverts layout codec.read BitReader.Reads Follows
  starts : ∀ first, Follows (codec.startWriter first) (codec.startReader first)

variable {codec layout} {Follows : Writer → Reader → Prop} {Faults : Writer → U64 → Nat → Prop}

variable (laws : codec.Laws layout Follows)

include laws

theorem Laws.written_encode (first : U64) (rest : List U64) :
    ∃ w : BitWriter, w.bytes = codec.encode (first :: rest) ∧
      w.Written (field first.toNat 64 ++ layout.fields (codec.startWriter first) rest) := by
  refine ⟨_, rfl, laws.emits.writeMany rest ?_⟩
  have start := BitWriter.written_new.putBits first (le_refl 64)
  rwa [List.nil_append] at start

theorem Laws.decode_encode (values : List U64) :
    codec.decode (codec.encode values) values.length = some values := by
  cases values with
  | nil => rfl
  | cons first rest =>
      obtain ⟨w, same, written⟩ := laws.written_encode first rest
      obtain ⟨first_read, reads⟩ := (BitReader.reads_new written).getBits_field (le_refl 64)
        (BitVec.isLt first)
      rw [← List.append_nil (layout.fields _ rest)] at reads
      have rest_read := laws.inverts.readMany_fields rest (laws.starts first) reads
      rw [decode, if_neg (by simp), ← same, first_read]
      dsimp only
      rw [BitVec.ofNat_toNat, BitVec.setWidth_eq, List.length_cons, Nat.add_sub_cancel, rest_read,
        Option.map_some]

theorem Laws.decode_take_isSome_iff
    (truncates : Truncates layout codec.read BitReader.Reads Follows Faults) (values : List U64)
    (kept : Nat) : (codec.decode ((codec.encode values).take kept) values.length).isSome = true ↔
      ∀ cut ∈ codec.cutAt layout values kept, ¬Faults cut.1 cut.2.1 cut.2.2 := by
  cases values with
  | nil => simp [decode, cutAt]
  | cons first rest =>
      obtain ⟨w, same, written⟩ := laws.written_encode first rest
      have reads := BitReader.reads_new_take written kept
      rw [decode, if_neg (by simp), ← same, List.length_cons, Nat.add_sub_cancel, cutAt]
      dsimp only
      rw [Option.isSome_map]
      by_cases short : kept < 8
      · -- The first value itself is cut, and zeros follow it.
        obtain ⟨first_read, behind⟩ := reads.getBits_take (le_refl 64)
        rw [Nat.sub_eq_zero_of_le (by omega), List.take_zero] at behind
        rw [if_pos short, first_read]
        obtain ⟨later, rest_read⟩ := truncates.exists_readMany_nil rest.length
          (codec.startReader _) behind
        rw [rest_read]
        simp
      · have whole : (field first.toNat 64).length ≤ 8 * kept := by
          rw [length_field]
          omega
        rw [List.take_append, List.take_of_length_le whole, length_field] at reads
        obtain ⟨first_read, behind⟩ := reads.getBits_field (le_refl 64) (BitVec.isLt first)
        rw [if_neg short, first_read]
        dsimp only
        rw [BitVec.ofNat_toNat, BitVec.setWidth_eq]
        exact truncates.readMany_isSome_iff laws.inverts rest (laws.starts first) behind

end ValueCodec

end WeftDb.Codec
