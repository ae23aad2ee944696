import Mathlib.Logic.Function.Iterate
import WeftDb.Foundation.BitStream

/-!
# Cyclic redundancy checks

A register of some width divides by a polynomial, lowest bit first.  The division is linear, so a
byte at a time may be looked up in a table, and many bytes in as many tables.  A polynomial whose
last coefficient is set loses nothing: what differs in one stretch of bytes no longer than the
register still differs behind any bytes which follow.
-/

namespace Crc

open BitStream

variable {width : Nat} (poly : BitVec width)
variable {first second bytes : List Byte} {crc : BitVec width} {count : Nat}

/-- One bit of the division: the lowest bit leaves, and where it is set the polynomial is taken
off. -/
def shift (crc : BitVec width) : BitVec width :=
  if crc.getLsbD 0 then crc >>> 1 ^^^ poly else crc >>> 1

def shifts (count : Nat) (crc : BitVec width) : BitVec width :=
  (shift poly)^[count] crc

/-- Take one byte into the register. -/
def update (crc : BitVec width) (byte : Byte) : BitVec width :=
  shifts poly 8 (crc ^^^ byte.setWidth width)

/-- Take bytes into the register. -/
def feed (crc : BitVec width) (bytes : List Byte) : BitVec width :=
  bytes.foldl (update poly) crc

/-- Bytes of two messages, XORed as far as both go. -/
def xorBytes (left right : List Byte) : List Byte :=
  List.zipWith (· ^^^ ·) left right

variable {poly}

theorem shift_xor (left right : BitVec width) :
    shift poly (left ^^^ right) = shift poly left ^^^ shift poly right := by
  have cancel (a b : BitVec width) : (a ^^^ poly) ^^^ (b ^^^ poly) = a ^^^ b := by
    rw [BitVec.xor_comm b poly, BitVec.xor_assoc, ← BitVec.xor_assoc poly poly b,
      BitVec.xor_self, BitVec.zero_xor]
  unfold shift
  rw [BitVec.getLsbD_xor, BitVec.ushiftRight_xor_distrib]
  cases left.getLsbD 0 <;> cases right.getLsbD 0
  · rfl
  · exact BitVec.xor_assoc _ _ _
  · rw [Bool.true_xor, Bool.not_false, if_pos rfl, if_pos rfl, if_neg Bool.false_ne_true,
      BitVec.xor_assoc, BitVec.xor_assoc, BitVec.xor_comm poly]
  · exact (cancel _ _).symm

theorem shift_zero : shift poly 0#(width) = 0#(width) := by
  rw [shift, BitVec.getLsbD_zero, if_neg Bool.false_ne_true, BitVec.zero_ushiftRight]

@[simp]
theorem shifts_zero_count (crc : BitVec width) : shifts poly 0 crc = crc :=
  rfl

theorem shifts_succ (count : Nat) (crc : BitVec width) :
    shifts poly (count + 1) crc = shift poly (shifts poly count crc) :=
  Function.iterate_succ_apply' _ _ _

theorem shifts_add (first second : Nat) (crc : BitVec width) :
    shifts poly (first + second) crc = shifts poly first (shifts poly second crc) :=
  Function.iterate_add_apply _ _ _ _

theorem shifts_xor (count : Nat) (left right : BitVec width) :
    shifts poly count (left ^^^ right) = shifts poly count left ^^^ shifts poly count right := by
  induction count with
  | zero => rfl
  | succ count ih => rw [shifts_succ, shifts_succ, shifts_succ, ih, shift_xor]

@[simp]
theorem shifts_zero (count : Nat) : shifts poly count 0#(width) = 0#(width) := by
  induction count with
  | zero => rfl
  | succ count ih => rw [shifts_succ, ih, shift_zero]

@[simp]
theorem feed_nil (crc : BitVec width) : feed poly crc [] = crc :=
  rfl

@[simp]
theorem feed_cons (crc : BitVec width) (byte : Byte) (bytes : List Byte) :
    feed poly crc (byte :: bytes) = feed poly (update poly crc byte) bytes :=
  rfl

theorem feed_append (crc : BitVec width) (before after : List Byte) :
    feed poly crc (before ++ after) = feed poly (feed poly crc before) after :=
  List.foldl_append

theorem update_xor (left right : BitVec width) (first second : Byte) :
    update poly (left ^^^ right) (first ^^^ second) =
      update poly left first ^^^ update poly right second := by
  rw [update, update, update, BitVec.setWidth_xor, ← shifts_xor]
  congr 1
  rw [BitVec.xor_assoc, BitVec.xor_assoc, ← BitVec.xor_assoc right, BitVec.xor_comm right,
    BitVec.xor_assoc (first.setWidth width)]

/-- Registers and messages of one length may be XORed before or behind. -/
theorem feed_xor (same : first.length = second.length) (left right : BitVec width) :
    feed poly (left ^^^ right) (xorBytes first second) =
      feed poly left first ^^^ feed poly right second := by
  induction first generalizing second left right with
  | nil =>
      obtain rfl := List.length_eq_zero_iff.mp same.symm
      rfl
  | cons byte first ih =>
      cases second with
      | nil => cases same
      | cons other second =>
          rw [xorBytes, List.zipWith_cons_cons, feed_cons, update_xor]
          exact ih (Nat.succ.inj same) _ _

theorem update_zero_byte (crc : BitVec width) : update poly crc 0#8 = shifts poly 8 crc := by
  rw [update, BitVec.setWidth_zero, BitVec.xor_zero]

theorem feed_zeros (crc : BitVec width) (count : Nat) :
    feed poly crc (List.replicate count 0#8) = shifts poly (8 * count) crc := by
  induction count generalizing crc with
  | zero => rfl
  | succ count ih =>
      rw [List.replicate_succ, feed_cons, update_zero_byte, ih, ← shifts_add, Nat.mul_succ]

/-- A register whose lowest bits are clear only moves down. -/
theorem shifts_of_clear (clear : ∀ place < count, crc.getLsbD place = false) :
    shifts poly count crc = crc >>> count := by
  induction count with
  | zero => rfl
  | succ count ih =>
      have lowest : (crc >>> count).getLsbD 0 = false := by
        rw [BitVec.getLsbD_ushiftRight]
        exact clear count (Nat.lt_succ_self count)
      rw [shifts_succ, ih fun place before => clear place (Nat.lt_succ_of_lt before), shift, lowest,
        if_neg Bool.false_ne_true, BitVec.shiftRight_add]

/-- Bytes above the lowest come down with it. -/
theorem shifts_shiftLeft {word : BitVec width} (enough : count ≤ width)
    (small : ∀ place, width - count ≤ place → word.getLsbD place = false) :
    shifts poly count (word <<< count) = word := by
  rw [shifts_of_clear fun place before => by
    rw [BitVec.getLsbD_shiftLeft, decide_eq_true before, Bool.not_true, Bool.and_false,
      Bool.false_and]]
  refine BitVec.eq_of_getLsbD_eq fun place within => ?_
  rw [BitVec.getLsbD_ushiftRight, BitVec.getLsbD_shiftLeft, Nat.add_sub_cancel_left]
  by_cases low : count + place < width
  · simp [low]
  · rw [small place (by omega), Bool.and_false]

/-- A byte at a time: what the lowest byte leaves behind, and the rest moved down. -/
theorem update_eq_table (crc : BitVec width) (byte : Byte) (wide : 8 ≤ width) :
    update poly crc byte =
      crc >>> 8 ^^^ shifts poly 8 (((crc ^^^ byte.setWidth width).setWidth 8).setWidth width) := by
  have split : crc ^^^ byte.setWidth width =
      (crc >>> 8) <<< 8 ^^^ ((crc ^^^ byte.setWidth width).setWidth 8).setWidth width := by
    refine BitVec.eq_of_getLsbD_eq fun place within => ?_
    simp only [BitVec.getLsbD_xor, BitVec.getLsbD_shiftLeft, BitVec.getLsbD_ushiftRight,
      BitVec.getLsbD_setWidth]
    by_cases low : place < 8
    · simp [low, within]
    · rw [BitVec.getLsbD_of_ge byte place (Nat.le_of_not_lt low)]
      simp [low, within, Nat.add_sub_cancel' (Nat.le_of_not_lt low)]
  have down : shifts poly 8 ((crc >>> 8) <<< 8) = crc >>> 8 := by
    refine shifts_shiftLeft wide fun place above => ?_
    rw [BitVec.getLsbD_ushiftRight]
    exact BitVec.getLsbD_of_ge _ _ (by omega)
  rw [update]
  conv_lhs => rw [split]
  rw [shifts_xor, down]

/-- What each byte leaves behind in a register, the last byte with one step to go. -/
def contributions (poly : BitVec width) : List Byte → BitVec width
  | [] => 0#(width)
  | byte :: bytes =>
      shifts poly (8 * (bytes.length + 1)) (byte.setWidth width) ^^^ contributions poly bytes

theorem feed_eq (crc : BitVec width) (bytes : List Byte) :
    feed poly crc bytes = shifts poly (8 * bytes.length) crc ^^^ contributions poly bytes := by
  induction bytes generalizing crc with
  | nil => exact (BitVec.xor_zero).symm
  | cons byte bytes ih =>
      rw [feed_cons, ih, update, List.length_cons, contributions, ← shifts_add, shifts_xor,
        Nat.mul_succ, BitVec.xor_assoc]

/-- Bytes which fit into the register are taken in at once. -/
theorem feed_eq_shifts (short : 8 * bytes.length ≤ width) (crc : BitVec width) :
    feed poly crc bytes = shifts poly (8 * bytes.length) (crc ^^^ fromLeBytes width bytes) := by
  induction bytes generalizing crc with
  | nil => exact (BitVec.xor_zero).symm
  | cons byte bytes ih =>
      rw [List.length_cons] at short
      have disjoint : byte.setWidth width ||| fromLeBytes width bytes <<< 8 =
          byte.setWidth width ^^^ fromLeBytes width bytes <<< 8 := by
        refine BitVec.eq_of_getLsbD_eq fun place within => ?_
        simp only [BitVec.getLsbD_or, BitVec.getLsbD_xor, BitVec.getLsbD_shiftLeft,
          BitVec.getLsbD_setWidth]
        by_cases low : place < 8
        · simp [low]
        · rw [BitVec.getLsbD_of_ge byte place (Nat.le_of_not_lt low)]
          simp
      have above : shifts poly 8 (fromLeBytes width bytes <<< 8) = fromLeBytes width bytes := by
        refine shifts_shiftLeft (by omega) fun place past => ?_
        by_cases within : place < width
        · rw [getLsbD_fromLeBytes within]
          exact bitAt_eq_false (by omega)
        · exact BitVec.getLsbD_of_ge _ _ (Nat.le_of_not_lt within)
      rw [feed_cons, ih (by omega), List.length_cons, fromLeBytes, disjoint, ← BitVec.xor_assoc,
        Nat.mul_succ, shifts_add, shifts_xor _ _ (fromLeBytes width bytes <<< 8), above, update]

/-- The register may be XORed into the first bytes instead. -/
theorem feed_eq_contributions (whole : 8 * count = width) (enough : count ≤ bytes.length)
    (crc : BitVec width) :
    feed poly crc bytes =
      contributions poly
        (xorBytes (toLeBytes count crc ++ List.replicate (bytes.length - count) 0#8) bytes) := by
  have length : (toLeBytes count crc ++ List.replicate (bytes.length - count) 0#8).length =
      bytes.length := by
    rw [List.length_append, length_toLeBytes, List.length_replicate]
    omega
  have back : fromLeBytes width (toLeBytes count crc) = crc := by
    refine BitVec.eq_of_getLsbD_eq fun place within => ?_
    rw [getLsbD_fromLeBytes within, bitAt_toLeBytes, decide_eq_true (by omega), Bool.true_and]
  have register : feed poly 0#(width)
        (toLeBytes count crc ++ List.replicate (bytes.length - count) 0#8) =
      shifts poly (8 * bytes.length) crc := by
    rw [feed_append, feed_zeros, feed_eq_shifts (by rw [length_toLeBytes]; omega), back,
      BitVec.zero_xor, length_toLeBytes, ← shifts_add]
    congr 1
    omega
  have both : feed poly (0#(width) ^^^ 0#(width)) _ = _ := feed_xor length 0#(width) 0#(width)
  rw [BitVec.xor_zero, register, feed_eq, feed_eq 0#(width) bytes, shifts_zero, shifts_zero,
    BitVec.zero_xor, BitVec.zero_xor] at both
  rw [feed_eq, both]

/-- Whether the last coefficient of the polynomial is set. -/
def Monic (poly : BitVec width) : Prop :=
  poly.getLsbD (width - 1) = true

variable (monic : Monic poly)

include monic

theorem eq_zero_of_shift (gone : shift poly crc = 0#(width)) : crc = 0#(width) := by
  have narrow : width - 1 < width := by
    by_contra wide
    rw [Monic, BitVec.getLsbD_of_ge _ _ (Nat.le_of_not_lt wide)] at monic
    cases monic
  have lowest : crc.getLsbD 0 = false := by
    refine eq_false_of_ne_true fun set => ?_
    rw [shift, if_pos set, BitVec.xor_eq_zero_iff] at gone
    have top := congrArg (fun word : BitVec width => word.getLsbD (width - 1)) gone
    simp only [BitVec.getLsbD_ushiftRight] at top
    rw [BitVec.getLsbD_of_ge crc _ (by omega), monic] at top
    cases top
  rw [shift, lowest, if_neg Bool.false_ne_true] at gone
  refine BitVec.eq_of_getLsbD_eq fun place within => ?_
  rw [BitVec.getLsbD_zero]
  cases place with
  | zero => exact lowest
  | succ place =>
      have bit := congrArg (fun word : BitVec width => word.getLsbD place) gone
      simp only [BitVec.getLsbD_ushiftRight, BitVec.getLsbD_zero] at bit
      rwa [Nat.add_comm] at bit

theorem shifts_injective (count : Nat) : Function.Injective (shifts poly count) := by
  intro left right same
  have gone : shifts poly count (left ^^^ right) = 0#(width) := by
    rw [shifts_xor, same, BitVec.xor_self]
  refine BitVec.xor_eq_zero_iff.mp ?_
  induction count with
  | zero => exact gone
  | succ count ih =>
      rw [shifts_succ] at gone
      have before := eq_zero_of_shift monic gone
      refine ih ?_ before
      rw [shifts_xor] at before
      exact BitVec.xor_eq_zero_iff.mp before

/-- Registers which differ still differ behind any bytes. -/
theorem feed_injective (bytes : List Byte) : Function.Injective fun crc => feed poly crc bytes := by
  intro left right same
  simp only [feed_eq] at same
  exact shifts_injective monic _ ((BitVec.xor_left_inj (contributions poly bytes)).mp same)

/-- Bytes which fit into the register are told apart by it. -/
theorem eq_of_feed_eq (same : first.length = second.length) (short : 8 * first.length ≤ width)
    (fed : feed poly crc first = feed poly crc second) : first = second := by
  rw [feed_eq_shifts short, feed_eq_shifts (same ▸ short), same] at fed
  have words := (BitVec.xor_right_inj crc).mp (shifts_injective monic _ fed)
  refine List.ext_getElem same fun index left right => ?_
  refine BitVec.eq_of_getLsbD_eq fun place within => ?_
  have bit := congrArg (fun word : BitVec width => word.getLsbD (8 * index + place)) words
  simp only [getLsbD_fromLeBytes (show 8 * index + place < width by omega), bitAt,
    show (8 * index + place) / 8 = index by omega,
    show (8 * index + place) % 8 = place by omega, List.getD_eq_getElem _ _ left,
    List.getD_eq_getElem _ _ right] at bit
  exact bit

/-- A stretch of bytes which fits into the register is not exchanged without notice. -/
theorem eq_of_feed_window {before after : List Byte} (same : first.length = second.length)
    (short : 8 * first.length ≤ width)
    (fed : feed poly crc (before ++ (first ++ after)) = feed poly crc (before ++ (second ++ after))) :
    first = second := by
  simp only [feed_append] at fed
  exact eq_of_feed_eq monic same short (feed_injective monic after fed)

end Crc
