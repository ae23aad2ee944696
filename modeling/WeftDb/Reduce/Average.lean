import Mathlib.Data.Nat.Prime.Basic
import WeftDb.Foundation.LongDivision
import WeftDb.Reduce.Scaled

/-!
# Averages on integers

The average of a bucket is a decimal quotient, brought out by long division on machine words or, if
its expansion does not end, by one division of a big integer.  Either way it is the quotient to a
hundred significant digits.  Apart from the scale of the result, no word overflows.
-/

namespace WeftDb.Reduce

open LongDivision SignificantDigits

/-- The significant digits which a decimal division keeps. -/
def divPrecision : Nat := 100

/-- A result of unsigned arithmetic on words of so many bits, unless it overflows. -/
def unsigned (bits value : Nat) : Option Nat :=
  if value < 2 ^ bits then some value else none

/-- The decimal digits of a number, of which zero has one. -/
def digitCount (value : Nat) : Nat :=
  Nat.log 10 value + 1

/-- A magnitude with its sign. -/
def signedDecimal (negative : Bool) (magnitude : Nat) (scale : Int) : BigDecimal where
  mantissa := if negative then -(magnitude : Int) else magnitude
  scale := scale

/-- Multiply the numerator by ten until it reaches the divisor.  A divisor is reached in fewer
rounds than it counts. -/
def raise (den : Nat) : Nat → Nat → Int → Option (Nat × Int)
  | 0, num, scale => some (num, scale)
  | rounds + 1, num, scale =>
      if num < den then do
        let scale ← checked (scale + 1)
        let num ← unsigned 128 (num * 10)
        raise den rounds num scale
      else some (num, scale)

/-- The greatest common divisor. -/
def euclid (left : Nat) : Nat → Nat
  | 0 => left
  | right + 1 => euclid (right + 1) (left % (right + 1))
termination_by right => right
decreasing_by exact Nat.mod_lt _ (Nat.succ_pos _)

/-- Divide by a factor while it divides.  No word has more than so many factors as it has bits. -/
def strip (factor : Nat) : Nat → Nat → Nat
  | 0, value => value
  | rounds + 1, value =>
      if value % factor = 0 then strip factor rounds (value / factor) else value

/-- Whether the quotient ends: the reduced divisor has no factors but two and five. -/
def terminates (num count : Nat) : Bool :=
  let reduced := count / euclid count (num % count)
  strip 5 64 (strip 2 64 reduced) == 1

/-- A power of ten from the table. -/
def powerOfTen (exponent : Nat) : Nat :=
  10 ^ min exponent divPrecision

/-- All digits of a quotient which does not end, by one division. -/
def nonTerminatingQuotient (num lead : Nat) (scale : Int) (count : Nat) (negative : Bool) :
    Option BigDecimal := do
  let places := divPrecision - digitCount lead
  let shifted := num * powerOfTen places
  let tenfold ← unsigned 128 (shifted % count * 10)
  let quotient := if 5 ≤ tenfold / count then shifted / count + 1 else shifted / count
  let scale ← checked (scale + places)
  pure (signedDecimal negative quotient scale)

/-- The digits of a quotient, the latest of them in a chunk which fits a word. -/
structure DigitSink where
  quotient : Nat
  chunk : Nat
  chunkDigits : Nat

namespace DigitSink

/-- The digits of a full chunk. -/
def chunkLimit : Nat := 38

def push (sink : DigitSink) (digit : Nat) : Option DigitSink := do
  let chunk ← unsigned 128 (sink.chunk * 10 + digit)
  if sink.chunkDigits + 1 = chunkLimit then
    pure ⟨sink.quotient * 10 ^ chunkLimit + chunk, 0, 0⟩
  else pure ⟨sink.quotient, chunk, sink.chunkDigits + 1⟩

/-- All digits. -/
def total (sink : DigitSink) : Nat :=
  if 0 < sink.chunkDigits then sink.quotient * 10 ^ sink.chunkDigits + sink.chunk
  else sink.quotient

end DigitSink

/-- Bring digits out until nothing remains or there are enough, on words of so many bits. -/
def digitLoop (bits den : Nat) : Nat → DigitSink → Nat → Int → Option (DigitSink × Nat × Int)
  | 0, digits, rem, scale => some (digits, rem, scale)
  | rounds + 1, digits, rem, scale =>
      if rem = 0 then some (digits, rem, scale)
      else do
        let digits ← digits.push (rem / den)
        let rem ← unsigned bits (rem % den * 10)
        let scale ← checked (scale + 1)
        digitLoop bits den rounds digits rem scale

/-- The greatest unsigned word of 64 bits. -/
def greatestUnsigned : Nat := 2 ^ 64 - 1

/-- The digits of a quotient after its whole part, on words of 64 bits where the tenfold of every
remainder is one. -/
def terminatingQuotient (lead rem : Nat) (scale : Int) (den : Nat) (negative : Bool) :
    Option BigDecimal := do
  let rem ← unsigned 128 (rem * 10)
  let rounds := divPrecision - digitCount lead
  let digits : DigitSink := ⟨lead, 0, 0⟩
  let (digits, rem, scale) ←
    if den ≤ greatestUnsigned / 10 then
      digitLoop 64 den rounds digits (min rem greatestUnsigned) scale
    else digitLoop 128 den rounds digits rem scale
  let quotient := digits.total
  let quotient := if rem ≠ 0 ∧ 5 ≤ rem / den then quotient + 1 else quotient
  pure (signedDecimal negative quotient scale)

/-- The quotient of a decimal, given by its mantissa and its scale, by a count; nothing if a word
overflows. -/
def avgLikeBigdecimal (sum scale : Int) (count : Nat) : Option BigDecimal :=
  if sum = 0 ∨ count = 1 then some ⟨sum, scale⟩
  else if sum = count then some ⟨1, scale⟩
  else do
    let negative := decide (sum < 0)
    let (num, scale) ← raise count count sum.natAbs scale
    let lead := num / count
    let rem := num % count
    if rem ≠ 0 ∧ terminates num count = false then
      nonTerminatingQuotient num lead scale count negative
    else if rem ≠ 0 then terminatingQuotient lead rem scale count negative
    else pure (signedDecimal negative lead scale)

theorem unsigned_eq_some {bits value : Nat} (fits : value < 2 ^ bits) :
    unsigned bits value = some value :=
  if_pos fits

variable {scale : Int} {num places den rounds : Nat}

section Scales

variable {Result : Type}

/-- A result of a scale, unless the scale is beyond the words. -/
def fitting (scale : Int) (result : Result) : Option Result :=
  if scale ≤ Word64.greatest then some result else none

theorem checked_eq_fitting (low : Word64.least ≤ scale) : checked scale = fitting scale scale := by
  rw [checked, fitting]
  exact if_congr (and_iff_right low) rfl rfl

theorem fitting_eq_some (high : scale ≤ Word64.greatest) (result : Result) :
    fitting scale result = some result :=
  if_pos high

theorem fitting_eq_none (beyond : ¬scale ≤ Word64.greatest) (result : Result) :
    fitting scale result = none :=
  if_neg beyond

theorem fitting_bind {Other : Type} {further : Int} (later : scale ≤ further) {result : Result}
    {step : Result → Option Other} {other : Other}
    (steps : scale ≤ Word64.greatest → step result = fitting further other) :
    (fitting scale result).bind step = fitting further other := by
  by_cases high : scale ≤ Word64.greatest
  · rw [fitting_eq_some high, Option.bind_some, steps high]
  · rw [fitting_eq_none high, fitting_eq_none fun fits => high (later.trans fits)]
    rfl

end Scales

/-- The numerator reaches the divisor with so many places, and not before. -/
structure Reaches (num den places : Nat) : Prop where
  reached : den ≤ num * 10 ^ places
  before : ∀ fewer < places, num * 10 ^ fewer < den

theorem exists_reaches (positive : 0 < num) (den : Nat) : ∃ places, Reaches num den places := by
  classical
  have some_places : ∃ places, den ≤ num * 10 ^ places :=
    ⟨den, (Nat.lt_pow_self (by decide)).le.trans (Nat.le_mul_of_pos_left _ positive)⟩
  exact ⟨Nat.find some_places, Nat.find_spec some_places,
    fun fewer less => not_le.mp (Nat.find_min some_places less)⟩

theorem Reaches.le (reaches : Reaches num den places) (positive : 0 < num) : places ≤ den := by
  cases places with
  | zero => exact Nat.zero_le _
  | succ places =>
      have below := reaches.before places (Nat.lt_succ_self _)
      calc
        places + 1 ≤ 10 ^ places := Nat.lt_pow_self (by decide)
        _ ≤ num * 10 ^ places := Nat.le_mul_of_pos_left _ positive
        _ ≤ den := below.le

theorem raise_eq (small : den < 2 ^ 64) (reaches : Reaches num den places)
    (enough : places ≤ rounds) (fits : Word64.Fits scale) :
    raise den rounds num scale =
      fitting (scale + places) (num * 10 ^ places, scale + places) := by
  induction places generalizing rounds num scale with
  | zero =>
      have reached : ¬num < den := by simpa using reaches.reached
      have stopped : raise den rounds num scale = some (num, scale) := by
        cases rounds with
        | zero => rfl
        | succ rounds => exact if_neg reached
      rw [stopped, Nat.cast_zero, add_zero, pow_zero, mul_one, fitting_eq_some fits.2]
  | succ places ih =>
      obtain ⟨rounds, rfl⟩ := Nat.exists_eq_add_of_le' (Nat.one_le_of_lt enough)
      have below : num < den := by simpa using reaches.before 0 (Nat.succ_pos _)
      have later : Reaches (num * 10) den places := by
        refine ⟨?_, fun fewer less => ?_⟩
        · have reached := reaches.reached
          rwa [pow_succ', ← mul_assoc] at reached
        · have before := reaches.before (fewer + 1) (Nat.succ_lt_succ less)
          rwa [pow_succ', ← mul_assoc] at before
      have word : num * 10 < 2 ^ 128 := by omega
      have low : Word64.least ≤ scale + 1 := fits.1.trans (by omega)
      rw [raise, if_pos below, checked_eq_fitting low, pow_succ', ← mul_assoc,
        show scale + (places + 1 : ℕ) = scale + 1 + places by push_cast; ring]
      refine fitting_bind (by omega) fun high => ?_
      rw [unsigned_eq_some word]
      exact ih later (Nat.succ_le_succ_iff.mp enough) ⟨low, high⟩

theorem euclid_eq_gcd (left right : Nat) : euclid left right = Nat.gcd right left := by
  induction left, right using euclid.induct with
  | case1 left => rw [euclid, Nat.gcd_zero_left]
  | case2 left right ih => rw [euclid, ih, Nat.gcd_rec (right + 1) left]

theorem strip_spec {factor : Nat} (several : 1 < factor) {value : Nat} (nonzero : 0 < value)
    (enough : value < factor ^ rounds) :
    ¬factor ∣ strip factor rounds value ∧ strip factor rounds value ∣ value ∧
      0 < strip factor rounds value := by
  induction rounds generalizing value with
  | zero => exact absurd enough (by simpa using Nat.one_le_iff_ne_zero.mp nonzero)
  | succ rounds ih =>
      by_cases divides : value % factor = 0
      · rw [strip, if_pos divides]
        obtain ⟨rest, rfl⟩ := Nat.dvd_of_mod_eq_zero divides
        have factor_pos : 0 < factor := by omega
        rw [Nat.mul_div_cancel_left _ factor_pos]
        rw [pow_succ'] at enough
        obtain ⟨free, part, positive⟩ :=
          ih (Nat.pos_of_mul_pos_left nonzero) (Nat.lt_of_mul_lt_mul_left enough)
        exact ⟨free, part.trans (Nat.dvd_mul_left _ _), positive⟩
      · rw [strip, if_neg divides]
        exact ⟨fun whole => divides (Nat.mod_eq_zero_of_dvd whole), dvd_rfl, nonzero⟩

theorem not_dvd_of_not_terminates {count : Nat} (positive : 0 < count) (small : count < 2 ^ 64)
    (endless : terminates num count = false) (places : Nat) : ¬count ∣ num * 10 ^ places := by
  intro divides
  have common : euclid count (num % count) = Nat.gcd num count := by
    rw [euclid_eq_gcd, ← Nat.gcd_rec, Nat.gcd_comm]
  have common_pos : 0 < Nat.gcd num count := Nat.gcd_pos_of_pos_right _ positive
  have reduced_pos : 0 < count / Nat.gcd num count :=
    Nat.div_pos (Nat.gcd_le_right _ positive) common_pos
  have reduced_lt : count / Nat.gcd num count < 2 ^ 64 := (Nat.div_le_self _ _).trans_lt small
  have reduced_dvd : count / Nat.gcd num count ∣ 10 ^ places := by
    have coprime := Nat.coprime_div_gcd_div_gcd common_pos
    refine coprime.symm.dvd_of_dvd_mul_left ?_
    rw [← Nat.mul_div_right_comm (Nat.gcd_dvd_left _ _)]
    exact Nat.div_dvd_div (Nat.gcd_dvd_right _ _) divides
  obtain ⟨no_two, part, half_pos⟩ := strip_spec (by decide) reduced_pos reduced_lt
  have half_lt : strip 2 64 (count / Nat.gcd num count) < 5 ^ 64 :=
    (Nat.le_of_dvd reduced_pos part).trans_lt (reduced_lt.trans (by decide))
  obtain ⟨no_five, rest, _⟩ := strip_spec (by decide) half_pos half_lt
  have power := (rest.trans part).trans reduced_dvd
  have two : Nat.Coprime (strip 5 64 (strip 2 64 (count / Nat.gcd num count))) 2 :=
    ((Nat.prime_two.coprime_iff_not_dvd).mpr fun two => no_two (two.trans rest)).symm
  have five : Nat.Coprime (strip 5 64 (strip 2 64 (count / Nat.gcd num count))) 5 :=
    ((Nat.prime_five.coprime_iff_not_dvd).mpr no_five).symm
  have one : strip 5 64 (strip 2 64 (count / Nat.gcd num count)) = 1 :=
    Nat.Coprime.eq_one_of_dvd ((two.mul_right five).pow_right places) power
  rw [terminates, common] at endless
  exact absurd endless (by rw [one]; decide)

namespace DigitSink

/-- A chunk has its digits, and is not full. -/
structure Open (sink : DigitSink) : Prop where
  digits : sink.chunkDigits < chunkLimit
  chunk : sink.chunk < 10 ^ sink.chunkDigits

variable {sink : DigitSink}

theorem total_eq (isOpen : sink.Open) :
    sink.total = sink.quotient * 10 ^ sink.chunkDigits + sink.chunk := by
  rw [total]
  split
  · rfl
  · rename_i none
    have bare : sink.chunkDigits = 0 := by omega
    have empty := isOpen.chunk
    rw [bare, pow_zero] at empty
    rw [bare, pow_zero, mul_one, Nat.lt_one_iff.mp empty, add_zero]

theorem push_spec (isOpen : sink.Open) {digit : Nat} (is_digit : digit < 10) :
    ∃ pushed, sink.push digit = some pushed ∧ pushed.Open ∧
      pushed.total = sink.total * 10 + digit := by
  obtain ⟨few, chunk⟩ := isOpen
  have longer : sink.chunk * 10 + digit < 10 ^ (sink.chunkDigits + 1) := by
    rw [pow_succ]
    omega
  have word : sink.chunk * 10 + digit < 2 ^ 128 :=
    calc
      sink.chunk * 10 + digit < 10 ^ (sink.chunkDigits + 1) := longer
      _ ≤ 10 ^ chunkLimit := Nat.pow_le_pow_right (by decide) few
      _ < 2 ^ 128 := by decide
  have counted : sink.total * 10 + digit =
      sink.quotient * 10 ^ (sink.chunkDigits + 1) + (sink.chunk * 10 + digit) := by
    rw [total_eq ⟨few, chunk⟩, pow_succ]
    ring
  rw [push, unsigned_eq_some word, counted]
  by_cases full : sink.chunkDigits + 1 = chunkLimit
  · exact ⟨⟨_, 0, 0⟩, if_pos full, ⟨Nat.succ_pos 37, Nat.one_pos⟩, by rw [full]; rfl⟩
  · have still : sink.chunkDigits + 1 < chunkLimit := by omega
    have pushed_open : Open ⟨sink.quotient, sink.chunk * 10 + digit, sink.chunkDigits + 1⟩ :=
      ⟨still, longer⟩
    exact ⟨_, if_neg full, pushed_open, total_eq pushed_open⟩

end DigitSink

/-- The digits which a loop brings out: until nothing remains, or as many as it may. -/
structure Stops (num den rounds places : Nat) : Prop where
  le : places ≤ rounds
  unfinished : ∀ fewer < places, ¬den ∣ num * 10 ^ fewer
  stopped : places = rounds ∨ den ∣ num * 10 ^ places

theorem exists_stops (num den rounds : Nat) : ∃ places, Stops num den rounds places := by
  classical
  have some_places : ∃ places, places = rounds ∨ den ∣ num * 10 ^ places := ⟨rounds, .inl rfl⟩
  refine ⟨Nat.find some_places, Nat.find_min' some_places (.inl rfl), fun fewer less divides => ?_,
    Nat.find_spec some_places⟩
  exact Nat.find_min some_places less (.inr divides)

/-- The loop has the digits of the quotient, and the tenfold of what remains. -/
theorem digitLoop_eq {bits : Nat} {digits : DigitSink} (positive : 0 < den)
    (wide : den * 10 ≤ 2 ^ bits) (stops : Stops num den rounds places) (isOpen : digits.Open)
    (held : digits.total = num / den) (low : Word64.least ≤ scale)
    (high : scale ≤ Word64.greatest) :
    ∃ after : DigitSink, after.total = num * 10 ^ places / den ∧
      digitLoop bits den rounds digits (num % den * 10) scale =
        fitting (scale + places) (after, num * 10 ^ places % den * 10, scale + places) := by
  induction places generalizing rounds num digits scale with
  | zero =>
      refine ⟨digits, by rw [pow_zero, mul_one, held], ?_⟩
      have ended : digitLoop bits den rounds digits (num % den * 10) scale =
          some (digits, num % den * 10, scale) := by
        cases rounds with
        | zero => rfl
        | succ rounds =>
            have divides : den ∣ num := by simpa using stops.stopped
            rw [Nat.mod_eq_zero_of_dvd divides]
            rfl
      rw [ended, Nat.cast_zero, add_zero, pow_zero, mul_one, fitting_eq_some high]
  | succ places ih =>
      obtain ⟨rounds, rfl⟩ := Nat.exists_eq_add_of_le' (Nat.one_le_of_lt stops.le)
      have remains : num % den ≠ 0 := fun whole =>
        stops.unfinished 0 (Nat.succ_pos _) (by simpa using Nat.dvd_of_mod_eq_zero whole)
      have later : Stops (num * 10) den rounds places := by
        have shift (count : Nat) : num * 10 * 10 ^ count = num * 10 ^ (count + 1) := by
          rw [pow_succ', mul_assoc]
        refine ⟨Nat.succ_le_succ_iff.mp stops.le, fun fewer less => ?_, ?_⟩
        · rw [shift]
          exact stops.unfinished (fewer + 1) (Nat.succ_lt_succ less)
        · rw [shift]
          exact stops.stopped.imp_left Nat.succ_inj.mp
      obtain ⟨pushed, push, pushed_open, total⟩ :=
        digits.push_spec isOpen (@next_digit_lt num den positive)
      have word : num % den * 10 % den * 10 < 2 ^ bits := by
        have below := Nat.mod_lt (num % den * 10) positive
        omega
      have later_low : Word64.least ≤ scale + 1 := low.trans (by omega)
      have shift : scale + (places + 1 : ℕ) = scale + 1 + places := by
        push_cast
        ring
      have round : digitLoop bits den (rounds + 1) digits (num % den * 10) scale =
          (fitting (scale + 1) (scale + 1)).bind fun scale =>
            digitLoop bits den rounds pushed (num % den * 10 % den * 10) scale := by
        rw [digitLoop, if_neg (Nat.mul_ne_zero remains (by decide)), push,
          ← checked_eq_fitting later_low, unsigned_eq_some word]
        rfl
      rw [held, ← mul_ten_div] at total
      rw [round, shift, pow_succ', ← mul_assoc, ← mul_ten_mod]
      by_cases fits : scale + 1 ≤ Word64.greatest
      · obtain ⟨after, result, looped⟩ := ih later pushed_open total later_low fits
        refine ⟨after, result, ?_⟩
        rw [fitting_eq_some fits, Option.bind_some, looped]
      · refine ⟨⟨_, 0, 0⟩, rfl, ?_⟩
        rw [fitting_eq_none fits, fitting_eq_none (by omega)]
        rfl

section Quotients

variable {num den places : Nat} {scale : Int} {negative : Bool}

/-- How many more digits than its whole part a quotient may have. -/
def roundsAfter (lead : Nat) : Nat :=
  divPrecision - digitCount lead

theorem nonTerminatingQuotient_eq (positive : 0 < den) (small : den < 2 ^ 64)
    (low : Word64.least ≤ scale) :
    nonTerminatingQuotient num (num / den) scale den negative =
      fitting (scale + roundsAfter (num / den))
        (signedDecimal negative (rounded (num * 10 ^ roundsAfter (num / den)) den)
          (scale + roundsAfter (num / den))) := by
  have few : roundsAfter (num / den) ≤ divPrecision := Nat.sub_le _ _
  have table : powerOfTen (roundsAfter (num / den)) = 10 ^ roundsAfter (num / den) := by
    rw [powerOfTen, min_eq_left few]
  have word : num * 10 ^ roundsAfter (num / den) % den * 10 < 2 ^ 128 := by
    have below := Nat.mod_lt (num * 10 ^ roundsAfter (num / den)) positive
    omega
  have further : Word64.least ≤ scale + roundsAfter (num / den) := low.trans (by omega)
  rw [nonTerminatingQuotient, ← roundsAfter, table, unsigned_eq_some word,
    checked_eq_fitting further]
  exact fitting_bind le_rfl fun high => (fitting_eq_some high _).symm

theorem terminatingQuotient_eq (positive : 0 < den) (small : den < 2 ^ 64)
    (stops : Stops num den (roundsAfter (num / den)) places) (low : Word64.least ≤ scale)
    (high : scale ≤ Word64.greatest) :
    terminatingQuotient (num / den) (num % den) scale den negative =
      fitting (scale + places)
        (signedDecimal negative (rounded (num * 10 ^ places) den) (scale + places)) := by
  have below := Nat.mod_lt num positive
  have first_word : num % den * 10 < 2 ^ 128 := by omega
  have bare : DigitSink.Open ⟨num / den, 0, 0⟩ := ⟨Nat.succ_pos 37, Nat.one_pos⟩
  have total : DigitSink.total ⟨num / den, 0, 0⟩ = num / den := rfl
  have finish {after : DigitSink} (result : after.total = num * 10 ^ places / den) :
      (fitting (scale + places) (after, num * 10 ^ places % den * 10, scale + places)).bind
          (fun state => some (signedDecimal negative
            (if state.2.1 ≠ 0 ∧ 5 ≤ state.2.1 / den then state.1.total + 1 else state.1.total)
            state.2.2)) =
        fitting (scale + places)
          (signedDecimal negative (rounded (num * 10 ^ places) den) (scale + places)) := by
    refine fitting_bind le_rfl fun fits => ?_
    have up : (num * 10 ^ places % den * 10 ≠ 0 ∧ 5 ≤ num * 10 ^ places % den * 10 / den) ↔
        5 ≤ num * 10 ^ places % den * 10 / den := by
      refine and_iff_right_of_imp fun half none => ?_
      rw [none, Nat.zero_div] at half
      exact absurd half (by decide)
    rw [fitting_eq_some fits, rounded, result, if_congr up rfl rfl]
  rw [terminatingQuotient, unsigned_eq_some first_word, ← roundsAfter, Option.bind_eq_bind,
    Option.bind_some]
  by_cases narrow : den ≤ greatestUnsigned / 10
  · have word : num % den * 10 ≤ greatestUnsigned := by
      simp only [greatestUnsigned] at narrow ⊢
      omega
    have wide : den * 10 ≤ 2 ^ 64 := by
      simp only [greatestUnsigned] at narrow
      omega
    obtain ⟨after, result, looped⟩ := digitLoop_eq positive wide stops bare total low high
    rw [← finish result, ← looped]
    simp only [if_pos narrow, min_eq_left word]
    rfl
  · have wide : den * 10 ≤ 2 ^ 128 := by omega
    obtain ⟨after, result, looped⟩ := digitLoop_eq positive wide stops bare total low high
    rw [← finish result, ← looped]
    simp only [if_neg narrow]
    rfl

theorem Stops.fewest {raised : Nat} (positive : 0 < den) (num_pos : 0 < num)
    (reaches : Reaches num den raised)
    (few : digitCount (num * 10 ^ raised / den) ≤ divPrecision)
    (stops : Stops (num * 10 ^ raised) den (roundsAfter (num * 10 ^ raised / den)) places) :
    Fewest divPrecision num den (raised + places) ∧
      num * 10 ^ (raised + places) / den < 10 ^ divPrecision := by
  have split (count : Nat) : num * 10 ^ (raised + count) = num * 10 ^ raised * 10 ^ count := by
    rw [pow_add, mul_assoc]
  have digits (count : Nat) : Nat.log 10 (num * 10 ^ (raised + count) / den) + 1 =
      digitCount (num * 10 ^ raised / den) + count := by
    rw [split, log_mul_pow_div reaches.reached positive, digitCount]
    omega
  have bounded := stops.le
  rw [roundsAfter] at bounded
  refine ⟨⟨?_, fun fewer less => ?_⟩, ?_⟩
  · rcases stops.stopped with all | divides
    · refine .inr ?_
      have lead : num * 10 ^ (raised + places) / den ≠ 0 := by
        rw [split]
        exact (Nat.div_pos (reaches.reached.trans (Nat.le_mul_of_pos_right _ (by positivity)))
          positive).ne'
      have reached : divPrecision - 1 = Nat.log 10 (num * 10 ^ (raised + places) / den) := by
        have counted := digits places
        rw [roundsAfter] at all
        omega
      rw [reached]
      exact Nat.pow_log_le_self 10 lead
    · exact .inl (split places ▸ divides)
  · rcases Nat.lt_or_ge fewer raised with before | after
    · exact not_exhausts_of_lt num_pos (reaches.before fewer before)
    · obtain ⟨count, rfl⟩ := Nat.exists_eq_add_of_le after
      have unfinished := stops.unfinished count (by omega)
      rw [← split] at unfinished
      refine not_exhausts_of_log unfinished ?_
      rw [digits]
      omega
  · have counted := digits places
    refine Nat.lt_pow_of_log_lt (by decide) ?_
    omega

end Quotients

/-- The words which a sum fits. -/
def Fits128 (sum : Int) : Prop :=
  -2 ^ 127 ≤ sum ∧ sum < 2 ^ 127

instance (sum : Int) : Decidable (Fits128 sum) :=
  inferInstanceAs (Decidable (_ ∧ _))

/-- The words which a count fits. -/
def FitsCount (count : Nat) : Prop :=
  0 < count ∧ count < 2 ^ 64

instance (count : Nat) : Decidable (FitsCount count) :=
  inferInstanceAs (Decidable (_ ∧ _))

/-- The rounded quotient at the scale to which it was brought out, unless that is beyond the
words. -/
def BroughtOut (sum scale : Int) (count : Nat) (result : Option BigDecimal) : Prop :=
  ∃ places, Fewest divPrecision sum.natAbs count places ∧
    sum.natAbs * 10 ^ places / count < 10 ^ divPrecision ∧
    result = fitting (scale + places)
      (signedDecimal (decide (sum < 0)) (rounded (sum.natAbs * 10 ^ places) count)
        (scale + places))

section Averages

variable {sum scale : Int} {count : Nat}

theorem signedDecimal_natAbs :
    signedDecimal (decide (sum < 0)) sum.natAbs scale = ⟨sum, scale⟩ := by
  have magnitude : (if sum < 0 then -(sum.natAbs : Int) else sum.natAbs) = sum := by
    split <;> omega
  simp only [signedDecimal, decide_eq_true_eq, magnitude]

theorem broughtOut_of_dvd (divides : count ∣ sum.natAbs)
    (few : sum.natAbs / count < 10 ^ divPrecision) (high : scale ≤ Word64.greatest) :
    BroughtOut sum scale count
      (some (signedDecimal (decide (sum < 0)) (sum.natAbs / count) scale)) := by
  refine ⟨0, ⟨.inl (by rwa [pow_zero, mul_one]), fun _ less => absurd less (Nat.not_lt_zero _)⟩,
    by rwa [pow_zero, mul_one], ?_⟩
  rw [pow_zero, mul_one, rounded_of_dvd divides, Nat.cast_zero, add_zero, fitting_eq_some high]

theorem avgLikeBigdecimal_broughtOut (sum_fits : Fits128 sum) (scale_fits : Word64.Fits scale)
    (count_fits : FitsCount count) :
    BroughtOut sum scale count (avgLikeBigdecimal sum scale count) := by
  obtain ⟨positive, small⟩ := count_fits
  have word : sum.natAbs < 10 ^ 39 := by
    have magnitude : sum.natAbs ≤ 2 ^ 127 := by
      simp only [Fits128] at sum_fits
      omega
    exact magnitude.trans_lt (by decide)
  have precise : (10 : Nat) ^ 39 < 10 ^ divPrecision := by decide
  by_cases unchanged : sum = 0 ∨ count = 1
  · have divides : count ∣ sum.natAbs := by
      rcases unchanged with rfl | rfl
      · exact dvd_zero _
      · exact one_dvd _
    have same : sum.natAbs / count = sum.natAbs := by
      rcases unchanged with rfl | rfl
      · exact Nat.zero_div _
      · exact Nat.div_one _
    have result := @broughtOut_of_dvd sum scale count divides
      ((Nat.div_le_self _ _).trans_lt (word.trans precise)) scale_fits.2
    rw [same, signedDecimal_natAbs] at result
    rw [avgLikeBigdecimal, if_pos unchanged]
    exact result
  by_cases equal : sum = count
  · have magnitude : sum.natAbs = count := by omega
    have result := @broughtOut_of_dvd sum scale count (dvd_of_eq magnitude.symm)
      ((Nat.div_le_self _ _).trans_lt (word.trans precise)) scale_fits.2
    rw [magnitude, Nat.div_self positive, signedDecimal] at result
    have plus : ¬decide (sum < 0) = true := by
      rw [decide_eq_true_eq]
      omega
    rw [avgLikeBigdecimal, if_neg unchanged, if_pos equal]
    rw [if_neg plus] at result
    exact result
  have num_pos : 0 < sum.natAbs := Int.natAbs_pos.mpr fun none => unchanged (.inl none)
  obtain ⟨raised, reaches⟩ := exists_reaches num_pos count
  have lead_small : sum.natAbs * 10 ^ raised / count < 10 ^ 39 := by
    cases raised with
    | zero =>
        rw [pow_zero, mul_one]
        exact (Nat.div_le_self _ _).trans_lt word
    | succ raised =>
        have below := reaches.before raised (Nat.lt_succ_self _)
        rw [Nat.div_lt_iff_lt_mul positive, pow_succ, ← mul_assoc, mul_comm]
        exact (Nat.mul_lt_mul_of_pos_left below (by decide)).trans_le
          (Nat.mul_le_mul_right _ (by decide))
  have few : digitCount (sum.natAbs * 10 ^ raised / count) ≤ divPrecision := by
    have digits := Nat.log_lt_of_lt_pow' (by decide) lead_small
    exact digits.trans (by decide)
  -- Whatever path it takes, the quotient is brought out to where the digits stop.
  have tail (places : Nat)
      (stops : Stops (sum.natAbs * 10 ^ raised) count
        (roundsAfter (sum.natAbs * 10 ^ raised / count)) places)
      (result : scale + raised ≤ Word64.greatest →
        (if sum.natAbs * 10 ^ raised % count ≠ 0 ∧
            terminates (sum.natAbs * 10 ^ raised) count = false then
          nonTerminatingQuotient (sum.natAbs * 10 ^ raised) (sum.natAbs * 10 ^ raised / count)
            (scale + raised) count (decide (sum < 0))
        else if sum.natAbs * 10 ^ raised % count ≠ 0 then
          terminatingQuotient (sum.natAbs * 10 ^ raised / count)
            (sum.natAbs * 10 ^ raised % count) (scale + raised) count (decide (sum < 0))
        else some (signedDecimal (decide (sum < 0)) (sum.natAbs * 10 ^ raised / count)
          (scale + raised))) =
        fitting (scale + raised + places)
          (signedDecimal (decide (sum < 0)) (rounded (sum.natAbs * 10 ^ raised * 10 ^ places) count)
            (scale + raised + places))) :
      BroughtOut sum scale count (avgLikeBigdecimal sum scale count) := by
    obtain ⟨fewest, bounded⟩ := stops.fewest positive num_pos reaches few
    refine ⟨raised + places, fewest, bounded, ?_⟩
    rw [avgLikeBigdecimal, if_neg unchanged, if_neg equal,
      raise_eq small reaches (reaches.le num_pos) scale_fits, pow_add, ← mul_assoc, Nat.cast_add,
      ← add_assoc]
    exact fitting_bind (by omega) result
  have low : Word64.least ≤ scale + raised := scale_fits.1.trans (by omega)
  by_cases exact_lead : sum.natAbs * 10 ^ raised % count = 0
  · have divides := Nat.dvd_of_mod_eq_zero exact_lead
    refine tail 0 ⟨Nat.zero_le _, fun _ less => absurd less (Nat.not_lt_zero _),
      .inr (by rwa [pow_zero, mul_one])⟩ fun high => ?_
    rw [if_neg (fun inexact => inexact.1 exact_lead), if_neg (not_not_intro exact_lead), pow_zero,
      mul_one, rounded_of_dvd divides, Nat.cast_zero, add_zero, fitting_eq_some high]
  · cases ends : terminates (sum.natAbs * 10 ^ raised) count with
    | false =>
        refine tail _ ⟨le_rfl, fun fewer _ => ?_, .inl rfl⟩ fun _ => ?_
        · exact not_dvd_of_not_terminates positive small ends fewer
        · rw [if_pos ⟨exact_lead, ends⟩, nonTerminatingQuotient_eq positive small low]
    | true =>
        obtain ⟨places, stops⟩ := exists_stops (sum.natAbs * 10 ^ raised) count
          (roundsAfter (sum.natAbs * 10 ^ raised / count))
        refine tail places stops fun high => ?_
        have endless : ¬terminates (sum.natAbs * 10 ^ raised) count = false := by
          rw [ends]
          decide
        rw [if_neg (fun inexact => endless inexact.2), if_pos exact_lead,
          terminatingQuotient_eq positive small stops low high]

theorem exists_avg (sum_fits : Fits128 sum) (scale_fits : Word64.Fits scale)
    (room : scale + 119 ≤ Word64.greatest) (count_fits : FitsCount count) :
    ∃ average, avgLikeBigdecimal sum scale count = some average := by
  obtain ⟨places, fewest, _, result⟩ :=
    avgLikeBigdecimal_broughtOut sum_fits scale_fits count_fits
  have enough : Exhausts divPrecision sum.natAbs count 119 := by
    rcases Nat.eq_zero_or_pos sum.natAbs with none | some
    · rw [none]
      exact .inl ⟨0, by simp⟩
    · refine .inr ((Nat.le_div_iff_mul_le count_fits.1).mpr ?_)
      calc
        10 ^ (divPrecision - 1) * count ≤ 10 ^ (divPrecision - 1) * 10 ^ 20 :=
          Nat.mul_le_mul_left _ (count_fits.2.le.trans (by decide))
        _ ≤ 1 * 10 ^ 119 := by decide
        _ ≤ sum.natAbs * 10 ^ 119 := Nat.mul_le_mul_right _ some
  have few := fewest.le enough
  exact ⟨_, result.trans (fitting_eq_some (by omega) _)⟩

/-- The quotient of a decimal by a count. -/
def quotientOf (sum scale : Int) (count : Nat) : Rat :=
  sum / (count * (10 : Rat) ^ scale)

theorem signedDecimal_toRat (positive : 0 < count)
    (fewest : Fewest divPrecision sum.natAbs count places)
    (few : sum.natAbs * 10 ^ places / count < 10 ^ divPrecision) :
    (signedDecimal (decide (sum < 0)) (rounded (sum.natAbs * 10 ^ places) count)
      (scale + places)).toRat = roundTo divPrecision (quotientOf sum scale count) := by
  have ten : (10 : Rat) ≠ 0 := by norm_num
  have count_ne : (count : Rat) ≠ 0 := by exact_mod_cast positive.ne'
  have magnitude : ((sum.natAbs * 10 ^ places : ℕ) : Rat) / count * 10 ^ (-(scale + places)) =
      quotientOf sum.natAbs scale count := by
    have power : (10 : Rat) ^ (-(scale + places : Int)) * 10 ^ places = (10 ^ scale)⁻¹ := by
      rw [neg_add, zpow_add₀ ten, zpow_neg, zpow_neg, zpow_natCast, mul_assoc,
        inv_mul_cancel₀ (pow_ne_zero _ ten), mul_one]
    rw [quotientOf, Nat.cast_mul, Nat.cast_pow, Nat.cast_ofNat, Int.cast_natCast,
      div_mul_eq_div_div, div_eq_mul_inv _ ((10 : Rat) ^ scale), ← power]
    ring
  have exactly := roundTo_quotient (by decide) positive fewest.1 few (-(scale + places))
  rw [magnitude] at exactly
  by_cases negative : sum < 0
  · have opposite : quotientOf sum scale count = -quotientOf sum.natAbs scale count := by
      have mantissa : sum = -(sum.natAbs : Int) := by omega
      rw [quotientOf, quotientOf, mantissa, Int.natAbs_neg, Int.natAbs_natCast, Int.cast_neg,
        neg_div]
    rw [opposite, roundTo_neg, exactly, BigDecimal.toRat, signedDecimal,
      if_pos (decide_eq_true negative)]
    push_cast
    ring
  · have mantissa : (sum.natAbs : Int) = sum := by omega
    rw [mantissa] at exactly
    rw [exactly, BigDecimal.toRat, signedDecimal,
      if_neg (by rwa [decide_eq_true_eq]), Int.cast_natCast]

/-- The average is the quotient to a hundred significant digits, which is the quotient itself
exactly when that has so many digits.  It fails to be computed only where the places which it
takes bring its scale beyond the words. -/
theorem avgLikeBigdecimal_is_quotient (sum scale : Int) (count : Nat) (sum_fits : Fits128 sum)
    (scale_fits : Word64.Fits scale) (count_fits : FitsCount count) :
    (∀ average, avgLikeBigdecimal sum scale count = some average →
      average.toRat = roundTo divPrecision (quotientOf sum scale count) ∧
        (average.toRat = quotientOf sum scale count ↔
          HasDigits divPrecision (quotientOf sum scale count))) ∧
    ((∃ average, avgLikeBigdecimal sum scale count = some average) ↔
      ∃ places : Nat, scale + places ≤ Word64.greatest ∧
        Exhausts divPrecision sum.natAbs count places) := by
  obtain ⟨places, fewest, few, result⟩ :=
    avgLikeBigdecimal_broughtOut sum_fits scale_fits count_fits
  constructor
  · intro average computed
    have value : average.toRat = roundTo divPrecision (quotientOf sum scale count) := by
      rw [result, fitting] at computed
      split at computed
      · cases computed
        exact signedDecimal_toRat count_fits.1 fewest few
      · cases computed
    rw [value, roundTo_eq_self_iff (by decide)]
    exact ⟨rfl, Iff.rfl⟩
  · rw [result]
    constructor
    · rintro ⟨average, computed⟩
      refine ⟨places, ?_, fewest.1⟩
      by_contra beyond
      rw [fitting_eq_none beyond] at computed
      cases computed
    · rintro ⟨other, high, exhausts⟩
      have fewer := fewest.le exhausts
      exact ⟨_, fitting_eq_some (by omega) _⟩

/-- A quotient whose expansion does not end has an average. -/
theorem average_of_two_thirds :
    ∃ average, avgLikeBigdecimal 2 0 3 = some average ∧
      average.toRat = roundTo divPrecision (quotientOf 2 0 3) := by
  have both := avgLikeBigdecimal_is_quotient 2 0 3 (by decide) (by decide) (by decide)
  obtain ⟨average, computed⟩ := both.2.mpr ⟨100, by decide, .inr (by decide)⟩
  exact ⟨average, computed, (both.1 average computed).1⟩

/-- The scale of a half is one more than that of the sum, which may be the greatest one. -/
theorem average_scale_overflows :
    ¬∀ (sum scale : Int) (count : Nat), Fits128 sum → Word64.Fits scale → FitsCount count →
      ∃ average, avgLikeBigdecimal sum scale count = some average ∧
        average.toRat = roundTo divPrecision (quotientOf sum scale count) := by
  intro every
  obtain ⟨average, computed, _⟩ :=
    every 1 Word64.greatest 2 (by decide) (by decide) (by decide)
  have overflows : avgLikeBigdecimal 1 Word64.greatest 2 = none := by decide
  rw [overflows] at computed
  cases computed

end Averages

end WeftDb.Reduce
