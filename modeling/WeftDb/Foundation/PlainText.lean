import Mathlib.Data.List.Basic
import Mathlib.Data.List.Induction
import Mathlib.Tactic.IntervalCases

/-!
# Cutting texts and reading numerals

A text is cut at the first or at the last occurrence of a pattern, or in front of a suffix.  A
numeral without a leading zero is the one which its number is written with.
-/

namespace PlainText

variable {Symbol : Type*} [DecidableEq Symbol]

/-- What stands before a suffix. -/
def stripSuffix (suffix text : List Symbol) : Option (List Symbol) :=
  if text.drop (text.length - suffix.length) = suffix then
    some (text.take (text.length - suffix.length))
  else none

/-- What stands behind a prefix. -/
def stripPrefix (front text : List Symbol) : Option (List Symbol) :=
  if front.isPrefixOf text then some (text.drop front.length) else none

/-- The parts of a text around the first occurrence of a pattern. -/
def splitOnce (pattern : List Symbol) : List Symbol → Option (List Symbol × List Symbol)
  | [] => if pattern = [] then some ([], []) else none
  | symbol :: text =>
      if pattern.isPrefixOf (symbol :: text) then
        some ([], (symbol :: text).drop pattern.length)
      else (splitOnce pattern text).map fun parts => (symbol :: parts.1, parts.2)

/-- The parts of a text around the last occurrence of a pattern. -/
def rsplitOnce (pattern : List Symbol) : List Symbol → Option (List Symbol × List Symbol)
  | [] => if pattern = [] then some ([], []) else none
  | symbol :: text =>
      match rsplitOnce pattern text with
      | some parts => some (symbol :: parts.1, parts.2)
      | none =>
          if pattern.isPrefixOf (symbol :: text) then
            some ([], (symbol :: text).drop pattern.length)
          else none

variable {pattern text left right : List Symbol} {mark second : Symbol}

theorem stripSuffix_append (text suffix : List Symbol) :
    stripSuffix suffix (text ++ suffix) = some text := by
  have front : (text ++ suffix).length - suffix.length = text.length := by
    rw [List.length_append]
    omega
  rw [stripSuffix, front, if_pos List.drop_left, List.take_left]

theorem eq_of_stripSuffix {suffix front : List Symbol}
    (stripped : stripSuffix suffix text = some front) : text = front ++ suffix := by
  unfold stripSuffix at stripped
  split at stripped
  · rename_i behind
    obtain rfl := Option.some.inj stripped
    conv_lhs => rw [← List.take_append_drop (text.length - suffix.length) text, behind]
  · cases stripped

theorem eq_of_isPrefixOf (occurs : pattern.isPrefixOf text = true) :
    text = pattern ++ text.drop pattern.length := by
  obtain ⟨behind, rfl⟩ := List.isPrefixOf_iff_prefix.mp occurs
  rw [List.drop_left]

theorem eq_of_splitOnce (cut : splitOnce pattern text = some (left, right)) :
    text = left ++ (pattern ++ right) := by
  induction text generalizing left with
  | nil =>
      unfold splitOnce at cut
      split at cut
      · rename_i empty
        cases cut
        rw [empty]
        rfl
      · cases cut
  | cons symbol text ih =>
      rw [splitOnce] at cut
      split at cut
      · rename_i occurs
        cases cut
        exact eq_of_isPrefixOf occurs
      · obtain ⟨⟨front, behind⟩, later, same⟩ := Option.map_eq_some_iff.mp cut
        cases same
        rw [ih later]
        rfl

theorem eq_of_rsplitOnce (cut : rsplitOnce pattern text = some (left, right)) :
    text = left ++ (pattern ++ right) := by
  induction text generalizing left with
  | nil =>
      unfold rsplitOnce at cut
      split at cut
      · rename_i empty
        cases cut
        rw [empty]
        rfl
      · cases cut
  | cons symbol text ih =>
      rw [rsplitOnce] at cut
      cases later : rsplitOnce pattern text with
      | some parts =>
          rw [later] at cut
          cases cut
          rw [ih later]
          rfl
      | none =>
          rw [later] at cut
          by_cases occurs : pattern.isPrefixOf (symbol :: text) = true
          · rw [if_pos occurs] at cut
            cases cut
            exact eq_of_isPrefixOf occurs
          · rw [if_neg occurs] at cut
            cases cut

theorem isPrefixOf_of_ne {symbol : Symbol} (other : mark ≠ symbol) (rest text : List Symbol) :
    (mark :: rest).isPrefixOf (symbol :: text) = false := by
  rw [List.isPrefixOf_cons_cons, beq_false_of_ne other, Bool.false_and]

theorem not_isPrefixOf (absent : mark ∉ text) (rest : List Symbol) :
    (mark :: rest).isPrefixOf text = false := by
  cases text with
  | nil => rfl
  | cons symbol text =>
      have other : mark ≠ symbol := fun same => absent (same ▸ List.mem_cons_self)
      exact isPrefixOf_of_ne other rest text

theorem splitOnce_eq_none (absent : mark ∉ text) (rest : List Symbol) :
    splitOnce (mark :: rest) text = none := by
  induction text with
  | nil => rfl
  | cons symbol text ih =>
      rw [splitOnce, not_isPrefixOf absent, if_neg Bool.false_ne_true,
        ih fun member => absent (List.mem_cons_of_mem _ member)]
      rfl

theorem rsplitOnce_eq_none (absent : mark ∉ text) (rest : List Symbol) :
    rsplitOnce (mark :: rest) text = none := by
  induction text with
  | nil => rfl
  | cons symbol text ih =>
      rw [rsplitOnce, ih fun member => absent (List.mem_cons_of_mem _ member),
        not_isPrefixOf absent]
      rfl

theorem splitOnce_append (absent : mark ∉ left) (rest right : List Symbol) :
    splitOnce (mark :: rest) (left ++ (mark :: rest ++ right)) = some (left, right) := by
  induction left with
  | nil =>
      have occurs : (mark :: rest).isPrefixOf (mark :: (rest ++ right)) = true :=
        List.isPrefixOf_iff_prefix.mpr (List.prefix_append (mark :: rest) right)
      rw [List.nil_append, List.cons_append, splitOnce, if_pos occurs, List.length_cons,
        List.drop_succ_cons, List.drop_left]
  | cons symbol left ih =>
      have other : mark ≠ symbol := fun same => absent (same ▸ List.mem_cons_self)
      rw [List.cons_append, splitOnce, isPrefixOf_of_ne other, if_neg Bool.false_ne_true,
        ih fun member => absent (List.mem_cons_of_mem _ member)]
      rfl

theorem rsplitOnce_append (rest : List Symbol) (unmarked : mark ∉ rest) (left : List Symbol)
    (absent : mark ∉ right) :
    rsplitOnce (mark :: rest) (left ++ (mark :: rest ++ right)) = some (left, right) := by
  induction left with
  | nil =>
      have occurs : (mark :: rest).isPrefixOf (mark :: (rest ++ right)) = true :=
        List.isPrefixOf_iff_prefix.mpr (List.prefix_append (mark :: rest) right)
      have behind : mark ∉ rest ++ right := fun member =>
        (List.mem_append.mp member).elim unmarked absent
      rw [List.nil_append, List.cons_append, rsplitOnce, rsplitOnce_eq_none behind]
      simp only [occurs, if_true, List.length_cons, List.drop_succ_cons, List.drop_left]
  | cons symbol left ih =>
      rw [List.cons_append, rsplitOnce, ih]

theorem append_cons_inj {other later : List Symbol} (absent : mark ∉ left)
    (other_absent : mark ∉ other) (same : left ++ mark :: right = other ++ mark :: later) :
    left = other ∧ right = later := by
  have first : splitOnce [mark] (left ++ mark :: right) = some (left, right) :=
    splitOnce_append absent [] right
  have second : splitOnce [mark] (other ++ mark :: later) = some (other, later) :=
    splitOnce_append other_absent [] later
  rw [same, second, Option.some.injEq, Prod.mk.injEq] at first
  exact ⟨first.1.symm, first.2.symm⟩

omit [DecidableEq Symbol] in
theorem flatMap_injective_of_read {Item : Type*} {code : Item → List Symbol}
    {read : List Symbol → Option (Item × List Symbol)}
    (reads : ∀ item text, read (code item ++ text) = some (item, text))
    (nonempty : ∀ item, code item ≠ []) {items others : List Item}
    (same : items.flatMap code = others.flatMap code) : items = others := by
  induction items generalizing others with
  | nil =>
      cases others with
      | nil => rfl
      | cons other others =>
          rw [List.flatMap_cons] at same
          exact absurd (List.append_eq_nil_iff.mp same.symm).1 (nonempty other)
  | cons item items ih =>
      cases others with
      | nil =>
          rw [List.flatMap_cons] at same
          exact absurd (List.append_eq_nil_iff.mp same).1 (nonempty item)
      | cons other others =>
          rw [List.flatMap_cons, List.flatMap_cons] at same
          have first := reads item (items.flatMap code)
          rw [same, reads other, Option.some.injEq, Prod.mk.injEq] at first
          rw [first.1, ih first.2.symm]

theorem digitChar_ofDigit {digit : Char} (decimal : digit.isDigit = true) :
    digit.toNat - '0'.toNat < 10 ∧ Nat.digitChar (digit.toNat - '0'.toNat) = digit := by
  have bounds : 48 ≤ digit.toNat ∧ digit.toNat ≤ 57 := by
    simp only [Char.isDigit, Bool.and_eq_true, decide_eq_true_eq] at decimal
    exact decimal
  rw [← Char.ofNat_toNat digit] at decimal ⊢
  generalize digit.toNat = code at bounds
  obtain ⟨lower, upper⟩ := bounds
  interval_cases code <;> decide

theorem head?_toDigits {number : Nat} (positive : 0 < number) :
    (Nat.toDigits 10 number).head? ≠ some '0' := by
  induction number using Nat.strong_induction_on with
  | _ number ih =>
      rw [Nat.toDigits_eq_if (by decide)]
      split
      · rename_i small
        interval_cases number <;> decide
      · have shorter := ih (number / 10) (by omega) (by omega)
        rwa [List.head?_append_of_ne_nil _ Nat.toDigits_ne_nil]

/-- Digits which are written for their own number: there are some, without a leading zero. -/
def Canonical (digits : List Char) : Prop :=
  digits ≠ [] ∧ (∀ digit ∈ digits, digit.isDigit = true) ∧
    (1 < digits.length → digits.head? ≠ some '0')

theorem canonical_toDigits (number : Nat) : Canonical (Nat.toDigits 10 number) := by
  refine ⟨Nat.toDigits_ne_nil, fun _ member =>
    Nat.isDigit_of_mem_toDigits (by decide) (by decide) member, fun long => ?_⟩
  refine head?_toDigits (Nat.pos_of_ne_zero ?_)
  rintro rfl
  exact absurd long (by decide)

theorem toDigits_ofDigitChars {digits : List Char} (canonical : Canonical digits) :
    Nat.toDigits 10 (Nat.ofDigitChars 10 digits 0) = digits := by
  induction digits using List.reverseRecOn with
  | nil => exact absurd rfl canonical.1
  | append_singleton front last ih =>
      obtain ⟨-, decimal, leading⟩ := canonical
      obtain ⟨small, own⟩ := digitChar_ofDigit (decimal last (by simp))
      have value : Nat.ofDigitChars 10 (front ++ [last]) 0 =
          10 * Nat.ofDigitChars 10 front 0 + (last.toNat - '0'.toNat) := by
        rw [Nat.ofDigitChars_append, Nat.ofDigitChars_cons, Nat.ofDigitChars_nil]
      rw [value]
      rcases List.eq_nil_or_concat' front with rfl | ⟨before, digit, shape⟩
      · rw [Nat.ofDigitChars_nil, Nat.mul_zero, Nat.zero_add, Nat.toDigits_of_lt_base small, own]
        rfl
      have held : front ≠ [] := by simp [shape]
      have head : front.head? ≠ some '0' := by
        have leads := leading (by simp [shape])
        rwa [List.head?_append_of_ne_nil _ held] at leads
      have front_canonical : Canonical front :=
        ⟨held, fun digit member => decimal digit (List.mem_append_left _ member), fun _ => head⟩
      have positive : 0 < Nat.ofDigitChars 10 front 0 := by
        refine Nat.pos_of_ne_zero fun zero => head ?_
        rw [← ih front_canonical, zero]
        rfl
      rw [← Nat.toDigits_append_toDigits (by decide) positive small, ih front_canonical,
        Nat.toDigits_of_lt_base small, own]

end PlainText
