import Mathlib.Algebra.Group.Nat.Even
import Mathlib.Data.List.Basic
import Mathlib.Tactic.ByContra

/-!
# Texts with escapes and quotations

An escape symbol protects its successor, and a quotation reaches from one unprotected quote to the
next.  A text is split at the delimiters which neither protects, with the escapes left in place,
and each piece is read by dropping them.  A text with its marked symbols escaped reads back as
itself, and splits at no marked delimiter.
-/

namespace EscapedText

open Option

variable {Symbol : Type*} [DecidableEq Symbol]
variable {left right : List Symbol} {pieces : List (List Symbol)}

/-- The symbols with a role of their own: the escape, the quote and the delimiter, and whether a
quotation protects a delimiter. -/
structure Marks (Symbol : Type*) where
  escape : Symbol
  quote : Symbol
  delim : Symbol
  respectQuotes : Bool

/-- Whether the next symbol is escaped, and whether it stands in a quotation. -/
structure Mode where
  escaped : Bool
  inQuote : Bool
  deriving DecidableEq

namespace Mode

/-- Outside any quotation. -/
def clear : Mode := ⟨false, false⟩

end Mode

/-- The pieces so far, the piece being read and the mode. -/
structure Splitting (Symbol : Type*) where
  out : List (List Symbol)
  cur : List Symbol
  mode : Mode

namespace Splitting

variable (marks : Marks Symbol)

/-- Read one symbol. -/
def push (state : Splitting Symbol) (symbol : Symbol) : Splitting Symbol :=
  if state.mode.escaped then
    { state with cur := state.cur ++ [symbol], mode := ⟨false, state.mode.inQuote⟩ }
  else if symbol = marks.escape then
    { state with cur := state.cur ++ [symbol], mode := ⟨true, state.mode.inQuote⟩ }
  else if marks.respectQuotes ∧ symbol = marks.quote then
    { state with cur := state.cur ++ [symbol], mode := ⟨false, !state.mode.inQuote⟩ }
  else if symbol = marks.delim ∧ ¬state.mode.inQuote then
    { state with out := state.out ++ [state.cur], cur := [] }
  else
    { state with cur := state.cur ++ [symbol] }

/-- The pieces, with the last one. -/
def finish (state : Splitting Symbol) : List (List Symbol) := state.out ++ [state.cur]

end Splitting

/-- The pieces of a text between its unprotected delimiters. -/
def split (marks : Marks Symbol) (text : List Symbol) : List (List Symbol) :=
  (text.foldl (Splitting.push marks) ⟨[], [], .clear⟩).finish

/-- Drop the escapes of a text; an escape at its end stays. -/
def unescapeFrom (escape : Symbol) : Bool → List Symbol → List Symbol
  | true, [] => [escape]
  | false, [] => []
  | true, symbol :: text => symbol :: unescapeFrom escape false text
  | false, symbol :: text =>
      if symbol = escape then unescapeFrom escape true text
      else symbol :: unescapeFrom escape false text

abbrev unescape (escape : Symbol) : List Symbol → List Symbol := unescapeFrom escape false

/-- Escape the marked symbols of a text. -/
def protect (escape : Symbol) (marked : Symbol → Prop) [DecidablePred marked]
    (text : List Symbol) : List Symbol :=
  text.flatMap fun symbol => if marked symbol then [escape, symbol] else [symbol]

/-- The mode behind a symbol; a delimiter which splits has none. -/
def advance (marks : Marks Symbol) (mode : Mode) (symbol : Symbol) : Option Mode :=
  if mode.escaped then some ⟨false, mode.inQuote⟩
  else if symbol = marks.escape then some ⟨true, mode.inQuote⟩
  else if marks.respectQuotes ∧ symbol = marks.quote then some ⟨false, !mode.inQuote⟩
  else if symbol = marks.delim ∧ ¬mode.inQuote then none
  else some mode

/-- The mode behind a text which is not split. -/
def carry (marks : Marks Symbol) : Mode → List Symbol → Option Mode
  | mode, [] => some mode
  | mode, symbol :: text => (advance marks mode symbol).bind fun mode => carry marks mode text

/-- The rest of a piece and the pieces behind it. -/
def splitFrom (marks : Marks Symbol) : Mode → List Symbol → List Symbol × List (List Symbol)
  | _, [] => ([], [])
  | mode, symbol :: text =>
      match advance marks mode symbol with
      | some next => (symbol :: (splitFrom marks next text).1, (splitFrom marks next text).2)
      | none => ([], (splitFrom marks mode text).1 :: (splitFrom marks mode text).2)

variable {marks : Marks Symbol} {mode next : Mode} {symbol : Symbol} {piece text : List Symbol}

theorem push_eq (state : Splitting Symbol) (symbol : Symbol) :
    state.push marks symbol =
      match advance marks state.mode symbol with
      | some mode => { state with cur := state.cur ++ [symbol], mode }
      | none => { state with out := state.out ++ [state.cur], cur := [] } := by
  rw [Splitting.push, advance]
  split_ifs <;> rfl

theorem finish_foldl_push (text : List Symbol) (state : Splitting Symbol) :
    (text.foldl (Splitting.push marks) state).finish =
      state.out ++ (state.cur ++ (splitFrom marks state.mode text).1) ::
        (splitFrom marks state.mode text).2 := by
  induction text generalizing state with
  | nil => simp [Splitting.finish, splitFrom]
  | cons symbol text ih =>
      rw [List.foldl_cons, ih, push_eq, splitFrom]
      cases advance marks state.mode symbol with
      | some mode => simp
      | none => simp

theorem split_eq (marks : Marks Symbol) (text : List Symbol) :
    split marks text = (splitFrom marks .clear text).1 :: (splitFrom marks .clear text).2 :=
  finish_foldl_push text _

theorem clear_of_advance (splits : advance marks mode symbol = none) :
    mode = .clear ∧ symbol = marks.delim ∧ symbol ≠ marks.escape := by
  obtain ⟨escaped, inQuote⟩ := mode
  unfold advance at splits
  split_ifs at splits with protected_ escape quote delimiter
  obtain ⟨delim, outside⟩ := delimiter
  refine ⟨?_, delim, escape⟩
  rw [Mode.clear, Mode.mk.injEq]
  exact ⟨Bool.eq_false_iff.mpr protected_, Bool.eq_false_iff.mpr outside⟩

theorem carry_append (left right : List Symbol) (mode : Mode) :
    carry marks mode (left ++ right) =
      (carry marks mode left).bind fun mode => carry marks mode right := by
  induction left generalizing mode with
  | nil => rfl
  | cons symbol left ih =>
      rw [List.cons_append, carry, carry, bind_assoc]
      exact bind_congr fun mode _ => ih mode

theorem carry_append_of_carry (carried : carry marks mode left = some next) :
    carry marks mode (left ++ right) = carry marks next right := by
  rw [carry_append, carried, bind_some]

theorem splitFrom_append (carried : carry marks mode piece = some next) (text : List Symbol) :
    splitFrom marks mode (piece ++ text) =
      (piece ++ (splitFrom marks next text).1, (splitFrom marks next text).2) := by
  induction piece generalizing mode with
  | nil =>
      obtain rfl := some.inj carried
      rfl
  | cons symbol piece ih =>
      rw [carry, bind_eq_some_iff] at carried
      obtain ⟨between, advanced, later⟩ := carried
      rw [List.cons_append, splitFrom, advanced]
      simp only [ih later, List.cons_append]

/-- A text which no delimiter splits, outside quotations at both ends. -/
def Whole (marks : Marks Symbol) (piece : List Symbol) : Prop :=
  carry marks .clear piece = some .clear

theorem Whole.append (left_whole : Whole marks piece) (right_whole : Whole marks text) :
    Whole marks (piece ++ text) := by
  rw [Whole, carry_append_of_carry left_whole]
  exact right_whole

theorem Whole.flatMap {Item : Type*} {items : List Item} {render : Item → List Symbol}
    (whole : ∀ item ∈ items, Whole marks (render item)) : Whole marks (items.flatMap render) := by
  induction items with
  | nil => rfl
  | cons item items ih =>
      obtain ⟨own, others⟩ := List.forall_mem_cons.mp whole
      rw [List.flatMap_cons]
      exact own.append (ih others)

theorem split_of_carry (carried : carry marks .clear piece = some next) :
    split marks piece = [piece] := by
  have behind := splitFrom_append carried []
  rw [List.append_nil, splitFrom, List.append_nil] at behind
  rw [split_eq, behind]

theorem advance_clear_delim (plain : marks.delim ≠ marks.escape)
    (unquoted : marks.delim ≠ marks.quote) : advance marks .clear marks.delim = none := by
  simp [advance, Mode.clear, plain, unquoted]

variable (marks) in
theorem split_append_delim (plain : marks.delim ≠ marks.escape)
    (unquoted : marks.delim ≠ marks.quote) (whole : Whole marks piece) (text : List Symbol) :
    split marks (piece ++ marks.delim :: text) = piece :: split marks text := by
  rw [split_eq, splitFrom_append whole, splitFrom, advance_clear_delim plain unquoted, split_eq]
  simp

variable (marks) in
theorem split_joined (plain : marks.delim ≠ marks.escape) (unquoted : marks.delim ≠ marks.quote)
    (whole : ∀ piece ∈ pieces, Whole marks piece) (text : List Symbol) :
    split marks (pieces.flatMap (· ++ [marks.delim]) ++ text) = pieces ++ split marks text := by
  induction pieces with
  | nil => rfl
  | cons piece pieces ih =>
      obtain ⟨own, others⟩ := List.forall_mem_cons.mp whole
      rw [List.flatMap_cons, List.append_assoc, List.append_assoc, List.singleton_append,
        split_append_delim marks plain unquoted own, ih others, List.cons_append]

omit [DecidableEq Symbol] in
theorem intercalate_eq (delim : Symbol) (piece : List Symbol) (behind : List (List Symbol)) :
    [delim].intercalate (piece :: behind) = piece ++ behind.flatMap (delim :: ·) := by
  induction behind generalizing piece with
  | nil => simp
  | cons next behind ih => simp [List.intercalate_cons_cons, ih]

omit [DecidableEq Symbol] in
theorem intercalate_append (delim : Symbol) (pieces : List (List Symbol)) (piece : List Symbol)
    (behind : List (List Symbol)) :
    [delim].intercalate (pieces ++ piece :: behind) =
      pieces.flatMap (· ++ [delim]) ++ [delim].intercalate (piece :: behind) := by
  induction pieces with
  | nil => rfl
  | cons first pieces ih =>
      rw [List.flatMap_cons, List.append_assoc, List.append_assoc, ← ih]
      cases pieces <;> simp [List.intercalate_cons_cons]

omit [DecidableEq Symbol] in
theorem mem_intercalate {delim : Symbol} (member : symbol ∈ [delim].intercalate pieces) :
    symbol = delim ∨ ∃ piece ∈ pieces, symbol ∈ piece := by
  cases pieces with
  | nil => cases member
  | cons piece behind =>
      rw [intercalate_eq, List.mem_append, List.mem_flatMap] at member
      rcases member with first | ⟨other, inside, member⟩
      · exact .inr ⟨piece, List.mem_cons_self, first⟩
      rcases List.mem_cons.mp member with same | later
      · exact .inl same
      · exact .inr ⟨other, List.mem_cons_of_mem _ inside, later⟩

variable (marks) in
theorem split_intercalate (plain : marks.delim ≠ marks.escape)
    (unquoted : marks.delim ≠ marks.quote) (held : pieces ≠ [])
    (whole : ∀ piece ∈ pieces, Whole marks piece) :
    split marks ([marks.delim].intercalate pieces) = pieces := by
  obtain ⟨before, last, rfl⟩ := (List.eq_nil_or_concat' pieces).resolve_left held
  rw [intercalate_append, List.intercalate_singleton, split_joined marks plain unquoted fun piece member =>
    whole piece (List.mem_append_left _ member), split_of_carry (whole last (by simp))]

theorem Whole.intercalate {other : Symbol} (own : Whole marks [other])
    (whole : ∀ piece ∈ pieces, Whole marks piece) : Whole marks ([other].intercalate pieces) := by
  cases pieces with
  | nil => rfl
  | cons piece behind =>
      rw [intercalate_eq]
      obtain ⟨first, others⟩ := List.forall_mem_cons.mp whole
      exact first.append (Whole.flatMap fun next member => own.append (others next member))

theorem split_append_of_carry (carried : carry marks .clear piece = some next)
    (text : List Symbol) :
    split marks (piece ++ text) =
      (piece ++ (splitFrom marks next text).1) :: (splitFrom marks next text).2 := by
  rw [split_eq, splitFrom_append carried]

theorem carry_plain (open_ : mode.escaped = false)
    (plain : ∀ symbol ∈ text, symbol ≠ marks.escape ∧ symbol ≠ marks.quote ∧ symbol ≠ marks.delim) :
    carry marks mode text = some mode := by
  induction text with
  | nil => rfl
  | cons symbol text ih =>
      obtain ⟨⟨unescaping, unquoting, unsplitting⟩, later⟩ := List.forall_mem_cons.mp plain
      rw [carry, advance]
      simp only [open_, unescaping, unquoting, unsplitting, false_and, and_false, if_false,
        Bool.false_eq_true, bind_some]
      exact ih later

variable (marks) in
theorem carry_quoted (plain : symbol ≠ marks.escape) (unquoted : symbol ≠ marks.quote) :
    carry marks ⟨false, true⟩ [symbol] = some ⟨false, true⟩ := by
  simp [carry, advance, plain, unquoted]

section Protect

variable {marked : Symbol → Prop} [DecidablePred marked]
variable {escape : Symbol} {count : Nat}

omit [DecidableEq Symbol] in
theorem protect_cons (escape symbol : Symbol) (text : List Symbol) :
    protect escape marked (symbol :: text) =
      (if marked symbol then [escape, symbol] else [symbol]) ++ protect escape marked text :=
  List.flatMap_cons

omit [DecidableEq Symbol] in
theorem mem_protect (member : symbol ∈ protect escape marked text) :
    symbol = escape ∨ symbol ∈ text := by
  obtain ⟨own, inside, member⟩ := List.mem_flatMap.mp member
  split at member
  · rcases List.mem_cons.mp member with same | member
    · exact .inl same
    · exact .inr (List.mem_singleton.mp member ▸ inside)
  · exact .inr (List.mem_singleton.mp member ▸ inside)

/-- The quotes which a splitting respects. -/
def quotes (marks : Marks Symbol) (text : List Symbol) : Nat :=
  if marks.respectQuotes then text.count marks.quote else 0

theorem quotes_cons (symbol : Symbol) (text : List Symbol) :
    quotes marks (symbol :: text) = quotes marks text +
      if marks.respectQuotes ∧ symbol = marks.quote then 1 else 0 := by
  unfold quotes
  by_cases respects : marks.respectQuotes
  · simp [respects, List.count_cons]
  · simp [respects]

/-- The mode behind an escaped text: each quote turns it over. -/
def turned (inQuote : Bool) (count : Nat) : Mode := ⟨false, inQuote ^^ decide (count % 2 = 1)⟩

theorem turned_turned (inQuote : Bool) (first second : Nat) :
    turned (turned inQuote first).inQuote second = turned inQuote (first + second) := by
  unfold turned
  rw [Nat.add_mod]
  rcases Nat.mod_two_eq_zero_or_one first with even | odd <;>
    rcases Nat.mod_two_eq_zero_or_one second with even' | odd' <;> simp [*]

theorem turned_even (inQuote : Bool) (even : Even count) :
    turned inQuote count = ⟨false, inQuote⟩ := by
  simp [turned, Nat.even_iff.mp even]

theorem turned_odd (inQuote : Bool) (odd : ¬Even count) :
    turned inQuote count = ⟨false, !inQuote⟩ := by
  simp [turned, Nat.not_even_iff.mp odd]

/-- A text which is split nowhere, and turns the mode over as often as it is said. -/
def Turns (marks : Marks Symbol) (text : List Symbol) (count : Nat) : Prop :=
  ∀ inQuote, carry marks ⟨false, inQuote⟩ text = some (turned inQuote count)

theorem Turns.append {first second : Nat} (left_turns : Turns marks left first)
    (right_turns : Turns marks right second) : Turns marks (left ++ right) (first + second) := by
  intro inQuote
  rw [carry_append_of_carry (left_turns inQuote), ← turned_turned]
  exact right_turns (turned inQuote first).inQuote

theorem Turns.whole (turns : Turns marks text count) (even : Even count) : Whole marks text := by
  rw [Whole, Mode.clear, turns false, turned_even false even]

theorem turns_singleton
    (plain : symbol ≠ marks.escape ∧ symbol ≠ marks.quote ∧ symbol ≠ marks.delim) :
    Turns marks [symbol] 0 := by
  intro inQuote
  rw [turned_even inQuote Even.zero]
  exact carry_plain rfl fun other member => by rwa [List.mem_singleton.mp member]

variable (marks) (marked) in
theorem turns_protect (own : marked marks.escape) (delim : marked marks.delim)
    (quote : ¬marked marks.quote) (text : List Symbol) :
    Turns marks (protect marks.escape marked text) (quotes marks text) := by
  intro inQuote
  induction text generalizing inQuote with
  | nil => simp [protect, carry, turned, quotes]
  | cons symbol text ih =>
      rw [protect_cons, quotes_cons]
      by_cases mark : marked symbol
      · have ordinary : symbol ≠ marks.quote := fun same => quote (same ▸ mark)
        simp only [if_pos mark, List.cons_append, List.nil_append, carry, advance, ordinary,
          and_false, if_false, bind_some, if_true, Bool.false_eq_true, Nat.add_zero]
        exact ih inQuote
      · have plain : symbol ≠ marks.escape := fun same => mark (same ▸ own)
        have inside : symbol ≠ marks.delim := fun same => mark (same ▸ delim)
        rw [if_neg mark, List.singleton_append, carry, advance]
        simp only [plain, inside, false_and, if_false, Bool.false_eq_true]
        split
        · rw [bind_some, ih, Nat.add_comm, ← turned_turned]
          simp [turned]
        · rw [bind_some, ih, Nat.add_zero]

variable (marks) (marked) in
theorem carry_protect_quoted (own : marked marks.escape) (quote : marked marks.quote)
    (text : List Symbol) :
    carry marks ⟨false, true⟩ (protect marks.escape marked text) = some ⟨false, true⟩ := by
  induction text with
  | nil => rfl
  | cons symbol text ih =>
      rw [protect_cons]
      by_cases mark : marked symbol
      · simp only [if_pos mark, List.cons_append, List.nil_append, carry, advance, if_false,
          bind_some, if_true, Bool.false_eq_true]
        exact ih
      · have plain : symbol ≠ marks.escape := fun same => mark (same ▸ own)
        have unquoting : symbol ≠ marks.quote := fun same => mark (same ▸ quote)
        simp only [if_neg mark, List.singleton_append, carry, advance, plain, unquoting, and_false,
          if_false, not_true_eq_false, bind_some, Bool.false_eq_true]
        exact ih

theorem unescape_protect_append (own : marked escape) (text later : List Symbol) :
    unescape escape (protect escape marked text ++ later) = text ++ unescape escape later := by
  induction text with
  | nil => rfl
  | cons symbol text ih =>
      rw [protect_cons]
      by_cases mark : marked symbol
      · simp only [if_pos mark, List.cons_append, List.nil_append, unescapeFrom, if_true]
        exact congrArg (symbol :: ·) ih
      · have plain : symbol ≠ escape := fun same => mark (same ▸ own)
        simp only [if_neg mark, List.cons_append, List.nil_append, unescapeFrom, plain, if_false]
        exact congrArg (symbol :: ·) ih

theorem unescape_protect (own : marked escape) (text : List Symbol) :
    unescape escape (protect escape marked text) = text := by
  have all := unescape_protect_append own text []
  rwa [List.append_nil, unescape, unescapeFrom.eq_2, List.append_nil] at all

end Protect

theorem unescapeFrom_cons (advanced : advance marks mode symbol = some next)
    (text : List Symbol) :
    unescapeFrom marks.escape mode.escaped (symbol :: text) =
      (if next.escaped then [] else [symbol]) ++
        unescapeFrom marks.escape next.escaped text := by
  obtain ⟨escaped, inQuote⟩ := mode
  unfold advance at advanced
  split_ifs at advanced with protected_ escape quote <;>
    obtain rfl := some.inj advanced <;> simp_all [unescapeFrom]

variable (marks) (mode) in
theorem unescape_append (carried : carry marks mode piece = some next)
    (closed : next.escaped = false) (text : List Symbol) :
    unescapeFrom marks.escape mode.escaped (piece ++ text) =
      unescapeFrom marks.escape mode.escaped piece ++ unescape marks.escape text := by
  induction piece generalizing mode with
  | nil =>
      obtain rfl := some.inj carried
      rw [closed]
      rfl
  | cons symbol piece ih =>
      rw [carry, bind_eq_some_iff] at carried
      obtain ⟨between, advanced, later⟩ := carried
      rw [List.cons_append, unescapeFrom_cons advanced, unescapeFrom_cons advanced, ih _ later,
        List.append_assoc]

variable (marks) in
theorem unescapeFrom_splitFrom (mode : Mode) (text : List Symbol) :
    unescapeFrom marks.escape mode.escaped text =
      unescapeFrom marks.escape mode.escaped (splitFrom marks mode text).1 ++
        (splitFrom marks mode text).2.flatMap (marks.delim :: unescape marks.escape ·) := by
  induction text generalizing mode with
  | nil => simp [splitFrom]
  | cons symbol text ih =>
      rw [splitFrom]
      cases advanced : advance marks mode symbol with
      | some next =>
          rw [unescapeFrom_cons advanced, ih, unescapeFrom_cons advanced, List.append_assoc]
      | none =>
          obtain ⟨rfl, rfl, plain⟩ := clear_of_advance advanced
          have rest := ih .clear
          calc
            unescapeFrom marks.escape false (marks.delim :: text) =
                marks.delim :: unescape marks.escape text := by rw [unescapeFrom, if_neg plain]
            _ = _ := congrArg (marks.delim :: ·) rest

theorem unescape_split {first : List Symbol} {behind : List (List Symbol)}
    (pieces : split marks text = first :: behind) :
    unescape marks.escape text =
      unescape marks.escape first ++ behind.flatMap (marks.delim :: unescape marks.escape ·) := by
  rw [split_eq, List.cons.injEq] at pieces
  have whole := unescapeFrom_splitFrom marks .clear text
  rw [pieces.1, pieces.2] at whole
  exact whole

end EscapedText
