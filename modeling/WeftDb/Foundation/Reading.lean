import Mathlib.Data.List.Basic

/-!
# Readers of a stream

A reader takes a value off the front of a stream, or fails.  A text which it reads gives the value
whatever follows.
-/

namespace Reading

variable {Symbol Fault Value Result : Type}

/-- Take a value off the front of a stream, or fail. -/
abbrev Reader (Symbol Fault : Type) := StateT (List Symbol) (Except Fault)

/-- Take a number of symbols, which must be left. -/
def take (short : Nat → Nat → Fault) (count : Nat) : Reader Symbol Fault (List Symbol) :=
  fun stream =>
    if stream.length < count then .error (short count stream.length)
    else .ok (stream.take count, stream.drop count)

/-- Refuse the stream. -/
def refuse (fault : Fault) : Reader Symbol Fault Value := fun _ =>
  .error fault

/-- Read on where a condition holds. -/
def check (condition : Prop) [Decidable condition] (fault : Fault) : Reader Symbol Fault Unit :=
  if condition then pure () else refuse fault

/-- A number of values, one behind the other. -/
def readMany (reader : Reader Symbol Fault Value) : Nat → Reader Symbol Fault (List Value)
  | 0 => pure []
  | count + 1 => do
      let value ← reader
      let values ← readMany reader count
      return value :: values

/-- Whether a reader takes exactly this text, and what it reads there, whatever follows. -/
def Reads (reader : Reader Symbol Fault Value) (text : List Symbol) (value : Value) : Prop :=
  ∀ rest, reader (text ++ rest) = .ok (value, rest)

variable {reader : Reader Symbol Fault Value} {next : Value → Reader Symbol Fault Result}
  {text front back stream rest : List Symbol} {value : Value} {result : Result} {fault : Fault}

theorem bind_eq_ok :
    (reader >>= next) stream = .ok (result, rest) ↔
      ∃ value middle, reader stream = .ok (value, middle) ∧
        next value middle = .ok (result, rest) := by
  change (reader stream >>= fun read => next read.1 read.2) = .ok (result, rest) ↔ _
  cases reader stream with
  | error fault =>
      constructor
      · intro wrong
        cases wrong
      · rintro ⟨_, _, wrong, _⟩
        cases wrong
  | ok read =>
      constructor
      · exact fun read_on => ⟨read.1, read.2, rfl, read_on⟩
      · rintro ⟨value, middle, same, read_on⟩
        obtain rfl := Except.ok.inj same
        exact read_on

theorem bind_of_ok {middle : List Symbol} (read : reader stream = .ok (value, middle)) :
    (reader >>= next) stream = next value middle := by
  change (reader stream >>= fun read => next read.1 read.2) = _
  rw [read]
  rfl

theorem pure_eq_ok {other : Value} :
    (pure value : Reader Symbol Fault Value) stream = .ok (other, rest) ↔
      value = other ∧ stream = rest := by
  change Except.ok (value, stream) = .ok (other, rest) ↔ _
  rw [Except.ok.injEq, Prod.mk.injEq]

theorem take_eq_ok {short : Nat → Nat → Fault} {count : Nat} {taken : List Symbol} :
    take short count stream = .ok (taken, rest) ↔ stream = taken ++ rest ∧ taken.length = count := by
  unfold take
  split
  · rename_i few
    constructor
    · intro wrong
      cases wrong
    · rintro ⟨rfl, rfl⟩
      rw [List.length_append] at few
      omega
  · rename_i enough
    rw [Except.ok.injEq, Prod.mk.injEq]
    constructor
    · rintro ⟨rfl, rfl⟩
      refine ⟨(List.take_append_drop count stream).symm, ?_⟩
      rw [List.length_take]
      omega
    · rintro ⟨rfl, rfl⟩
      exact ⟨List.take_left, List.drop_left⟩

namespace Reads

theorem pure (value : Value) : Reads (Pure.pure value : Reader Symbol Fault Value) [] value :=
  fun _ => rfl

theorem bind (first : Reads reader front value) (second : Reads (next value) back result) :
    Reads (reader >>= next) (front ++ back) result := by
  intro rest
  rw [List.append_assoc, bind_of_ok (first _), second]

/-- A reader of nothing in front. -/
theorem step (first : Reads reader [] value) (second : Reads (next value) back result) :
    Reads (reader >>= next) back result :=
  bind first second

/-- A reader of nothing behind. -/
theorem last (first : Reads reader front value) (second : Reads (next value) [] result) :
    Reads (reader >>= next) front result := by
  have whole := bind first second
  rwa [List.append_nil] at whole

theorem check {condition : Prop} [Decidable condition] (holds : condition) :
    Reads (check condition fault : Reader Symbol Fault Unit) [] () := by
  intro rest
  rw [Reading.check, if_pos holds]
  rfl

theorem take (short : Nat → Nat → Fault) (text : List Symbol) :
    Reads (take short text.length) text text :=
  fun _ => take_eq_ok.mpr ⟨rfl, rfl⟩

theorem many_map {texts : Value → List Symbol} {values : List Value}
    (each : ∀ value ∈ values, Reads reader (texts value) value) :
    Reads (readMany reader values.length) (values.flatMap texts) values := by
  induction values with
  | nil => exact pure []
  | cons value values ih =>
      obtain ⟨first, later⟩ := List.forall_mem_cons.mp each
      exact bind first (last (ih later) (pure _))

end Reads

end Reading
