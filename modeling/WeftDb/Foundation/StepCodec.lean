import Mathlib.Data.List.Basic

/-!
# Codecs which write one value after another

Writer and reader keep a state from value to value.  If one value reads back wherever the states
agree, so does a list.  A reader which goes on past the end of its source comes through exactly
when it comes through the one value in whose bits the source ends.
-/

namespace StepCodec

variable {Value Writer Reader Source : Type}
variable {state : Writer} {source : Source} {reader : Reader}

/-- How values are laid out: the bits of a value behind some state, and the state behind it. -/
structure Layout (Value Writer : Type) where
  field : Writer → Value → List Bool
  next : Writer → Value → Writer

namespace Layout

variable (layout : Layout Value Writer)

/-- The bits of a list of values. -/
def fields : Writer → List Value → List Bool
  | _, [] => []
  | state, value :: values => layout.field state value ++ fields (layout.next state value) values

/-- The value in whose bits a prefix ends, with the state before it and how many of its bits the
prefix keeps. -/
def cutAt : Writer → List Value → Nat → Option (Writer × Value × Nat)
  | _, [], _ => none
  | state, value :: values, kept =>
      if kept < (layout.field state value).length then some (state, value, kept)
      else cutAt (layout.next state value) values (kept - (layout.field state value).length)

end Layout

/-- Read values one after another, unless one of them faults. -/
def readMany (read : Reader → Source → Option (Value × Reader × Source)) :
    Nat → Reader → Source → Option (List Value)
  | 0, _, _ => some []
  | count + 1, reader, source =>
      (read reader source).bind fun found =>
        (readMany read count found.2.1 found.2.2).map (found.1 :: ·)

/-- Write values one after another. -/
def writeMany {Sink : Type} (write : Writer → Sink → Value → Writer × Sink) (values : List Value)
    (state : Writer) (sink : Sink) : Writer × Sink :=
  values.foldl (fun at_value value => write at_value.1 at_value.2 value) (state, sink)

/-- Whether a writer appends the bits of each value. -/
structure Emits {Sink : Type} (layout : Layout Value Writer)
    (write : Writer → Sink → Value → Writer × Sink) (Written : Sink → List Bool → Prop) :
    Prop where
  next : ∀ state sink value, (write state sink value).1 = layout.next state value
  write_field : ∀ {state sink value bits}, Written sink bits →
    Written (write state sink value).2 (bits ++ layout.field state value)

theorem Emits.writeMany {Sink : Type} {layout : Layout Value Writer}
    {write : Writer → Sink → Value → Writer × Sink} {Written : Sink → List Bool → Prop}
    (emits : Emits layout write Written) (values : List Value) {sink : Sink} {bits : List Bool}
    (written : Written sink bits) :
    Written (StepCodec.writeMany write values state sink).2
      (bits ++ layout.fields state values) := by
  induction values generalizing state sink bits with
  | nil =>
      rw [Layout.fields, List.append_nil]
      exact written
  | cons value values ih =>
      rw [StepCodec.writeMany, List.foldl_cons, Layout.fields, ← List.append_assoc,
        ← emits.next state sink value]
      exact ih (emits.write_field written)

variable {layout : Layout Value Writer} {read : Reader → Source → Option (Value × Reader × Source)}
  {Reads : Source → List Bool → Prop} {Follows : Writer → Reader → Prop}
  {Faults : Writer → Value → Nat → Prop}

/-- Whether a reader which follows the writer reads each value back. -/
structure Inverts (layout : Layout Value Writer)
    (read : Reader → Source → Option (Value × Reader × Source))
    (Reads : Source → List Bool → Prop) (Follows : Writer → Reader → Prop) : Prop where
  read_field : ∀ {state reader source value rest}, Follows state reader →
    Reads source (layout.field state value ++ rest) →
      ∃ reader' source', read reader source = some (value, reader', source') ∧
        Follows (layout.next state value) reader' ∧ Reads source' rest

/-- Whether a reader faults on a value which is cut in some way, and otherwise comes to the end of
its source, behind which it does not fault. -/
structure Truncates (layout : Layout Value Writer)
    (read : Reader → Source → Option (Value × Reader × Source))
    (Reads : Source → List Bool → Prop) (Follows : Writer → Reader → Prop)
    (Faults : Writer → Value → Nat → Prop) : Prop where
  faults : ∀ {state reader source value kept}, Follows state reader →
    kept < (layout.field state value).length →
      Reads source ((layout.field state value).take kept) → Faults state value kept →
        read reader source = none
  survives : ∀ {state reader source value kept}, Follows state reader →
    kept < (layout.field state value).length →
      Reads source ((layout.field state value).take kept) → ¬Faults state value kept →
        ∃ found, read reader source = some found ∧ Reads found.2.2 []
  exhausted : ∀ reader {source}, Reads source [] →
    ∃ found, read reader source = some found ∧ Reads found.2.2 []

theorem Inverts.readMany_fields (inverts : Inverts layout read Reads Follows) (values : List Value)
    {rest : List Bool} (follows : Follows state reader)
    (reads : Reads source (layout.fields state values ++ rest)) :
    readMany read values.length reader source = some values := by
  induction values generalizing state reader source with
  | nil => rfl
  | cons value values ih =>
      rw [Layout.fields, List.append_assoc] at reads
      obtain ⟨reader', source', found, follows', reads'⟩ := inverts.read_field follows reads
      rw [List.length_cons, readMany, found, Option.bind_some, ih follows' reads', Option.map_some]

theorem Truncates.exists_readMany_nil (truncates : Truncates layout read Reads Follows Faults)
    (count : Nat) (reader : Reader) (reads : Reads source []) :
    ∃ values, readMany read count reader source = some values := by
  induction count generalizing reader source with
  | zero => exact ⟨[], rfl⟩
  | succ count ih =>
      obtain ⟨found, value_read, reads'⟩ := truncates.exhausted reader reads
      obtain ⟨values, rest_read⟩ := ih found.2.1 reads'
      exact ⟨found.1 :: values, by
        rw [readMany, value_read, Option.bind_some, rest_read, Option.map_some]⟩

theorem Truncates.readMany_isSome_iff (truncates : Truncates layout read Reads Follows Faults)
    (inverts : Inverts layout read Reads Follows) (values : List Value) {kept : Nat}
    (follows : Follows state reader)
    (reads : Reads source ((layout.fields state values).take kept)) :
    (readMany read values.length reader source).isSome = true ↔
      ∀ cut ∈ layout.cutAt state values kept, ¬Faults cut.1 cut.2.1 cut.2.2 := by
  induction values generalizing state reader source kept with
  | nil => simp [readMany, Layout.cutAt]
  | cons value values ih =>
      rw [Layout.fields] at reads
      rw [Layout.cutAt, List.length_cons, readMany]
      by_cases inside : kept < (layout.field state value).length
      · rw [List.take_append_of_le_length (Nat.le_of_lt inside)] at reads
        rw [if_pos inside]
        simp only [Option.mem_some_iff, forall_eq']
        by_cases fault : Faults state value kept
        · rw [truncates.faults follows inside reads fault]
          simp [fault]
        · obtain ⟨found, value_read, reads'⟩ := truncates.survives follows inside reads fault
          obtain ⟨later, rest_read⟩ :=
            truncates.exists_readMany_nil values.length found.2.1 reads'
          rw [value_read, Option.bind_some, rest_read]
          simp [fault]
      · have beyond := Nat.le_of_not_lt inside
        rw [List.take_append, List.take_of_length_le beyond] at reads
        obtain ⟨reader', source', found, follows', reads'⟩ := inverts.read_field follows reads
        rw [if_neg inside, found, Option.bind_some, Option.isSome_map]
        exact ih follows' reads'

end StepCodec
