import Mathlib.Algebra.Order.Ring.Rat
import WeftDb.Foundation.Instant
import WeftDb.Foundation.Results

/-!
# Patterns and the dictionary which collects them

A pattern has the relatives of a batch and the occurrences at which it was seen.  A dictionary
compares a new pattern with every pattern it holds: the occurrences of the new one join each
pattern which is similar, and a pattern which is similar to none is added.  No occurrence is lost
either way.
-/

namespace WeftDb.Extraction

/-- The identifier of an aspect. -/
abbrev AspectId := Nat

/-- The identifier of a pattern, drawn at random. -/
abbrev PatternId := Nat

/-- The spacing of the points of a batch, by its name. -/
abbrev ResolutionName := String

/-- A point of a batch relative to the others. -/
structure MeasurementVector where
  location : Rat
  amplitude : Rat
  deriving DecidableEq

/-- A vector with the greatest location and amplitude of its batch. -/
structure Relative where
  vector : MeasurementVector
  maxX : Rat
  maxY : Rat
  deriving DecidableEq

/-- Where a pattern was seen. -/
structure Occurrence where
  aspect : AspectId
  resolution : ResolutionName
  size : Nat
  patternId : PatternId
  beginning : Instant
  finish : Instant
  deriving DecidableEq

/-- The aspect, the beginning and the end of an occurrence. -/
abbrev Span := AspectId × Instant × Instant

def Occurrence.span (occurrence : Occurrence) : Span :=
  (occurrence.aspect, occurrence.beginning, occurrence.finish)

structure Pattern where
  id : PatternId
  occurrences : List Occurrence
  relatives : List Relative
  deriving DecidableEq

variable {pattern : Pattern} {span : Span}

namespace Pattern

def amplitudes (pattern : Pattern) : List Rat :=
  pattern.relatives.map (·.vector.amplitude)

def addOccurrences (pattern : Pattern) (occurrences : List Occurrence) : Pattern :=
  { pattern with occurrences := pattern.occurrences ++ occurrences }

/-- The pattern was seen at this place. -/
def Saw (pattern : Pattern) (span : Span) : Prop :=
  span ∈ pattern.occurrences.map Occurrence.span

instance (pattern : Pattern) (span : Span) : Decidable (pattern.Saw span) :=
  inferInstanceAs (Decidable (_ ∈ _))

theorem Saw.addOccurrences (saw : pattern.Saw span) (occurrences : List Occurrence) :
    (pattern.addOccurrences occurrences).Saw span := by
  rw [Saw, Pattern.addOccurrences, List.map_append]
  exact List.mem_append_left _ saw

end Pattern

/-- The constraints of a dictionary: how many steps its patterns have, and how far two of them may
vary and still be similar. -/
structure DictionaryConstraints (Variability : Type) where
  steps : Option Nat
  variabilities : Option (List Variability)

structure Dictionary (Variability : Type) where
  patterns : List Pattern
  constraints : DictionaryConstraints Variability

/-- Why extraction fails. -/
inductive ExtractionError
  /-- "Steps count must be greater than 0" -/
  | stepsCount
  /-- "Failed to convert ratio … to BigDecimal" -/
  | numericConversion
  /-- A constraint could not be checked. -/
  | variability
  /-- "Batch … has active measurements but no minimum timestamp" -/
  | noMinimum
  /-- "Batch … has active measurements but no maximum timestamp" -/
  | noMaximum
  deriving DecidableEq

/-- What the dictionary computes in floating point or by the division of decimals. -/
structure DictionaryNumerics (Variability : Type) where
  /-- The location of a step among the last step's number of equal parts. -/
  safeRatio : Nat → Nat → Except ExtractionError Rat
  interpolateAmplitudeAtLocation : List Relative → Rat → Rat
  average : List Rat → Rat
  checkVariabilityConstraint : Pattern → Pattern → Variability → Except ExtractionError Bool

section Import

variable {Variability : Type} (numerics : DictionaryNumerics Variability)
variable {converted : Pattern} {requiredSteps : Nat}
  {constraints : DictionaryConstraints Variability} {patterns : List Pattern}

/-- The location of a step. -/
def stepLocation (step denominator : Nat) : Except ExtractionError Rat :=
  if denominator = 0 then .ok 0 else numerics.safeRatio step denominator

/-- Bring a pattern to the number of steps which the dictionary requires. -/
def convertPatternSteps (pattern : Pattern) (requiredSteps : Nat) :
    Except ExtractionError Pattern :=
  if pattern.relatives.isEmpty then .ok pattern
  else if requiredSteps = 0 then .error .stepsCount
  else if pattern.relatives.length = requiredSteps then .ok pattern
  else do
    let denominator := requiredSteps - 1
    match pattern.relatives with
    | [single] =>
        -- One point is repeated at every step.
        let relatives ← (List.range requiredSteps).mapM fun step => do
          let location ← stepLocation numerics step denominator
          pure { single with vector := ⟨location, single.vector.amplitude⟩ }
        pure { pattern with relatives := relatives }
    | relatives =>
        let averageMaxX := numerics.average (relatives.map (·.maxX))
        let averageMaxY := numerics.average (relatives.map (·.maxY))
        let converted ← (List.range requiredSteps).mapM fun step => do
          let location ← stepLocation numerics step denominator
          let amplitude := numerics.interpolateAmplitudeAtLocation relatives location
          pure ⟨⟨location, amplitude⟩, averageMaxX, averageMaxY⟩
        pure { pattern with relatives := converted }

/-- The pattern as the constraints want it. -/
def enforceSteps (constraints : DictionaryConstraints Variability) (pattern : Pattern) :
    Except ExtractionError Pattern :=
  match constraints.steps with
  | none => .ok pattern
  | some requiredSteps => convertPatternSteps numerics pattern requiredSteps

/-- Check the constraints in order, up to the first which is not satisfied. -/
def allSatisfied (left right : Pattern) : List Variability → Except ExtractionError Bool
  | [] => .ok true
  | variability :: later => do
      let satisfied ← numerics.checkVariabilityConstraint left right variability
      if satisfied then allSatisfied left right later else pure false

def patternsAreSimilar (constraints : DictionaryConstraints Variability) (left right : Pattern) :
    Except ExtractionError Bool :=
  if left.amplitudes.length = right.amplitudes.length then
    match constraints.variabilities with
    | none => .ok false
    | some variabilities => allSatisfied numerics left right variabilities
  else .ok false

/-- Let the patterns which match have the occurrences. -/
def mergeMatching (occurrences : List Occurrence) : List Bool → List Pattern → List Pattern
  | matching :: later, pattern :: patterns =>
      (if matching then pattern.addOccurrences occurrences else pattern) ::
        mergeMatching occurrences later patterns
  | _, patterns => patterns

/-- Import a pattern into the dictionary. -/
def Dictionary.importPattern (dictionary : Dictionary Variability) (newPattern : Pattern) :
    Except ExtractionError (Dictionary Variability) := do
  let pattern ← enforceSteps numerics dictionary.constraints newPattern
  if dictionary.constraints.steps.isSome ∧ pattern.relatives.isEmpty then pure dictionary
  else
    let similar ← dictionary.patterns.mapM fun existing =>
      patternsAreSimilar numerics dictionary.constraints pattern existing
    if true ∈ similar then
      pure
        { dictionary with
          patterns := mergeMatching pattern.occurrences similar dictionary.patterns }
    else pure { dictionary with patterns := dictionary.patterns ++ [pattern] }

variable {numerics}

theorem convertPatternSteps_occurrences
    (done : convertPatternSteps numerics pattern requiredSteps = .ok converted) :
    converted.occurrences = pattern.occurrences := by
  unfold convertPatternSteps at done
  split at done
  · cases done
    rfl
  split at done
  · cases done
  split at done
  · cases done
    rfl
  split at done
  · obtain ⟨relatives, _, done⟩ := bind_eq_ok.mp done
    cases done
    rfl
  · obtain ⟨relatives, _, done⟩ := bind_eq_ok.mp done
    cases done
    rfl

theorem convertPatternSteps_relatives
    (done : convertPatternSteps numerics pattern requiredSteps = .ok converted)
    (related : pattern.relatives ≠ []) : converted.relatives ≠ [] := by
  unfold convertPatternSteps at done
  split at done
  · cases done
    exact related
  split at done
  · cases done
  rename_i positive
  have filled {step : Nat → Except ExtractionError Relative} {relatives : List Relative}
      (each : (List.range requiredSteps).mapM step = .ok relatives) : relatives ≠ [] := by
    have length := (mapM_eq_ok.mp each).length_eq
    rw [List.length_range] at length
    rintro rfl
    exact positive length
  split at done
  · cases done
    exact related
  split at done
  · obtain ⟨relatives, each, done⟩ := bind_eq_ok.mp done
    cases done
    exact filled each
  · obtain ⟨relatives, each, done⟩ := bind_eq_ok.mp done
    cases done
    exact filled each

theorem enforceSteps_occurrences
    (done : enforceSteps numerics constraints pattern = .ok converted) :
    converted.occurrences = pattern.occurrences := by
  unfold enforceSteps at done
  split at done
  · cases done
    rfl
  · exact convertPatternSteps_occurrences done

theorem enforceSteps_relatives (done : enforceSteps numerics constraints pattern = .ok converted)
    (related : pattern.relatives ≠ []) : converted.relatives ≠ [] := by
  unfold enforceSteps at done
  split at done
  · cases done
    exact related
  · exact convertPatternSteps_relatives done related

/-- Some pattern of the list was seen at this place. -/
def SeenIn (patterns : List Pattern) (span : Span) : Prop :=
  ∃ pattern ∈ patterns, pattern.Saw span

theorem SeenIn.mergeMatching (seen : SeenIn patterns span) (occurrences : List Occurrence)
    (similar : List Bool) : SeenIn (mergeMatching occurrences similar patterns) span := by
  induction similar generalizing patterns with
  | nil =>
      cases patterns with
      | nil => exact seen
      | cons pattern patterns => exact seen
  | cons matching later ih =>
      cases patterns with
      | nil => exact seen
      | cons pattern patterns =>
          obtain ⟨holder, member, saw⟩ := seen
          rcases List.mem_cons.mp member with rfl | member
          · refine ⟨_, List.mem_cons_self, ?_⟩
            split
            · exact saw.addOccurrences occurrences
            · exact saw
          · obtain ⟨kept, kept_mem, kept_saw⟩ := ih ⟨holder, member, saw⟩
            exact ⟨kept, List.mem_cons_of_mem _ kept_mem, kept_saw⟩

theorem seenIn_mergeMatching {occurrences : List Occurrence} {similar : List Bool}
    (length : patterns.length = similar.length) (found : true ∈ similar)
    (member : span ∈ occurrences.map Occurrence.span) :
    SeenIn (mergeMatching occurrences similar patterns) span := by
  induction similar generalizing patterns with
  | nil => cases found
  | cons matching later ih =>
      cases patterns with
      | nil => cases length
      | cons pattern patterns =>
          rcases List.mem_cons.mp found with rfl | found
          · refine ⟨_, List.mem_cons_self, ?_⟩
            rw [if_pos rfl, Pattern.Saw, Pattern.addOccurrences, List.map_append]
            exact List.mem_append_right _ member
          · obtain ⟨kept, kept_mem, kept_saw⟩ := ih (Nat.succ.inj length) found
            exact ⟨kept, List.mem_cons_of_mem _ kept_mem, kept_saw⟩

theorem Dictionary.seenIn_importPattern {dictionary after : Dictionary Variability}
    {newPattern : Pattern} (done : dictionary.importPattern numerics newPattern = .ok after)
    (related : newPattern.relatives ≠ [])
    (seen : newPattern.Saw span ∨ SeenIn dictionary.patterns span) :
    SeenIn after.patterns span := by
  obtain ⟨pattern, enforced, done⟩ := bind_eq_ok.mp done
  have relatives := enforceSteps_relatives enforced related
  have occurrences := enforceSteps_occurrences enforced
  rw [if_neg (fun empty => relatives (List.isEmpty_iff.mp empty.2))] at done
  obtain ⟨similar, compared, done⟩ := bind_eq_ok.mp done
  have length := (mapM_eq_ok.mp compared).length_eq
  split at done
  · rename_i found
    cases done
    rcases seen with saw | seen
    · rw [Pattern.Saw, ← occurrences] at saw
      exact seenIn_mergeMatching length found saw
    · exact seen.mergeMatching _ _
  · cases done
    rcases seen with saw | ⟨holder, member, saw⟩
    · rw [Pattern.Saw, ← occurrences] at saw
      exact ⟨pattern, List.mem_append_right _ List.mem_cons_self, saw⟩
    · exact ⟨holder, List.mem_append_left _ member, saw⟩

end Import

end WeftDb.Extraction
