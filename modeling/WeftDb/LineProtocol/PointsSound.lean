import Mathlib.Data.Char
import Mathlib.Data.List.Lex
import Mathlib.Data.Prod.Lex
import WeftDb.Foundation.StableOrder
import WeftDb.Ingest.Batch
import WeftDb.LineProtocol.Grammar

/-!
# One series of points

`parsePoints` projects a document onto one of its numeric fields.  The records are read in order:
one whose field is no finite number is refused, one which gives no point is passed over, and one
which gives a point of another series than the points before is refused.  The points are sorted by
their instant, which is a number of nanoseconds.
-/

namespace WeftDb.LineProtocol

open StableOrder Option

inductive TimestampPrecision where
  | nanoseconds
  | microseconds
  | milliseconds
  | seconds
  deriving DecidableEq

namespace TimestampPrecision

def nanosPerUnit : TimestampPrecision → Int
  | nanoseconds => 1
  | microseconds => 1000
  | milliseconds => 1000000
  | seconds => 1000000000

/-- The instant of a raw timestamp, unless its nanoseconds overflow. -/
def toDatetime (precision : TimestampPrecision) (raw : Int64) : Option Int :=
  let nanos := raw.toInt * precision.nanosPerUnit
  if Int64.minValue.toInt ≤ nanos ∧ nanos ≤ Int64.maxValue.toInt then some nanos else none

end TimestampPrecision

structure Point where
  timestamp : Int
  value : BigDecimal
  deriving DecidableEq

/-- A measurement and its tags, in order. -/
abbrev SeriesKey := Text × List (Text × Text)

/-- What is known of a float: its decimal, and whether it is finite. -/
structure Floats (F64 : Type) where
  fromF64 : F64 → Option BigDecimal
  isFinite : F64 → Bool

section Records

variable {F64 : Type} (floats : Floats F64)

namespace FieldValue

/-- The decimal of a value; a boolean or a string has none. -/
def asBigDecimal : FieldValue F64 → Option BigDecimal
  | .float value => floats.fromF64 value
  | .integer value => some ⟨value.toInt, 0⟩
  | .unsigned value => some ⟨value.toNat, 0⟩
  | .boolean _ => none
  | .str _ => none

def isNonFiniteFloat : FieldValue F64 → Bool
  | .float value => !floats.isFinite value
  | _ => false

end FieldValue

namespace LineRecord

/-- The value of the first field under a key. -/
def field (record : LineRecord F64) (key : Text) : Option (FieldValue F64) :=
  (record.fields.find? fun field => field.1 = key).map Prod.snd

def fieldIsNonFinite (record : LineRecord F64) (key : Text) : Bool :=
  (record.field key).any (FieldValue.isNonFiniteFloat floats)

/-- The point of a record, if it has a timestamp within range and the field as a number. -/
def toPoint (record : LineRecord F64) (field : Text) (precision : TimestampPrecision) :
    Option Point := do
  let raw ← record.timestamp
  let timestamp ← precision.toDatetime raw
  let value ← (← record.field field).asBigDecimal floats
  return { timestamp, value }

/-- The measurement and the sorted tags. -/
def seriesKey (record : LineRecord F64) : SeriesKey :=
  (record.measurement, sortBy toLex record.tags)

end LineRecord

/-- The points so far, and the series of the first one with its line and its description. -/
structure Projection where
  points : List Point
  series : Option (SeriesKey × Nat × Text)

/-- Read one record. -/
def project (field : Text) (precision : TimestampPrecision) (state : Projection)
    (entry : Nat × LineRecord F64) : Except ParseError Projection :=
  let (line, record) := entry
  if record.fieldIsNonFinite floats field then
    .error (.nonFinite line ("field " ++ quoted field ++ " is not a finite number; WeftDB values " ++
      "are exact decimals, so NaN and infinity have no representation to store"))
  else
    match record.toPoint floats field precision with
    | none => .ok state
    | some point =>
        match state.series with
        | none =>
            .ok
              { points := state.points ++ [point]
                series := some (record.seriesKey, line, record.describeSeries) }
        | some (firstKey, firstLine, firstSeries) =>
            if firstKey ≠ record.seriesKey then
              .error (.ambiguousSeries line ("field " ++ quoted field ++
                " carries points from more than one series: " ++ quoted firstSeries ++ " (line " ++
                toString firstLine ++ ") and " ++ quoted record.describeSeries ++ " (line " ++
                toString line ++ "); a single-series projection cannot merge them — split the " ++
                "payload by series"))
            else
              .ok { state with points := state.points ++ [point] }

variable (parseFloat : Text → Option F64)

/-- The points of one field of a document, all of one series, sorted by their instant. -/
def parsePoints (input field : Text) (precision : TimestampPrecision) :
    Except ParseError (List Point) := do
  let records ← parseIndexed parseFloat input
  let state ← records.foldlM (project floats field precision) { points := [], series := none }
  return sortBy Point.timestamp state.points

end Records

/-!
## When no sample is dropped

A record carries a sample when it has a timestamp and the field as a number.  `parsePoints` answers
with every sample or with the first line at fault, unless the timestamp of a sample overflows when
it is scaled to nanoseconds: that record is passed over like one without a sample.
-/

section Samples

variable {F64 : Type} (floats : Floats F64) (field : Text) (precision : TimestampPrecision)

/-- A timestamp and the field as a number. -/
def LineRecord.Carries (record : LineRecord F64) : Prop :=
  record.timestamp.isSome ∧ ((record.field field).bind (FieldValue.asBigDecimal floats)).isSome

/-- The sample of a record, at its instant without any bound. -/
def LineRecord.sample (record : LineRecord F64) : Option Point := do
  let raw ← record.timestamp
  let value ← (record.field field).bind (FieldValue.asBigDecimal floats)
  return { timestamp := raw.toInt * precision.nanosPerUnit, value }

/-- Two records of one series: one measurement and the same tags in any order. -/
def SameSeries (left right : LineRecord F64) : Prop :=
  left.measurement = right.measurement ∧ left.tags.Perm right.tags

/-- A record which carries a sample of another series than one before it. -/
def SecondSeries (before : List (Nat × LineRecord F64)) (record : LineRecord F64) : Prop :=
  record.Carries floats field ∧
    ∃ other ∈ before, other.2.Carries floats field ∧ ¬SameSeries other.2 record

/-- The first of the entries which has a property, given the entries before it. -/
def IsFirst (fault : List (Nat × LineRecord F64) → LineRecord F64 → Prop)
    (before : List (Nat × LineRecord F64)) (record : LineRecord F64) : Prop :=
  fault before record ∧
    ∀ earlier entry later, before = earlier ++ entry :: later → ¬fault earlier entry.2

/-- No record is at fault. -/
def Clean (before : List (Nat × LineRecord F64)) : Prop :=
  ∀ earlier entry later, before = earlier ++ entry :: later →
    entry.2.fieldIsNonFinite floats field = false ∧ ¬SecondSeries floats field earlier entry.2

/-- None of the records was passed over with its sample. -/
def NoneSkipped (records : List (Nat × LineRecord F64)) : Prop :=
  ∀ entry ∈ records, entry.2.Carries floats field →
    (entry.2.toPoint floats field precision).isSome

/-- The points are the samples, of one series, sorted stably by their instants; an error names the
first record of its kind which is at fault. -/
structure Answers (records : List (Nat × LineRecord F64))
    (answer : Except ParseError (List Point)) : Prop where
  points : ∀ points, answer = .ok points →
    points = sortBy Point.timestamp
        (records.filterMap fun entry => entry.2.sample floats field precision) ∧
      (∀ left ∈ records, ∀ right ∈ records, left.2.Carries floats field →
        right.2.Carries floats field → SameSeries left.2 right.2) ∧
      NoneSkipped floats field precision records
  error : ∀ failure, answer = .error failure →
    ∃ before entry after, records = before ++ entry :: after ∧ failure.line = entry.1 ∧
      (failure.kind = .nonFiniteValue ∧
          IsFirst (fun _ record => record.fieldIsNonFinite floats field = true) before entry.2 ∨
        failure.kind = .ambiguousSeries ∧ IsFirst (SecondSeries floats field) before entry.2) ∧
      NoneSkipped floats field precision before

variable (parseFloat : Text → Option F64)

/-- A line which is no record, and neither blank nor a comment. -/
def Malformed (raw : Text) : Prop :=
  isBlankOrComment (trimEnd raw) = false ∧
    ∀ record, parseLine parseFloat (trimEnd raw) ≠ .ok record

/-- What a document is answered with: its first malformed line, or the answer to its records. -/
structure Faithful (input : Text) : Prop where
  malformed : ∀ failure, parseIndexed parseFloat input = .error failure →
    parsePoints floats parseFloat input field precision = .error failure ∧
      failure.kind = .malformed ∧
      ∃ before raw after, strLines input = before ++ raw :: after ∧
        failure.line = before.length + 1 ∧ Malformed parseFloat raw ∧
        ∀ earlier ∈ before, ¬Malformed parseFloat earlier
  answers : ∀ records, parseIndexed parseFloat input = .ok records →
    (∀ raw ∈ strLines input, ¬Malformed parseFloat raw) ∧
      Answers floats field precision records
        (parsePoints floats parseFloat input field precision)

end Samples

variable {F64 : Type} {floats : Floats F64} {field : Text} {precision : TimestampPrecision}
  {parseFloat : Text → Option F64}
variable {record : LineRecord F64} {failure : ParseError} {after rest : List (Nat × LineRecord F64)}

theorem sortBy_toLex_eq_iff {left right : List (Text × Text)} :
    sortBy toLex left = sortBy toLex right ↔ left.Perm right := by
  constructor
  · intro same
    exact (sortBy_perm toLex left).symm.trans (same ▸ sortBy_perm toLex right)
  · intro perm
    have sorted : ((sortBy toLex left).map toLex) = (sortBy toLex right).map toLex :=
      map_eq_of_sorted
        ((sortBy_perm toLex left).trans (perm.trans (sortBy_perm toLex right).symm))
        (sorted_sortBy toLex left) (sorted_sortBy toLex right)
    exact List.map_injective_iff.mpr toLex.injective sorted

theorem seriesKey_eq_iff {left right : LineRecord F64} :
    left.seriesKey = right.seriesKey ↔ SameSeries left right := by
  rw [LineRecord.seriesKey, LineRecord.seriesKey, Prod.mk.injEq, sortBy_toLex_eq_iff, SameSeries]

theorem toDatetime_eq_some {raw : Int64} {timestamp : Int}
    (representable : precision.toDatetime raw = some timestamp) :
    timestamp = raw.toInt * precision.nanosPerUnit := by
  rw [TimestampPrecision.toDatetime] at representable
  split at representable
  · exact (some.inj representable).symm
  · cases representable

theorem carries_of_toPoint {point : Point}
    (given : record.toPoint floats field precision = some point) :
    record.Carries floats field ∧ record.sample floats field precision = some point := by
  unfold LineRecord.toPoint at given
  simp only [bind_eq_bind, bind_eq_some_iff, pure_def] at given
  obtain ⟨raw, stamped, timestamp, representable, held, named, value, numeric, same⟩ := given
  obtain rfl := some.inj same
  obtain rfl := toDatetime_eq_some representable
  refine ⟨⟨by rw [stamped]; rfl, by rw [named, bind_some, numeric]; rfl⟩, ?_⟩
  simp [LineRecord.sample, stamped, named, numeric]

theorem sample_eq_none (silent : ¬record.Carries floats field) :
    record.sample floats field precision = none := by
  unfold LineRecord.Carries at silent
  unfold LineRecord.sample
  cases stamped : record.timestamp with
  | none => rfl
  | some raw =>
      cases named : (record.field field).bind (FieldValue.asBigDecimal floats) with
      | none => rfl
      | some value => exact absurd ⟨by rw [stamped]; rfl, by rw [named]; rfl⟩ silent

theorem finite_of_carries (finite : ∀ value, (floats.fromF64 value).isSome = floats.isFinite value)
    (carries : record.Carries floats field) : record.fieldIsNonFinite floats field = false := by
  obtain ⟨-, numeric⟩ := carries
  unfold LineRecord.fieldIsNonFinite
  cases named : record.field field with
  | none => rfl
  | some value =>
      rw [named, bind_some] at numeric
      cases value with
      | float value =>
          have known : floats.isFinite value = true := (finite value).symm.trans numeric
          simp [FieldValue.isNonFiniteFloat, known]
      | _ => rfl

/-- What the scan knows behind some records. -/
structure Projected (floats : Floats F64) (field : Text) (precision : TimestampPrecision)
    (before : List (Nat × LineRecord F64)) (state : Projection) : Prop where
  points : state.points = before.filterMap fun entry => entry.2.sample floats field precision
  unstarted : state.series = none → ∀ entry ∈ before, ¬entry.2.Carries floats field
  started : ∀ key line described, state.series = some (key, line, described) →
    (∃ entry ∈ before, entry.2.Carries floats field) ∧
      ∀ entry ∈ before, entry.2.Carries floats field → entry.2.seriesKey = key

variable {before : List (Nat × LineRecord F64)} {state : Projection} {entry : Nat × LineRecord F64}
variable (precision) (state) in
theorem project_nonFinite (refused : entry.2.fieldIsNonFinite floats field = true) :
    ∃ message, project floats field precision state entry =
      .error (.nonFinite entry.1 message) := by
  rw [project]
  exact ⟨_, if_pos refused⟩

theorem project_of_finite (finite : entry.2.fieldIsNonFinite floats field = false) :
    project floats field precision state entry =
      match entry.2.toPoint floats field precision with
      | none => .ok state
      | some point =>
          match state.series with
          | none => .ok ⟨state.points ++ [point],
              some (entry.2.seriesKey, entry.1, entry.2.describeSeries)⟩
          | some (firstKey, firstLine, firstSeries) =>
              if firstKey ≠ entry.2.seriesKey then
                .error (.ambiguousSeries entry.1 ("field " ++ quoted field ++
                  " carries points from more than one series: " ++ quoted firstSeries ++
                  " (line " ++ toString firstLine ++ ") and " ++
                  quoted entry.2.describeSeries ++ " (line " ++ toString entry.1 ++
                  "); a single-series projection cannot merge them — split the " ++
                  "payload by series"))
              else .ok { state with points := state.points ++ [point] } := by
  rw [project]
  exact if_neg (Bool.eq_false_iff.mp finite)

variable (state) in
theorem project_skip (finite : entry.2.fieldIsNonFinite floats field = false)
    (silent : entry.2.toPoint floats field precision = none) :
    project floats field precision state entry = .ok state := by
  rw [project_of_finite finite, silent]

section

variable (projected : Projected floats field precision before state)

include projected

theorem project_second (finite : entry.2.fieldIsNonFinite floats field = false)
    (given : (entry.2.toPoint floats field precision).isSome)
    (second : SecondSeries floats field before entry.2) :
    ∃ message, project floats field precision state entry =
      .error (.ambiguousSeries entry.1 message) := by
  obtain ⟨-, other, member, carries, different⟩ := second
  obtain ⟨point, given⟩ := isSome_iff_exists.mp given
  rw [project_of_finite finite, given]
  cases series : state.series with
  | none => exact absurd carries (projected.unstarted series other member)
  | some first =>
      obtain ⟨key, line, described⟩ := first
      have own := (projected.started key line described series).2 other member carries
      have unequal : key ≠ entry.2.seriesKey := fun same =>
        different (seriesKey_eq_iff.mp (own.trans same))
      exact ⟨_, if_pos unequal⟩

theorem Projected.silent (silent : ¬entry.2.Carries floats field) :
    Projected floats field precision (before ++ [entry]) state where
  points := by
    rw [List.filterMap_append, ← projected.points]
    simp [sample_eq_none silent]
  unstarted := fun empty other member => by
    rcases List.mem_append.mp member with member | member
    · exact projected.unstarted empty other member
    · rwa [List.mem_singleton.mp member]
  started := fun key line described series => by
    obtain ⟨held, keyed⟩ := projected.started key line described series
    obtain ⟨other, member, carries⟩ := held
    refine ⟨⟨other, List.mem_append_left _ member, carries⟩, fun other member carries => ?_⟩
    rcases List.mem_append.mp member with member | member
    · exact keyed other member carries
    · exact absurd (List.mem_singleton.mp member ▸ carries) silent

/-- A record which is not at fault is read, and a sample it carries is kept. -/
theorem project_clean (finite : entry.2.fieldIsNonFinite floats field = false)
    (same : ¬SecondSeries floats field before entry.2)
    (kept : entry.2.Carries floats field → (entry.2.toPoint floats field precision).isSome) :
    ∃ next, project floats field precision state entry = .ok next ∧
      Projected floats field precision (before ++ [entry]) next := by
  cases given : entry.2.toPoint floats field precision with
  | none =>
      have silent : ¬entry.2.Carries floats field := fun carries => by
        have some := kept carries
        rw [given] at some
        cases some
      exact ⟨state, project_skip state finite given, projected.silent silent⟩
  | some point =>
      obtain ⟨carries, sampled⟩ := carries_of_toPoint given
      have points : state.points ++ [point] =
          (before ++ [entry]).filterMap fun entry => entry.2.sample floats field precision := by
        rw [List.filterMap_append, ← projected.points]
        simp [sampled]
      have others (other : Nat × LineRecord F64) (member : other ∈ before)
          (other_carries : other.2.Carries floats field) :
          other.2.seriesKey = entry.2.seriesKey := by
        by_contra different
        exact same ⟨carries, other, member, other_carries,
          fun equal => different (seriesKey_eq_iff.mpr equal)⟩
      have all (other : Nat × LineRecord F64) (member : other ∈ before ++ [entry])
          (other_carries : other.2.Carries floats field) :
          other.2.seriesKey = entry.2.seriesKey := by
        rcases List.mem_append.mp member with member | member
        · exact others other member other_carries
        · rw [List.mem_singleton.mp member]
      have held : ∃ other ∈ before ++ [entry], other.2.Carries floats field :=
        ⟨entry, by simp, carries⟩
      rw [project_of_finite finite, given]
      cases series : state.series with
      | none =>
          refine ⟨_, rfl, ?_⟩
          constructor
          · exact points
          · intro empty
            cases empty
          · intro key line described first
            cases first
            exact ⟨held, all⟩
      | some first =>
          obtain ⟨key, line, described⟩ := first
          obtain ⟨⟨other, member, other_carries⟩, keyed⟩ := projected.started key line described series
          have equal : key = entry.2.seriesKey :=
            (keyed other member other_carries).symm.trans (others other member other_carries)
          refine ⟨_, if_neg (not_not.mpr equal), ?_⟩
          constructor
          · exact points
          · intro empty
            cases empty
          · intro key line described first
            cases first
            exact ⟨held, equal ▸ all⟩

end

theorem project_error_line (failed : project floats field precision state entry = .error failure) :
    failure.line = entry.1 := by
  cases finite : entry.2.fieldIsNonFinite floats field with
  | true =>
      obtain ⟨message, refused⟩ := project_nonFinite precision state finite
      rw [refused] at failed
      cases failed
      rfl
  | false =>
      rw [project_of_finite finite] at failed
      split at failed
      · cases failed
      split at failed
      · cases failed
      split at failed
      · cases failed
        rfl
      · cases failed

variable {records : List (Nat × LineRecord F64)}

theorem Clean.of_append (clean : Clean floats field (before ++ after)) :
    Clean floats field before := by
  rintro earlier entry later rfl
  exact clean earlier entry (later ++ after) (by simp)

theorem Clean.concat (clean : Clean floats field before)
    (finite : entry.2.fieldIsNonFinite floats field = false)
    (same : ¬SecondSeries floats field before entry.2) :
    Clean floats field (before ++ [entry]) := by
  intro earlier other later shape
  rcases List.eq_nil_or_concat' later with rfl | ⟨later, last, rfl⟩
  · obtain ⟨rfl, last⟩ := List.append_inj' shape rfl
    obtain rfl := List.singleton_inj.mp last
    exact ⟨finite, same⟩
  · rw [← List.cons_append, ← List.append_assoc] at shape
    exact clean earlier other later (List.append_inj' shape rfl).1

theorem exists_first_fault (fault : ¬Clean floats field records) :
    ∃ before entry after, records = before ++ entry :: after ∧ Clean floats field before ∧
      (entry.2.fieldIsNonFinite floats field = true ∨ SecondSeries floats field before entry.2) := by
  induction records using List.reverseRecOn with
  | nil => exact absurd (fun earlier entry later shape => by simp at shape) fault
  | append_singleton records last ih =>
      by_cases clean : Clean floats field records
      · refine ⟨records, last, [], rfl, clean, ?_⟩
        by_contra innocent
        obtain ⟨finite, same⟩ := not_or.mp innocent
        exact fault (clean.concat (Bool.eq_false_iff.mpr finite) same)
      · obtain ⟨before, entry, after, shape, earlier, own⟩ := ih clean
        exact ⟨before, entry, after ++ [last], by simp [shape], earlier, own⟩

theorem projected_nil :
    Projected floats field precision [] { points := [], series := none } :=
  ⟨rfl, fun _ _ member => (by cases member), fun _ _ _ first => (by cases first)⟩

theorem foldlM_clean (projected : Projected floats field precision before state)
    (clean : Clean floats field (before ++ rest)) (kept : NoneSkipped floats field precision rest) :
    ∃ next, rest.foldlM (project floats field precision) state = .ok next ∧
      Projected floats field precision (before ++ rest) next := by
  induction rest generalizing before state with
  | nil => exact ⟨state, rfl, by rwa [List.append_nil]⟩
  | cons entry rest ih =>
      obtain ⟨own, others⟩ := List.forall_mem_cons.mp kept
      obtain ⟨finite, same⟩ := clean before entry rest rfl
      obtain ⟨middle, read, behind⟩ := project_clean projected finite same own
      have shape : before ++ entry :: rest = (before ++ [entry]) ++ rest := by simp
      rw [shape] at clean ⊢
      obtain ⟨next, run, last⟩ := ih behind clean others
      refine ⟨next, ?_, last⟩
      rw [List.foldlM_cons, read]
      exact run

theorem foldlM_error
    (failed : rest.foldlM (project floats field precision) state = .error failure) :
    ∃ entry ∈ rest, failure.line = entry.1 := by
  induction rest generalizing state with
  | nil => cases failed
  | cons entry rest ih =>
      rw [List.foldlM_cons] at failed
      cases read : project floats field precision state entry with
      | error first =>
          rw [read] at failed
          cases failed
          exact ⟨entry, List.mem_cons_self, project_error_line read⟩
      | ok next =>
          rw [read] at failed
          obtain ⟨other, member, line⟩ := ih failed
          exact ⟨other, List.mem_cons_of_mem _ member, line⟩

theorem lines_of_parseLines {idx : Nat} {lines : List Text}
    (parsed : parseLines parseFloat idx lines = .ok records) :
    (∀ entry ∈ records, idx < entry.1) ∧ records.Pairwise fun left right => left.1 < right.1 := by
  induction lines generalizing idx records with
  | nil =>
      obtain rfl := Except.ok.inj parsed
      exact ⟨fun entry member => (by cases member), .nil⟩
  | cons raw lines ih =>
      rw [parseLines] at parsed
      split at parsed
      · obtain ⟨above, sorted⟩ := ih parsed
        exact ⟨fun entry member => (Nat.lt_succ_self idx).trans (above entry member), sorted⟩
      · split at parsed
        · cases later : parseLines parseFloat (idx + 1) lines with
          | error failure =>
              rw [later] at parsed
              cases parsed
          | ok found =>
              rw [later] at parsed
              obtain rfl := Except.ok.inj parsed
              obtain ⟨above, sorted⟩ := ih later
              exact ⟨List.forall_mem_cons.mpr ⟨Nat.lt_succ_self idx,
                fun entry member => (Nat.lt_succ_self idx).trans (above entry member)⟩,
                  .cons above sorted⟩
        · cases parsed

/-- A document parses exactly when none of its lines is malformed; otherwise the first of them is
named. -/
theorem parseLines_spec (parseFloat : Text → Option F64) (idx : Nat) (lines : List Text) :
    (∃ records, parseLines parseFloat idx lines = .ok records ∧
        ∀ raw ∈ lines, ¬Malformed parseFloat raw) ∨
      ∃ message before raw after, lines = before ++ raw :: after ∧
        parseLines parseFloat idx lines = .error (.malformed (idx + before.length + 1) message) ∧
          Malformed parseFloat raw ∧ ∀ earlier ∈ before, ¬Malformed parseFloat earlier := by
  induction lines generalizing idx with
  | nil => exact .inl ⟨[], rfl, fun raw member => by cases member⟩
  | cons raw lines ih =>
      rw [parseLines]
      -- A line which is not malformed at most puts a record in front of the others.
      have step (front : List (Nat × LineRecord F64))
          (result : Except ParseError (List (Nat × LineRecord F64)))
          (done : ∀ records, parseLines parseFloat (idx + 1) lines = .ok records →
            result = .ok (front ++ records))
          (failed : ∀ failure, parseLines parseFloat (idx + 1) lines = .error failure →
            result = .error failure) (sound : ¬Malformed parseFloat raw) :
          (∃ records, result = .ok records ∧ ∀ line ∈ raw :: lines, ¬Malformed parseFloat line) ∨
            ∃ message before first after, raw :: lines = before ++ first :: after ∧
              result = .error (.malformed (idx + before.length + 1) message) ∧
                Malformed parseFloat first ∧
                  ∀ earlier ∈ before, ¬Malformed parseFloat earlier := by
        rcases ih (idx + 1) with ⟨records, parsed, others⟩ |
          ⟨message, before, first, after, rfl, parsed, malformed, others⟩
        · exact .inl ⟨front ++ records, done records parsed,
            List.forall_mem_cons.mpr ⟨sound, others⟩⟩
        · refine .inr ⟨message, raw :: before, first, after, rfl, ?_, malformed,
            List.forall_mem_cons.mpr ⟨sound, others⟩⟩
          rw [failed _ parsed, List.length_cons, Nat.add_right_comm idx 1, Nat.add_assoc idx]
      by_cases skipped : isBlankOrComment (trimEnd raw) = true
      · have sound : ¬Malformed parseFloat raw := fun malformed => by
          rw [malformed.1] at skipped
          cases skipped
        simp only [skipped, if_true]
        exact step [] _ (fun _ parsed => parsed) (fun _ parsed => parsed) sound
      · simp only [skipped, if_false, Bool.false_eq_true]
        cases read : parseLine parseFloat (trimEnd raw) with
        | ok record =>
            refine step [(idx + 1, record)] _ (fun _ parsed => ?_) (fun _ parsed => ?_)
              fun malformed => malformed.2 record read
            · simp only [parsed]
              rfl
            · simp only [parsed]
              rfl
        | error message =>
            refine .inr ⟨message, [], raw, lines, rfl, rfl,
              ⟨Bool.eq_false_iff.mpr skipped, fun record => ?_⟩, fun _ member => by cases member⟩
            rw [read]
            exact fun same => by cases same

/-- The timestamps of the samples up to the first record at fault are in range. -/
def InRange (floats : Floats F64) (field : Text) (precision : TimestampPrecision)
    (records : List (Nat × LineRecord F64)) : Prop :=
  ∀ before entry after, records = before ++ entry :: after → Clean floats field before →
    entry.2.Carries floats field →
      ∀ raw, entry.2.timestamp = some raw → (precision.toDatetime raw).isSome

theorem toPoint_isSome_iff (carries : record.Carries floats field) :
    (record.toPoint floats field precision).isSome ↔
      ∀ raw, record.timestamp = some raw → (precision.toDatetime raw).isSome := by
  obtain ⟨stamped, numeric⟩ := carries
  obtain ⟨raw, stamped⟩ := isSome_iff_exists.mp stamped
  obtain ⟨value, numeric⟩ := isSome_iff_exists.mp numeric
  obtain ⟨held, named, numeric⟩ := bind_eq_some_iff.mp numeric
  rw [LineRecord.toPoint, stamped, named]
  cases ranged : precision.toDatetime raw with
  | none =>
      have out : ¬∀ other, some raw = some other → (precision.toDatetime other).isSome := by
        intro inside
        have own := inside raw rfl
        rw [ranged] at own
        cases own
      exact iff_of_false (by simp [ranged]) out
  | some timestamp => simp [ranged, numeric]

/-- The answer to records, the document having parsed. -/
def answerTo (floats : Floats F64) (field : Text) (precision : TimestampPrecision)
    (records : List (Nat × LineRecord F64)) : Except ParseError (List Point) := do
  let state ← records.foldlM (project floats field precision) { points := [], series := none }
  return sortBy Point.timestamp state.points

theorem noneSkipped_of_inRange (ranged : InRange floats field precision records)
    (shape : records = before ++ after) (clean : Clean floats field before) :
    NoneSkipped floats field precision before := by
  intro entry member carries
  obtain ⟨earlier, later, rfl⟩ := List.append_of_mem member
  refine (toPoint_isSome_iff carries).mpr (ranged earlier entry (later ++ after) ?_ ?_ carries)
  · rw [shape, List.append_assoc, List.cons_append]
  · exact Clean.of_append clean

theorem answers_of_inRange (ranged : InRange floats field precision records) :
    Answers floats field precision records (answerTo floats field precision records) := by
  by_cases clean : Clean floats field records
  · have kept := noneSkipped_of_inRange ranged (List.append_nil records).symm clean
    obtain ⟨next, run, projected⟩ := foldlM_clean projected_nil clean kept
    have answer : answerTo floats field precision records =
        .ok (sortBy Point.timestamp next.points) := by
      rw [answerTo, run]
      rfl
    rw [answer]
    refine ⟨fun points same => ?_, fun failure same => (by cases same)⟩
    obtain rfl := Except.ok.inj same
    refine ⟨by rw [projected.points, List.nil_append], ?_, kept⟩
    intro left left_mem right right_mem left_carries right_carries
    cases series : next.series with
    | none => exact absurd left_carries (projected.unstarted series left left_mem)
    | some first =>
        obtain ⟨key, line, described⟩ := first
        obtain ⟨-, keyed⟩ := projected.started key line described series
        exact seriesKey_eq_iff.mp ((keyed left left_mem left_carries).trans
          (keyed right right_mem right_carries).symm)
  · obtain ⟨before, entry, after, rfl, earlier, fault⟩ := exists_first_fault clean
    have kept := noneSkipped_of_inRange ranged rfl earlier
    obtain ⟨next, run, projected⟩ := foldlM_clean projected_nil earlier kept
    have answer {failure : ParseError}
        (failed : project floats field precision next entry = .error failure) :
        answerTo floats field precision (before ++ entry :: after) = .error failure := by
      rw [answerTo, List.foldlM_append, run]
      exact congrArg (· >>= _) ((List.foldlM_cons ..).trans (congrArg (· >>= _) failed))
    by_cases nonFinite : entry.2.fieldIsNonFinite floats field = true
    · obtain ⟨message, failed⟩ := project_nonFinite precision next nonFinite
      rw [answer failed]
      refine ⟨fun points same => (by cases same), fun failure same => ?_⟩
      obtain rfl := Except.error.inj same
      refine ⟨before, entry, after, rfl, rfl, .inl ⟨rfl, nonFinite, ?_⟩, kept⟩
      intro first other later shape
      exact Bool.eq_false_iff.mp (earlier first other later shape).1
    · have finite := Bool.eq_false_iff.mpr nonFinite
      have second := fault.resolve_left nonFinite
      have given := (toPoint_isSome_iff second.1).mpr
        (ranged before entry after rfl earlier second.1)
      obtain ⟨message, failed⟩ := project_second projected finite given second
      rw [answer failed]
      refine ⟨fun points same => (by cases same), fun failure same => ?_⟩
      obtain rfl := Except.error.inj same
      refine ⟨before, entry, after, rfl, rfl, .inr ⟨rfl, second, ?_⟩, kept⟩
      intro first other later shape
      exact (earlier first other later shape).2

/-- A record which is passed over with its sample leaves an answer without it. -/
theorem inRange_of_answers
    (finite : ∀ value, (floats.fromF64 value).isSome = floats.isFinite value)
    (numbered : records.Pairwise fun left right => left.1 < right.1)
    (answers : Answers floats field precision records (answerTo floats field precision records)) :
    InRange floats field precision records := by
  intro before entry after shape clean carries
  induction size : before.length using Nat.strong_induction_on generalizing before entry after with
  | _ size ih =>
  have kept : NoneSkipped floats field precision before := by
    intro other member other_carries
    obtain ⟨earlier, later, rfl⟩ := List.append_of_mem member
    refine (toPoint_isSome_iff other_carries).mpr
      (ih earlier.length ?_ earlier other (later ++ entry :: after) ?_ (Clean.of_append clean)
        other_carries rfl)
    · rw [← size, List.length_append, List.length_cons]
      omega
    · rw [shape, List.append_assoc, List.cons_append]
  rw [← toPoint_isSome_iff carries]
  cases silent : entry.2.toPoint floats field precision with
  | some point => rfl
  | none =>
      exfalso
      obtain ⟨next, run, projected⟩ := foldlM_clean projected_nil clean kept
      have skipped := project_skip next (finite_of_carries finite carries) silent
      have answer : answerTo floats field precision records = (do
          let state ← after.foldlM (project floats field precision) next
          return sortBy Point.timestamp state.points) := by
        rw [answerTo, shape, List.foldlM_append, run]
        exact congrArg (· >>= _) ((List.foldlM_cons ..).trans (congrArg (· >>= _) skipped))
      rw [answer] at answers
      have lost {records : List (Nat × LineRecord F64)} (member : entry ∈ records)
          (none_skipped : NoneSkipped floats field precision records) : False := by
        have given := none_skipped entry member carries
        rw [silent] at given
        cases given
      cases rest : after.foldlM (project floats field precision) next with
      | ok last =>
          rw [rest] at answers
          exact lost (by simp [shape]) (answers.points _ rfl).2.2
      | error failure =>
          rw [rest] at answers
          obtain ⟨front, fault, behind, other_shape, line, -, none_skipped⟩ :=
            answers.error failure rfl
          obtain ⟨other, other_mem, other_line⟩ := foldlM_error rest
          have later : entry.1 < fault.1 := by
            rw [shape, List.pairwise_append, List.pairwise_cons] at numbered
            exact (numbered.2.1.1 other other_mem).trans_eq (other_line.symm.trans line)
          have held : entry ∈ front ++ fault :: behind := other_shape ▸ (by simp [shape])
          rw [other_shape, List.pairwise_append, List.pairwise_cons] at numbered
          rcases List.mem_append.mp held with member | member
          · exact lost member none_skipped
          rcases List.mem_cons.mp member with rfl | member
          · exact lt_irrefl _ later
          · exact lt_asymm later (numbered.2.1.1 entry member)

/-- A document is answered faithfully exactly when no sample up to the first record at fault is out
of range. -/
theorem parsePoints_faithful_iff
    (finite : ∀ value, (floats.fromF64 value).isSome = floats.isFinite value) (input : Text) :
    Faithful floats field precision parseFloat input ↔
      ∀ records, parseIndexed parseFloat input = .ok records →
        InRange floats field precision records := by
  have answer {records : List (Nat × LineRecord F64)}
      (parsed : parseIndexed parseFloat input = .ok records) :
      parsePoints floats parseFloat input field precision =
        answerTo floats field precision records := by
    rw [parsePoints, parsed]
    rfl
  constructor
  · intro faithful records parsed
    have answers := (faithful.answers records parsed).2
    rw [answer parsed] at answers
    exact inRange_of_answers finite (lines_of_parseLines parsed).2 answers
  · intro ranged
    constructor
    · intro failure failed
      rcases parseLines_spec parseFloat 0 (strLines input) with ⟨records, parsed, -⟩ |
        ⟨message, before, raw, after, shape, parsed, malformed, others⟩
      · exact absurd (failed.symm.trans parsed) (fun same => by cases same)
      · obtain rfl := Except.error.inj (failed.symm.trans parsed)
        refine ⟨?_, rfl, before, raw, after, shape, ?_, malformed, others⟩
        · rw [parsePoints, failed]
          rfl
        · rw [Nat.zero_add]
          rfl
    · intro records parsed
      constructor
      · rcases parseLines_spec parseFloat 0 (strLines input) with ⟨_, -, none⟩ |
          ⟨message, before, raw, after, shape, failed, malformed, others⟩
        · exact none
        · exact absurd (parsed.symm.trans failed) (fun same => by cases same)
      · rw [answer parsed]
        exact answers_of_inRange (ranged records parsed)

theorem parsePoints_faithful_of_two :
    Faithful (⟨fun value => value.map fun value => ⟨value, 0⟩, Option.isSome⟩ : Floats (Option Int))
      ['v'] .seconds
      (fun text => if text = ['N', 'a', 'N'] then some none else (parseSigned text).map some)
      ['m', ' ', 'v', '=', '2', ' ', '2', '0', '\n', 'm', ' ', 'v', '=', '1', 'i', ' ', '7'] := by
  refine (parsePoints_faithful_iff (fun value => by cases value <;> rfl) _).mpr ?_
  intro records parsed
  obtain rfl := Except.ok.inj (parsed.symm.trans (by decide : _ = Except.ok
    [(1, ⟨['m'], [], [(['v'], .float (some 2))], some 20⟩),
      (2, ⟨['m'], [], [(['v'], .integer 1)], some 7⟩)]))
  intro before entry after shape clean carries raw stamped
  have member : entry ∈ before ++ entry :: after := by simp
  rw [← shape] at member
  simp only [List.mem_cons, List.not_mem_nil, or_false] at member
  rcases member with rfl | rfl
  · obtain rfl := Option.some.inj stamped
    decide
  · obtain rfl := Option.some.inj stamped
    decide

/-- A timestamp which overflows drops its sample. -/
theorem overflowing_sample_is_dropped :
    ¬Faithful
      (⟨fun value => value.map fun value => ⟨value, 0⟩, Option.isSome⟩ : Floats (Option Int))
      ['v'] .seconds
      (fun text => if text = ['N', 'a', 'N'] then some none else (parseSigned text).map some)
      ['m', ' ', 'v', '=', '1', 'i', ' ', '9', '2', '2', '3', '3', '7', '2', '0', '3', '6', '8',
        '5', '4', '7', '7', '5', '8', '0', '7'] := by
  intro faithful
  have parsed := faithful.answers
    [(1, ⟨['m'], [], [(['v'], .integer 1)], some 9223372036854775807⟩)] (by decide)
  have empty := parsed.2.points [] (by
    rw [parsePoints, (by decide : parseIndexed _ _ = .ok
      [(1, ⟨['m'], [], [(['v'], .integer 1)], some 9223372036854775807⟩)])]
    exact congrArg Except.ok List.mergeSort_nil)
  have given := empty.2.2 _ (List.mem_singleton_self _) ⟨rfl, rfl⟩
  exact absurd given (by decide)

end WeftDb.LineProtocol
