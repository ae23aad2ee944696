import WeftDb.Batching.CodedTables
import WeftDb.Extraction.PatternsQueue

/-!
# What extraction removes

Under each stage of a call the occurrences of the listed batches are somewhere: in the dictionary,
among the patterns still to store, or in the dictionary's database.  A failed store is the one step
which can lose some, and a run without such a loss removes only what is stored.
-/

namespace WeftDb.Extraction

open BatchTables

variable {Variability Hash : Type}
variable {contents : BatchContents} {aspect : AspectId} {patternId : PatternId} {pattern : Pattern}
  {span : Span} {stored : List StoredPattern}

theorem BatchContents.buildPattern_cases (aspect : AspectId) (contents : BatchContents) :
    (∀ patternId, contents.buildPattern aspect patternId = .ok none) ∨
      ∃ beginning finish, contents.relatives ≠ [] ∧
        ∀ patternId, contents.buildPattern aspect patternId =
          .ok (some ⟨patternId,
            [⟨aspect, contents.resolution, contents.size, patternId, beginning, finish⟩],
            contents.relatives⟩) := by
  by_cases idle : contents.activeMeasurements.isEmpty
  · exact .inl fun patternId => by rw [buildPattern, if_pos idle]
  have active : contents.activeMeasurements.map (·.timestamp) ≠ [] := by
    rw [ne_eq, List.map_eq_nil_iff, ← List.isEmpty_iff]
    exact idle
  cases first : (contents.activeMeasurements.map (·.timestamp)).min? with
  | none => exact absurd (List.min?_eq_none_iff.mp first) active
  | some beginning =>
      cases last : (contents.activeMeasurements.map (·.timestamp)).max? with
      | none => exact absurd (List.max?_eq_none_iff.mp last) active
      | some finish =>
          by_cases bare : contents.relatives.isEmpty
          · refine .inl fun patternId => ?_
            simp only [buildPattern, if_neg idle, first, last, if_pos bare]
          · refine .inr ⟨beginning, finish, fun empty => bare (List.isEmpty_iff.mpr empty), ?_⟩
            intro patternId
            simp only [buildPattern, if_neg idle, first, last, if_neg bare]

theorem BatchContents.extractedSpan_eq_none
    (built : contents.buildPattern aspect patternId = .ok none) :
    contents.extractedSpan aspect = none := by
  rcases contents.buildPattern_cases aspect with none | ⟨beginning, finish, _, some⟩
  · rw [extractedSpan, none]
  · rw [some] at built
    cases built

theorem BatchContents.saw_of_buildPattern
    (built : contents.buildPattern aspect patternId = .ok (some pattern)) :
    pattern.relatives ≠ [] ∧
      ∀ {span : Span}, contents.extractedSpan aspect = some span → pattern.Saw span := by
  rcases contents.buildPattern_cases aspect with none | ⟨beginning, finish, related, some⟩
  · rw [none] at built
    cases built
  · rw [some] at built
    cases built
    refine ⟨related, fun {span} extracted => ?_⟩
    rw [extractedSpan, some] at extracted
    cases extracted
    exact List.mem_singleton_self _

theorem BatchContents.aspect_of_extractedSpan
    (extracted : contents.extractedSpan aspect = some span) : span.1 = aspect := by
  rcases contents.buildPattern_cases aspect with none | ⟨beginning, finish, _, some⟩
  · rw [extractedSpan, none] at extracted
    cases extracted
  · rw [extractedSpan, some] at extracted
    cases extracted
    rfl

theorem Stores.mono {more : List StoredPattern} (stores : Stores stored span)
    (subset : stored ⊆ more) : Stores more span := by
  obtain ⟨pattern, member, row⟩ := stores
  exact ⟨pattern, subset member, row⟩

theorem stores_of_saw (member : pattern.stored aspect ∈ stored) (saw : pattern.Saw span)
    (own : span.1 = aspect) : Stores stored span := by
  obtain ⟨occurrence, occurrence_mem, rfl⟩ := List.mem_map.mp saw
  exact ⟨_, member, _, List.mem_map_of_mem occurrence_mem, own.symm, rfl, rfl⟩

namespace ExtractionSystem

variable (extractor : Extractor Variability Hash)
variable {tables : Tables BatchContents Hash} {listed : List (Batch BatchContents Hash)}
  {stage : Stage Variability Hash} {ending : TransactionEnd}

/-- Where a batch lies which has a pattern. -/
def spanOf (batch : Batch BatchContents Hash) : Option Span :=
  batch.measurements.extractedSpan extractor.aspect

/-- Every occurrence which one of the batches contributes is stored or satisfies the condition. -/
def Contributed (system : ExtractionSystem Variability Hash)
    (batches : List (Batch BatchContents Hash)) (otherwise : Span → Prop) : Prop :=
  ∀ batch ∈ batches, ∀ span, spanOf extractor batch = some span →
    Stores system.stored span ∨ otherwise span

/-- What a call knows of the batches it works on: it listed them all, and whatever an earlier call
listed is among them unless it is stored. -/
structure Reads (system : ExtractionSystem Variability Hash)
    (listed : List (Batch BatchContents Hash)) : Prop where
  known : listed ⊆ system.listed
  covers : ∀ batch ∈ system.listed, ∀ span, spanOf extractor batch = some span →
    Stores system.stored span ∨ batch ∈ listed

/-- Where the occurrences of the listed batches are. -/
def StageHolds (system : ExtractionSystem Variability Hash) :
    Stage Variability Hash → Prop
  | .idle => True
  | .importing listed pending dictionary =>
      system.Reads extractor listed ∧
        ∃ done, listed = done ++ pending ∧
          system.Contributed extractor done (SeenIn dictionary.patterns)
  | .storing listed pending =>
      system.Reads extractor listed ∧ system.Contributed extractor listed (SeenIn pending)
  | .removing listed =>
      system.Reads extractor listed ∧ system.Contributed extractor listed fun _ => False
  | .returned => system.Contributed extractor system.listed fun _ => False

/-- The invariant of extraction. -/
structure Sound (system : ExtractionSystem Variability Hash) : Prop where
  coded : system.tables.Coded extractor.codec
  listedCoded : ∀ batch ∈ system.listed, batch = (extractor.codec.rowOf batch.batchId).parse
  cached : ∀ batches, system.cached = some batches → batches ⊆ system.listed
  /-- A listed batch is stored, or waits in the table for the next call. -/
  kept : ∀ batch ∈ system.listed, ∀ span, spanOf extractor batch = some span →
    Stores system.stored span ∨
      extractor.codec.rowOf batch.batchId ∈ system.tables.processed ∧
        ∀ batches, system.cached = some batches → batch ∈ batches
  removed : ∀ row ∈ system.removed, ∀ span, spanOf extractor row.parse = some span →
    Stores system.stored span
  stage : system.StageHolds extractor system.stage

variable {extractor} {before after : ExtractionSystem Variability Hash}

theorem sound_opened (coded : tables.Coded extractor.codec) (stored : List StoredPattern) :
    (opened tables stored : ExtractionSystem Variability Hash).Sound extractor where
  coded := coded
  listedCoded := fun _ member => absurd member List.not_mem_nil
  cached := fun _ same => by cases same
  kept := fun _ member => absurd member List.not_mem_nil
  removed := fun _ member => absurd member List.not_mem_nil
  stage := trivial

theorem Contributed.grow {batches : List (Batch BatchContents Hash)} {old new : Span → Prop}
    (contributed : before.Contributed extractor batches old)
    (more : ∀ batch ∈ batches, ∀ span, spanOf extractor batch = some span →
      Stores before.stored span ∨ old span → Stores after.stored span ∨ new span) :
    after.Contributed extractor batches new :=
  fun batch member span own => more batch member span own (contributed batch member span own)

theorem Reads.grow (reads : before.Reads extractor listed) (same : after.listed = before.listed)
    (subset : before.stored ⊆ after.stored) : after.Reads extractor listed where
  known := same ▸ reads.known
  covers := fun batch member span own =>
    (reads.covers batch (same ▸ member) span own).imp_left fun stores => stores.mono subset

section

variable (sound : before.Sound extractor)

include sound

theorem Sound.proceed (subset : before.stored ⊆ stored)
    (holds : StageHolds extractor { before with stored := stored, stage := stage } stage) :
    Sound extractor { before with stored := stored, stage := stage } where
  coded := sound.coded
  listedCoded := sound.listedCoded
  cached := sound.cached
  kept := fun batch member span own =>
    (sound.kept batch member span own).imp_left fun stores => stores.mono subset
  removed := fun row member span own => (sound.removed row member span own).mono subset
  stage := holds

theorem Sound.enter (holds : StageHolds extractor { before with stage := stage } stage) :
    Sound extractor { before with stage := stage } :=
  sound.proceed (List.Subset.refl _) holds

theorem Sound.listProcessed {dictionary : Dictionary Variability}
    (taken : before.listProcessed dictionary = some after) : after.Sound extractor := by
  have listing : Sound extractor
      { before with
        cached :=
          if before.processedBatches.isEmpty then before.cached else some before.processedBatches
        stage := .importing before.processedBatches before.processedBatches dictionary
        listed := before.listed ++ before.processedBatches } := by
    have coded : ∀ batch ∈ before.processedBatches,
        batch = (extractor.codec.rowOf batch.batchId).parse := by
      intro batch member
      unfold processedBatches at member
      cases cached : before.cached with
      | some batches =>
          rw [cached] at member
          exact sound.listedCoded batch (sound.cached batches cached member)
      | none =>
          rw [cached] at member
          obtain ⟨row, row_mem, rfl⟩ := List.mem_map.mp member
          exact congrArg BatchRow.parse (sound.coded.processed row row_mem)
    -- Whatever an earlier call listed and did not store is listed again.
    have covers : ∀ batch ∈ before.listed ++ before.processedBatches, ∀ span,
        spanOf extractor batch = some span → Stores before.stored span ∨
          extractor.codec.rowOf batch.batchId ∈ before.tables.processed ∧
            batch ∈ before.processedBatches := by
      intro batch member span own
      cases cached : before.cached with
      | some batches =>
          have listed : batch ∈ before.listed := by
            rcases List.mem_append.mp member with earlier | now
            · exact earlier
            · rw [processedBatches, cached] at now
              exact sound.cached batches cached now
          refine (sound.kept batch listed span own).imp_right fun waits => ⟨waits.1, ?_⟩
          rw [processedBatches, cached]
          exact waits.2 batches cached
      | none =>
          have again {batch : Batch BatchContents Hash}
              (row_mem : extractor.codec.rowOf batch.batchId ∈ before.tables.processed)
              (own_row : batch = (extractor.codec.rowOf batch.batchId).parse) :
              batch ∈ before.processedBatches := by
            rw [processedBatches, cached, own_row]
            exact List.mem_map_of_mem row_mem
          rcases List.mem_append.mp member with earlier | now
          · refine (sound.kept batch earlier span own).imp_right fun waits => ⟨waits.1, ?_⟩
            exact again waits.1 (sound.listedCoded batch earlier)
          · refine .inr ⟨?_, now⟩
            rw [processedBatches, cached] at now
            obtain ⟨row, row_mem, rfl⟩ := List.mem_map.mp now
            have same : row = extractor.codec.rowOf row.id := sound.coded.processed row row_mem
            exact same ▸ row_mem
    refine ⟨sound.coded, ?_, ?_, ?_, sound.removed,
      ⟨List.subset_append_right _ _, ?_⟩, [], rfl, ?_⟩
    · intro batch member
      rcases List.mem_append.mp member with earlier | now
      · exact sound.listedCoded batch earlier
      · exact coded batch now
    · intro batches same
      dsimp only at same
      split at same
      · exact List.subset_append_of_subset_left _ (sound.cached batches same)
      · cases same
        exact List.subset_append_right _ _
    · intro batch member span own
      refine (covers batch member span own).imp_right fun waits => ⟨waits.1, ?_⟩
      intro batches same
      dsimp only at same
      split at same
      · rename_i empty
        rw [List.isEmpty_iff.mp empty] at waits
        exact absurd waits.2 List.not_mem_nil
      · cases same
        exact waits.2
    · exact fun batch member span own =>
        (covers batch member span own).imp_right fun waits => waits.2
    · exact fun _ member => absurd member List.not_mem_nil
  unfold ExtractionSystem.listProcessed at taken
  split at taken
  · cases taken
    exact listing
  · cases taken
    exact listing
  · cases taken

theorem Sound.importNext (taken : before.importNext extractor patternId = some after) :
    after.Sound extractor := by
  unfold ExtractionSystem.importNext at taken
  split at taken
  · rename_i listed batch pending dictionary stage
    have holds := sound.stage
    rw [stage] at holds
    obtain ⟨reads, done, split, contributed⟩ := holds
    dsimp only at taken
    split at taken
    · rename_i imported outcome
      cases taken
      refine sound.enter ⟨⟨reads.known, reads.covers⟩, done ++ [batch], ?_, ?_⟩
      · rw [split, List.append_assoc, List.singleton_append]
      · obtain ⟨built, pattern, outcome⟩ := bind_eq_ok.mp outcome
        have kept : ∀ span, SeenIn dictionary.patterns span → SeenIn imported.patterns span := by
          intro span seen
          cases built with
          | none =>
              cases outcome
              exact seen
          | some pattern' =>
              have related := (BatchContents.saw_of_buildPattern pattern).1
              exact dictionary.seenIn_importPattern outcome related (.inr seen)
        intro other member span own
        rcases List.mem_append.mp member with earlier | last
        · exact (contributed other earlier span own).imp_right (kept span)
        · rw [List.mem_singleton.mp last] at own
          cases built with
          | none =>
              rw [spanOf, BatchContents.extractedSpan_eq_none pattern] at own
              cases own
          | some pattern' =>
              obtain ⟨related, saw⟩ := BatchContents.saw_of_buildPattern pattern
              exact .inr (dictionary.seenIn_importPattern outcome related (.inl (saw own)))
    · cases taken
      exact sound.enter trivial
  · cases taken

theorem Sound.finishImport (taken : before.finishImport = some after) : after.Sound extractor := by
  unfold ExtractionSystem.finishImport at taken
  split at taken
  · rename_i listed dictionary stage
    have holds := sound.stage
    rw [stage] at holds
    obtain ⟨reads, done, split, contributed⟩ := holds
    rw [List.append_nil] at split
    cases taken
    exact sound.enter ⟨⟨reads.known, reads.covers⟩, split ▸ contributed⟩
  · cases taken

end

theorem stored_subset_storedAfter (system : ExtractionSystem Variability Hash) (pattern : Pattern)
    (ending : TransactionEnd) : system.stored ⊆ system.storedAfter extractor pattern ending := by
  unfold storedAfter
  split
  · exact List.subset_append_left _ _
  · exact List.subset_append_left _ _
  · exact List.Subset.refl _

/-- A store which fails leaves no occurrence of a listed batch out of the dictionary's
database. -/
def StoresWhole (extractor : Extractor Variability Hash)
    (system : ExtractionSystem Variability Hash) : ExtractionAction Variability → Prop
  | .storeNext (.failed landed) =>
      match system.stage with
      | .storing listed (pattern :: _) =>
          ∀ batch ∈ listed, ∀ span ∈ spanOf extractor batch,
            Stores (system.storedAfter extractor pattern (.failed landed)) span
      | _ => True
  | _ => True

section

variable (sound : before.Sound extractor)

include sound

theorem Sound.storeNext (whole : before.StoresWhole extractor (.storeNext ending))
    (taken : before.storeNext extractor ending = some after) : after.Sound extractor := by
  unfold ExtractionSystem.storeNext at taken
  split at taken
  · rename_i listed pattern pending stage
    have holds := sound.stage
    rw [stage] at holds
    obtain ⟨reads, contributed⟩ := holds
    have subset : before.stored ⊆ before.storedAfter extractor pattern ending :=
      before.stored_subset_storedAfter pattern ending
    cases taken
    cases ending with
    | committed =>
        refine sound.proceed subset ⟨reads.grow rfl subset, ?_⟩
        refine contributed.grow fun batch member span own => ?_
        rintro (stores | ⟨holder, holder_mem, saw⟩)
        · exact .inl (stores.mono subset)
        · rcases List.mem_cons.mp holder_mem with rfl | later
          · refine .inl (stores_of_saw ?_ saw (BatchContents.aspect_of_extractedSpan own))
            exact List.mem_append_right _ List.mem_cons_self
          · exact .inr ⟨holder, later, saw⟩
    | failed landed =>
        refine sound.proceed subset ⟨reads.grow rfl subset, ?_⟩
        intro batch member span own
        rw [StoresWhole, stage] at whole
        exact .inl (whole batch member span own)
  · cases taken

theorem Sound.finishStore (taken : before.finishStore = some after) : after.Sound extractor := by
  unfold ExtractionSystem.finishStore at taken
  split at taken
  · rename_i listed stage
    have holds := sound.stage
    rw [stage] at holds
    obtain ⟨reads, contributed⟩ := holds
    cases taken
    refine sound.enter ⟨⟨reads.known, reads.covers⟩, contributed.grow ?_⟩
    rintro batch member span own (stores | ⟨holder, holder_mem, _⟩)
    · exact .inl stores
    · cases holder_mem
  · cases taken

theorem Sound.removeListed (reads : before.Reads extractor listed)
    (contributed : before.Contributed extractor listed fun _ => False) (now : Int)
    (ends : stage = .idle ∨ stage = .returned) :
    Sound extractor { before.removeListed extractor listed now with stage := stage } := by
  have stored : before.Contributed extractor before.listed fun _ => False := by
    intro batch member span own
    rcases reads.covers batch member span own with stores | again
    · exact .inl stores
    · exact contributed batch again span own
  refine ⟨?_, sound.listedCoded, sound.cached, ?_, ?_, ?_⟩
  · exact
      { sound.coded with
        processed := fun row member => sound.coded.processed row (List.mem_filter.mp member).1 }
  · exact fun batch member span own => (stored batch member span own).imp_right False.elim
  · intro row member span own
    rcases List.mem_append.mp member with earlier | now_removed
    · exact sound.removed row earlier span own
    · obtain ⟨row_mem, named⟩ := List.mem_filter.mp now_removed
      obtain ⟨batch, batch_mem, same_id⟩ := List.mem_map.mp (of_decide_eq_true named)
      have same : batch = row.parse := by
        rw [sound.listedCoded batch (reads.known batch_mem), same_id,
          ← sound.coded.processed row row_mem]
      exact (contributed batch batch_mem span (same ▸ own)).resolve_right id
  · rcases ends with rfl | rfl
    · trivial
    · exact stored

theorem Sound.remove {now : Int} (taken : before.remove extractor now ending = some after) :
    after.Sound extractor := by
  have holds := sound.stage
  unfold ExtractionSystem.remove at taken
  split at taken
  · rename_i stage
    rw [stage] at holds
    cases taken
    refine sound.enter fun batch member span own => .inl ?_
    exact (holds.1.covers batch member span own).resolve_right List.not_mem_nil
  · rename_i listed _ stage
    rw [stage] at holds
    obtain ⟨reads, contributed⟩ := holds
    split at taken
    · cases taken
      exact sound.removeListed reads contributed now (.inr rfl)
    · cases taken
      exact sound.removeListed reads contributed now (.inl rfl)
    · cases taken
      exact sound.enter trivial
  · cases taken

end

theorem StageHolds.congr (holds : before.StageHolds extractor stage)
    (listed : after.listed = before.listed) (stored : after.stored = before.stored) :
    after.StageHolds extractor stage := by
  have subset : before.stored ⊆ after.stored := stored ▸ List.Subset.refl _
  have grow {batches : List (Batch BatchContents Hash)} {otherwise : Span → Prop}
      (contributed : before.Contributed extractor batches otherwise) :
      after.Contributed extractor batches otherwise :=
    contributed.grow fun _ _ _ _ held => held.imp_left fun stores => stores.mono subset
  cases stage with
  | idle => trivial
  | importing batches pending dictionary =>
      obtain ⟨reads, done, split, contributed⟩ := holds
      exact ⟨reads.grow listed subset, done, split, grow contributed⟩
  | storing batches pending => exact ⟨holds.1.grow listed subset, grow holds.2⟩
  | removing batches => exact ⟨holds.1.grow listed subset, grow holds.2⟩
  | returned =>
      rw [StageHolds, listed]
      exact grow holds

theorem Sound.withTables (sound : before.Sound extractor) (coded : tables.Coded extractor.codec)
    (subset : before.tables.processed ⊆ tables.processed) :
    Sound extractor { before with tables := tables } where
  coded := coded
  listedCoded := sound.listedCoded
  cached := sound.cached
  kept := fun batch member span own =>
    (sound.kept batch member span own).imp_right fun waits => ⟨subset waits.1, waits.2⟩
  removed := sound.removed
  stage := sound.stage.congr rfl rfl

theorem Sound.expire (sound : before.Sound extractor) :
    Sound extractor { before with cached := none } where
  coded := sound.coded
  listedCoded := sound.listedCoded
  cached := fun _ same => by cases same
  kept := fun batch member span own =>
    (sound.kept batch member span own).imp_right fun waits => ⟨waits.1, fun _ same => by cases same⟩
  removed := sound.removed
  stage := sound.stage.congr rfl rfl

section Runs

variable [DecidableEq Hash]
variable {action : ExtractionAction Variability} {row : BatchRow BatchContents Hash}

section

variable (sound : before.Sound extractor)

include sound

theorem Sound.others {action : BatchTables.Action}
    (taken : before.others extractor action = some after) : after.Sound extractor := by
  unfold ExtractionSystem.others at taken
  split at taken
  · cases taken
  · cases taken
  · rename_i removes _
    obtain ⟨tables, stepped, taken⟩ := Option.bind_eq_some_iff.mp taken
    cases taken
    refine sound.withTables (sound.coded.step stepped) ?_
    exact Tables.processed_subset_of_step stepped removes

theorem Sound.crash : before.crash.Sound extractor := by
  have restarts : BatchTables.step extractor.codec extractor.retentionMillis before.tables
      .restart = some before.tables.restart := rfl
  have restarted : Tables.Coded extractor.codec before.tables.restart := sound.coded.step restarts
  exact ((sound.withTables restarted (List.Subset.refl _)).expire).enter trivial

theorem Sound.step (whole : before.StoresWhole extractor action)
    (taken : before.step extractor action = some after) : after.Sound extractor := by
  cases action with
  | others action => exact sound.others taken
  | list dictionary => exact sound.listProcessed taken
  | importNext patternId => exact sound.importNext taken
  | finishImport => exact sound.finishImport taken
  | storeNext ending => exact sound.storeNext whole taken
  | finishStore => exact sound.finishStore taken
  | remove now ending => exact sound.remove taken
  | expire =>
      cases taken
      exact sound.expire
  | crash =>
      cases taken
      exact sound.crash

end

theorem processed_or_removed_of_step (taken : before.step extractor action = some after)
    (known : row ∈ before.tables.processed ∨ row ∈ before.removed) :
    row ∈ after.tables.processed ∨ row ∈ after.removed := by
  have removal (listed : List (Batch BatchContents Hash)) (now : Int) :
      row ∈ (before.removeListed extractor listed now).tables.processed ∨
        row ∈ (before.removeListed extractor listed now).removed := by
    rcases known with processed | removed
    · by_cases named : row.id ∈ listed.map Batch.batchId
      · refine .inr (List.mem_append_right _ (List.mem_filter.mpr ⟨processed, ?_⟩))
        exact decide_eq_true named
      · exact .inl (List.mem_filter.mpr ⟨processed, decide_eq_true named⟩)
    · exact .inr (List.mem_append_left _ removed)
  cases action with
  | others action =>
      simp only [step, others] at taken
      split at taken
      · cases taken
      · cases taken
      · rename_i removes _
        obtain ⟨tables, stepped, taken⟩ := Option.bind_eq_some_iff.mp taken
        cases taken
        exact known.imp_left fun member => Tables.processed_subset_of_step stepped removes member
  | remove now ending =>
      simp only [step, remove] at taken
      split at taken
      · cases taken
        exact known
      · split at taken
        · cases taken
          exact removal _ now
        · cases taken
          exact removal _ now
        · cases taken
          exact known
      · cases taken
  | list | importNext | finishImport | storeNext | finishStore =>
      simp only [step, listProcessed, importNext, finishImport, storeNext, finishStore] at taken
      repeat' split at taken
      all_goals
        cases taken
        try exact known
  | expire | crash =>
      cases taken
      exact known

variable {actions later : List (ExtractionAction Variability)}

theorem processed_or_removed_of_run
    (execution : Execution.run (step extractor) before actions = some after)
    (known : row ∈ before.tables.processed ∨ row ∈ before.removed) :
    row ∈ after.tables.processed ∨ row ∈ after.removed := by
  induction actions generalizing before with
  | nil =>
      cases execution
      exact known
  | cons action later ih =>
      obtain ⟨middle, taken, rest⟩ := Execution.run_cons_eq_some.mp execution
      exact ih rest (processed_or_removed_of_step taken known)

/-- As long as no failed store leaves an occurrence out, a processed batch disappears only when
its occurrence is stored; a batch which some call listed is stored or will be listed by the next
call; and once a call succeeds, whatever any call listed is stored. -/
theorem extraction_removes_stored {tables : Tables BatchContents Hash}
    {stored : List StoredPattern} {middle : ExtractionSystem Variability Hash}
    (coded : tables.Coded extractor.codec)
    (execution : Execution.run (step extractor) (opened tables stored) actions = some middle)
    (rest : Execution.run (step extractor) middle later = some after)
    (whole : Execution.Meets (step extractor) (StoresWhole extractor) (opened tables stored)
      (actions ++ later)) :
    (∀ row ∈ middle.tables.processed, row ∉ after.tables.processed →
      ∀ span ∈ spanOf extractor row.parse, Stores after.stored span) ∧
    (∀ batch ∈ after.listed, ∀ span ∈ spanOf extractor batch,
      Stores after.stored span ∨
        extractor.codec.rowOf batch.batchId ∈ after.tables.processed ∧
          batch ∈ after.processedBatches) ∧
    (after.stage = .returned → ∀ batch ∈ after.listed, ∀ span ∈ spanOf extractor batch,
      Stores after.stored span) := by
  have whole_run : Execution.run (step extractor) (opened tables stored) (actions ++ later) =
      some after := by
    rw [Execution.run_append, execution]
    exact rest
  have sound : after.Sound extractor :=
    Execution.invariant_of_run (Sound extractor) (fun sound stores taken => sound.step stores taken)
      (sound_opened coded stored) whole whole_run
  refine ⟨?_, ?_, ?_⟩
  · intro row processed gone span own
    have removed := (processed_or_removed_of_run rest (.inl processed)).resolve_left gone
    exact sound.removed row removed span own
  · intro batch listed span own
    refine (sound.kept batch listed span own).imp_right fun waits => ⟨waits.1, ?_⟩
    unfold processedBatches
    cases cached : after.cached with
    | some batches => exact waits.2 batches cached
    | none =>
        have row := sound.listedCoded batch listed
        exact row ▸ List.mem_map_of_mem waits.1
  · intro done batch listed span own
    have holds := sound.stage
    rw [done] at holds
    exact (holds batch listed span own).resolve_right id

end Runs

/-- A single measurement, 8 s after the epoch. -/
def single : BatchContents where
  resolution := "seconds"
  size := 1
  measurements := [⟨true, .ofSeconds 8, some ⟨0, 1⟩, none⟩]

/-- Every batch has the single measurement. -/
def singleExtractor : Extractor Unit BatchContents where
  aspect := 1
  numerics :=
    { safeRatio := fun step denominator => .ok (step / denominator)
      interpolateAmplitudeAtLocation := fun relatives _ =>
        (relatives.map (·.vector.amplitude)).headD 0
      average := fun values => values.sum / values.length
      checkVariabilityConstraint := fun _ _ _ => .ok true }
  codec := ⟨fun _ => single, id, id⟩
  retentionMillis := 1000

/-- Batch 7 is processed. -/
def oneProcessed : Tables BatchContents BatchContents :=
  { fresh BatchContents BatchContents with processed := [singleExtractor.codec.rowOf 7] }

theorem oneProcessed_coded : oneProcessed.Coded singleExtractor.codec :=
  { Tables.coded_fresh singleExtractor.codec with
    processed := fun _ member => (List.mem_singleton.mp member) ▸ rfl }

/-- A call up to the store of its only pattern, in an empty dictionary. -/
def importOnly : List (ExtractionAction Unit) :=
  [.list ⟨[], ⟨none, none⟩⟩, .importNext 5, .finishImport]

theorem spanOf_single :
    spanOf singleExtractor (singleExtractor.codec.rowOf 7).parse =
      some (1, .ofSeconds 8, .ofSeconds 8) := by
  rfl

theorem extraction_stores_single :
    ∃ middle after : ExtractionSystem Unit BatchContents,
      Execution.run (step singleExtractor) (opened oneProcessed []) importOnly = some middle ∧
      Execution.run (step singleExtractor) middle
        [.storeNext .committed, .finishStore, .remove 100 .committed] = some after ∧
      singleExtractor.codec.rowOf 7 ∉ after.tables.processed ∧
      Stores after.stored (1, .ofSeconds 8, .ofSeconds 8) := by
  have gone : singleExtractor.codec.rowOf 7 ∉ ([] : List (BatchRow BatchContents BatchContents)) :=
    List.not_mem_nil
  refine ⟨_, _, rfl, rfl, gone, ?_⟩
  have removes := @extraction_removes_stored Unit BatchContents singleExtractor _ _ importOnly
    [.storeNext .committed, .finishStore, .remove 100 .committed] oneProcessed [] _
    oneProcessed_coded rfl rfl ⟨trivial, trivial, trivial, trivial, trivial, trivial, trivial⟩
  exact removes.1 _ List.mem_cons_self gone _ spanOf_single

/-- Without the condition a batch disappears whose occurrence is stored nowhere: the store of its
pattern fails, and the removal does not. -/
theorem failed_store_loses_single :
    ¬∀ (extractor : Extractor Unit BatchContents) (tables : Tables BatchContents BatchContents)
      (stored : List StoredPattern) (actions later : List (ExtractionAction Unit))
      (middle after : ExtractionSystem Unit BatchContents),
      tables.Coded extractor.codec →
        Execution.run (step extractor) (opened tables stored) actions = some middle →
          Execution.run (step extractor) middle later = some after →
            ∀ row ∈ middle.tables.processed, row ∉ after.tables.processed →
              ∀ span ∈ spanOf extractor row.parse, Stores after.stored span := by
  intro promise
  have stores := promise singleExtractor oneProcessed [] importOnly
    [.storeNext (.failed false), .remove 100 .committed] _ _ oneProcessed_coded rfl rfl _
    List.mem_cons_self List.not_mem_nil _ spanOf_single
  obtain ⟨pattern, member, _⟩ := stores
  cases member

end ExtractionSystem

end WeftDb.Extraction
