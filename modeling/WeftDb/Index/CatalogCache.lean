import WeftDb.Index.HandleRuns
import WeftDb.Index.Effects

/-!
# Coherence of the series catalog cache

A load keeps its catalog only under the generation it started from, and every registration ends
with a new generation.  Once a registration has returned, the cached catalog and every load which
may still be kept hold the series; loads from before it belong to an older generation.
-/

namespace WeftDb

variable {aspect : AspectName} {key : SeriesKey} {id : Nat} {ops : List IndexOp}
  {entry : SeriesEntry} {call : IndexCall} {series : List (Nat × SeriesKey)}

theorem IndexDb.mem_seriesOf {db : IndexDb} :
    (id, key) ∈ db.seriesOf aspect ↔ ⟨aspect, key, id⟩ ∈ db.series := by
  rw [seriesOf, List.mem_insertionSort, List.mem_map]
  constructor
  · rintro ⟨⟨own, _, _⟩, member, ⟨rfl, rfl⟩⟩
    obtain ⟨member, same⟩ := List.mem_filter.mp member
    rw [decide_eq_true_eq] at same
    exact same ▸ member
  · intro member
    exact ⟨⟨aspect, key, id⟩, List.mem_filter.mpr ⟨member, by simp⟩, rfl⟩

theorem mem_registeredAspects (member : .registerSeries aspect id key ∈ ops) :
    aspect ∈ registeredAspects ops :=
  List.mem_filterMap.mpr ⟨_, member, rfl⟩

/-- The generation of an aspect's cached catalog. -/
def IndexHandle.generation (handle : IndexHandle) (aspect : AspectName) : Nat :=
  (handle.catalogs aspect).generation

/-- The generation under which a call loads the catalog of an aspect. -/
def IndexCall.loads : IndexCall → Option (AspectName × Nat)
  | .loading aspect generation => some (aspect, generation)
  | .loaded aspect generation _ => some (aspect, generation)
  | _ => none

/-- The series which the landed transaction of a call registered. -/
def IndexCall.Landed : IndexCall → SeriesEntry → Prop
  | .forgetting ops ending _, entry | .applied ops ending, entry =>
      ending.landed = true ∧ .registerSeries entry.aspect entry.id entry.key ∈ ops
  | _, _ => False

/-- Those of them in aspects whose catalogs are forgotten. -/
def IndexCall.Announced (call : IndexCall) (entry : SeriesEntry) : Prop :=
  match call with
  | .forgetting _ _ left => call.Landed entry ∧ entry.aspect ∉ left
  | _ => call.Landed entry

theorem IndexCall.Announced.landed (announced : call.Announced entry) : call.Landed entry := by
  cases call with
  | forgetting ops ending left => exact announced.1
  | _ => exact announced

namespace IndexHandle

variable {handle after : IndexHandle} {ending : TxnEnd} {call next : IndexCall}

@[simp]
theorem generation_invalidate_self (aspect : AspectName) :
    (handle.invalidate aspect).generation aspect = handle.generation aspect + 1 := by
  simp [generation, invalidate, updated, CachedCatalog.invalidate]

theorem put_generation (cached : CachedCatalog) (generation : Nat)
    (series : List (Nat × SeriesKey)) :
    (cached.put generation series).generation = cached.generation := by
  unfold CachedCatalog.put
  split <;> rfl

section

variable (advances : handle.Advances ending call after next)

include advances

theorem Advances.generation_le (aspect : AspectName) :
    handle.generation aspect ≤ after.generation aspect := by
  cases advances with
  | @forget ops ended own left =>
      simp only [generation, invalidate, updated]
      split
      · exact Nat.le_succ _
      · exact le_rfl
  | @put own loaded series =>
      simp only [generation, putCatalog, updated]
      split
      · rw [put_generation]
      · exact le_rfl
  | _ => exact le_rfl

theorem Advances.series_kept (member : entry ∈ handle.db.series) : entry ∈ after.db.series := by
  cases advances with
  | land _ applied => exact IndexDb.series_kept_of_applyAll applied member
  | _ => exact member

theorem Advances.cached (cached : (after.catalogs aspect).series = some series) :
    (handle.catalogs aspect).series = some series ∨
      call = .loaded aspect (handle.generation aspect) series := by
  cases advances with
  | @forget ops ended own left =>
      simp only [invalidate, updated] at cached
      split at cached
      · cases cached
      · exact .inl cached
  | @put own loaded put =>
      simp only [putCatalog, updated, CachedCatalog.put] at cached
      split at cached
      · rename_i same
        subst same
        split at cached
        · rename_i stands
          cases cached
          exact .inr (stands ▸ rfl)
        · exact .inl cached
      · exact .inl cached
  | _ => exact .inl cached

end

theorem check_loads (query : PruneQuery) (seen : Option PruneSeen) (now : Int) :
    (query.check seen now).loads = none := by
  rcases query.check_cases seen now with ⟨_, same⟩ | same <;> simp [same, IndexCall.loads]

theorem Advances.loads (advances : handle.Advances ending call after next) {generation : Nat}
    (loads : next.loads = some (aspect, generation)) :
    call.loads = some (aspect, generation) ∨
      (call = .resolving aspect ∧ generation = after.generation aspect) := by
  cases advances with
  | miss =>
      cases loads
      exact .inr ⟨rfl, rfl⟩
  | load => exact .inl loads
  | bound => simp [check_loads] at loads
  | fold => simp [check_loads] at loads
  | _ => cases loads

theorem check_ne_resolving (query : PruneQuery) (seen : Option PruneSeen) (now : Int)
    (aspect : AspectName) : query.check seen now ≠ .resolving aspect := by
  rcases query.check_cases seen now with ⟨_, same⟩ | same <;> simp [same]

theorem Advances.looked (advances : handle.Advances ending call after next) :
    next ≠ .resolving aspect := by
  cases advances with
  | bound => exact check_ne_resolving _ _ _ _
  | fold => exact check_ne_resolving _ _ _ _
  | _ => simp

theorem Advances.loaded (advances : handle.Advances ending call after next) {generation : Nat}
    (loaded : next = .loaded aspect generation series) : series = after.db.seriesOf aspect := by
  have loads : next.loads = some (aspect, generation) := loaded ▸ rfl
  cases advances with
  | load =>
      cases loaded
      rfl
  | bound => simp [check_loads] at loads
  | fold => simp [check_loads] at loads
  | _ => cases loaded

theorem check_ne_resolved (query : PruneQuery) (seen : Option PruneSeen) (now : Int)
    (aspect : AspectName) (series : List (Nat × SeriesKey)) :
    query.check seen now ≠ .resolved aspect series := by
  rcases query.check_cases seen now with ⟨_, same⟩ | same <;> simp [same]

theorem not_landed_check (query : PruneQuery) (seen : Option PruneSeen) (now : Int)
    (entry : SeriesEntry) : ¬(query.check seen now).Landed entry := by
  rcases query.check_cases seen now with ⟨_, same⟩ | same <;> simp [same, IndexCall.Landed]

variable (advances : handle.Advances ending call after next)

include advances

theorem Advances.resolved (resolved : next = .resolved aspect series) :
    (handle.catalogs aspect).series = some series ∨
      ∃ generation, call = .loaded aspect generation series := by
  cases advances with
  | hit cached =>
      cases resolved
      exact .inl cached
  | @put own generation loaded =>
      cases resolved
      exact .inr ⟨generation, rfl⟩
  | bound => exact absurd resolved (check_ne_resolved _ _ _ _ _)
  | fold => exact absurd resolved (check_ne_resolved _ _ _ _ _)
  | _ => cases resolved

theorem Advances.landed (landed : next.Landed entry) :
    call.Landed entry ∨ entry ∈ after.db.series := by
  cases advances with
  | land _ applied => exact .inr (IndexDb.registered_of_applyAll applied landed.2)
  | refuse refused => simp [IndexCall.Landed, refused] at landed
  | forget => exact .inl landed
  | finish => exact .inl landed
  | bound => exact absurd landed (not_landed_check _ _ _ _)
  | fold => exact absurd landed (not_landed_check _ _ _ _)
  | _ => exact landed.elim

theorem Advances.announced (announced : next.Announced entry) :
    call.Announced entry ∨ (call.Landed entry ∧ after = handle.invalidate entry.aspect) := by
  cases advances with
  | land _ _ => exact absurd (mem_registeredAspects announced.1.2) announced.2
  | refuse _ => exact absurd (mem_registeredAspects announced.1.2) announced.2
  | @forget ops ended aspect left =>
      obtain ⟨landed, done⟩ := announced
      by_cases same : entry.aspect = aspect
      · exact .inr ⟨landed, same ▸ rfl⟩
      · exact .inl ⟨landed, by simp [same, done]⟩
  | finish => exact .inl ⟨announced, by simp⟩
  | bound => exact absurd announced.landed (not_landed_check _ _ _ _)
  | fold => exact absurd announced.landed (not_landed_check _ _ _ _)
  | _ => exact announced.elim

end IndexHandle

namespace HandleSystem

variable {before after : HandleSystem} {action : HandleAction} {actions : List HandleAction}
  {entry : SeriesEntry}
variable {ending : TxnEnd}

/-- No load is of a generation to come. -/
def LoadsBehind (system : HandleSystem) : Prop :=
  ∀ {id : Nat} {call : IndexCall} {aspect : AspectName} {generation : Nat},
    system.calls[id]? = some call → call.loads = some (aspect, generation) →
      generation ≤ system.handle.generation aspect

theorem generation_le_of_step (taken : before.step action = some after)
    (open_ : action ≠ .reopen) (aspect : AspectName) :
    before.handle.generation aspect ≤ after.handle.generation aspect := by
  rcases handle_of_step taken with same | ⟨_, _, _, _, _, advances⟩ | ⟨reopened, _⟩
  · rw [same]
  · exact advances.generation_le aspect
  · exact absurd reopened open_

theorem stopped_loads (call : IndexCall) : call.stopped.loads = none := by
  cases call <;> rfl

theorem request_loads (request : IndexRequest) : request.call.loads = none := by
  cases request <;> rfl

theorem LoadsBehind.step (behind : before.LoadsBehind) (taken : before.step action = some after) :
    after.LoadsBehind := by
  intro id call aspect generation found loads
  rcases call_of_step taken found with ⟨kept, open_⟩ | ⟨request, _, _, rfl⟩ |
    ⟨previous, ending, acts, advances⟩ | ⟨previous, _, rfl⟩
  · exact (behind kept loads).trans (generation_le_of_step taken open_ aspect)
  · simp [request_loads] at loads
  · rcases advances.loads loads with earlier | ⟨_, rfl⟩
    · exact (behind acts earlier).trans (advances.generation_le aspect)
    · exact le_rfl
  · simp [stopped_loads] at loads

/-- A series which no catalog misses that a later call may see. -/
structure Settled (system : HandleSystem) (entry : SeriesEntry) : Prop where
  registered : entry ∈ system.handle.db.series
  cached : ∀ {series}, (system.handle.catalogs entry.aspect).series = some series →
    (entry.id, entry.key) ∈ series
  loaded : ∀ {id generation : Nat} {series : List (Nat × SeriesKey)},
    system.calls[id]? = some (.loaded entry.aspect generation series) →
      (entry.id, entry.key) ∈ series ∨ generation < system.handle.generation entry.aspect

theorem series_kept_of_step (taken : before.step action = some after)
    (member : entry ∈ before.handle.db.series) : entry ∈ after.handle.db.series := by
  rcases handle_of_step taken with same | ⟨_, _, _, _, _, advances⟩ | ⟨_, reopened⟩
  · exact same ▸ member
  · exact advances.series_kept member
  · exact reopened ▸ member

theorem loaded_of_step (taken : before.step action = some after) {generation : Nat}
    (found : after.calls[id]? = some (.loaded aspect generation series)) :
    (before.calls[id]? = some (.loaded aspect generation series) ∧ action ≠ .reopen) ∨
      series = after.handle.db.seriesOf aspect := by
  rcases call_of_step taken found with kept | ⟨request, _, _, same⟩ |
    ⟨previous, ending, _, advances⟩ | ⟨previous, _, same⟩
  · exact .inl kept
  · have none := request_loads request
    simp [← same, IndexCall.loads] at none
  · exact .inr (advances.loaded rfl)
  · have none := stopped_loads previous
    simp [← same, IndexCall.loads] at none

theorem Settled.step (settled : before.Settled entry) (taken : before.step action = some after) :
    after.Settled entry where
  registered := series_kept_of_step taken settled.registered
  cached {series} cached := by
    rcases handle_of_step taken with same | ⟨id, call, next, ending, acts, advances⟩ |
      ⟨_, reopened⟩
    · exact settled.cached (same ▸ cached)
    · rcases advances.cached cached with kept | rfl
      · exact settled.cached kept
      · rcases settled.loaded acts with present | older
        · exact present
        · exact absurd older (lt_irrefl _)
    · rw [reopened] at cached
      cases cached
  loaded {id generation series} found := by
    rcases loaded_of_step taken found with ⟨kept, open_⟩ | rfl
    · rcases settled.loaded kept with present | older
      · exact .inl present
      · exact .inr (older.trans_le (generation_le_of_step taken open_ entry.aspect))
    · exact .inl (IndexDb.mem_seriesOf.mpr (series_kept_of_step taken settled.registered))

theorem settled_of_forget (behind : before.LoadsBehind) (taken : before.step action = some after)
    (member : entry ∈ before.handle.db.series)
    (forgotten : after.handle = before.handle.invalidate entry.aspect) :
    after.Settled entry where
  registered := series_kept_of_step taken member
  cached {series} cached := by
    rw [forgotten] at cached
    simp [IndexHandle.invalidate, updated, CachedCatalog.invalidate] at cached
  loaded {id generation series} found := by
    rcases loaded_of_step taken found with ⟨kept, _⟩ | rfl
    · refine .inr ?_
      rw [forgotten, IndexHandle.generation_invalidate_self]
      exact Nat.lt_succ_of_le (behind kept rfl)
    · exact .inl (IndexDb.mem_seriesOf.mpr (series_kept_of_step taken member))

theorem stopped_landed (landed : call.stopped.Landed entry) : call.Landed entry := by
  cases call with
  | applied ops ending => exact landed
  | _ => exact landed.elim

theorem stopped_announced (announced : call.stopped.Announced entry) : call.Announced entry := by
  cases call with
  | applied ops ending => exact announced
  | _ => exact announced.elim

theorem not_landed_request (request : IndexRequest) : ¬request.call.Landed entry := by
  cases request <;> exact id

/-- Every load is behind, every series of a landed transaction is registered, and every announced
one is settled. -/
structure Coherent (system : HandleSystem) : Prop where
  behind : system.LoadsBehind
  landed : ∀ {id : Nat} {call : IndexCall} {entry : SeriesEntry},
    system.calls[id]? = some call → call.Landed entry → entry ∈ system.handle.db.series
  settled : ∀ {id : Nat} {call : IndexCall} {entry : SeriesEntry},
    system.calls[id]? = some call → call.Announced entry → system.Settled entry

theorem opened_coherent (db : IndexDb) : (opened db).Coherent where
  behind {id call aspect generation} found := by simp [opened] at found
  landed found := by simp [opened] at found
  settled found := by simp [opened] at found

theorem Coherent.step (coherent : before.Coherent) (taken : before.step action = some after) :
    after.Coherent where
  behind := LoadsBehind.step coherent.behind taken
  landed {id call entry} found landed := by
    rcases call_of_step taken found with ⟨kept, _⟩ | ⟨request, _, _, rfl⟩ |
      ⟨previous, ending, acts, advances⟩ | ⟨previous, acts, rfl⟩
    · exact series_kept_of_step taken (coherent.landed kept landed)
    · exact absurd landed (not_landed_request request)
    · rcases advances.landed landed with earlier | registered
      · exact series_kept_of_step taken (coherent.landed acts earlier)
      · exact registered
    · exact series_kept_of_step taken (coherent.landed acts (stopped_landed landed))
  settled {id call entry} found announced := by
    rcases call_of_step taken found with ⟨kept, _⟩ | ⟨request, _, _, rfl⟩ |
      ⟨previous, ending, acts, advances⟩ | ⟨previous, acts, rfl⟩
    · exact (coherent.settled kept announced).step taken
    · exact absurd announced.landed (not_landed_request request)
    · rcases advances.announced announced with earlier | ⟨landed, forgotten⟩
      · exact (coherent.settled acts earlier).step taken
      · exact settled_of_forget coherent.behind taken (coherent.landed acts landed) forgotten
    · exact (coherent.settled acts (stopped_announced announced)).step taken

theorem Coherent.run (coherent : before.Coherent)
    (execution : Execution.run HandleSystem.step before actions = some after) :
    after.Coherent :=
  Execution.invariant_of_run Coherent (fun coherent _ taken => coherent.step taken) coherent
    (Execution.meets_true _ before actions) execution

/-- The series is settled, and every call from an id on which loaded or returned the catalog of
its aspect has it. -/
structure SeenFrom (system : HandleSystem) (entry : SeriesEntry) (first : Nat) : Prop where
  settled : system.Settled entry
  loaded : ∀ {id generation : Nat} {series : List (Nat × SeriesKey)}, first ≤ id →
    system.calls[id]? = some (.loaded entry.aspect generation series) →
      (entry.id, entry.key) ∈ series
  resolved : ∀ {id : Nat} {series : List (Nat × SeriesKey)}, first ≤ id →
    system.calls[id]? = some (.resolved entry.aspect series) → (entry.id, entry.key) ∈ series

theorem Settled.seenFrom (settled : before.Settled entry) :
    before.SeenFrom entry before.calls.length where
  settled := settled
  loaded late found := absurd (List.getElem?_eq_some_iff.mp found).1 (not_lt.mpr late)
  resolved late found := absurd (List.getElem?_eq_some_iff.mp found).1 (not_lt.mpr late)

theorem SeenFrom.step {first : Nat} (seen : before.SeenFrom entry first)
    (taken : before.step action = some after) : after.SeenFrom entry first where
  settled := seen.settled.step taken
  loaded {id generation series} late found := by
    rcases loaded_of_step taken found with ⟨kept, _⟩ | rfl
    · exact seen.loaded late kept
    · exact IndexDb.mem_seriesOf.mpr (series_kept_of_step taken seen.settled.registered)
  resolved {id series} late found := by
    rcases call_of_step taken found with ⟨kept, _⟩ | ⟨request, _, _, same⟩ |
      ⟨previous, ending, acts, advances⟩ | ⟨previous, acts, same⟩
    · exact seen.resolved late kept
    · cases request <;> cases same
    · rcases advances.resolved rfl with cached | ⟨generation, rfl⟩
      · exact seen.settled.cached cached
      · exact seen.loaded late acts
    · cases previous with
      | resolved own returned =>
          cases same
          exact seen.resolved late acts
      | _ => cases same

/-- A call has taken its look into the cache, and what it still loads of an aspect belongs to an
earlier generation. -/
structure Overtaken (system : HandleSystem) (id : Nat) (aspect : AspectName) : Prop where
  exists_call : id < system.calls.length
  looked : ∀ {other : AspectName}, system.calls[id]? ≠ some (.resolving other)
  older : ∀ {call : IndexCall} {generation : Nat}, system.calls[id]? = some call →
    call.loads = some (aspect, generation) → generation < system.handle.generation aspect

theorem length_le_of_step (taken : before.step action = some after) :
    before.calls.length ≤ after.calls.length := by
  cases action with
  | request request =>
      cases taken
      simp
  | advance id ending =>
      obtain ⟨call, handle, next, _, _, rfl⟩ := step_advance_eq_some.mp taken
      simp
  | abandon id =>
      cases taken
      simp
  | reopen =>
      cases taken
      simp

theorem Overtaken.step (overtaken : before.Overtaken id aspect)
    (taken : before.step action = some after) : after.Overtaken id aspect where
  exists_call := overtaken.exists_call.trans_le (length_le_of_step taken)
  looked {other} found := by
    rcases call_of_step taken found with ⟨kept, _⟩ | ⟨request, _, late, _⟩ |
      ⟨previous, ending, acts, advances⟩ | ⟨previous, acts, same⟩
    · exact overtaken.looked kept
    · exact absurd overtaken.exists_call (not_lt.mpr late)
    · exact advances.looked rfl
    · cases previous <;> cases same
  older {call generation} found loads := by
    rcases call_of_step taken found with ⟨kept, open_⟩ | ⟨request, _, late, _⟩ |
      ⟨previous, ending, acts, advances⟩ | ⟨previous, acts, rfl⟩
    · exact (overtaken.older kept loads).trans_le (generation_le_of_step taken open_ aspect)
    · exact absurd overtaken.exists_call (not_lt.mpr late)
    · rcases advances.loads loads with earlier | ⟨rfl, _⟩
      · exact (overtaken.older acts earlier).trans_le (advances.generation_le aspect)
      · exact absurd acts overtaken.looked
    · simp [stopped_loads] at loads

theorem overtaken_of_forget (behind : before.LoadsBehind) {applier loader generation : Nat}
    {ended : TxnEnd} {left : List AspectName}
    (forgets : before.calls[applier]? = some (.forgetting ops ended (aspect :: left)))
    (found : before.calls[loader]? = some call) (loads : call.loads = some (aspect, generation))
    (taken : before.step (.advance applier ending) = some after) :
    after.Overtaken loader aspect := by
  obtain ⟨acting, handle, next, acts, advanced, rfl⟩ := step_advance_eq_some.mp taken
  have same : acting = .forgetting ops ended (aspect :: left) :=
    Option.some_inj.mp (acts.symm.trans forgets)
  subst same
  cases advanced
  have different : applier ≠ loader := by
    rintro rfl
    rw [forgets, Option.some_inj] at found
    subst found
    cases loads
  have kept : (before.calls.set applier (.forgetting ops ended left))[loader]? = some call := by
    rw [List.getElem?_set_ne different, found]
  refine ⟨(List.getElem?_eq_some_iff.mp kept).1, fun {other} resolving => ?_,
    fun {call' generation'} found' loads' => ?_⟩
  · rw [kept, Option.some_inj] at resolving
    subst resolving
    cases loads
  · rw [kept, Option.some_inj] at found'
    subst found'
    rw [IndexHandle.generation_invalidate_self]
    exact Nat.lt_succ_of_le (behind found loads')

theorem putCatalog_of_older {handle : IndexHandle} {generation : Nat}
    (older : generation < handle.generation aspect) (series : List (Nat × SeriesKey)) :
    handle.putCatalog aspect generation series = handle := by
  have stands : (handle.catalogs aspect).put generation series = handle.catalogs aspect :=
    if_neg (ne_of_gt older)
  have same : updated handle.catalogs aspect (·.put generation series) = handle.catalogs := by
    funext other
    unfold updated
    split
    · rename_i own
      exact own ▸ stands
    · rfl
  rw [IndexHandle.putCatalog, same]

theorem Overtaken.put {loader generation : Nat} (overtaken : before.Overtaken loader aspect)
    (found : before.calls[loader]? = some (.loaded aspect generation series))
    (taken : before.step (.advance loader ending) = some after) : after.handle = before.handle := by
  obtain ⟨acting, handle, next, acts, advanced, rfl⟩ := step_advance_eq_some.mp taken
  rw [found, Option.some_inj] at acts
  subst acts
  cases advanced
  exact putCatalog_of_older (overtaken.older found rfl) series

end HandleSystem

open HandleSystem in
/-- Once a transaction which registered a series has returned, every call which starts later
returns a catalog with the series; and a load which started before an invalidation of its aspect
leaves the cache as it is when it comes to put its catalog. -/
theorem series_catalog_coherent (db : IndexDb) {earlier later : List HandleAction}
    {before after : HandleSystem}
    (execution : Execution.run HandleSystem.step (opened db) earlier = some before) :
    (∀ (applier resolver : Nat) (ops : List IndexOp) (ending : TxnEnd) (entry : SeriesEntry)
        (series : List (Nat × SeriesKey)),
      before.calls[applier]? = some (.applied ops ending) → ending.landed = true →
      .registerSeries entry.aspect entry.id entry.key ∈ ops →
      Execution.run HandleSystem.step before later = some after →
      before.calls.length ≤ resolver →
      after.calls[resolver]? = some (.resolved entry.aspect series) →
        (entry.id, entry.key) ∈ series) ∧
    ∀ (applier loader generation installed : Nat) (ops : List IndexOp) (ended ending put : TxnEnd)
        (aspect : AspectName) (left : List AspectName) (call : IndexCall)
        (invalidated final : HandleSystem) (series : List (Nat × SeriesKey)),
      before.calls[applier]? = some (.forgetting ops ended (aspect :: left)) →
      before.calls[loader]? = some call → call.loads = some (aspect, generation) →
      before.step (.advance applier ending) = some invalidated →
      Execution.run HandleSystem.step invalidated later = some after →
      after.calls[loader]? = some (.loaded aspect installed series) →
      after.step (.advance loader put) = some final →
        final.handle = after.handle := by
  have coherent : before.Coherent := (opened_coherent db).run execution
  constructor
  · intro applier resolver ops ending entry series found landed registers rest late resolved
    have seen : before.SeenFrom entry before.calls.length :=
      (coherent.settled found ⟨landed, registers⟩).seenFrom
    have kept : after.SeenFrom entry before.calls.length :=
      Execution.invariant_of_run (·.SeenFrom entry before.calls.length)
        (fun seen _ taken => seen.step taken) seen (Execution.meets_true _ before later) rest
    exact kept.resolved late resolved
  · intro applier loader generation installed ops ended ending put aspect left call invalidated
      final series forgets found loads taken rest loaded puts
    have overtaken : invalidated.Overtaken loader aspect :=
      overtaken_of_forget coherent.behind forgets found loads taken
    have kept : after.Overtaken loader aspect :=
      Execution.invariant_of_run (·.Overtaken loader aspect)
        (fun overtaken _ taken => overtaken.step taken) overtaken
        (Execution.meets_true _ invalidated later) rest
    exact kept.put loaded puts

/-- One call registers a series, and then another resolves the catalog. -/
def registration : List HandleAction :=
  [.request (.apply [.registerSeries "price" 1 "region=eu"]), .advance 0 .committed,
    .advance 0 .committed, .advance 0 .committed]

def resolution : List HandleAction :=
  [.request (.cachedSeriesOf "price"), .advance 1 .committed, .advance 1 .committed,
    .advance 1 .committed]

/-- A call reads the catalog before another registers the series, and puts it behind that. -/
def overtakenLoad : List HandleAction :=
  [.request (.cachedSeriesOf "price"), .advance 0 .committed, .advance 0 .committed,
    .request (.apply [.registerSeries "price" 1 "region=eu"]), .advance 1 .committed]

theorem resolution_returns_registered :
    (∃ before after,
      Execution.run HandleSystem.step (.opened .fresh) registration = some before ∧
        Execution.run HandleSystem.step before resolution = some after ∧
        after.calls[1]? = some (.resolved "price" [(1, "region=eu")]) ∧
        ((1 : Nat), "region=eu") ∈ [((1 : Nat), "region=eu")]) ∧
    ∃ before invalidated final,
      Execution.run HandleSystem.step (.opened .fresh) overtakenLoad = some before ∧
        before.step (.advance 1 .committed) = some invalidated ∧
        invalidated.step (.advance 0 .committed) = some final ∧
        final.handle = invalidated.handle := by
  have coherent := @series_catalog_coherent .fresh
  refine ⟨⟨_, _, rfl, rfl, rfl, ?_⟩, _, _, _, rfl, rfl, rfl, ?_⟩
  · exact (@coherent registration resolution _ _ rfl).1 0 1
      [.registerSeries "price" 1 "region=eu"] .committed ⟨"price", "region=eu", 1⟩ _ rfl rfl
      List.mem_cons_self rfl le_rfl rfl
  · exact (@coherent overtakenLoad [] _ _ rfl).2 1 0 0 0
      [.registerSeries "price" 1 "region=eu"] .committed .committed .committed "price" []
      (.loaded "price" 0 []) _ _ [] rfl rfl rfl rfl rfl rfl rfl

end WeftDb
