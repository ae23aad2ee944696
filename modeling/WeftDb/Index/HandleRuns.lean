import WeftDb.Index.Handle

/-!
# Runs of the index handle

`Advances` lists the steps of a call.  The calls on a handle meet only in the handle, so an
assertion about the handle and one about each call hold through every run if a step of a call
keeps the first, moves its own assertion on, and disturbs the assertion of no other call.
-/

namespace WeftDb

theorem PruneQuery.check_cases (query : PruneQuery) (seen : Option PruneSeen) (now : Int) :
    (∃ found, query.check seen now = .pruned query found) ∨
      query.check seen now = .seeking query now := by
  cases seen with
  | none => exact .inr rfl
  | some found =>
      simp only [check]
      split
      · exact .inl ⟨found, rfl⟩
      · exact .inr rfl

namespace IndexHandle

variable {handle after : IndexHandle} {ending : TxnEnd} {call next : IndexCall}

/-- What a step of a call does to the handle, and what the call does next. -/
inductive Advances (handle : IndexHandle) (ending : TxnEnd) :
    IndexCall → IndexHandle → IndexCall → Prop
  | widen {ops span left} :
      Advances handle ending (.widening ops (span :: left)) (handle.widen span)
        (.widening ops left)
  | land {ops db} (landed : ending.landed = true) (applied : handle.db.applyAll ops = .ok db) :
      Advances handle ending (.widening ops []) { handle with db }
        (.forgetting ops ending (registeredAspects ops))
  | refuse {ops} (refused : ending.landed = false) :
      Advances handle ending (.widening ops []) handle
        (.forgetting ops ending (registeredAspects ops))
  | forget {ops ended aspect left} :
      Advances handle ending (.forgetting ops ended (aspect :: left)) (handle.invalidate aspect)
        (.forgetting ops ended left)
  | finish {ops ended} :
      Advances handle ending (.forgetting ops ended []) handle (.applied ops ended)
  | hit {aspect series} (cached : (handle.catalogs aspect).series = some series) :
      Advances handle ending (.resolving aspect) handle (.resolved aspect series)
  | miss {aspect} (cached : (handle.catalogs aspect).series = none) :
      Advances handle ending (.resolving aspect) handle
        (.loading aspect (handle.catalogs aspect).generation)
  | load {aspect generation} :
      Advances handle ending (.loading aspect generation) handle
        (.loaded aspect generation (handle.db.seriesOf aspect))
  | put {aspect generation series} :
      Advances handle ending (.loaded aspect generation series)
        (handle.putCatalog aspect generation series) (.resolved aspect series)
  | bound {query seen now} (found : handle.bound query.key = some now) :
      Advances handle ending (.bounding query seen) handle (query.check seen now)
  | unbound {query seen} (found : handle.bound query.key = none) :
      Advances handle ending (.bounding query seen) handle (.measuring query seen)
  | measure {query seen} :
      Advances handle ending (.measuring query seen) handle
        (.measured query seen (handle.db.widestSpan query))
  | fold {query seen indexed} :
      Advances handle ending (.measured query seen indexed)
        (handle.loadBound query.key indexed)
        (query.check seen ((handle.loadBound query.key indexed).spans query.key).widest)
  | seek {query widest} :
      Advances handle ending (.seeking query widest) handle
        (.bounding query (some
          ⟨widest, handle.db.seek query (Word64.saturatingSub query.start widest), handle.db⟩))

/-- Every step of a call is one of the listed ones. -/
theorem advances_of_advance (advanced : handle.advance ending call = some (after, next)) :
    Advances handle ending call after next := by
  cases call with
  | widening ops left =>
      cases left with
      | cons span left =>
          cases advanced
          exact .widen
      | nil =>
          obtain ⟨handle', ran, same⟩ := Option.map_eq_some_iff.mp advanced
          cases same
          unfold transact at ran
          split at ran
          · rename_i landed
            split at ran
            · rename_i db applied
              cases ran
              exact .land landed applied
            · cases ran
          · rename_i refused
            cases ran
            exact .refuse (Bool.eq_false_iff.mpr refused)
  | forgetting ops ended left =>
      cases left with
      | cons aspect left =>
          cases advanced
          exact .forget
      | nil =>
          cases advanced
          exact .finish
  | applied ops ended => cases advanced
  | resolving aspect =>
      simp only [advance] at advanced
      split at advanced
      · rename_i series cached
        cases advanced
        exact .hit cached
      · rename_i cached
        cases advanced
        exact .miss cached
  | loading aspect generation =>
      cases advanced
      exact .load
  | loaded aspect generation series =>
      cases advanced
      exact .put
  | resolved aspect series => cases advanced
  | bounding query seen =>
      simp only [advance] at advanced
      split at advanced
      · rename_i now found
        cases advanced
        exact .bound found
      · rename_i found
        cases advanced
        exact .unbound found
  | measuring query seen =>
      cases advanced
      exact .measure
  | measured query seen indexed =>
      cases advanced
      exact .fold
  | seeking query widest =>
      cases advanced
      exact .seek
  | pruned query seen => cases advanced
  | abandoned => cases advanced

end IndexHandle

namespace HandleSystem

variable {before after : HandleSystem} {action : HandleAction} {actions : List HandleAction}
  {id : Nat} {call : IndexCall}

theorem step_advance_eq_some {ending : TxnEnd} :
    before.step (.advance id ending) = some after ↔
      ∃ call handle next, before.calls[id]? = some call ∧
        before.handle.advance ending call = some (handle, next) ∧
        after = ⟨handle, before.calls.set id next⟩ := by
  simp only [step, Option.bind_eq_bind, Option.bind_eq_some_iff, Prod.exists, Option.some_inj]
  constructor
  · rintro ⟨call, found, handle, next, advanced, rfl⟩
    exact ⟨call, handle, next, found, advanced, rfl⟩
  · rintro ⟨call, handle, next, found, advanced, rfl⟩
    exact ⟨call, found, handle, next, advanced, rfl⟩

theorem handle_of_step (taken : before.step action = some after) :
    after.handle = before.handle ∨
      (∃ (id : Nat) (call next : IndexCall) (ending : TxnEnd), before.calls[id]? = some call ∧
        before.handle.Advances ending call after.handle next) ∨
      (action = .reopen ∧ after.handle = .opened before.handle.db) := by
  cases action with
  | request request =>
      cases taken
      exact .inl rfl
  | advance id ending =>
      obtain ⟨call, handle, next, acts, advanced, rfl⟩ := step_advance_eq_some.mp taken
      exact .inr (.inl
        ⟨id, call, next, ending, acts, IndexHandle.advances_of_advance advanced⟩)
  | abandon id =>
      cases taken
      exact .inl rfl
  | reopen =>
      cases taken
      exact .inr (.inr ⟨rfl, rfl⟩)

theorem call_of_step (taken : before.step action = some after)
    (found : after.calls[id]? = some call) :
    (before.calls[id]? = some call ∧ action ≠ .reopen) ∨
      (∃ request, action = .request request ∧ before.calls.length ≤ id ∧ call = request.call) ∨
      (∃ previous ending, before.calls[id]? = some previous ∧
        before.handle.Advances ending previous after.handle call) ∨
      ∃ previous, before.calls[id]? = some previous ∧ call = previous.stopped := by
  cases action with
  | request request =>
      cases taken
      rw [List.getElem?_append] at found
      split at found
      · exact .inl ⟨found, by simp⟩
      · rename_i late
        have requested := List.mem_singleton.mp (List.mem_of_getElem? found)
        exact .inr (.inl ⟨request, rfl, not_lt.mp late, requested⟩)
  | advance acting ending =>
      obtain ⟨previous, handle, next, acts, advanced, rfl⟩ := step_advance_eq_some.mp taken
      by_cases same : acting = id
      · subst same
        have length := (List.getElem?_eq_some_iff.mp acts).1
        rw [List.getElem?_set_self length, Option.some_inj] at found
        subst found
        exact .inr (.inr (.inl
          ⟨previous, ending, acts, IndexHandle.advances_of_advance advanced⟩))
      · rw [List.getElem?_set_ne same] at found
        exact .inl ⟨found, by simp⟩
  | abandon cut =>
      cases taken
      rw [List.getElem?_modify] at found
      obtain ⟨previous, earlier, rfl⟩ := Option.map_eq_some_iff.mp found
      split
      · exact .inr (.inr (.inr ⟨previous, earlier, rfl⟩))
      · exact .inl ⟨earlier, by simp⟩
  | reopen =>
      cases taken
      rw [List.getElem?_map, Option.map_eq_some_iff] at found
      obtain ⟨previous, earlier, rfl⟩ := found
      exact .inr (.inr (.inr ⟨previous, earlier, rfl⟩))

end HandleSystem

end WeftDb
