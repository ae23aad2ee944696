import WeftDb.Foundation.Execution
import WeftDb.Foundation.Integers
import WeftDb.Index.IndexTxn

/-!
# The handle of the segment index

Beside the database the handle holds two caches, each behind its own lock: the series catalog of
every aspect and the widest time span under every aspect and series.  `apply` widens the spans
before its transaction and forgets catalogs after it, `cached_series_of` and `prune_rows` read
through the caches.  A call takes one step for each lock it takes and each statement it runs, and
`HandleSystem.step` interleaves the steps of any number of calls.
-/

namespace WeftDb

/-- The cached series catalog of an aspect. -/
structure CachedCatalog where
  /-- How often the catalog was invalidated. -/
  generation : Nat
  series : Option (List (Nat × SeriesKey))
  deriving DecidableEq

namespace CachedCatalog

/-- The entry of an aspect which the cache has not met. -/
def initial : CachedCatalog where
  generation := 0
  series := none

/-- Keep a loaded catalog if no registration ran since the generation it was loaded under. -/
def put (cached : CachedCatalog) (generation : Nat) (series : List (Nat × SeriesKey)) :
    CachedCatalog :=
  if cached.generation = generation then { cached with series := some series } else cached

/-- Forget the catalog. -/
def invalidate (cached : CachedCatalog) : CachedCatalog where
  generation := cached.generation + 1
  series := none

end CachedCatalog

/-- What a span bound is held for: an aspect, or one series of it. -/
abbrev SpanKey := AspectName × Option Nat

/-- The widest time span recorded under a key. -/
structure SpanBound where
  /-- Whether the index's own widest span has been folded in. -/
  loaded : Bool
  widest : Int
  deriving DecidableEq

namespace SpanBound

/-- The bound of a key which the cache has not met. -/
def initial : SpanBound where
  loaded := false
  widest := 0

def widen (bound : SpanBound) (span : Int) : SpanBound :=
  { bound with widest := max bound.widest span }

/-- Fold the index's widest span in. -/
def load (bound : SpanBound) (indexed : Int) : SpanBound :=
  { bound.widen indexed with loaded := true }

end SpanBound

/-- The database with the caches in front of it. -/
structure IndexHandle where
  db : IndexDb
  spans : SpanKey → SpanBound
  catalogs : AspectName → CachedCatalog

/-- Replace one entry of a cache. -/
def updated {Key Value : Type} [DecidableEq Key] (cache : Key → Value) (key : Key)
    (change : Value → Value) : Key → Value :=
  fun other => if other = key then change (cache other) else cache other

namespace IndexHandle

/-- A database as it is opened, before anything is cached. -/
def opened (db : IndexDb) : IndexHandle where
  db := db
  spans _ := .initial
  catalogs _ := .initial

/-- Widen the bound of an aspect, and of one series of it. -/
def widen (handle : IndexHandle) (span : AspectName × Nat × Int) : IndexHandle :=
  let (aspect, series, width) := span
  { handle with
    spans :=
      updated (updated handle.spans (aspect, none) (·.widen width)) (aspect, some series)
        (·.widen width) }

/-- The bound under a key, once the index's own has been folded in. -/
def bound (handle : IndexHandle) (key : SpanKey) : Option Int :=
  if (handle.spans key).loaded then some (handle.spans key).widest else none

def loadBound (handle : IndexHandle) (key : SpanKey) (indexed : Int) : IndexHandle :=
  { handle with spans := updated handle.spans key (·.load indexed) }

def putCatalog (handle : IndexHandle) (aspect : AspectName) (generation : Nat)
    (series : List (Nat × SeriesKey)) : IndexHandle :=
  { handle with catalogs := updated handle.catalogs aspect (·.put generation series) }

def invalidate (handle : IndexHandle) (aspect : AspectName) : IndexHandle :=
  { handle with catalogs := updated handle.catalogs aspect (·.invalidate) }

end IndexHandle

/-- The time span of the row which an operation writes, with its aspect and series. -/
def IndexOp.rowSpan : IndexOp → Option (AspectName × Nat × Int)
  | .insertNew aspect row | .upsert aspect row | .replaceExpected aspect _ row =>
      match row.desc.maxTs, row.desc.minTs with
      | some high, some low => some (aspect, row.seriesId, Word64.saturatingSub high low)
      | _, _ => none
  | _ => none

/-- The time spans of the rows which a transaction writes. -/
def rowSpans (ops : List IndexOp) : List (AspectName × Nat × Int) :=
  ops.filterMap (·.rowSpan)

/-- The aspect in which an operation registers a series. -/
def IndexOp.registeredAspect : IndexOp → Option AspectName
  | .registerSeries aspect _ _ => some aspect
  | _ => none

/-- The aspects in which a transaction registers a series. -/
def registeredAspects (ops : List IndexOp) : List AspectName :=
  ops.filterMap (·.registeredAspect)

/-- How a transaction ended. -/
inductive TxnEnd
  | committed
  /-- The commit failed, and the transaction landed or did not. -/
  | ambiguous (landed : Bool)
  | refused (kind : TxnErrorKind)
  deriving DecidableEq

/-- Whether the transaction is in the database. -/
def TxnEnd.landed : TxnEnd → Bool
  | .committed => true
  | .ambiguous landed => landed
  | .refused _ => false

/-- What `prune_rows` is asked. -/
structure PruneQuery where
  aspect : AspectName
  /-- The one series which is asked for, or every series. -/
  series : Option Nat
  start : Int
  stop : Int
  /-- Whether a row without a present value is left out. -/
  present : Bool
  deriving DecidableEq

namespace PruneQuery

/-- The key of the bound under which the query seeks. -/
def key (query : PruneQuery) : SpanKey :=
  (query.aspect, query.series)

/-- Whether a row is of the series which the query asks for. -/
def ofSeries (query : PruneQuery) (row : IndexRow) : Bool :=
  match query.series with
  | some series => decide (row.seriesId = series)
  | none => true

/-- Whether a row passes the filters of the query. -/
def admits (query : PruneQuery) (row : IndexRow) : Bool :=
  query.ofSeries row && (!query.present || decide (row.desc.nullCount < row.desc.rowCount))

end PruneQuery

namespace IndexDb

/-- `SELECT series_id, series_key`, in id order. -/
def seriesOf (db : IndexDb) (aspect : AspectName) : List (Nat × SeriesKey) :=
  ((db.series.rows.filter fun entry => decide (entry.aspect = aspect)).map fun entry =>
    (entry.id, entry.key)).insertionSort fun left right => left.1 ≤ right.1

/-- `SELECT MAX(max_ts - min_ts)` under the key of a query.  A difference beyond an integer is a
real number, which the caller takes for `0`, as it takes the maximum of no rows. -/
def widestSpan (db : IndexDb) (query : PruneQuery) : Int :=
  match (((db.rows query.aspect).filter query.ofSeries).filterMap fun row =>
      match row.desc.maxTs, row.desc.minTs with
      | some high, some low => some (high - low)
      | _, _ => none).max? with
  | some widest => if Word64.Fits widest then widest else 0
  | none => 0

/-- The rows of a prune whose span starts at or after the floor, in id order. -/
def seek (db : IndexDb) (query : PruneQuery) (floor : Int) : List IndexRow :=
  (db.rows query.aspect).filter fun row =>
    match row.desc.minTs, row.desc.maxTs with
    | some low, some high =>
        decide (floor ≤ low ∧ low ≤ query.stop ∧ query.start ≤ high) && query.admits row
    | _, _ => false

/-- The rows whose span overlaps the window of a query, in id order. -/
def overlapping (db : IndexDb) (query : PruneQuery) : List IndexRow :=
  (db.rows query.aspect).filter fun row =>
    row.desc.overlapsTime query.start query.stop && query.admits row

end IndexDb

/-- What a prune found: the bound it sought under, the rows, and the index it read them in. -/
structure PruneSeen where
  widest : Int
  rows : List IndexRow
  asOf : IndexDb

/-- A call on the handle, by what it does next. -/
inductive IndexCall
  /-- `apply` widens the bounds to the spans which are left. -/
  | widening (ops : List IndexOp) (left : List (AspectName × Nat × Int))
  /-- `apply` forgets the catalogs which are left. -/
  | forgetting (ops : List IndexOp) (ending : TxnEnd) (left : List AspectName)
  /-- `apply` has returned. -/
  | applied (ops : List IndexOp) (ending : TxnEnd)
  /-- `cached_series_of` looks into the cache. -/
  | resolving (aspect : AspectName)
  /-- It loads the catalog. -/
  | loading (aspect : AspectName) (generation : Nat)
  /-- It puts what it loaded. -/
  | loaded (aspect : AspectName) (generation : Nat) (series : List (Nat × SeriesKey))
  /-- `cached_series_of` has returned. -/
  | resolved (aspect : AspectName) (series : List (Nat × SeriesKey))
  /-- `prune_rows` looks for the bound, before its query or to check what it found. -/
  | bounding (query : PruneQuery) (seen : Option PruneSeen)
  /-- It measures the widest span in the index. -/
  | measuring (query : PruneQuery) (seen : Option PruneSeen)
  /-- It folds what it measured into the bound. -/
  | measured (query : PruneQuery) (seen : Option PruneSeen) (indexed : Int)
  /-- It runs its query under a bound. -/
  | seeking (query : PruneQuery) (widest : Int)
  /-- `prune_rows` has returned. -/
  | pruned (query : PruneQuery) (seen : PruneSeen)
  /-- The call failed or its future was dropped. -/
  | abandoned

/-- The calls which a caller can make. -/
inductive IndexRequest
  | apply (ops : List IndexOp)
  | cachedSeriesOf (aspect : AspectName)
  | pruneRows (query : PruneQuery)

def IndexRequest.call : IndexRequest → IndexCall
  | .apply ops => .widening ops (rowSpans ops)
  | .cachedSeriesOf aspect => .resolving aspect
  | .pruneRows query => .bounding query none

/-- What is left of a call which is cut off: only what it has returned. -/
def IndexCall.stopped : IndexCall → IndexCall
  | .applied ops ending => .applied ops ending
  | .resolved aspect series => .resolved aspect series
  | .pruned query seen => .pruned query seen
  | _ => .abandoned

/-- The next step of a prune which has read the bound. -/
def PruneQuery.check (query : PruneQuery) (seen : Option PruneSeen) (now : Int) : IndexCall :=
  match seen with
  | some seen => if now = seen.widest then .pruned query seen else .seeking query now
  | none => .seeking query now

namespace IndexHandle

/-- Run a transaction which ends as given. -/
def transact (handle : IndexHandle) (ops : List IndexOp) (ending : TxnEnd) : Option IndexHandle :=
  if ending.landed then
    match handle.db.applyAll ops with
    | .ok db => some { handle with db }
    | .error _ => none
  else
    some handle

/-- The next step of a call; the ending is that of its transaction, if it runs one. -/
def advance (handle : IndexHandle) (ending : TxnEnd) :
    IndexCall → Option (IndexHandle × IndexCall)
  | .widening ops (span :: left) => some (handle.widen span, .widening ops left)
  | .widening ops [] =>
      (handle.transact ops ending).map fun next =>
        (next, .forgetting ops ending (registeredAspects ops))
  | .forgetting ops ended (aspect :: left) =>
      some (handle.invalidate aspect, .forgetting ops ended left)
  | .forgetting ops ended [] => some (handle, .applied ops ended)
  | .resolving aspect =>
      match (handle.catalogs aspect).series with
      | some series => some (handle, .resolved aspect series)
      | none => some (handle, .loading aspect (handle.catalogs aspect).generation)
  | .loading aspect generation =>
      some (handle, .loaded aspect generation (handle.db.seriesOf aspect))
  | .loaded aspect generation series =>
      some (handle.putCatalog aspect generation series, .resolved aspect series)
  | .bounding query seen =>
      match handle.bound query.key with
      | some now => some (handle, query.check seen now)
      | none => some (handle, .measuring query seen)
  | .measuring query seen => some (handle, .measured query seen (handle.db.widestSpan query))
  | .measured query seen indexed =>
      let next := handle.loadBound query.key indexed
      some (next, query.check seen (next.spans query.key).widest)
  | .seeking query widest =>
      let floor := Word64.saturatingSub query.start widest
      some (handle, .bounding query (some ⟨widest, handle.db.seek query floor, handle.db⟩))
  | .applied _ _ | .resolved _ _ | .pruned _ _ | .abandoned => none

end IndexHandle

/-- A handle and every call made on it. -/
structure HandleSystem where
  handle : IndexHandle
  calls : List IndexCall

inductive HandleAction
  | request (request : IndexRequest)
  /-- The next step of a call. -/
  | advance (call : Nat) (ending : TxnEnd)
  /-- A statement of a call fails, or its caller drops it. -/
  | abandon (call : Nat)
  /-- The process ends and the store is opened again. -/
  | reopen

namespace HandleSystem

def opened (db : IndexDb) : HandleSystem where
  handle := .opened db
  calls := []

def step (system : HandleSystem) : HandleAction → Option HandleSystem
  | .request request => some { system with calls := system.calls ++ [request.call] }
  | .advance id ending => do
      let call ← system.calls[id]?
      let (handle, next) ← system.handle.advance ending call
      some ⟨handle, system.calls.set id next⟩
  | .abandon id => some { system with calls := system.calls.modify id (·.stopped) }
  | .reopen => some ⟨.opened system.handle.db, system.calls.map (·.stopped)⟩

end HandleSystem

end WeftDb
