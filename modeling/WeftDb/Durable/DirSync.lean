import Mathlib.Logic.Function.Basic
import WeftDb.Foundation.Execution

/-!
# Coalesced directory fsyncs

A `DirSyncer` keeps one fsync of a directory in flight and lets every caller that arrives
meanwhile share the next one.  A call takes the next *requested* generation, a flight covers the
generations requested when it begins, and a successful flight raises the *completed* generation
when its task is dropped.  A call is suspended between the statements at which another task can
run, so a run interleaves calls, cancellations and flights.
-/

namespace WeftDb

/-- The kind of an I/O error. -/
inductive IoErrorKind
  | other
  | os (code : Int)
  deriving DecidableEq

structure IoError where
  kind : IoErrorKind
  message : String
  deriving DecidableEq

namespace DirSync

/-- The first fsync failure, replayed to every later caller. -/
structure Poison where
  kind : IoErrorKind
  message : String
  deriving DecidableEq

def Poison.toError (poison : Poison) (dir : String) : IoError where
  kind := poison.kind
  message := "directory fsync of " ++ dir ++ " failed (" ++ poison.message ++
    "); the directory syncer is poisoned until restart"

abbrev CallId := Nat

abbrev FlightId := Nat

/-- Where a call is. -/
inductive CallPhase
  /-- At the head of the loop. -/
  | ready
  /-- Registered for the next wake-up, and about to inspect the state. -/
  | listening (woken : Bool)
  /-- Holding a flight which is still to be spawned. -/
  | holding (flight : FlightId) (woken : Bool)
  /-- Awaiting the wake-up. -/
  | waiting (woken : Bool)
  | returned (result : Except IoError Unit)

structure Call where
  generation : Nat
  phase : CallPhase
  /-- The moment at which the call took its generation. -/
  registered : Nat

/-- A call once every waiter has been notified. -/
def Call.notified (call : Call) : Call :=
  { call with
    phase :=
      match call.phase with
      | .listening _ => .listening true
      | .holding flight _ => .holding flight true
      | .waiting _ => .waiting true
      | phase => phase }

/-- Where a flight is. -/
inductive FlightPhase
  /-- Begun by a call which has not spawned it yet. -/
  | claimed
  | spawned
  /-- The directory is being synced, since the given moment. -/
  | syncing (began : Nat)
  /-- The task is being dropped, without a result if the flight was lost. -/
  | ended (outcome : Option (Except IoError Unit))
  /-- The result is published and the waiters are about to be notified. -/
  | published

/-- Whether the flight still occupies the in-flight slot. -/
def FlightPhase.occupies : FlightPhase → Bool
  | .published => false
  | _ => true

structure Flight where
  covers : Nat
  phase : FlightPhase
  /-- The moment at which the flight was begun. -/
  claimed : Nat

/-- An fsync of the directory which completed without an error. -/
structure DirFsync where
  began : Nat
  deriving DecidableEq

/-- A directory syncer with the calls and flights which use it.  The last three fields are the
history of the run and take no part in it. -/
structure Syncer where
  dir : String
  /-- The generation handed to the most recent caller. -/
  requested : Nat
  /-- Every call with a generation at or below this is covered by a finished fsync. -/
  completed : Nat
  inFlight : Bool
  poisoned : Option Poison
  calls : CallId → Option Call
  nextCall : CallId
  flights : FlightId → Option Flight
  nextFlight : FlightId
  now : Nat
  /-- The fsyncs which completed successfully. -/
  fsyncs : List DirFsync
  /-- Whether a flight has failed or was lost. -/
  failed : Bool

/-- A syncer on which nothing has been called. -/
def fresh (dir : String) : Syncer where
  dir := dir
  requested := 0
  completed := 0
  inFlight := false
  poisoned := none
  calls := fun _ => none
  nextCall := 0
  flights := fun _ => none
  nextFlight := 0
  now := 0
  fsyncs := []
  failed := false

namespace Syncer

def setCall (syncer : Syncer) (id : CallId) (call : Call) (phase : CallPhase) : Syncer :=
  { syncer with calls := Function.update syncer.calls id (some { call with phase }) }

def setFlight (syncer : Syncer) (id : FlightId) (flight : Flight) (phase : FlightPhase) : Syncer :=
  { syncer with flights := Function.update syncer.flights id (some { flight with phase }) }

/-- Take the next generation, unless the syncer is poisoned. -/
def call (syncer : Syncer) : Syncer :=
  match syncer.poisoned with
  | some poison =>
      { syncer with
        calls := Function.update syncer.calls syncer.nextCall
          (some ⟨syncer.requested + 1, .returned (.error (poison.toError syncer.dir)), syncer.now⟩)
        nextCall := syncer.nextCall + 1 }
  | none =>
      { syncer with
        requested := syncer.requested + 1
        calls := Function.update syncer.calls syncer.nextCall
          (some ⟨syncer.requested + 1, .ready, syncer.now⟩)
        nextCall := syncer.nextCall + 1 }

/-- Register for the wake-up. -/
def listen (syncer : Syncer) (id : CallId) : Option Syncer :=
  match syncer.calls id with
  | some ⟨generation, .ready, registered⟩ =>
      some (syncer.setCall id ⟨generation, .ready, registered⟩ (.listening false))
  | _ => none

/-- Claim the in-flight slot for an fsync which covers every generation requested so far. -/
def begin (syncer : Syncer) : Syncer :=
  { syncer with
    inFlight := true
    flights := Function.update syncer.flights syncer.nextFlight
      (some ⟨syncer.requested, .claimed, syncer.now⟩)
    nextFlight := syncer.nextFlight + 1 }

/-- Inspect the state: return, begin a flight, or wait for the one in flight. -/
def inspect (syncer : Syncer) (id : CallId) : Option Syncer :=
  match syncer.calls id with
  | some ⟨generation, .listening woken, registered⟩ =>
      let call : Call := ⟨generation, .listening woken, registered⟩
      if generation ≤ syncer.completed then
        some (syncer.setCall id call (.returned (.ok ())))
      else
        match syncer.poisoned with
        | some poison =>
            some (syncer.setCall id call (.returned (.error (poison.toError syncer.dir))))
        | none =>
            if syncer.inFlight then
              some (syncer.setCall id call (.waiting woken))
            else
              some (syncer.begin.setCall id call (.holding syncer.nextFlight woken))
  | _ => none

/-- Spawn the flight held, and wait. -/
def spawn (syncer : Syncer) (id : CallId) : Option Syncer :=
  match syncer.calls id with
  | some ⟨generation, .holding flight woken, registered⟩ =>
      (syncer.flights flight).map fun held =>
        (syncer.setFlight flight held .spawned).setCall id
          ⟨generation, .holding flight woken, registered⟩ (.waiting woken)
  | _ => none

/-- A woken call goes round the loop. -/
def resume (syncer : Syncer) (id : CallId) : Option Syncer :=
  match syncer.calls id with
  | some ⟨generation, .waiting true, registered⟩ =>
      some (syncer.setCall id ⟨generation, .waiting true, registered⟩ .ready)
  | _ => none

/-- The caller drops its future at the await. -/
def cancel (syncer : Syncer) (id : CallId) : Option Syncer :=
  match syncer.calls id with
  | some ⟨_, .waiting _, _⟩ => some { syncer with calls := Function.update syncer.calls id none }
  | _ => none

/-- The flight's task starts its fsync. -/
def startSync (syncer : Syncer) (id : FlightId) : Option Syncer :=
  match syncer.flights id with
  | some ⟨covers, .spawned, claimed⟩ =>
      some (syncer.setFlight id ⟨covers, .spawned, claimed⟩ (.syncing syncer.now))
  | _ => none

/-- The fsync returns. -/
def endSync (syncer : Syncer) (id : FlightId) (result : Except IoError Unit) : Option Syncer :=
  match syncer.flights id with
  | some ⟨covers, .syncing began, claimed⟩ =>
      some
        { syncer.setFlight id ⟨covers, .syncing began, claimed⟩ (.ended (some result)) with
          fsyncs :=
            match result with
            | .ok () => syncer.fsyncs ++ [⟨began⟩]
            | .error _ => syncer.fsyncs
          failed :=
            match result with
            | .ok () => syncer.failed
            | .error _ => true }
  | _ => none

/-- The flight's task is dropped before its fsync returns. -/
def lose (syncer : Syncer) (id : FlightId) : Option Syncer :=
  match syncer.flights id with
  | some ⟨covers, .spawned, claimed⟩ =>
      some { syncer.setFlight id ⟨covers, .spawned, claimed⟩ (.ended none) with failed := true }
  | some ⟨covers, .syncing began, claimed⟩ =>
      some { syncer.setFlight id ⟨covers, .syncing began, claimed⟩ (.ended none) with
        failed := true }
  | _ => none

/-- The error published for a flight that was lost. -/
def lostFlight : IoError where
  kind := .other
  message := "the directory fsync task ended without a result"

/-- Publish the flight's result, releasing the in-flight slot. -/
def publish (syncer : Syncer) (id : FlightId) : Option Syncer :=
  match syncer.flights id with
  | some ⟨covers, .ended outcome, claimed⟩ =>
      let syncer := syncer.setFlight id ⟨covers, .ended outcome, claimed⟩ .published
      match outcome.getD (.error lostFlight) with
      | .ok () => some { syncer with inFlight := false, completed := max syncer.completed covers }
      | .error error =>
          some { syncer with
            inFlight := false
            poisoned := some (syncer.poisoned.getD ⟨error.kind, error.message⟩) }
  | _ => none

/-- Notify every waiter; the flight is gone. -/
def notify (syncer : Syncer) (id : FlightId) : Option Syncer :=
  match syncer.flights id with
  | some ⟨_, .published, _⟩ =>
      some { syncer with
        calls := fun call => (syncer.calls call).map Call.notified
        flights := Function.update syncer.flights id none }
  | _ => none

end Syncer

/-- One step of the syncer, its callers and its flights. -/
inductive Action
  | call
  | listen (id : CallId)
  | inspect (id : CallId)
  | spawn (id : CallId)
  | resume (id : CallId)
  | cancel (id : CallId)
  | startSync (id : FlightId)
  | endSync (id : FlightId) (result : Except IoError Unit)
  | lose (id : FlightId)
  | publish (id : FlightId)
  | notify (id : FlightId)

/-- The effect of an action, unless the syncer is not in a state to take it. -/
def effect (syncer : Syncer) : Action → Option Syncer
  | .call => some syncer.call
  | .listen id => syncer.listen id
  | .inspect id => syncer.inspect id
  | .spawn id => syncer.spawn id
  | .resume id => syncer.resume id
  | .cancel id => syncer.cancel id
  | .startSync id => syncer.startSync id
  | .endSync id result => syncer.endSync id result
  | .lose id => syncer.lose id
  | .publish id => syncer.publish id
  | .notify id => syncer.notify id

/-- One step, which takes a moment. -/
def step (syncer : Syncer) (action : Action) : Option Syncer :=
  (effect syncer action).map fun next => { next with now := syncer.now + 1 }

end DirSync

end WeftDb
