import Mathlib.Logic.Relation

/-!
# Runs of a partial step function

A system is given by a step function which either refuses an action or returns the next state.
`run` executes a sequence of actions; `Meets` restricts a run to the actions which satisfy a
condition in the state they are taken in.  An invariant is proved for one step and transported
to complete runs by `invariant_of_run`.
-/

namespace Execution

variable {State Action : Type*}
variable {step : State → Action → Option State} {later actions : List Action} {before after : State}
  {action : Action} {condition : State → Action → Prop}

/-- Execute the actions in order, failing at the first one that is refused. -/
def run (step : State → Action → Option State) : State → List Action → Option State
  | state, [] => some state
  | state, action :: later => step state action >>= fun next => run step next later

@[simp]
theorem run_nil (step : State → Action → Option State) (state : State) :
    run step state [] = some state := by
  rfl

theorem run_cons_eq_some :
    run step before (action :: later) = some after ↔
      ∃ middle, step before action = some middle ∧ run step middle later = some after := by
  simp [run, Option.bind_eq_some_iff]

theorem run_append (step : State → Action → Option State) (state : State)
    (earlier later : List Action) :
    run step state (earlier ++ later) =
      run step state earlier >>= fun middle => run step middle later := by
  induction earlier generalizing state with
  | nil => rfl
  | cons action earlier ih =>
      simp only [List.cons_append, run]
      cases step state action with
      | none => rfl
      | some next => exact ih next

/-- Every action of the run meets the condition in the state it is taken in. -/
def Meets (step : State → Action → Option State) (condition : State → Action → Prop) :
    State → List Action → Prop
  | _, [] => True
  | state, action :: later =>
      condition state action ∧
        match step state action with
        | some next => Meets step condition next later
        | none => True

instance decidableMeets (step : State → Action → Option State)
    (condition : State → Action → Prop) [∀ state action, Decidable (condition state action)] :
    ∀ (actions : List Action) (state : State), Decidable (Meets step condition state actions)
  | [], _ => inferInstanceAs (Decidable True)
  | action :: later, state =>
      have : Decidable (match step state action with
          | some next => Meets step condition next later
          | none => True) :=
        match step state action with
        | some next => decidableMeets step condition later next
        | none => inferInstanceAs (Decidable True)
      inferInstanceAs (Decidable (condition state action ∧ _))

theorem Meets.cons {middle : State} (meets : Meets step condition before (action :: later))
    (taken : step before action = some middle) :
    condition before action ∧ Meets step condition middle later := by
  obtain ⟨first, rest⟩ := meets
  rw [taken] at rest
  exact ⟨first, rest⟩

theorem Meets.mono {strong weak : State → Action → Prop}
    (weaken : ∀ state action, strong state action → weak state action) {state : State}
    (meets : Meets step strong state actions) : Meets step weak state actions := by
  induction actions generalizing state with
  | nil => trivial
  | cons action later ih =>
      obtain ⟨first, rest⟩ := meets
      refine ⟨weaken state action first, ?_⟩
      cases taken : step state action with
      | none => trivial
      | some next =>
          rw [taken] at rest
          exact ih rest

theorem meets_of_forall (every : ∀ action ∈ actions, ∀ state, condition state action)
    (state : State) : Meets step condition state actions := by
  induction actions generalizing state with
  | nil => trivial
  | cons action later ih =>
      refine ⟨every action List.mem_cons_self state, ?_⟩
      cases step state action with
      | none => trivial
      | some next => exact ih (fun other member => every other (List.mem_cons_of_mem _ member)) next

theorem meets_true (step : State → Action → Option State) (state : State)
    (actions : List Action) : Meets step (fun _ _ => True) state actions :=
  meets_of_forall (fun _ _ _ => trivial) state

theorem invariant_of_run (property : State → Prop)
    (preserved : ∀ {before after : State} {action : Action}, property before →
      condition before action → step before action = some after → property after)
    (start : property before) (meets : Meets step condition before actions)
    (execution : run step before actions = some after) : property after := by
  induction actions generalizing before with
  | nil =>
      cases execution
      exact start
  | cons action later ih =>
      obtain ⟨middle, taken, rest⟩ := run_cons_eq_some.mp execution
      obtain ⟨first, meets⟩ := meets.cons taken
      exact ih (preserved start first taken) meets rest

end Execution
