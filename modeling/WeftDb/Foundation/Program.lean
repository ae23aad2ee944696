/-!
# Programs which take shared state one access at a time

A program either ends or asks for one access to a shared state and goes on with the reply.  Among
other parties each access is one step, and `Safe` states what a program guarantees of its own steps
while the others keep to what it relies on.
-/

universe u

/-- A program over requests, whose replies depend on the request.  It may fail. -/
inductive Program {Request : Type} (Reply : Request → Type) (Failure : Type) (Value : Type)
  | done (value : Value)
  | fail (failure : Failure)
  /-- One access to the shared state, and what follows its reply. -/
  | ask (request : Request) (next : Reply request → Program Reply Failure Value)

namespace Program

variable {Request : Type} {Reply : Request → Type} {Failure Value Other : Type} {State : Type u}
variable {state : State} {value : Value} {program : Program Reply Failure Value}

/-- Go on with the value of a program. -/
def bind (first : Program Reply Failure Value) (next : Value → Program Reply Failure Other) :
    Program Reply Failure Other :=
  match first with
  | .done value => next value
  | .fail failure => .fail failure
  | .ask request rest => .ask request fun reply => (rest reply).bind next

instance : Monad (Program Reply Failure) where
  pure := .done
  bind := bind

/-- Ask for one access and return its reply. -/
def request (request : Request) : Program Reply Failure (Reply request) :=
  .ask request .done

@[simp]
theorem pure_bind (value : Value) (next : Value → Program Reply Failure Other) :
    (pure value : Program Reply Failure Value) >>= next = next value := by
  rfl

@[simp]
theorem done_bind (value : Value) (next : Value → Program Reply Failure Other) :
    (.done value : Program Reply Failure Value) >>= next = next value := by
  rfl

@[simp]
theorem fail_bind (failure : Failure) (next : Value → Program Reply Failure Other) :
    (.fail failure : Program Reply Failure Value) >>= next = .fail failure := by
  rfl

@[simp]
theorem ask_bind (asked : Request) (rest : Reply asked → Program Reply Failure Value)
    (next : Value → Program Reply Failure Other) :
    (.ask asked rest : Program Reply Failure Value) >>= next =
      .ask asked fun reply => rest reply >>= next := by
  rfl

@[simp]
theorem request_bind (asked : Request) (next : Reply asked → Program Reply Failure Other) :
    (request asked : Program Reply Failure (Reply asked)) >>= next = .ask asked next := by
  rfl

/-- What a program relies on, assumes of its accesses and guarantees. -/
structure Rules (Request : Type) (State : Type u) where
  /-- What the other parties do to the state between two accesses. -/
  rely : State → State → Prop
  /-- The accesses for which the program answers. -/
  assume : Request → State → Prop
  /-- What an access of the program does to the state. -/
  guarantee : Request → State → State → Prop
  refl : ∀ state, rely state state
  trans : ∀ {before middle after}, rely before middle → rely middle after → rely before after

variable (handler : (request : Request) → State → Reply request × State)
  (rules : Rules Request State)

/-- Every access which the program makes keeps its guarantee, whatever the other parties do in
between, and if it ends its value meets the postcondition. -/
def Safe (post : Value → State → Prop) (program : Program Reply Failure Value) (state : State) :
    Prop :=
  match program with
  | .done value => post value state
  | .fail _ => True
  | .ask request next =>
      ∀ later, rules.rely state later → rules.assume request later →
        rules.guarantee request later (handler request later).2 ∧
          (next (handler request later).1).Safe post (handler request later).2

variable {handler rules} {post : Value → State → Prop}

@[simp]
theorem safe_done :
    Safe handler rules post (.done value : Program Reply Failure Value) state ↔
      post value state := by
  rfl

@[simp]
theorem safe_pure :
    Safe handler rules post (pure value : Program Reply Failure Value) state ↔
      post value state := by
  rfl

@[simp]
theorem safe_fail {failure : Failure} :
    Safe handler rules post (.fail failure : Program Reply Failure Value) state := by
  trivial

theorem Safe.bind {first : Program Reply Failure Value} {next : Value → Program Reply Failure Other}
    {after : Other → State → Prop}
    (safe : Safe handler rules (fun value state => Safe handler rules after (next value) state)
      first state) : Safe handler rules after (first >>= next) state := by
  induction first generalizing state with
  | done value => exact safe
  | fail failure => trivial
  | ask asked rest ih =>
      intro later relied assumed
      obtain ⟨kept, safe⟩ := safe later relied assumed
      exact ⟨kept, ih _ safe⟩

theorem Safe.mono {weaker : Value → State → Prop} (safe : Safe handler rules post program state)
    (weaken : ∀ value state, post value state → weaker value state) :
    Safe handler rules weaker program state := by
  induction program generalizing state with
  | done value => exact weaken value state safe
  | fail failure => trivial
  | ask asked rest ih =>
      intro later relied assumed
      obtain ⟨kept, safe⟩ := safe later relied assumed
      exact ⟨kept, ih _ safe⟩

theorem Safe.rely {before after : State} (safe : Safe handler rules post program before)
    (relied : rules.rely before after) (stable : ∀ value, post value before → post value after) :
    Safe handler rules post program after := by
  cases program with
  | done value => exact stable value safe
  | fail failure => trivial
  | ask asked rest => exact fun later continued => safe later (rules.trans relied continued)

end Program
