import Mathlib

namespace Effects

/-!
# Programs that may stop

Programs over a state that either return a value or stop with a reason, both
with the state they leave.  A specification says which states a program may be
run from and what holds when it returns and when it stops.
-/

variable {Reason State Value Next : Type}

/--
Run from a state that meets `pre`, the program returns so that `post` holds or
stops so that `stop` holds.
-/
def Spec (pre : State → Prop) (program : EStateM Reason State Value) (post : Value → State → Prop)
    (stop : Reason → State → Prop) : Prop :=
  ∀ state, pre state → match program state with
    | .ok value after => post value after
    | .error reason after => stop reason after

section Rules

variable {pre : State → Prop} {post : Value → State → Prop} {stop : Reason → State → Prop}

variable {value : Value} {program : EStateM Reason State Value}

/-- The value returned by a run that meets a specification. -/
theorem Spec.returned (spec : Spec pre program post stop) {state after : State} (start : pre state)
    (run : program state = .ok value after) : post value after := by
  have holds := spec state start
  rw [run] at holds
  exact holds

variable {reason : Reason}

/-- The reason of a stopped run that meets a specification. -/
theorem Spec.stopped (spec : Spec pre program post stop) {state after : State} (start : pre state)
    (run : program state = .error reason after) : stop reason after := by
  have holds := spec state start
  rw [run] at holds
  exact holds

variable {weakPost : Value → State → Prop}

/-- Strengthen what is assumed and weaken what is promised. -/
theorem Spec.weaken {strongPre : State → Prop} {weakStop : Reason → State → Prop}
    (spec : Spec pre program post stop) (before : ∀ state, strongPre state → pre state)
    (after : ∀ value state, post value state → weakPost value state)
    (stopping : ∀ reason state, stop reason state → weakStop reason state) :
    Spec strongPre program weakPost weakStop := by
  intro state start
  have holds := spec state (before state start)
  cases run : program state with
  | ok value left =>
    rw [run] at holds
    exact after value left holds
  | error reason left =>
    rw [run] at holds
    exact stopping reason left holds

/-- Weaken what is promised of a program that returns. -/
theorem Spec.ending (spec : Spec pre program post stop)
    (after : ∀ value state, post value state → weakPost value state) :
    Spec pre program weakPost stop :=
  spec.weaken (fun _ start => start) after (fun _ _ stopped => stopped)

/-- Promise nothing of a program that stops. -/
theorem Spec.ifReturned (spec : Spec pre program post stop) :
    Spec pre program post (fun _ _ => True) :=
  spec.weaken (fun _ start => start) (fun _ _ after => after) (fun _ _ _ => trivial)

variable {otherPost : Value → State → Prop}

/-- Two specifications of one program, together. -/
theorem Spec.and {otherStop : Reason → State → Prop}
    (first : Spec pre program post stop) (second : Spec pre program otherPost otherStop) :
    Spec pre program (fun value state => post value state ∧ otherPost value state)
      (fun reason state => stop reason state ∧ otherStop reason state) := by
  intro state start
  have holds := first state start
  have others := second state start
  cases run : program state with
  | ok value after | error reason after =>
    rw [run] at holds others
    exact ⟨holds, others⟩

/-- A run from one state that meets what is assumed. -/
theorem Spec.startingAt (spec : Spec pre program post stop)
    {start : State} (holds : pre start) : Spec (fun state => state = start) program post stop :=
  fun _ same => spec _ (same ▸ holds)

/-- Fix the state that a program is run from. -/
theorem Spec.of_start
    (spec : ∀ start, pre start → Spec (fun state => state = start) program post stop) :
    Spec pre program post stop :=
  fun state holds => spec state holds state rfl

/-- However it ends, a program ends. -/
theorem Spec.anyhow : Spec pre program (fun _ _ => True) (fun _ _ => True) := by
  intro state _
  cases program state with
  | ok value after | error reason after => trivial

/-- Returning a value. -/
theorem Spec.pure (holds : ∀ state, pre state → post value state) :
    Spec pre (pure value : EStateM Reason State Value) post stop :=
  holds

/-- One program after the other. -/
theorem Spec.bind {rest : Value → EStateM Reason State Next} {middle : Value → State → Prop}
    {last : Next → State → Prop} (first : Spec pre program middle stop)
    (later : ∀ value, Spec (middle value) (rest value) last stop) :
    Spec pre (program >>= rest) last stop := by
  intro state start
  have holds := first state start
  show match EStateM.bind program rest state with
    | .ok value after => last value after
    | .error reason after => stop reason after
  unfold EStateM.bind
  cases run : program state with
  | ok value after =>
    rw [run] at holds
    exact later value after holds
  | error reason after =>
    rw [run] at holds
    exact holds

/-- Stopping. -/
theorem Spec.throw (holds : ∀ state, pre state → stop reason state) :
    Spec pre (throw reason : EStateM Reason State Value) post stop :=
  holds

/-- What follows a read starts in the state that was read. -/
theorem Spec.read {rest : State → EStateM Reason State Value}
    (later : ∀ seen, pre seen → Spec (fun state => state = seen) (rest seen) post stop) :
    Spec pre (MonadState.get >>= rest) post stop :=
  fun state start => later state start state rfl

/-- Changing the state. -/
theorem Spec.modify {change : State → State} {done : PUnit → State → Prop}
    (holds : ∀ state, pre state → done ⟨⟩ (change state)) :
    Spec pre (modify change : EStateM Reason State PUnit) done stop :=
  fun state start => holds state start

/-- Catching what stops a program. -/
theorem Spec.tryCatch {handler : Reason → EStateM Reason State Value}
    {caught : Reason → State → Prop} (body : Spec pre program post caught)
    (handled : ∀ reason, Spec (caught reason) (handler reason) post stop) :
    Spec pre (tryCatch program handler) post stop := by
  intro state start
  have holds := body state start
  show match EStateM.tryCatch program handler state with
    | .ok value after => post value after
    | .error reason after => stop reason after
  unfold EStateM.tryCatch
  cases run : program state with
  | ok value after =>
    rw [run] at holds
    exact holds
  | error reason after =>
    rw [run] at holds
    exact handled reason after holds

end Rules

variable {value : Value} {program : EStateM Reason State Value}

/-- What follows a program that returned. -/
theorem bind_of_ok {state after : State} (ran : program state = .ok value after)
    (rest : Value → EStateM Reason State Next) : (program >>= rest) state = rest value after := by
  show EStateM.bind program rest state = rest value after
  unfold EStateM.bind
  rw [ran]

theorem bind_of_error {state after : State} {reason : Reason}
    (ran : program state = .error reason after) (rest : Value → EStateM Reason State Next) :
    (program >>= rest) state = .error reason after := by
  show EStateM.bind program rest state = .error reason after
  unfold EStateM.bind
  rw [ran]

/-- What follows a reading of the state. -/
theorem bind_get (rest : State → EStateM Reason State Next) (state : State) :
    (get >>= rest) state = rest state state :=
  rfl

/-- A specification of what follows a program that returned. -/
theorem Spec.after_ok {start after : State}
    {rest : Value → EStateM Reason State Next} {post : Next → State → Prop}
    {stop : Reason → State → Prop} (ran : program start = .ok value after)
    (later : Spec (fun state => state = after) (rest value) post stop) :
    Spec (fun state => state = start) (program >>= rest) post stop := by
  rintro state rfl
  rw [bind_of_ok ran]
  exact later after rfl

/-- The value of a run that returned. -/
def returnedValue : EStateM.Result Reason State Value → Option Value
  | .ok value _ => some value
  | .error _ _ => none

/-- The state that a run leaves, whether it returned or stopped. -/
def finalState : EStateM.Result Reason State Value → State
  | .ok _ state => state
  | .error _ state => state

/--
A program that returns leaves a property as it was.  Where it stops, `stop`
holds.
-/
def Keeps (property : State → Prop) (stop : Reason → State → Prop)
    (program : EStateM Reason State Value) : Prop :=
  Spec property program (fun _ => property) stop

/-- However it ends, a program leaves a property as it was. -/
abbrev KeepsAlways (property : State → Prop) (program : EStateM Reason State Value) : Prop :=
  Keeps property (fun _ => property) program

section Invariants

variable {property : State → Prop} {stop : Reason → State → Prop}

theorem Keeps.pure (value : Value) :
    Keeps property stop (pure value : EStateM Reason State Value) :=
  Spec.pure (fun _ holds => holds)

theorem Keeps.throw {reason : Reason} (stopping : ∀ state, property state → stop reason state) :
    Keeps property stop (throw reason : EStateM Reason State Value) :=
  Spec.throw stopping

theorem Keeps.modify {change : State → State}
    (kept : ∀ state, property state → property (change state)) :
    Keeps property stop (modify change : EStateM Reason State PUnit) :=
  Spec.modify kept

variable {program : EStateM Reason State Value}

theorem Keeps.bind {rest : Value → EStateM Reason State Next} (first : Keeps property stop program)
    (later : ∀ value, Keeps property stop (rest value)) : Keeps property stop (program >>= rest) :=
  Spec.bind first later

/-- The program that follows a read may use that the property holds there. -/
theorem Keeps.read {rest : State → EStateM Reason State Next}
    (later : ∀ seen, property seen → Keeps property stop (rest seen)) :
    Keeps property stop (get >>= rest) :=
  fun state holds => later state holds state holds

variable {handler : Reason → EStateM Reason State Value}

theorem Keeps.tryCatch {caught : Reason → State → Prop} (body : Keeps property caught program)
    (handled : ∀ reason, Spec (caught reason) (handler reason) (fun _ => property) stop) :
    Keeps property stop (tryCatch program handler) :=
  Spec.tryCatch body handled

theorem KeepsAlways.tryCatch (body : KeepsAlways property program)
    (handled : ∀ reason, KeepsAlways property (handler reason)) :
    KeepsAlways property (tryCatch program handler) :=
  Keeps.tryCatch body handled

variable {pre : State → Prop}

/-- A specification of a program that always keeps a property besides. -/
theorem Spec.keeping {post : Value → State → Prop}
    (spec : Spec pre program post (fun _ _ => True)) (kept : KeepsAlways property program) :
    Spec (fun state => pre state ∧ property state) program
      (fun value state => post value state ∧ property state)
      (fun _ => property) := by
  have both :=
    (spec.weaken (fun _ (start : _ ∧ property _) => start.1)
      (fun _ _ after => after) (fun _ _ stopped => stopped)).and
      (kept.weaken (fun _ start => start.2) (fun _ _ after => after) (fun _ _ stopped => stopped))
  exact both.weaken (fun _ start => start) (fun _ _ after => after) (fun _ _ stopped => stopped.2)

/-- What holds however a program ends holds of the state it leaves. -/
theorem Spec.finalState (spec : Spec pre program (fun _ => property) (fun _ => property))
    {state : State} (start : pre state) : property (finalState (program state)) := by
  have after := spec state start
  cases run : program state with
  | ok value left | error reason left =>
    rw [run] at after
    exact after

/-- A property that a program always keeps holds of the state it leaves. -/
theorem KeepsAlways.finalState (kept : KeepsAlways property program) {state : State}
    (holds : property state) : property (finalState (program state)) :=
  Spec.finalState kept holds

end Invariants

end Effects
