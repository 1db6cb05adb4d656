import PacketGraph.Lib.Effects

namespace Effects

/-!
# Two programs in lockstep

Two programs run in lockstep when from related states both return the same
value or both stop for the same reason, in related states again.  Steps that
one of them makes alone have to return.
-/

variable {Reason State Other Value Next : Type}

/-- Both runs returned one value, or both stopped for one reason. -/
def EndAlike (post : Value → State → Other → Prop) (stop : State → Other → Prop) :
    EStateM.Result Reason State Value →
    EStateM.Result Reason Other Value → Prop
  | .ok value after, .ok value' after' => value = value' ∧ post value after after'
  | .error reason after, .error reason' after' => reason = reason' ∧ stop after after'
  | _, _ => False

/--
From states related by `pre` both programs return one value so that `post`
holds, or both stop for one reason so that `stop` holds.
-/
def Lockstep (pre : State → Other → Prop) (program : EStateM Reason State Value)
    (other : EStateM Reason Other Value) (post : Value → State → Other → Prop)
    (stop : State → Other → Prop) : Prop :=
  ∀ state twin, pre state twin → EndAlike post stop (program state) (other twin)

section Rules

variable {pre : State → Other → Prop} {post : Value → State → Other → Prop}
  {last : Next → State → Other → Prop} {stop : State → Other → Prop}

variable {program : EStateM Reason State Value} {other : EStateM Reason Other Value}

/-- Fix the states that two programs are run from. -/
theorem Lockstep.of_start
    (lockstep : ∀ start start', pre start start' → Lockstep (fun state twin => state = start ∧ twin
        = start') program other post stop) : Lockstep pre program other post stop :=
  fun state twin start => lockstep state twin start state twin ⟨rfl, rfl⟩

variable {start' : Other}

theorem Lockstep.startingAt {start : State}
    (lockstep : Lockstep pre program other post stop) (holds : pre start start') :
    Lockstep (fun state twin => state = start ∧ twin = start') program other post stop := by
  rintro state twin ⟨rfl, rfl⟩
  exact lockstep state twin holds

variable {value : Value}

theorem Lockstep.pure (holds : ∀ state twin, pre state twin → post value state twin) :
    Lockstep pre (pure value : EStateM Reason State Value)
      (pure value : EStateM Reason Other Value) post stop :=
  fun state twin start => ⟨rfl, holds state twin start⟩

theorem Lockstep.throw {reason : Reason} (holds : ∀ state twin, pre state twin → stop state twin) :
    Lockstep pre (throw reason : EStateM Reason State Value)
      (throw reason : EStateM Reason Other Value) post stop :=
  fun state twin start => ⟨rfl, holds state twin start⟩

theorem Lockstep.modify
    {change : State → State} {change' : Other → Other} {done : PUnit → State → Other → Prop}
    (holds : ∀ state twin, pre state twin → done ⟨⟩ (change state) (change' twin)) :
    Lockstep pre (modify change : EStateM Reason State PUnit)
      (modify change' : EStateM Reason Other PUnit) done stop :=
  fun state twin start => ⟨rfl, holds state twin start⟩

variable {rest : Value → EStateM Reason State Next}

/-- One pair of programs after the other. -/
theorem Lockstep.bind {rest' : Value → EStateM Reason Other Next}
    (first : Lockstep pre program other post stop)
    (later : ∀ value, Lockstep (post value) (rest value) (rest' value) last stop) :
    Lockstep pre (program >>= rest) (other >>= rest') last stop := by
  intro state twin start
  have holds := first state twin start
  cases run : program state with
  | ok value after =>
    cases run' : other twin with
    | ok value' after' =>
      rw [run, run'] at holds
      obtain ⟨rfl, holds⟩ := holds
      rw [bind_of_ok run, bind_of_ok run']
      exact later value after after' holds
    | error reason' after' =>
      rw [run, run'] at holds
      exact absurd holds id
  | error reason after =>
    cases run' : other twin with
    | ok value' after' =>
      rw [run, run'] at holds
      exact absurd holds id
    | error reason' after' =>
      rw [run, run'] at holds
      rw [bind_of_error run, bind_of_error run']
      exact holds

/-- Both programs read their state. -/
theorem Lockstep.read
    {rest : State → EStateM Reason State Value} {rest' : Other → EStateM Reason Other Value}
    (later : ∀ seen seen', pre seen seen' → Lockstep (fun state twin => state = seen ∧ twin = seen')
        (rest seen) (rest' seen') post stop) :
    Lockstep pre (get >>= rest) (get >>= rest') post stop :=
  fun state twin start => later state twin start state twin ⟨rfl, rfl⟩

/-- A step that the first program makes alone. -/
theorem Lockstep.alone {start after : State} {other : EStateM Reason Other Next}
    (ran : program start = .ok value after)
    (later : Lockstep (fun state twin => state = after ∧ twin = start') (rest value) other last
        stop) :
    Lockstep (fun state twin => state = start ∧ twin = start')
      (program >>= rest) other last stop := by
  rintro state twin ⟨rfl, rfl⟩
  rw [bind_of_ok ran]
  exact later after twin ⟨rfl, rfl⟩

end Rules

end Effects
