import Mathlib

namespace TransitionSystem

/-!
# Labelled transition systems and their invariants

A system is given by its initial states and a labelled step relation.  The
invariant rule is the only induction over runs: a safety result about a
program is one lemma about its initial states and one about a single step.

Guarding restricts a system to the steps that meet a condition on the state
before the step and on the label, which is how conditional results about whole
runs are stated.
-/

/-- Initial states and labelled steps of one system. -/
structure System (State Label : Type*) where
  initial : State → Prop
  step : State → Label → State → Prop

variable {State Label : Type*}

namespace System

/-- States reached from an initial state by finitely many steps. -/
inductive Reachable (system : System State Label) : State → Prop where
  | initial {state : State} : system.initial state → Reachable system state
  | step {before after : State} (label : Label) : Reachable system before →
      system.step before label after → Reachable system after

/-- The same system, keeping only the steps that meet a guard. -/
def guarded (system : System State Label) (guard : State → Label → Prop) : System State Label where
  initial := system.initial
  step := fun before label after => guard before label ∧ system.step before label after

/-- A property of initial states kept by every step holds on every run. -/
@[elab_as_elim]
theorem Reachable.invariant {system : System State Label} {motive : State → Prop}
    (atStart : ∀ state, system.initial state → motive state)
    (kept : ∀ before label after, motive before → system.step before label after → motive after)
    {state : State} (reachable : system.Reachable state) : motive state := by
  induction reachable with
  | initial isInitial => exact atStart _ isInitial
  | step label _ edge ih => exact kept _ label _ ih edge

variable {guard : State → Label → Prop}

/-- Every run of a guarded system is a run of the system itself. -/
theorem Reachable.of_guarded {system : System State Label} {state : State}
    (reachable : (system.guarded guard).Reachable state) : system.Reachable state := by
  refine reachable.invariant ?_ ?_
  · intro start isInitial
    exact .initial isInitial
  · intro before label after before_reachable edge
    exact .step label before_reachable edge.2

/-- A run that meets a guard meets every weaker one. -/
theorem Reachable.weaken {system : System State Label} {other : State → Label → Prop}
    (weaker : ∀ state label, guard state label → other state label) {state : State}
    (reachable : (system.guarded guard).Reachable state) :
    (system.guarded other).Reachable state := by
  refine reachable.invariant ?_ ?_
  · intro start isInitial
    exact .initial isInitial
  · intro before label after before_reachable edge
    exact .step label before_reachable ⟨weaker before label edge.1, edge.2⟩

/-- A guard that all steps meet changes nothing. -/
theorem Reachable.to_guarded {system : System State Label}
    (always : ∀ state label, guard state label) {state : State}
    (reachable : system.Reachable state) : (system.guarded guard).Reachable state := by
  refine reachable.invariant ?_ ?_
  · intro start isInitial
    exact .initial isInitial
  · intro before label after before_reachable edge
    exact .step label before_reachable ⟨always before label, edge⟩

/-- The system of a function that takes the steps. -/
def ofStep (initial : State → Prop) (step : State → Label → Option State) : System State Label where
  initial := initial
  step := fun before label after => step before label = some after

end System

/-- Take some steps. -/
def after (step : State → Label → Option State) (state : State) :
    List Label → Option State
  | [] => some state
  | label :: rest => (step state label).bind (fun next => after step next rest)

variable {initial : State → Prop} {labels : List Label} {step : State → Label → Option State}

theorem System.Reachable.after {state next : State}
    (reachable : (System.ofStep initial step).Reachable state)
    (ran : TransitionSystem.after step state labels = some next) :
    (System.ofStep initial step).Reachable next := by
  induction labels generalizing state with
  | nil =>
    cases ran
    exact reachable
  | cons label rest ih =>
    obtain ⟨middle, stepped, continued⟩ := Option.bind_eq_some_iff.mp ran
    exact ih (.step label reachable stepped) continued

/-- Take some steps, as long as each of them meets a condition. -/
def afterUnder (step : State → Label → Option State) (guard : State → Label → Prop)
    [∀ state label, Decidable (guard state label)] (state : State) : List Label → Option State
  | [] => some state
  | label :: rest =>
    if guard state label then
      (step state label).bind (fun next => afterUnder step guard next rest)
    else
      none

/-- What such steps lead to is reached by a guarded run. -/
theorem System.Reachable.afterUnder {guard : State → Label → Prop}
    [∀ state label, Decidable (guard state label)] {state next : State}
    (reachable : ((System.ofStep initial step).guarded guard).Reachable state)
    (ran : TransitionSystem.afterUnder step guard state labels = some next) :
    ((System.ofStep initial step).guarded guard).Reachable next := by
  induction labels generalizing state with
  | nil =>
    cases ran
    exact reachable
  | cons label rest ih =>
    unfold TransitionSystem.afterUnder at ran
    split at ran
    · rename_i meets
      obtain ⟨middle, stepped, continued⟩ := Option.bind_eq_some_iff.mp ran
      exact ih (.step label reachable ⟨meets, stepped⟩) continued
    · cases ran

end TransitionSystem
