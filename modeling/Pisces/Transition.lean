import Mathlib.Logic.Function.Basic

/-! # Labelled transition systems

A system is a partial step function: the label names who moves and resolves
every choice left to the environment.  Runs are restricted by a condition on
the state before each step, so that an assumption about the environment and a
condition under which a program is correct are both predicates on steps.
-/

namespace Transition

variable {State Label Other OtherLabel : Type*}

structure System (State Label : Type*) where
  initial : State → Prop
  step : State → Label → Option State

namespace System

variable (system : System State Label) {allowed stricter : State → Label → Prop}
  {before middle after : State}

/-- Finite runs all of whose steps meet `allowed`. -/
inductive Path (allowed : State → Label → Prop) (before : State) : State → Prop where
  | refl : Path allowed before before
  | snoc {middle after : State} {label : Label}
      (path : Path allowed before middle) (permitted : allowed middle label)
      (stepped : system.step middle label = some after) : Path allowed before after

def Reachable (allowed : State → Label → Prop) (state : State) : Prop :=
  ∃ start, system.initial start ∧ system.Path allowed start state

variable {system}

theorem Path.single {label : Label} (permitted : allowed before label)
    (stepped : system.step before label = some after) : system.Path allowed before after :=
  .snoc .refl permitted stepped

theorem Path.trans (left : system.Path allowed before middle)
    (right : system.Path allowed middle after) : system.Path allowed before after := by
  induction right with
  | refl => exact left
  | snoc _ permitted stepped ih => exact .snoc ih permitted stepped

theorem Path.mono (weaker : ∀ state label, stricter state label → allowed state label)
    (path : system.Path stricter before after) : system.Path allowed before after := by
  induction path with
  | refl => exact .refl
  | snoc _ permitted stepped ih => exact .snoc ih (weaker _ _ permitted) stepped

theorem Path.head {label : Label} (permitted : allowed before label)
    (stepped : system.step before label = some middle)
    (rest : system.Path allowed middle after) : system.Path allowed before after :=
  (Path.single permitted stepped).trans rest

theorem Path.invariant {invariant : State → Prop} (path : system.Path allowed before after)
    (start : invariant before)
    (preserved : ∀ {state label next}, invariant state → allowed state label →
      system.step state label = some next → invariant next) : invariant after := by
  induction path with
  | refl => exact start
  | snoc _ permitted stepped ih => exact preserved ih permitted stepped

theorem Reachable.extend (reached : system.Reachable allowed before)
    (path : system.Path allowed before after) : system.Reachable allowed after := by
  obtain ⟨start, initial, earlier⟩ := reached
  exact ⟨start, initial, earlier.trans path⟩

/-- What holds initially and is kept by every allowed step holds in every
reachable state. -/
theorem Reachable.invariant {invariant : State → Prop}
    (reached : system.Reachable allowed after)
    (start : ∀ {state}, system.initial state → invariant state)
    (preserved : ∀ {state label next}, invariant state → allowed state label →
      system.step state label = some next → invariant next) : invariant after := by
  obtain ⟨_, initial, path⟩ := reached
  exact path.invariant (start initial) preserved

/-- Executes a schedule as long as its steps pass `check`. -/
def run (system : System State Label) (check : State → Label → Bool) : State → List Label → Option State
  | state, [] => some state
  | state, label :: rest =>
      if check state label then
        match system.step state label with
        | none => none
        | some next => system.run check next rest
      else none

theorem run_path {check : State → Label → Bool} {schedule : List Label}
    (sound : ∀ {state label}, check state label = true → allowed state label)
    (executed : system.run check before schedule = some after) : system.Path allowed before after := by
  induction schedule generalizing before with
  | nil => cases executed; exact .refl
  | cons label rest ih =>
      simp only [run] at executed
      split at executed
      · rename_i checked
        cases stepped : system.step before label with
        | none => simp [stepped] at executed
        | some next =>
            simp only [stepped] at executed
            exact .head (sound checked) stepped (ih executed)
      · cases executed

/-- Every step of one system is matched by a run of another on the projected
states, so the other's invariants hold of the projection. -/
theorem Path.project {other : System Other OtherLabel} {otherAllowed : Other → OtherLabel → Prop}
    (invariant : State → Prop) (project : State → Other)
    (path : system.Path allowed before after) (start : invariant before)
    (matched : ∀ {state label next}, invariant state → allowed state label →
      system.step state label = some next →
      invariant next ∧ other.Path otherAllowed (project state) (project next)) :
    invariant after ∧ other.Path otherAllowed (project before) (project after) := by
  induction path with
  | refl => exact ⟨start, .refl⟩
  | snoc _ permitted stepped ih =>
      obtain ⟨kept, next⟩ := matched ih.1 permitted stepped
      exact ⟨kept, ih.2.trans next⟩

/-- The other direction: a run of another system is matched from a state that
projects to its start. -/
theorem Path.lift {other : System Other OtherLabel} {otherAllowed : Other → OtherLabel → Prop}
    {invariant : State → Prop} {target : Other} (project : State → Other)
    (path : other.Path otherAllowed (project before) target) (start : invariant before)
    (matched : ∀ {state label next}, invariant state → otherAllowed (project state) label →
      other.step (project state) label = some next →
      ∃ after, system.Path allowed state after ∧ project after = next ∧ invariant after) :
    ∃ after, system.Path allowed before after ∧ project after = target ∧ invariant after := by
  induction path with
  | refl => exact ⟨before, .refl, rfl, start⟩
  | snoc _ permitted stepped ih =>
      obtain ⟨middle, first, rfl, kept⟩ := ih
      obtain ⟨after, second, projected, reached⟩ := matched kept permitted stepped
      exact ⟨after, first.trans second, projected, reached⟩

end System

end Transition
