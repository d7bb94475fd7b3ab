import Mathlib.Data.List.Basic

/-! # Jobs that can stop

A job runs over a state, leaves a list of events and either answers or stops.
What holds of every event of a sequence of jobs is decided job by job.
-/

namespace Pisces

structure Outcome (Event State Stop Answer : Type*) where
  events : List Event
  state : State
  answer : Except Stop Answer

def Job (Event State Stop Answer : Type*) := State → Outcome Event State Stop Answer

namespace Job

variable {Event State Stop : Type*} {First Second : Type}

def pure (answer : First) : Job Event State Stop First := fun state => ⟨[], state, .ok answer⟩

def bind (job : Job Event State Stop First) (next : First → Job Event State Stop Second) :
    Job Event State Stop Second := fun state =>
  match (job state).answer with
  | .ok answer =>
      { next answer (job state).state with
        events := (job state).events ++ (next answer (job state).state).events }
  | .error stop => ⟨(job state).events, (job state).state, .error stop⟩

instance : Monad (Job Event State Stop) where
  pure := Job.pure
  bind := Job.bind

def stop (reason : Stop) : Job Event State Stop First := fun state => ⟨[], state, .error reason⟩

/-- One event and what it does to the state. -/
def emit (event : Event) (update : State → State) : Job Event State Stop Unit :=
  fun state => ⟨[event], update state, .ok ()⟩

def read (view : State → First) : Job Event State Stop First :=
  fun state => ⟨[], state, .ok (view state)⟩

/-- A change to the state that leaves no event. -/
def update (change : State → State) : Job Event State Stop Unit :=
  fun state => ⟨[], change state, .ok ()⟩

/-- Goes on only when `holds`. -/
def require (holds : Prop) [Decidable holds] (reason : Stop) : Job Event State Stop Unit :=
  if holds then Job.pure () else stop reason

/-- Every event of the job, started in `state`, satisfies `good`. -/
def Emits (good : Event → Prop) (job : Job Event State Stop First) (state : State) : Prop :=
  ∀ event ∈ (job state).events, good event

def Answers (job : Job Event State Stop First) (state : State) (answer : First) : Prop :=
  (job state).answer = .ok answer

/-- The job leaves the state as it finds it. -/
def Keeps (job : Job Event State Stop First) : Prop :=
  ∀ state, (job state).state = state

section Rules

variable (good : Event → Prop) (state : State)

@[simp] theorem emits_pure (answer : First) :
    Emits good (Pure.pure answer : Job Event State Stop First) state ↔ True := by
  simp [Emits, Pure.pure, Job.pure]

@[simp] theorem emits_stop (reason : Stop) :
    Emits good (stop reason : Job Event State Stop First) state ↔ True := by
  simp [Emits, stop]

@[simp] theorem emits_emit (event : Event) (update : State → State) :
    Emits good (emit event update : Job Event State Stop Unit) state ↔ good event := by
  simp [Emits, emit]

@[simp] theorem emits_read (view : State → First) :
    Emits good (read view : Job Event State Stop First) state ↔ True := by
  simp [Emits, read]

@[simp] theorem emits_require (holds : Prop) [Decidable holds] (reason : Stop) :
    Emits good (require holds reason : Job Event State Stop Unit) state ↔ True := by
  by_cases given : holds <;> simp [Emits, require, given, Job.pure, stop]

theorem emits_bind (job : Job Event State Stop First)
    (next : First → Job Event State Stop Second) :
    Emits good (job >>= next) state ↔
      Emits good job state ∧
        ∀ answer, Answers job state answer → Emits good (next answer) (job state).state := by
  simp only [Emits, Answers, Bind.bind, Job.bind]
  cases given : (job state).answer with
  | error reason => simp
  | ok answer => simp [or_imp, forall_and]

@[simp] theorem answers_pure (answer expected : First) :
    Answers (Pure.pure answer : Job Event State Stop First) state expected ↔ answer = expected := by
  simp [Answers, Pure.pure, Job.pure]

@[simp] theorem answers_stop (reason : Stop) (expected : First) :
    Answers (stop reason : Job Event State Stop First) state expected ↔ False := by
  simp [Answers, stop]

@[simp] theorem answers_emit (event : Event) (update : State → State) (expected : Unit) :
    Answers (emit event update : Job Event State Stop Unit) state expected ↔ True := by
  simp [Answers, emit]

@[simp] theorem answers_read (view : State → First) (expected : First) :
    Answers (read view : Job Event State Stop First) state expected ↔ view state = expected := by
  simp [Answers, read]

@[simp] theorem answers_require (holds : Prop) [Decidable holds] (reason : Stop) (expected : Unit) :
    Answers (require holds reason : Job Event State Stop Unit) state expected ↔ holds := by
  by_cases given : holds <;> simp [Answers, require, given, Job.pure, stop]

theorem answers_bind (job : Job Event State Stop First)
    (next : First → Job Event State Stop Second) (expected : Second) :
    Answers (job >>= next) state expected ↔
      ∃ answer, Answers job state answer ∧ Answers (next answer) (job state).state expected := by
  simp only [Answers, Bind.bind, Job.bind]
  cases given : (job state).answer with
  | error reason => simp
  | ok answer => simp

@[simp] theorem state_pure (answer : First) :
    ((Pure.pure answer : Job Event State Stop First) state).state = state := rfl

@[simp] theorem state_stop (reason : Stop) :
    ((stop reason : Job Event State Stop First) state).state = state := rfl

@[simp] theorem state_emit (event : Event) (update : State → State) :
    ((emit event update : Job Event State Stop Unit) state).state = update state := rfl

@[simp] theorem state_read (view : State → First) :
    ((read view : Job Event State Stop First) state).state = state := rfl

@[simp] theorem state_require (holds : Prop) [Decidable holds] (reason : Stop) :
    ((require holds reason : Job Event State Stop Unit) state).state = state := by
  by_cases given : holds <;> simp [require, given, Job.pure, stop]

theorem emits_read_bind (view : State → First) (next : First → Job Event State Stop Second) :
    Emits good (read view >>= next) state ↔ Emits good (next (view state)) state := by
  simp [emits_bind]

theorem answers_read_bind (view : State → First) (next : First → Job Event State Stop Second)
    (expected : Second) :
    Answers (read view >>= next) state expected ↔ Answers (next (view state)) state expected := by
  simp [answers_bind]

theorem state_read_bind (view : State → First) (next : First → Job Event State Stop Second) :
    ((read view >>= next) state).state = (next (view state) state).state := rfl

theorem emits_then (job : Job Event State Stop Unit) (next : Job Event State Stop Second) :
    Emits good (job >>= fun _ => next) state ↔
      Emits good job state ∧ (Answers job state () → Emits good next (job state).state) := by
  rw [emits_bind]
  exact and_congr_right fun _ => ⟨fun rest => rest (), fun rest _ => rest⟩

theorem answers_then (job : Job Event State Stop Unit) (next : Job Event State Stop Second)
    (expected : Second) :
    Answers (job >>= fun _ => next) state expected ↔
      Answers job state () ∧ Answers next (job state).state expected := by
  rw [answers_bind]
  exact ⟨fun ⟨_, rest⟩ => rest, fun rest => ⟨(), rest⟩⟩

theorem state_bind {state : State} {answer : First} (job : Job Event State Stop First)
    (next : First → Job Event State Stop Second) (answered : Answers job state answer) :
    ((job >>= next) state).state = (next answer (job state).state).state := by
  have given : (job state).answer = .ok answer := answered
  simp only [Bind.bind, Job.bind, given]

theorem state_then {state : State} (job : Job Event State Stop Unit) (next : Job Event State Stop Second)
    (answered : Answers job state ()) :
    ((job >>= fun _ => next) state).state = (next (job state).state).state :=
  state_bind job _ answered

end Rules

theorem bind_ok {job : Job Event State Stop First} {next : First → Job Event State Stop Second}
    {state after : State} {events : List Event} {answer : First} (ran : job state = ⟨events, after, .ok answer⟩) :
    (job >>= next) state = { next answer after with events := events ++ (next answer after).events } := by
  simp only [Bind.bind, Job.bind, ran]

theorem bind_error {job : Job Event State Stop First} {next : First → Job Event State Stop Second}
    {state after : State} {events : List Event} {reason : Stop} (ran : job state = ⟨events, after, .error reason⟩) :
    (job >>= next) state = ⟨events, after, .error reason⟩ := by
  simp only [Bind.bind, Job.bind, ran]

theorem keeps_pure (answer : First) : Keeps (Pure.pure answer : Job Event State Stop First) :=
  fun _ => rfl

theorem keeps_read (view : State → First) : Keeps (read view : Job Event State Stop First) :=
  fun _ => rfl

theorem keeps_emit (event : Event) : Keeps (emit event id : Job Event State Stop Unit) :=
  fun _ => rfl

theorem keeps_require (holds : Prop) [Decidable holds] (reason : Stop) :
    Keeps (require holds reason : Job Event State Stop Unit) :=
  fun state => state_require state holds reason

theorem keeps_bind {job : Job Event State Stop First} {next : First → Job Event State Stop Second}
    (first : Keeps job) (rest : ∀ answer, Keeps (next answer)) : Keeps (job >>= next) := by
  intro state
  simp only [Bind.bind, Job.bind]
  cases given : (job state).answer with
  | error reason => exact first state
  | ok answer =>
      calc (next answer (job state).state).state
        _ = (job state).state := rest answer _
        _ = state := first state

/-- What the job answers, its events and the view it leaves depend on the view
of the state only. -/
def Respects {View : Type*} (view : State → View) (job : Job Event State Stop First) : Prop :=
  ∀ state other, view other = view state → (job other).answer = (job state).answer ∧
    (job other).events = (job state).events ∧ view (job other).state = view (job state).state

section Respects

variable {View : Type*} {view : State → View}

theorem respects_pure (answer : First) : Respects view (Pure.pure answer : Job Event State Stop First) :=
  fun _ _ same => ⟨rfl, rfl, same⟩

theorem respects_stop (reason : Stop) : Respects view (stop reason : Job Event State Stop First) :=
  fun _ _ same => ⟨rfl, rfl, same⟩

theorem respects_emit {event : Event} {change : State → State}
    (kept : ∀ state other, view other = view state → view (change other) = view (change state)) :
    Respects view (emit event change : Job Event State Stop Unit) :=
  fun _ _ same => ⟨rfl, rfl, kept _ _ same⟩

theorem respects_update {change : State → State}
    (kept : ∀ state other, view other = view state → view (change other) = view (change state)) :
    Respects view (update change : Job Event State Stop Unit) :=
  fun _ _ same => ⟨rfl, rfl, kept _ _ same⟩

theorem respects_read {part : State → First}
    (seen : ∀ state other, view other = view state → part other = part state) :
    Respects view (read part : Job Event State Stop First) :=
  fun _ _ same => ⟨congrArg Except.ok (seen _ _ same), rfl, same⟩

theorem respects_bind {job : Job Event State Stop First} {next : First → Job Event State Stop Second}
    (first : Respects view job) (rest : ∀ answer, Respects view (next answer)) : Respects view (job >>= next) := by
  intro state other same
  obtain ⟨answer, events, left⟩ := first _ _ same
  simp only [Bind.bind, Job.bind, answer]
  cases (job state).answer with
  | error reason => exact ⟨rfl, events, left⟩
  | ok found =>
      obtain ⟨answers, later, leaves⟩ := rest found _ _ left
      exact ⟨answers, congrArg₂ List.append events later, leaves⟩

end Respects

end Job

end Pisces
