import Pisces.Transition

/-! # Freeing an enclave under its long-call thread

`pisces_enclave_free` tears the file and device state down before
`pisces_lcall_deinit` stops the thread whose handlers use them.
-/

namespace Pisces.Enclave.Teardown

open Transition

/-- Which state the handler of a long call uses. -/
inductive Kind where
  /-- `enclave_vfs_*`: `fs_state` -/
  | vfs
  /-- `enclave_pci_*`: `pci_state` -/
  | pci
  | other
  deriving DecidableEq

/-- `lcall_kern_thread`; `top`, `check` and `stopTest` are its tests of
`kthread_should_stop`. -/
inductive Thread where
  | top
  | wait
  | check
  | recv
  | stopTest (kind : Kind)
  | handling (kind : Kind)
  /-- The handler is past its last use of the state. -/
  | answering
  | exited
  /-- The enclave was not launched. -/
  | absent
  deriving DecidableEq

/-- How far `pisces_enclave_free` is. -/
inductive Free where
  | idle
  /-- Inside `deinit_enclave_fs`. -/
  | fs
  /-- Inside `deinit_enclave_pci`. -/
  | pci
  /-- Inside `kthread_stop`. -/
  | stopping
  | finished
  deriving DecidableEq

structure State where
  thread : Thread
  activeLcall : Bool
  /-- The message in the buffer, from its arrival to its completion. -/
  pending : Option Kind
  shouldStop : Bool
  free : Free
  /-- Uses of `fs_state` or `pci_state` by a handler after its tear-down began. -/
  misuses : Nat
  deriving DecidableEq

/-- Whether the state that a handler uses is being torn down, or is. -/
def Free.tornDown (free : Free) : Kind → Bool
  | .vfs => free ≠ .idle
  | .pci => free ≠ .idle && free ≠ .fs
  | .other => false

inductive Action where
  /-- A message arrives, and `lcall_handler` sets `active_lcall`. -/
  | arrive (kind : Kind)
  /-- The thread goes on. -/
  | thread
  /-- The handler uses the state of its kind. -/
  | use
  /-- The handler goes on behind its last use. -/
  | leave
  /-- The handler completes the call and returns. -/
  | complete
  | free
  deriving DecidableEq

def threadStep (state : State) : Option State :=
  match state.thread with
  | .top => some { state with thread := if state.shouldStop then .exited else .wait }
  | .wait => if state.activeLcall then some { state with thread := .check } else none
  | .check =>
      if state.shouldStop then some { state with thread := .exited }
      else some { state with thread := .recv, activeLcall := false }
  | .recv =>
      match state.pending with
      | some kind => some { state with thread := .stopTest kind }
      | none => some { state with thread := .exited }
  | .stopTest kind => some { state with thread := if state.shouldStop then .exited else .handling kind }
  | .handling _ | .answering => none
  | .exited | .absent => none

/-- The statements of `pisces_enclave_free` that matter here, in their order;
`kthread_stop` does not come back from a NULL pointer. -/
def freeStep (state : State) : Option State :=
  match state.free with
  | .idle => some { state with free := .fs }
  | .fs => some { state with free := .pci }
  | .pci => some { state with free := .stopping, shouldStop := true }
  | .stopping => if state.thread = .exited then some { state with free := .finished } else none
  | .finished => none

def step (state : State) : Action → Option State
  | .arrive kind =>
      if state.pending = none then some { state with pending := some kind, activeLcall := true } else none
  | .thread => threadStep state
  | .use =>
      match state.thread with
      | .handling kind =>
          some { state with misuses := state.misuses + if state.free.tornDown kind then 1 else 0 }
      | _ => none
  | .leave =>
      match state.thread with
      | .handling _ => some { state with thread := .answering }
      | _ => none
  | .complete =>
      match state.thread with
      | .handling _ | .answering => some { state with thread := .top, pending := none }
      | _ => none
  | .free => freeStep state

/-- Before FREE: an enclave with its thread, or one that was not launched. -/
def system : System State Action where
  initial state :=
    (state.thread = .top ∨ state.thread = .absent) ∧ state.activeLcall = false ∧ state.pending = none ∧
      state.shouldStop = false ∧ state.free = .idle ∧ state.misuses = 0
  step := step

def anyAction (_ : State) (_ : Action) : Prop :=
  True

/-- No handler is started whose state is being torn down, and no tear-down begins
while a handler still has a use of its state before it. -/
def Settled (state : State) : Action → Prop
  | .thread => ∀ kind, state.thread = .stopTest kind → state.shouldStop = false → state.free.tornDown kind = false
  | .free =>
      (state.free = .idle → state.thread ≠ .handling .vfs) ∧ (state.free = .fs → state.thread ≠ .handling .pci)
  | _ => True

def settled (state : State) : Action → Bool
  | .thread =>
      match state.thread with
      | .stopTest kind => state.shouldStop || !state.free.tornDown kind
      | _ => true
  | .free => (state.free ≠ .idle || state.thread ≠ .handling .vfs) && (state.free ≠ .fs || state.thread ≠ .handling .pci)
  | _ => true

theorem settled_sound {state : State} {action : Action} (checked : settled state action = true) :
    Settled state action := by
  cases action with
  | thread =>
      intro kind point running
      simpa [settled, point, running] using checked
  | free =>
      simp only [settled, Bool.and_eq_true, Bool.or_eq_true, decide_eq_true_eq] at checked
      exact ⟨fun idle => checked.1.resolve_left (absurd idle), fun fs => checked.2.resolve_left (absurd fs)⟩
  | arrive | use | leave | complete => trivial

structure Safe (state : State) : Prop where
  standing : ∀ kind, state.thread = .handling kind → state.free.tornDown kind = false
  misuses : state.misuses = 0

variable {state next : State}

/-- The thread comes to a handler behind its last test only. -/
theorem Safe.threadStep (safe : Safe state) (settled : Settled state .thread)
    (stepped : Teardown.threadStep state = some next) : Safe next := by
  unfold Teardown.threadStep at stepped
  cases thread : state.thread with
  | top =>
      simp only [thread, Option.some.injEq] at stepped
      subst stepped
      refine ⟨fun kind handling => ?_, safe.misuses⟩
      dsimp only at handling
      split at handling <;> cases handling
  | wait =>
      simp only [thread, Option.ite_none_right_eq_some, Option.some.injEq] at stepped
      obtain ⟨_, rfl⟩ := stepped
      exact ⟨by simp, safe.misuses⟩
  | check =>
      simp only [thread] at stepped
      split at stepped <;> cases stepped <;> exact ⟨by simp, safe.misuses⟩
  | recv =>
      simp only [thread] at stepped
      split at stepped <;> cases stepped <;> exact ⟨by simp, safe.misuses⟩
  | stopTest kind =>
      simp only [thread, Option.some.injEq] at stepped
      subst stepped
      refine ⟨fun handled handling => ?_, safe.misuses⟩
      dsimp only at handling
      split at handling
      · cases handling
      · rename_i running
        cases handling
        exact settled kind thread (Bool.eq_false_iff.mpr running)
  | handling kind => simp [thread] at stepped
  | answering => simp [thread] at stepped
  | exited => simp [thread] at stepped
  | absent => simp [thread] at stepped

/-- Every statement of the tear-down leaves the states of the handlers under way. -/
theorem Safe.freeStep (safe : Safe state) (settled : Settled state .free)
    (stepped : Teardown.freeStep state = some next) : Safe next := by
  have standing : ∀ free, (∀ kind, state.thread = .handling kind → state.free.tornDown kind = false →
      free.tornDown kind = false) → ∀ shouldStop, Safe { state with free := free, shouldStop := shouldStop } := by
    intro free kept shouldStop
    exact ⟨fun kind handling => kept kind handling (safe.standing kind handling), safe.misuses⟩
  unfold Teardown.freeStep at stepped
  cases free : state.free with
  | idle =>
      simp only [free] at stepped
      cases stepped
      apply standing
      intro kind handling _
      cases kind with
      | vfs => exact absurd handling (settled.1 free)
      | pci => rfl
      | other => rfl
  | fs =>
      simp only [free] at stepped
      cases stepped
      apply standing
      intro kind handling stands
      cases kind with
      | vfs => simp [free, Free.tornDown] at stands
      | pci => exact absurd handling (settled.2 free)
      | other => rfl
  | pci =>
      simp only [free] at stepped
      cases stepped
      apply standing
      intro kind _ stands
      cases kind with
      | vfs => simp [free, Free.tornDown] at stands
      | pci => simp [free, Free.tornDown] at stands
      | other => rfl
  | stopping =>
      simp only [free, Option.ite_none_right_eq_some, Option.some.injEq] at stepped
      obtain ⟨exited, rfl⟩ := stepped
      apply standing
      intro kind handling
      rw [exited] at handling
      cases handling
  | finished => simp [free] at stepped

theorem Safe.step (safe : Safe state) {action : Action} (settled : Settled state action)
    (stepped : Teardown.step state action = some next) : Safe next := by
  cases action with
  | arrive kind =>
      simp only [Teardown.step, Option.ite_none_right_eq_some, Option.some.injEq] at stepped
      obtain ⟨_, rfl⟩ := stepped
      exact ⟨safe.standing, safe.misuses⟩
  | thread => exact safe.threadStep settled stepped
  | use =>
      simp only [Teardown.step] at stepped
      split at stepped
      · rename_i kind thread
        have stands := safe.standing kind thread
        cases stepped
        exact ⟨safe.standing, by simp [stands, safe.misuses]⟩
      · cases stepped
  | leave =>
      cases thread : state.thread <;> simp only [Teardown.step, thread, reduceCtorEq] at stepped
      cases stepped
      exact ⟨by simp, safe.misuses⟩
  | complete =>
      cases thread : state.thread <;> simp only [Teardown.step, thread, reduceCtorEq] at stepped
      all_goals
        cases stepped
        exact ⟨by simp, safe.misuses⟩
  | free => exact safe.freeStep settled stepped

/-- If no handler is started once its state is torn down, and none still has a use
before it when that begins, no handler uses torn-down state. -/
theorem handlers_safe_of_settled (reached : system.Reachable Settled state) : state.misuses = 0 := by
  have safe : Safe state := by
    apply reached.invariant
    · rintro start ⟨thread, _, _, _, _, misuses⟩
      refine ⟨fun kind handling => ?_, misuses⟩
      rcases thread with thread | thread <;> simp [thread] at handling
    · intro state action next safe settled stepped
      exact safe.step settled stepped
  exact safe.misuses

/-- Nothing less will do: after a step that is not settled a handler can use what
is torn down. -/
theorem misuse_of_unsettled {action : Action} (unsettled : ¬ Settled state action)
    (stepped : Teardown.step state action = some next) :
    ∃ after, Teardown.step next .use = some after ∧ after.misuses = next.misuses + 1 := by
  cases action with
  | arrive | use | leave | complete => exact absurd trivial unsettled
  | thread =>
      simp only [Settled, not_forall, Bool.not_eq_false] at unsettled
      obtain ⟨kind, point, running, torn⟩ := unsettled
      simp only [Teardown.step, Teardown.threadStep, point, running, Option.some.injEq] at stepped
      subst stepped
      exact ⟨_, rfl, by simp [torn]⟩
  | free =>
      by_cases vfs : state.free = .idle ∧ state.thread = .handling .vfs
      · simp only [Teardown.step, Teardown.freeStep, vfs.1, Option.some.injEq] at stepped
        subst stepped
        simp only [Teardown.step, vfs.2]
        exact ⟨_, rfl, rfl⟩
      · have pci : state.free = .fs ∧ state.thread = .handling .pci := by
          by_contra other
          exact unsettled ⟨fun idle handling => vfs ⟨idle, handling⟩, fun fs handling => other ⟨fs, handling⟩⟩
        simp only [Teardown.step, Teardown.freeStep, pci.1, Option.some.injEq] at stepped
        subst stepped
        simp only [Teardown.step, pci.2]
        exact ⟨_, rfl, rfl⟩

/-- An enclave with a waiting thread. -/
def launched : State where
  thread := .top
  activeLcall := false
  pending := none
  shouldStop := false
  free := .idle
  misuses := 0

theorem handlers_safe_freed :
    ∃ state, system.Reachable Settled state ∧ state.free = .stopping ∧ state.misuses = 0 := by
  -- a call is past its last use when the files go, and another one arrives after the stop
  have executed : system.run settled launched
      [.thread, .arrive .vfs, .thread, .thread, .thread, .thread, .use, .leave, .free, .free, .complete, .free,
        .arrive .vfs] = some ⟨.top, true, some .vfs, true, .stopping, 0⟩ := by decide
  have reached : system.Reachable Settled ⟨.top, true, some .vfs, true, .stopping, 0⟩ :=
    ⟨launched, ⟨.inl rfl, rfl, rfl, rfl, rfl, rfl⟩, System.run_path settled_sound executed⟩
  exact ⟨_, reached, rfl, handlers_safe_of_settled reached⟩

/-- A file call that arrives while the files are being closed is still served. -/
theorem handler_uses_torn_down :
    ∃ state, system.Reachable anyAction state ∧ state.thread = .handling .vfs ∧ state.misuses = 1 := by
  have executed : system.run (fun _ _ => true) launched
      [.thread, .free, .arrive .vfs, .thread, .thread, .thread, .thread, .use] =
        some ⟨.handling .vfs, false, some .vfs, false, .fs, 1⟩ := by decide
  exact ⟨_, ⟨launched, ⟨.inl rfl, rfl, rfl, rfl, rfl, rfl⟩, System.run_path (fun _ => trivial) executed⟩, rfl, rfl⟩

end Pisces.Enclave.Teardown
