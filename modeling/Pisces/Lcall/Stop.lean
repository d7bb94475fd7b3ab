import Pisces.Lcall.Thread
import Pisces.Xbuf.Ownership

/-! # Stopping the long-call thread

`pisces_lcall_deinit` asks the thread to stop before it sets `active_lcall`, so
a thread that waits for a long call is woken once, finds `active_lcall` clear
and goes back to sleep.
-/

namespace Pisces.Lcall

open Transition
open Channel (Params)

variable {params : Params} {state next : State} {action : Action}

/-- `pisces_lcall_deinit` waits in `kthread_stop` for a thread that sleeps on
`active_lcall`. -/
structure Stuck (state : State) : Prop where
  deinit : state.deinit = .join
  thread : state.thread = .asleep
  activeLcall : state.activeLcall = false

/-- The thread is in its `wait_event` with nothing to wait for. -/
def Waiting (state : State) : Prop :=
  (state.thread = .wait ∨ state.thread = .asleep) ∧ state.activeLcall = false

/-- The enclave's CPUs are stopped before `pisces_lcall_deinit` begins; an
interrupt taken before may still run. -/
def Halted (state : State) : Action → Prop
  | .channel .irq => True
  | .channel _ => state.deinit = .idle
  | _ => True

/-- `kthread_stop` does not find the thread waiting for a long call. -/
def StopsBusy (state : State) (action : Action) : Prop :=
  Halted state action ∧ (action = .deinit → state.deinit = .stop → ¬ Waiting state)

/-- After the stop request the thread no longer waits for a long call. -/
structure Stopping (state : State) : Prop where
  requested : state.deinit = .wake ∨ state.deinit = .join → state.shouldStop = true
  busy : state.shouldStop = true → ¬ Waiting state

theorem Thread.woken_waits {thread : Thread} (waits : thread.woken = .wait ∨ thread.woken = .asleep) :
    thread = .wait ∨ thread = .asleep := by
  cases thread <;> simp_all [Thread.woken]

theorem channelStep_frame {inner : Channel.Action} (stepped : channelStep params state inner = some next) :
    next.thread = state.thread ∧ next.activeLcall = state.activeLcall ∧
      next.shouldStop = state.shouldStop ∧ next.deinit = state.deinit ∧
      next.dispatched = state.dispatched := by
  cases inner with
  | spawn | receiver => cases stepped
  | deliver | spurious =>
      simp only [channelStep] at stepped
      split at stepped
      · obtain ⟨channel, _, rfl⟩ := Option.map_eq_some_iff.mp stepped
        simp
      · cases stepped
  | _ =>
      simp only [channelStep] at stepped
      obtain ⟨channel, _, rfl⟩ := Option.map_eq_some_iff.mp stepped
      simp

theorem Thread.afterRecv_busy (receiver : Channel.Receiver) :
    ¬ (Thread.afterRecv receiver = .wait ∨ Thread.afterRecv receiver = .asleep) := by
  cases receiver with
  | received len read =>
      simp only [Thread.afterRecv]
      split <;> simp
  | _ => simp [Thread.afterRecv]

theorem Thread.afterComplete_busy (receiver : Channel.Receiver) :
    ¬ (Thread.afterComplete receiver = .wait ∨ Thread.afterComplete receiver = .asleep) := by
  cases receiver <;> simp [Thread.afterComplete]

theorem Stopping.thread_step (kept : Stopping state) (stepped : threadStep params state = some next) :
    Stopping next := by
  cases point : state.thread with
  | top | check =>
      simp only [threadStep, point] at stepped
      cases stepped
      refine ⟨kept.requested, ?_⟩
      intro stopping
      change state.shouldStop = true at stopping
      simp [Waiting, stopping]
  | wait =>
      simp only [threadStep, point] at stepped
      cases stepped
      refine ⟨kept.requested, ?_⟩
      intro stopping
      have active : state.activeLcall = true := by
        cases active : state.activeLcall with
        | true => rfl
        | false => exact absurd ⟨.inl point, active⟩ (kept.busy stopping)
      simp [Waiting, active]
  | clear =>
      simp only [threadStep, point] at stepped
      split at stepped
      · cases stepped
      · cases stepped
        exact ⟨kept.requested, by simp [Waiting]⟩
  | recv =>
      simp only [threadStep, point] at stepped
      split at stepped
      · cases stepped
      · cases stepped
        exact ⟨kept.requested, fun _ waiting => Thread.afterRecv_busy _ waiting.1⟩
  | dispatch =>
      simp only [threadStep, point] at stepped
      split at stepped
      · cases stepped
      · cases stepped
        exact ⟨kept.requested, fun _ waiting => Thread.afterComplete_busy _ waiting.1⟩
  | stopTest =>
      simp only [threadStep, point] at stepped
      split at stepped <;> cases stepped <;> exact ⟨kept.requested, by simp [Waiting]⟩
  | asleep | exited =>
      simp only [threadStep, point] at stepped
      cases stepped

theorem Stopping.deinit_step (kept : Stopping state) (busy : state.deinit = .stop → ¬ Waiting state)
    (stepped : deinitStep state = some next) : Stopping next := by
  cases point : state.deinit with
  | idle | lower =>
      simp only [deinitStep, point] at stepped
      cases stepped
      exact ⟨by simp, kept.busy⟩
  | stop =>
      simp only [deinitStep, point] at stepped
      cases stepped
      exact ⟨fun _ => rfl, fun _ => busy point⟩
  | wake =>
      simp only [deinitStep, point] at stepped
      cases stepped
      have stopping := kept.requested (.inl point)
      refine ⟨fun _ => stopping, ?_⟩
      intro _ waiting
      exact kept.busy stopping ⟨Thread.woken_waits waiting.1, waiting.2⟩
  | join =>
      simp only [deinitStep, point] at stepped
      split at stepped
      · cases stepped
        exact ⟨by simp, kept.busy⟩
      · cases stepped
  | setActive =>
      simp only [deinitStep, point] at stepped
      cases stepped
      exact ⟨by simp, by simp [Waiting]⟩
  | testReady =>
      simp only [deinitStep, point] at stepped
      cases stepped
      refine ⟨?_, kept.busy⟩
      simp only
      split <;> simp
  | finished =>
      simp only [deinitStep, point] at stepped
      cases stepped

theorem Stopping.handler_step (kept : Stopping state) (stepped : handlerStep state = some next) :
    Stopping next := by
  cases point : state.handler with
  | idle =>
      simp only [handlerStep, point] at stepped
      cases stepped
  | test =>
      simp only [handlerStep, point] at stepped
      cases stepped
      exact ⟨kept.requested, kept.busy⟩
  | set =>
      simp only [handlerStep, point] at stepped
      cases stepped
      exact ⟨kept.requested, by simp [Waiting]⟩
  | wake =>
      simp only [handlerStep, point] at stepped
      cases stepped
      refine ⟨kept.requested, ?_⟩
      intro stopping waiting
      exact kept.busy stopping ⟨Thread.woken_waits waiting.1, waiting.2⟩

theorem Stopping.step (kept : Stopping state) (permitted : StopsBusy state action)
    (stepped : step params state action = some next) : Stopping next := by
  cases action with
  | channel inner =>
      obtain ⟨thread, active, stop, deinit, _⟩ := channelStep_frame stepped
      refine ⟨?_, ?_⟩
      · rw [deinit, stop]
        exact kept.requested
      · unfold Waiting
        rw [stop, thread, active]
        exact kept.busy
  | handler => exact kept.handler_step stepped
  | thread => exact kept.thread_step stepped
  | deinit => exact kept.deinit_step (permitted.2 rfl) stepped

/-- A stop request that finds the thread waiting ends in the deadlock. -/
theorem stuck_of_waiting (params : Params) (size : Nat) (requests : state.deinit = .stop)
    (waiting : Waiting state) : ∃ after, (system params size).Path Halted state after ∧ Stuck after := by
  obtain ⟨waits, inactive⟩ := waiting
  have woken : state.thread.woken = .wait := by
    rcases waits with point | point <;> rw [point] <;> rfl
  have first : step params state .deinit = some { state with shouldStop := true, deinit := .wake } := by
    simp only [step, deinitStep, requests]
  have second : step params { state with shouldStop := true, deinit := .wake } .deinit =
      some { state with shouldStop := true, thread := .wait, deinit := .join } := by
    simp only [step, deinitStep, woken]
  have third : step params { state with shouldStop := true, thread := .wait, deinit := .join } .thread =
      some { state with shouldStop := true, thread := .asleep, deinit := .join } := by
    simp only [step, threadStep, inactive]
    rfl
  have deinits : ∀ {state}, Halted state .deinit := trivial
  have runs : ∀ {state}, Halted state .thread := trivial
  refine ⟨_, .head deinits first (.head deinits second (.single runs third)), ?_⟩
  exact ⟨rfl, rfl, inactive⟩

/-- `pisces_lcall_deinit` deadlocks exactly when its stop request finds the
thread waiting for a long call. -/
theorem stop_deadlocks_iff_waiting (params : Params) (size : Nat) :
    (∀ state, (system params size).Reachable StopsBusy state → ¬ Stuck state) ∧
      ∀ state, state.deinit = .stop → Waiting state →
        ∃ after, (system params size).Path Halted state after ∧ Stuck after := by
  refine ⟨?_, fun state requests waiting => stuck_of_waiting params size requests waiting⟩
  intro state reached stuck
  have kept : Stopping state := by
    refine reached.invariant ?_ (fun kept permitted stepped => kept.step permitted stepped)
    intro start initial
    refine ⟨?_, ?_⟩
    · rw [initial.deinit]
      simp
    · rw [initial.shouldStop]
      simp
  exact kept.busy (kept.requested (.inr stuck.deinit)) ⟨.inr stuck.thread, stuck.activeLcall⟩

/-- `pisces_lcall_deinit` right after the thread was created. -/
theorem stop_before_waiting :
    ∃ state, (system Channel.echo 1).Reachable StopsBusy state ∧ state.deinit = .finished ∧
      ¬ Stuck state := by
  obtain ⟨state, executed, finished⟩ : ∃ state, (system Channel.echo 1).run (fun state action =>
      (action = .thread ∨ action = .deinit) ∧ state.thread ≠ .wait ∧ state.thread ≠ .asleep) (boot 1)
      [.deinit, .deinit, .deinit, .thread, .deinit, .deinit, .deinit, .deinit] = some state ∧
      state.deinit = .finished := ⟨_, rfl, rfl⟩
  have reached : (system Channel.echo 1).Reachable StopsBusy state := by
    refine ⟨boot 1, boot_initial 1, System.run_path ?_ executed⟩
    intro state action checked
    obtain ⟨kind, running, awake⟩ := of_decide_eq_true checked
    refine ⟨?_, ?_⟩
    · rcases kind with rfl | rfl <;> trivial
    · intro _ _ waiting
      exact waiting.1.elim running awake
  exact ⟨state, reached, finished, (stop_deadlocks_iff_waiting Channel.echo 1).1 state reached⟩

theorem stop_deadlocks :
    ∃ state, (system Channel.echo 1).Reachable Halted state ∧ Stuck state := by
  obtain ⟨state, executed, stuck⟩ : ∃ state, (system Channel.echo 1).run (fun _ action => action = .thread ∨
      action = .deinit) (boot 1) [.thread, .thread, .deinit, .deinit, .deinit, .thread] = some state ∧
      Stuck state := ⟨_, rfl, rfl, rfl, rfl⟩
  refine ⟨state, ⟨boot 1, boot_initial 1, System.run_path ?_ executed⟩, stuck⟩
  intro state action checked
  rcases of_decide_eq_true checked with rfl | rfl <;> trivial

end Pisces.Lcall
