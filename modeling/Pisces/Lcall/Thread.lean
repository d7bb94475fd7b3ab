import Pisces.Xbuf.Channel

/-! # The long-call thread

`lcall_handler` runs in the interrupt and hands each accepted message to
`lcall_kern_thread` through the flag `active_lcall`; `pisces_lcall_deinit` stops
the thread.  A long call is a call on the channel of `Pisces.Channel`, and the
thread is its receiver: it receives and completes one message at a time.
-/

namespace Pisces.Lcall

open Transition
open Channel (Params Receiver)

/-- `lcall_handler`; `wake` is its wake-up of the thread. -/
inductive Handler where
  | idle
  | test
  | set
  | wake
deriving DecidableEq, Repr

/-- `lcall_kern_thread`.  `top`, `check` and `stopTest` are its three tests of
`kthread_should_stop`.  The test of `active_lcall` at `wait` and going to sleep
are one step, since `wait_event` announces the sleep before it tests. -/
inductive Thread where
  | top
  | wait
  | asleep
  | check
  | clear
  | recv
  | stopTest
  | dispatch
  | exited
deriving DecidableEq, Repr

/-- `pisces_lcall_deinit`.  `stop`, `wake` and `join` are `kthread_stop`. -/
inductive Deinit where
  | idle
  | stop
  | wake
  | join
  | setActive
  | testReady
  | lower
  | finished
deriving DecidableEq, Repr

/-- `dispatched` are the buffers the dispatcher has acted on, in that order. -/
structure State where
  channel : Channel.State
  handler : Handler
  activeLcall : Bool
  thread : Thread
  shouldStop : Bool
  deinit : Deinit
  dispatched : List Bytes

inductive Action where
  | channel (action : Channel.Action)
  | handler
  | thread
  | deinit
deriving DecidableEq, Repr

/-- `wake_up_interruptible` and `wake_up_process`. -/
def Thread.woken : Thread → Thread
  | .asleep => .wait
  | point => point

namespace State

variable (state : State)

/-- The receiver the thread works for. -/
def current : Nat := state.channel.started - 1

def receiver : Receiver := state.channel.receivers state.current

end State

/-- The value -1 of `ret`, an `int` that holds the 32-bit count `recv_data` returned. -/
def isError (read : Bytes) : Bool := read.length % 0x100000000 = 0xFFFFFFFF

/-- Where the thread is after a step of `pisces_xbuf_recv`. -/
def Thread.afterRecv : Receiver → Thread
  | .received _ read => if isError read then .exited else .stopTest
  | .inactive => .exited
  | _ => .recv

/-- Where the thread is after a step of the handler that completes the message. -/
def Thread.afterComplete : Receiver → Thread
  | .done | .inactive => .top
  | _ => .dispatch

/-- The buffer handed to the dispatcher. -/
def buffer : Receiver → Bytes
  | .received _ read => read
  | _ => []

def threadStep (params : Params) (state : State) : Option State :=
  match state.thread with
  | .top => some { state with thread := if state.shouldStop then .exited else .wait }
  | .wait => some { state with thread := if state.activeLcall then .check else .asleep }
  | .check => some { state with thread := if state.shouldStop then .exited else .clear }
  | .clear =>
      match Channel.step params state.channel .spawn with
      | none => none
      | some channel => some { state with channel, activeLcall := false, thread := .recv }
  | .recv =>
      match Channel.step params state.channel (.receiver state.current) with
      | none => none
      | some channel =>
          some { state with channel, thread := .afterRecv (channel.receivers state.current) }
  | .stopTest =>
      if state.shouldStop then some { state with thread := .exited }
      else some { state with thread := .dispatch, dispatched := state.dispatched ++ [buffer state.receiver] }
  | .dispatch =>
      match Channel.step params state.channel (.receiver state.current) with
      | none => none
      | some channel =>
          some { state with channel, thread := .afterComplete (channel.receivers state.current) }
  | .asleep | .exited => none

def handlerStep (state : State) : Option State :=
  match state.handler with
  | .idle => none
  | .test => some { state with handler := if state.channel.xbuf.flags.pending then .set else .idle }
  | .set => some { state with activeLcall := true, handler := .wake }
  | .wake => some { state with thread := state.thread.woken, handler := .idle }

def deinitStep (state : State) : Option State :=
  match state.deinit with
  | .idle => some { state with deinit := .stop }
  | .stop => some { state with shouldStop := true, deinit := .wake }
  | .wake => some { state with thread := state.thread.woken, deinit := .join }
  | .join => if state.thread = .exited then some { state with deinit := .setActive } else none
  | .setActive => some { state with activeLcall := true, deinit := .testReady }
  | .testReady =>
      some { state with deinit := if state.channel.xbuf.flags.ready then .lower else .finished }
  | .lower =>
      some { state with
        channel := { state.channel with xbuf := state.channel.xbuf.lowerFlag xbufReady }
        deinit := .finished }
  | .finished => none

/-- Steps of everybody else.  The interrupt is not taken again while its handler
runs, and the handler begins where the message is accepted. -/
def channelStep (params : Params) (state : State) (action : Channel.Action) : Option State :=
  match action with
  | .spawn | .receiver _ => none
  | .deliver | .spurious =>
      if state.handler = .idle then
        (Channel.step params state.channel action).map fun channel => { state with channel }
      else none
  | .irq =>
      (Channel.step params state.channel action).map fun channel => { state with
        channel
        handler := if state.channel.irq = .raise ∧ params.hasHandler then .test else state.handler }
  | _ => (Channel.step params state.channel action).map fun channel => { state with channel }

def step (params : Params) (state : State) : Action → Option State
  | .channel action => channelStep params state action
  | .handler => handlerStep state
  | .thread => threadStep params state
  | .deinit => deinitStep state

/-- A new thread on an enabled buffer. -/
structure Initial (size : Nat) (state : State) : Prop where
  channel : Channel.Initial size state.channel
  handler : state.handler = .idle
  activeLcall : state.activeLcall = false
  thread : state.thread = .top
  shouldStop : state.shouldStop = false
  deinit : state.deinit = .idle
  dispatched : state.dispatched = []

def system (params : Params) (size : Nat) : System State Action where
  initial := Initial size
  step := step params

def boot (size : Nat) : State where
  channel := Channel.boot size
  handler := .idle
  activeLcall := false
  thread := .top
  shouldStop := false
  deinit := .idle
  dispatched := []

theorem boot_initial (size : Nat) : Initial size (boot size) :=
  ⟨Channel.boot_initial size, rfl, rfl, rfl, rfl, rfl, rfl⟩

/-- The channel step a step of the system makes, if any. -/
def projected (state : State) : Action → Option Channel.Action
  | .channel action => some action
  | .thread =>
      match state.thread with
      | .clear => some .spawn
      | .recv | .dispatch => some (.receiver state.current)
      | _ => none
  | .handler | .deinit => none

/-- Apart from `pisces_lcall_deinit`, the channel moves as its own system does. -/
theorem step_channel {params : Params} {state next : State} {action : Action}
    (stepped : step params state action = some next) (running : action ≠ .deinit) :
    match projected state action with
    | some inner => Channel.step params state.channel inner = some next.channel
    | none => next.channel = state.channel := by
  cases action with
  | channel inner =>
      simp only [projected]
      cases inner with
      | spawn | receiver => cases stepped
      | deliver | spurious =>
          simp only [step, channelStep] at stepped
          split at stepped
          · obtain ⟨channel, moved, rfl⟩ := Option.map_eq_some_iff.mp stepped
            exact moved
          · cases stepped
      | _ =>
          simp only [step, channelStep] at stepped
          obtain ⟨channel, moved, rfl⟩ := Option.map_eq_some_iff.mp stepped
          exact moved
  | handler =>
      simp only [projected]
      simp only [step, handlerStep] at stepped
      split at stepped <;> cases stepped <;> rfl
  | thread =>
      cases point : state.thread with
      | clear | recv | dispatch =>
          simp only [step, threadStep, point] at stepped
          simp only [projected, point]
          split at stepped
          · cases stepped
          · rename_i channel moved
            cases stepped
            exact moved
      | stopTest =>
          simp only [step, threadStep, point] at stepped
          simp only [projected, point]
          split at stepped <;> cases stepped <;> rfl
      | top | wait | check =>
          simp only [step, threadStep, point] at stepped
          simp only [projected, point]
          cases stepped
          rfl
      | asleep | exited =>
          simp only [step, threadStep, point] at stepped
          cases stepped
  | deinit => exact absurd rfl running

end Pisces.Lcall
