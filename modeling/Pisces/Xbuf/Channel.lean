import Mathlib.Logic.Function.Basic
import Pisces.Transition
import Pisces.Xbuf.Buffer

/-! # Senders and receivers on one buffer

Any number of `pisces_xbuf_sync_send` calls on the sending side, the interrupt
handler and the receive-and-complete work on the other, and
`pisces_xbuf_disable` and `pisces_xbuf_enable` at any time.  Calls are numbered;
call `i` carries message `i`.
-/

namespace Pisces.Channel

open Transition

/-- What callers and the receiving side's handler supply. -/
structure Params where
  message : Nat → Bytes
  wantsResp : Nat → Bool
  response : Bytes → Bytes
  hasHandler : Bool

/-- Control points of a call between raising PENDING and returning. -/
inductive Owner where
  | unlock
  | stage (pc : StagePc)
  | ipi (left : Bytes)
  | send (pc : SendPc) (left : Bytes)
  | waitComplete
  | waitReady
  | testResp
  | recvLen
  | recv (pc : RecvPc) (len : Nat) (read : Bytes)
  | finish (resp : Option Bytes)
deriving DecidableEq, Repr

/-- `rejected` is the return value -1 before the buffer was acquired, `failed`
the same value after it. -/
inductive Call where
  | idle
  | lock
  | testReady
  | testPending
  | resetFlags
  | raisePending
  | unlockErr
  | unlockBusy
  | sleep
  | owner (point : Owner)
  | returned (resp : Option Bytes)
  | failed
  | rejected
deriving DecidableEq, Repr

/-- The return value of `send_data` is not looked at. -/
def Call.afterSend : SendOut → Call
  | .running pc left => .owner (.send pc left)
  | .finished => .owner .waitComplete
  | .aborted => .owner .waitComplete

def Call.afterRecv (len : Nat) : RecvOut → Call
  | .running pc read => .owner (.recv pc len read)
  | .finished read => if read.length = 0 then .failed else .owner (.finish (some read))
  | .aborted _ => .failed

/-- `reset_flags` ends the exchange; nothing is accessed between it and the
return. -/
def Owner.step (xbuf : Xbuf) (message : Bytes) (wantsResp : Bool) : Owner → Xbuf × Call
  | .unlock => (xbuf, .owner (if message.length > 0 then .stage .len else .ipi message))
  | .stage pc =>
      match initStageData xbuf message pc with
      | (after, .running next) => (after, .owner (.stage next))
      | (after, .finished left) => (after, .owner (.ipi left))
  | .ipi left => (xbuf, .afterSend (enterSend left))
  | .send pc left => ((sendData xbuf left pc).1, .afterSend (sendData xbuf left pc).2)
  | .waitComplete => (xbuf, .owner (if xbuf.flags.complete then .testResp else .waitReady))
  | .waitReady => (xbuf, if xbuf.flags.ready then .owner .waitComplete else .failed)
  | .testResp => (xbuf, .owner (if wantsResp && xbuf.flags.staged then .recvLen else .finish none))
  | .recvLen => (xbuf, .afterRecv xbuf.dataLen (enterRecv xbuf.dataLen []))
  | .recv pc len read => ((recvData xbuf len read pc).1, .afterRecv len (recvData xbuf len read pc).2)
  | .finish resp => (xbuf.resetFlags, .returned resp)

/-- One run of `pisces_xbuf_recv` and `pisces_xbuf_complete` over a message.
`inactive` is their return value -1. -/
inductive Receiver where
  | idle
  | testActive
  | recvLen
  | recv (pc : RecvPc) (len : Nat) (read : Bytes)
  | received (len : Nat) (read : Bytes)
  | testComplete (resp : Bytes)
  | stage (pc : StagePc) (resp : Bytes)
  | raiseComplete (left : Bytes)
  | reply (pc : SendPc) (left : Bytes)
  | done
  | inactive
deriving DecidableEq, Repr

def Receiver.afterRecv (len : Nat) : RecvOut → Receiver
  | .running pc read => .recv pc len read
  | .finished read => .received len read
  | .aborted read => .received len read

def Receiver.afterSend : SendOut → Receiver
  | .running pc left => .reply pc left
  | .finished => .done
  | .aborted => .done

def Receiver.step (xbuf : Xbuf) (response : Bytes → Bytes) : Receiver → Option (Xbuf × Receiver)
  | .testActive => some (xbuf, if xbuf.flags.active then .recvLen else .inactive)
  | .recvLen => some (xbuf, .afterRecv xbuf.dataLen (enterRecv xbuf.dataLen []))
  | .recv pc len read =>
      some ((recvData xbuf len read pc).1, .afterRecv len (recvData xbuf len read pc).2)
  | .received _ read => some (xbuf, .testComplete (response read))
  | .testComplete resp =>
      some (xbuf, if xbuf.flags.active then
        (if resp.length > 0 then .stage .len resp else .raiseComplete resp) else .inactive)
  | .stage pc resp =>
      match initStageData xbuf resp pc with
      | (after, .running next) => some (after, .stage next resp)
      | (after, .finished left) => some (after, .raiseComplete left)
  | .raiseComplete left => some (xbuf.raiseFlag xbufComplete, .afterSend (enterSend left))
  | .reply pc left => some ((sendData xbuf left pc).1, .afterSend (sendData xbuf left pc).2)
  | .idle | .done | .inactive => none

/-- `irq_handler`, which one interrupt at a time runs under the receiver's lock. -/
inductive Irq where
  | idle
  | test
  | raise
  | noHandler
deriving DecidableEq, Repr

/-- `pisces_xbuf_disable` and `pisces_xbuf_enable` after their test of READY. -/
inductive Ctl where
  | idle
  | lower
  | set
deriving DecidableEq, Repr

/-- `accepted` counts messages handed to the receive handler, `started` the
receivers begun.  `acquired` (the calls in the order in which they raised
PENDING) and `received` (the bytes copied out by each finished receive) are
histories that no step reads. -/
structure State where
  xbuf : Xbuf
  lock : Option Nat
  calls : Nat → Call
  ipis : Nat
  irq : Irq
  accepted : Nat
  started : Nat
  receivers : Nat → Receiver
  ctls : Nat → Ctl
  acquired : List Nat
  received : List Bytes

inductive Action where
  | start (call : Nat)
  | call (call : Nat)
  | signal (call : Nat)
  | deliver
  | spurious
  | irq
  | spawn
  | receiver (index : Nat)
  | disable (ctl : Nat)
  | lower (ctl : Nat)
  | enable (ctl : Nat)
  | set (ctl : Nat)
deriving DecidableEq, Repr

namespace State

variable (state : State)

def setCall (call : Nat) (point : Call) : State :=
  { state with calls := Function.update state.calls call point }

def setCtl (ctl : Nat) (point : Ctl) : State :=
  { state with ctls := Function.update state.ctls ctl point }

@[simp] theorem setCall_calls (call other : Nat) (point : Call) :
    (state.setCall call point).calls other = if other = call then point else state.calls other := by
  simp [setCall, Function.update_apply]

@[simp] theorem setCall_xbuf (call : Nat) (point : Call) : (state.setCall call point).xbuf = state.xbuf := rfl

@[simp] theorem setCall_lock (call : Nat) (point : Call) : (state.setCall call point).lock = state.lock := rfl

@[simp] theorem setCall_acquired (call : Nat) (point : Call) :
    (state.setCall call point).acquired = state.acquired := rfl

@[simp] theorem setCtl_xbuf (ctl : Nat) (point : Ctl) : (state.setCtl ctl point).xbuf = state.xbuf := rfl

@[simp] theorem setCtl_ctls (ctl other : Nat) (point : Ctl) :
    (state.setCtl ctl point).ctls other = if other = ctl then point else state.ctls other := by
  simp [setCtl, Function.update_apply]

end State

/-- The lock after one step of an owner, which drops it first thing. -/
def Owner.lockAfter (lock : Option Nat) : Owner → Option Nat
  | .unlock => none
  | _ => lock

def Owner.ipisSent : Owner → Nat
  | .ipi _ => 1
  | _ => 0

def callStep (params : Params) (state : State) (call : Nat) : Option State :=
  match state.calls call with
  | .lock =>
      if state.lock = none then some ({ state with lock := some call }.setCall call .testReady)
      else none
  | .testReady =>
      some (state.setCall call (if state.xbuf.flags.ready then .testPending else .unlockErr))
  | .testPending =>
      some (state.setCall call (if state.xbuf.flags.pending then .unlockBusy else .resetFlags))
  | .resetFlags => some ({ state with xbuf := state.xbuf.resetFlags }.setCall call .raisePending)
  | .raisePending =>
      some ({ state with
        xbuf := state.xbuf.raiseFlag xbufPending
        acquired := state.acquired ++ [call] }.setCall call (.owner .unlock))
  | .unlockErr => some ({ state with lock := none }.setCall call .rejected)
  | .unlockBusy => some ({ state with lock := none }.setCall call .sleep)
  | .sleep => if state.xbuf.flags.pending = false then some (state.setCall call .lock) else none
  | .owner point =>
      some ({ state with
        xbuf := (point.step state.xbuf (params.message call) (params.wantsResp call)).1
        lock := point.lockAfter state.lock
        ipis := state.ipis + point.ipisSent }.setCall call
          (point.step state.xbuf (params.message call) (params.wantsResp call)).2)
  | .idle | .returned _ | .failed | .rejected => none

/-- The history of finished receives after a receiver moved to `point`. -/
def recordReceived (received : List Bytes) : Receiver → List Bytes
  | .received _ read => received ++ [read]
  | _ => received

def step (params : Params) (state : State) : Action → Option State
  | .start call =>
      if state.calls call = .idle then some (state.setCall call .lock) else none
  | .call call => callStep params state call
  | .signal call =>
      if state.calls call = .sleep then some (state.setCall call .lock) else none
  | .deliver =>
      if state.irq = .idle ∧ 0 < state.ipis then
        some { state with irq := .test, ipis := state.ipis - 1 }
      else none
  | .spurious => if state.irq = .idle then some { state with irq := .test } else none
  | .irq =>
      match state.irq with
      | .idle => none
      | .test => some { state with
          irq := if state.xbuf.flags.pending && !state.xbuf.flags.active then .raise else .idle }
      | .raise => some { state with
          xbuf := state.xbuf.raiseFlag xbufActive
          irq := if params.hasHandler then .idle else .noHandler
          accepted := if params.hasHandler then state.accepted + 1 else state.accepted }
      | .noHandler => some { state with xbuf := state.xbuf.raiseFlag xbufComplete, irq := .idle }
  | .spawn => some { state with
      receivers := Function.update state.receivers state.started .testActive
      started := state.started + 1 }
  | .receiver index =>
      match (state.receivers index).step state.xbuf params.response with
      | none => none
      | some (xbuf, point) => some { state with
          xbuf
          receivers := Function.update state.receivers index point
          received := recordReceived state.received point }
  | .disable ctl =>
      if state.ctls ctl = .idle ∧ state.xbuf.flags.ready then some (state.setCtl ctl .lower) else none
  | .lower ctl =>
      if state.ctls ctl = .lower then
        some ({ state with xbuf := state.xbuf.lowerFlag xbufReady }.setCtl ctl .idle)
      else none
  | .enable ctl =>
      if state.ctls ctl = .idle ∧ state.xbuf.flags.ready = false then some (state.setCtl ctl .set)
      else none
  | .set ctl =>
      if state.ctls ctl = .set then
        some ({ state with xbuf := state.xbuf.setFlags xbufReady }.setCtl ctl .idle)
      else none

/-- An enabled buffer that nobody has used yet. -/
structure Initial (size : Nat) (state : State) : Prop where
  flags : state.xbuf.flags = xbufReady
  totalSize : state.xbuf.totalSize = size
  lock : state.lock = none
  calls : ∀ call, state.calls call = .idle
  ipis : state.ipis = 0
  irq : state.irq = .idle
  accepted : state.accepted = 0
  started : state.started = 0
  receivers : ∀ index, state.receivers index = .idle
  ctls : ∀ ctl, state.ctls ctl = .idle
  acquired : state.acquired = []
  received : state.received = []

/-- The initial state with an empty staging area. -/
def boot (size : Nat) : State where
  xbuf := { flags := xbufReady, totalSize := size, dataLen := 0, data := [] }
  lock := none
  calls := fun _ => .idle
  ipis := 0
  irq := .idle
  accepted := 0
  started := 0
  receivers := fun _ => .idle
  ctls := fun _ => .idle
  acquired := []
  received := []

theorem boot_initial (size : Nat) : Initial size (boot size) := by
  constructor <;> simp [boot]

def system (params : Params) (size : Nat) : System State Action where
  initial := Initial size
  step := step params

/-- Everything a step can do. -/
inductive Move (params : Params) (state : State) : Action → State → Prop where
  | start {call : Nat} (point : state.calls call = .idle) :
      Move params state (.start call) (state.setCall call .lock)
  | lock {call : Nat} (point : state.calls call = .lock) (free : state.lock = none) :
      Move params state (.call call) ({ state with lock := some call }.setCall call .testReady)
  | testReady {call : Nat} (point : state.calls call = .testReady) :
      Move params state (.call call)
        (state.setCall call (if state.xbuf.flags.ready then .testPending else .unlockErr))
  | testPending {call : Nat} (point : state.calls call = .testPending) :
      Move params state (.call call)
        (state.setCall call (if state.xbuf.flags.pending then .unlockBusy else .resetFlags))
  | resetFlags {call : Nat} (point : state.calls call = .resetFlags) :
      Move params state (.call call)
        ({ state with xbuf := state.xbuf.resetFlags }.setCall call .raisePending)
  | raisePending {call : Nat} (point : state.calls call = .raisePending) :
      Move params state (.call call)
        ({ state with
          xbuf := state.xbuf.raiseFlag xbufPending
          acquired := state.acquired ++ [call] }.setCall call (.owner .unlock))
  | unlockErr {call : Nat} (point : state.calls call = .unlockErr) :
      Move params state (.call call) ({ state with lock := none }.setCall call .rejected)
  | unlockBusy {call : Nat} (point : state.calls call = .unlockBusy) :
      Move params state (.call call) ({ state with lock := none }.setCall call .sleep)
  | wake {call : Nat} (point : state.calls call = .sleep) (clear : state.xbuf.flags.pending = false) :
      Move params state (.call call) (state.setCall call .lock)
  | signal {call : Nat} (point : state.calls call = .sleep) :
      Move params state (.signal call) (state.setCall call .lock)
  | owner {call : Nat} {owner : Owner} (point : state.calls call = .owner owner) :
      Move params state (.call call)
        ({ state with
          xbuf := (owner.step state.xbuf (params.message call) (params.wantsResp call)).1
          lock := owner.lockAfter state.lock
          ipis := state.ipis + owner.ipisSent }.setCall call
            (owner.step state.xbuf (params.message call) (params.wantsResp call)).2)
  | deliver (idle : state.irq = .idle) (sent : 0 < state.ipis) :
      Move params state .deliver { state with irq := .test, ipis := state.ipis - 1 }
  | spurious (idle : state.irq = .idle) : Move params state .spurious { state with irq := .test }
  | irqTest (point : state.irq = .test) :
      Move params state .irq { state with
        irq := if state.xbuf.flags.pending && !state.xbuf.flags.active then .raise else .idle }
  | irqRaise (point : state.irq = .raise) :
      Move params state .irq { state with
        xbuf := state.xbuf.raiseFlag xbufActive
        irq := if params.hasHandler then .idle else .noHandler
        accepted := if params.hasHandler then state.accepted + 1 else state.accepted }
  | irqNoHandler (point : state.irq = .noHandler) :
      Move params state .irq { state with xbuf := state.xbuf.raiseFlag xbufComplete, irq := .idle }
  | spawn :
      Move params state .spawn { state with
        receivers := Function.update state.receivers state.started .testActive
        started := state.started + 1 }
  | receiver {index : Nat} {after : Xbuf} {next : Receiver}
      (stepped : (state.receivers index).step state.xbuf params.response = some (after, next)) :
      Move params state (.receiver index) { state with
        xbuf := after
        receivers := Function.update state.receivers index next
        received := recordReceived state.received next }
  | disable {ctl : Nat} (idle : state.ctls ctl = .idle) (ready : state.xbuf.flags.ready = true) :
      Move params state (.disable ctl) (state.setCtl ctl .lower)
  | lower {ctl : Nat} (point : state.ctls ctl = .lower) :
      Move params state (.lower ctl)
        ({ state with xbuf := state.xbuf.lowerFlag xbufReady }.setCtl ctl .idle)
  | enable {ctl : Nat} (idle : state.ctls ctl = .idle) (lowered : state.xbuf.flags.ready = false) :
      Move params state (.enable ctl) (state.setCtl ctl .set)
  | set {ctl : Nat} (point : state.ctls ctl = .set) :
      Move params state (.set ctl)
        ({ state with xbuf := state.xbuf.setFlags xbufReady }.setCtl ctl .idle)

theorem callStep_move {params : Params} {state next : State} {call : Nat}
    (stepped : callStep params state call = some next) : Move params state (.call call) next := by
  cases point : state.calls call with
  | lock =>
      simp only [callStep, point] at stepped
      split at stepped
      · cases stepped
        exact .lock point ‹_›
      · cases stepped
  | sleep =>
      simp only [callStep, point] at stepped
      split at stepped
      · cases stepped
        exact .wake point ‹_›
      · cases stepped
  | testReady | testPending | resetFlags | raisePending | unlockErr | unlockBusy =>
      simp only [callStep, point] at stepped
      cases stepped
      constructor
      exact point
  | owner owner =>
      simp only [callStep, point] at stepped
      cases stepped
      exact .owner point
  | idle | returned | failed | rejected =>
      simp only [callStep, point] at stepped
      cases stepped

theorem step_move {params : Params} {state next : State} {action : Action}
    (stepped : step params state action = some next) : Move params state action next := by
  cases action with
  | call call => exact callStep_move stepped
  | irq =>
      cases point : state.irq <;> simp only [step, point] at stepped <;> cases stepped <;>
        constructor <;> exact point
  | receiver index =>
      simp only [step] at stepped
      split at stepped
      · cases stepped
      · rename_i after point found
        cases stepped
        exact .receiver found
  | spawn => cases stepped; exact .spawn
  | start | signal | spurious | lower | set =>
      simp only [step] at stepped
      split at stepped
      · cases stepped
        constructor
        assumption
      · cases stepped
  | deliver | disable | enable =>
      simp only [step] at stepped
      split at stepped
      · rename_i guard
        cases stepped
        constructor
        · exact guard.1
        · exact guard.2
      · cases stepped

def Action.concerns (call : Nat) : Action → Bool
  | .start other | .call other | .signal other => other = call
  | _ => false

theorem step_calls_other {params : Params} {state next : State} {action : Action} {call : Nat}
    (apart : action.concerns call = false) (stepped : step params state action = some next) :
    next.calls call = state.calls call := by
  cases step_move stepped with
  | start | lock | testReady | testPending | resetFlags | raisePending | unlockErr | unlockBusy | wake
  | signal | owner =>
      have other : ¬ call = _ := fun same => of_decide_eq_false apart same.symm
      simp [other]
  | _ => rfl

theorem run_calls_other {params : Params} {size : Nat} {call : Nat} {check : State → Action → Bool}
    {schedule : List Action} (apart : ∀ action ∈ schedule, action.concerns call = false) :
    ∀ {state after : State}, (system params size).run check state schedule = some after →
      after.calls call = state.calls call := by
  induction schedule with
  | nil =>
      intro state after executed
      cases executed
      rfl
  | cons action rest ih =>
      intro state after executed
      simp only [System.run] at executed
      split at executed
      · cases stepped : (system params size).step state action with
        | none => simp [stepped] at executed
        | some next =>
            simp only [stepped] at executed
            have later := ih (fun other member => apart other (by simp [member])) executed
            exact later.trans (step_calls_other (apart action (by simp)) stepped)
      · cases executed

theorem step_receivers {params : Params} {state next : State} {action : Action}
    (spawned : action ≠ .spawn) (received : ∀ index, action ≠ .receiver index)
    (stepped : step params state action = some next) :
    next.started = state.started ∧ next.receivers = state.receivers ∧ next.received = state.received := by
  cases step_move stepped with
  | spawn => exact absurd rfl spawned
  | receiver => exact absurd rfl (received _)
  | _ => exact ⟨rfl, rfl, rfl⟩

theorem step_accepted {params : Params} {state next : State} {action : Action}
    (other : action ≠ .irq) (stepped : step params state action = some next) :
    next.accepted = state.accepted := by
  cases step_move stepped with
  | irqTest | irqRaise | irqNoHandler => exact absurd rfl other
  | _ => rfl

end Pisces.Channel
