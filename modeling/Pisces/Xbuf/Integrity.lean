import Pisces.Xbuf.Ownership

/-! # Integrity of remote calls

In a run in which the receiving side works through the messages it accepted,
READY is never raised again and no receive is cut short, the buffer is at any
time either free or taken by the one exchange of the last acquisition.
-/

namespace Pisces.Channel

open Transition

variable {params : Params} {state next : State} {action : Action} {call : Nat} {accept : Accept}

/-- Non-empty messages from callers that want the response, and a handler that
answers every message with a non-empty one. -/
structure Proper (params : Params) : Prop where
  message : ∀ call, params.message call ≠ []
  wants : ∀ call, params.wantsResp call = true
  response : ∀ message, params.response message ≠ []
  handler : params.hasHandler = true

/-- One interrupt per message, one receiver per accepted message, no receive
that finds READY lowered, and no enable. -/
def Disciplined (state : State) : Action → Prop
  | .spurious | .set _ => False
  | .spawn => state.started < state.accepted
  | .receiver index => (state.receivers index).mayAbort = true → state.xbuf.flags.ready = true
  | _ => True

namespace Accept

def ipis : Accept → Nat
  | .ipi => 1
  | _ => 0

def irq : Accept → Irq
  | .irqTest => .test
  | .irqRaise => .raise
  | _ => .idle

def handed : Accept → Nat
  | .accepted | .running _ => 1
  | _ => 0

def begun : Accept → Nat
  | .running _ => 1
  | _ => 0

end Accept

/-- The receiving side after `count` finished exchanges. -/
structure Linked (state : State) (count : Nat) (accept : Accept) : Prop where
  ipis : state.ipis = accept.ipis
  irq : state.irq = accept.irq
  accepted : state.accepted = count + accept.handed
  started : state.started = count + accept.begun
  running : ∀ receiver, accept = .running receiver → state.receivers count = receiver
  served : ∀ index, index < count → state.receivers index = .done
  fresh : ∀ index, state.started ≤ index → state.receivers index = .idle

/-- Nobody has the buffer. -/
structure Closed (params : Params) (state : State) : Prop where
  flags : state.xbuf.flags = { ready := state.xbuf.flags.ready }
  unowned : ∀ call, (state.calls call).owns = false
  linked : Linked state state.acquired.length .before
  received : state.received = state.acquired.map params.message

/-- `call` has the buffer, after the calls in `earlier`. -/
structure Open (params : Params) (state : State) (earlier : List Nat) (call : Nat) (accept : Accept) :
    Prop where
  acquired : state.acquired = earlier ++ [call]
  pending : state.xbuf.flags.pending = true
  sole : ∀ other, (state.calls other).owns = true → other = call
  linked : Linked state earlier.length accept
  exchange : Exchange state.xbuf (params.message call) (params.response (params.message call))
    (state.calls call) accept
  received : state.received =
    earlier.map params.message ++ if accept.hasMessage then [params.message call] else []

def Phase (params : Params) (state : State) : Prop :=
  Closed params state ∨ ∃ earlier call accept, Open params state earlier call accept

structure Integrity (params : Params) (state : State) : Prop where
  exclusive : Exclusive state
  acquisition : Acquisition state
  responses : ∀ {call resp}, state.calls call = .returned resp →
    resp = some (params.response (params.message call))
  phase : Phase params state

theorem Integrity.initial {size : Nat} (start : Initial size state) : Integrity params state where
  exclusive := .initial start
  acquisition := by
    refine ⟨by simp [start.acquired], ?_⟩
    intro call
    simp [start.acquired, start.calls call, Call.hasAcquired]
  responses := by
    intro call resp returned
    rw [start.calls call] at returned
    contradiction
  phase := by
    refine .inl ⟨by simp [start.flags, xbufReady], ?_, ?_, by simp [start.received, start.acquired]⟩
    · intro call
      rw [start.calls call]
      rfl
    · refine ⟨start.ipis, start.irq, ?_, ?_, by simp, ?_, fun index _ => start.receivers index⟩
      · simp [start.accepted, start.acquired, Accept.handed]
      · simp [start.started, start.acquired, Accept.begun]
      · intro index below
        simp [start.acquired] at below

theorem Linked.frame {count : Nat} (linked : Linked state count accept) (ipis : next.ipis = state.ipis)
    (irq : next.irq = state.irq) (accepted : next.accepted = state.accepted)
    (started : next.started = state.started) (receivers : next.receivers = state.receivers) :
    Linked next count accept where
  ipis := ipis.trans linked.ipis
  irq := irq.trans linked.irq
  accepted := accepted.trans linked.accepted
  started := started.trans linked.started
  running := by
    rw [receivers]
    exact linked.running
  served := by
    rw [receivers]
    exact linked.served
  fresh := by
    rw [receivers, started]
    exact linked.fresh

theorem Phase.outside {point : Call} {lock : Option Nat} (phase : Phase params state)
    (was : (state.calls call).hasAcquired = false) (now : point.owns = false)
    (acquisition : Acquisition state) :
    Phase params ({ state with lock }.setCall call point) := by
  have owners : ∀ other, ((if other = call then point else state.calls other) : Call).owns = true →
      (state.calls other).owns = true := by
    intro other owns
    by_cases mine : other = call
    · rw [if_pos mine, now] at owns
      contradiction
    · rwa [if_neg mine] at owns
  rcases phase with closed | ⟨earlier, owner, accept, held⟩
  · refine .inl ⟨closed.flags, ?_, closed.linked.frame rfl rfl rfl rfl rfl, closed.received⟩
    intro other
    cases owns : (({ state with lock }.setCall call point).calls other).owns with
    | false => rfl
    | true =>
        rw [State.setCall_calls] at owns
        have owned := owners other owns
        rw [closed.unowned] at owned
        contradiction
  · have apart : owner ≠ call := by
      intro same
      have member := (acquisition.mem owner).mp (by simp [held.acquired])
      rw [same, was] at member
      contradiction
    refine .inr ⟨earlier, owner, accept, held.acquired, held.pending, ?_,
      held.linked.frame rfl rfl rfl rfl rfl, ?_, held.received⟩
    · intro other owns
      rw [State.setCall_calls] at owns
      exact held.sole other (owners other owns)
    · rw [State.setCall_calls, if_neg apart]
      exact held.exchange

theorem Closed.acquire (closed : Closed params state) :
    Open params ({ state with
      xbuf := state.xbuf.raiseFlag xbufPending
      acquired := state.acquired ++ [call] }.setCall call (.owner .unlock)) state.acquired call .before := by
  have flags := closed.flags
  refine ⟨rfl, by simp, ?_, closed.linked.frame rfl rfl rfl rfl rfl, ?_, ?_⟩
  · intro other owns
    by_contra apart
    rw [State.setCall_calls, if_neg apart, closed.unowned] at owns
    contradiction
  · rw [State.setCall_calls, if_pos rfl]
    exact Exchange.opened (by rw [flags]) (by rw [flags]) (by rw [flags])
  · change state.received = state.acquired.map params.message ++ []
    rw [List.append_nil]
    exact closed.received

theorem Linked.finish {count : Nat} (linked : Linked state count (.running .done)) :
    Linked state (count + 1) .before where
  ipis := linked.ipis
  irq := linked.irq
  accepted := linked.accepted
  started := linked.started
  running := by simp
  served := by
    intro index below
    by_cases last : index = count
    · rw [last]
      exact linked.running .done rfl
    · exact linked.served index (by omega)
  fresh := linked.fresh

theorem Linked.sent {count : Nat} (linked : Linked state count .before) (ipis : next.ipis = state.ipis + 1)
    (irq : next.irq = state.irq) (accepted : next.accepted = state.accepted)
    (started : next.started = state.started) (receivers : next.receivers = state.receivers) :
    Linked next count .ipi where
  ipis := by
    rw [ipis, linked.ipis]
    rfl
  irq := irq.trans linked.irq
  accepted := accepted.trans linked.accepted
  started := started.trans linked.started
  running := by simp
  served := by
    rw [receivers]
    exact linked.served
  fresh := by
    rw [receivers, started]
    exact linked.fresh

namespace Open

variable {earlier : List Nat} (held : Open params state earlier call accept)

include held

theorem sole_setCall {after : Call} {other : Nat}
    (owns : ((state.setCall call after).calls other).owns = true) : other = call := by
  by_contra apart
  rw [State.setCall_calls, if_neg apart] at owns
  exact apart (held.sole other owns)

/-- A step of the owner other than its interrupt and its last. -/
theorem hold {point : Owner} (proper : Proper params) (reached : state.calls call = .owner point)
    (early : ∀ left, point ≠ .ipi left) (unfinished : ∀ result, point ≠ .finish result) :
    Open params
      ({ state with
        xbuf := (point.step state.xbuf (params.message call) true).1
        lock := point.lockAfter state.lock
        ipis := state.ipis + point.ipisSent }.setCall call
          (point.step state.xbuf (params.message call) true).2) earlier call accept := by
  have same := point.step_sameControl state.xbuf (params.message call) true unfinished
  have exchange := held.exchange
  rw [reached] at exchange
  have quiet : point.ipisSent = 0 := by
    cases point with
    | ipi left => exact absurd rfl (early left)
    | _ => rfl
  refine ⟨held.acquired, same.pending.trans held.pending, fun other owns => held.sole_setCall owns,
    held.linked.frame ?_ rfl rfl rfl rfl, ?_, held.received⟩
  · change state.ipis + point.ipisSent = state.ipis
    omega
  · rw [State.setCall_calls, if_pos rfl]
    exact exchange.owner_step (proper.message call) (proper.response _) early unfinished

theorem interrupt {left : Bytes} {lock : Option Nat} (reached : state.calls call = .owner (.ipi left)) :
    Open params ({ state with lock, ipis := state.ipis + 1 }.setCall call (.afterSend (enterSend left)))
      earlier call .ipi := by
  have exchange := held.exchange
  rw [reached] at exchange
  obtain ⟨rfl, sent⟩ := exchange.ipi_step
  refine ⟨held.acquired, held.pending, fun other owns => held.sole_setCall owns,
    held.linked.sent rfl rfl rfl rfl rfl, ?_, held.received⟩
  rw [State.setCall_calls, if_pos rfl]
  exact sent

theorem finish {result : Option Bytes} {lock : Option Nat} (reached : state.calls call = .owner (.finish result)) :
    Closed params ({ state with xbuf := state.xbuf.resetFlags, lock }.setCall call (.returned result)) := by
  have exchange := held.exchange
  rw [reached] at exchange
  obtain ⟨rfl, rfl⟩ := exchange.finish
  refine ⟨by simp, ?_, ?_, ?_⟩
  · intro other
    by_cases mine : other = call
    · rw [State.setCall_calls, if_pos mine]
      rfl
    · rw [State.setCall_calls, if_neg mine]
      cases owns : (state.calls other).owns with
      | false => rfl
      | true => exact absurd (held.sole other owns) mine
  · have count : state.acquired.length = earlier.length + 1 := by simp [held.acquired]
    have finished := held.linked.finish
    rw [← count] at finished
    exact finished.frame rfl rfl rfl rfl rfl
  · change state.received = state.acquired.map params.message
    rw [held.received, held.acquired, List.map_append]
    rfl

end Open

/-- Whoever is past raising PENDING is the call of the open exchange. -/
theorem Phase.open_of_owner {point : Owner} (phase : Phase params state)
    (reached : state.calls call = .owner point) :
    ∃ earlier accept, Open params state earlier call accept := by
  have owned : (state.calls call).owns = true := by rw [reached]; rfl
  rcases phase with closed | ⟨earlier, owner, accept, held⟩
  · rw [closed.unowned] at owned
    contradiction
  · have mine : call = owner := held.sole call owned
    subst mine
    exact ⟨earlier, accept, held⟩

theorem Phase.owner {point : Owner} (proper : Proper params) (phase : Phase params state)
    (reached : state.calls call = .owner point) :
    Phase params
      ({ state with
        xbuf := (point.step state.xbuf (params.message call) (params.wantsResp call)).1
        lock := point.lockAfter state.lock
        ipis := state.ipis + point.ipisSent }.setCall call
          (point.step state.xbuf (params.message call) (params.wantsResp call)).2) := by
  obtain ⟨earlier, accept, held⟩ := phase.open_of_owner reached
  rw [proper.wants call]
  cases point with
  | ipi left => exact .inr ⟨earlier, call, .ipi, held.interrupt reached⟩
  | finish result => exact .inl (held.finish reached)
  | _ => exact .inr ⟨earlier, call, accept, held.hold proper reached (by simp) (by simp)⟩

/-! ## The receiving side -/

namespace Linked

variable {count : Nat} {xbuf : Xbuf} {received : List Bytes} {receiver point : Receiver}

theorem deliver (linked : Linked state count .ipi) :
    Linked { state with irq := .test, ipis := state.ipis - 1 } count .irqTest where
  ipis := by
    change state.ipis - 1 = 0
    rw [linked.ipis]
    rfl
  irq := rfl
  accepted := linked.accepted
  started := linked.started
  running := by simp
  served := linked.served
  fresh := linked.fresh

theorem irqTest (linked : Linked state count .irqTest) :
    Linked { state with irq := .raise } count .irqRaise where
  ipis := linked.ipis
  irq := rfl
  accepted := linked.accepted
  started := linked.started
  running := by simp
  served := linked.served
  fresh := linked.fresh

theorem irqRaise (linked : Linked state count .irqRaise) :
    Linked { state with xbuf, irq := .idle, accepted := state.accepted + 1 } count .accepted where
  ipis := linked.ipis
  irq := rfl
  accepted := by
    change state.accepted + 1 = count + 1
    rw [linked.accepted]
    rfl
  started := linked.started
  running := by simp
  served := linked.served
  fresh := linked.fresh

theorem spawn (linked : Linked state count .accepted) :
    Linked { state with
      receivers := Function.update state.receivers state.started .testActive
      started := state.started + 1 } count (.running .testActive) := by
  have started := linked.started
  simp only [Accept.begun, Nat.add_zero] at started
  refine ⟨linked.ipis, linked.irq, linked.accepted, ?_, ?_, ?_, ?_⟩
  · change state.started + 1 = count + 1
    omega
  · rintro receiver ⟨⟩
    change Function.update state.receivers state.started .testActive count = .testActive
    rw [started, Function.update_self]
  · intro index below
    change Function.update state.receivers state.started .testActive index = .done
    rw [Function.update_of_ne (by omega)]
    exact linked.served index below
  · intro index above
    change state.started + 1 ≤ index at above
    change Function.update state.receivers state.started .testActive index = .idle
    rw [Function.update_of_ne (by omega)]
    exact linked.fresh index (by omega)

theorem receive (linked : Linked state count (.running receiver)) :
    Linked { state with
      xbuf, received
      receivers := Function.update state.receivers count point } count (.running point) := by
  refine ⟨linked.ipis, linked.irq, linked.accepted, linked.started, ?_, ?_, ?_⟩
  · rintro _ ⟨⟩
    change Function.update state.receivers count point count = point
    rw [Function.update_self]
  · intro other below
    change Function.update state.receivers count point other = .done
    rw [Function.update_of_ne (by omega)]
    exact linked.served other below
  · intro other above
    have started := linked.started
    simp only [Accept.begun] at started
    change state.started ≤ other at above
    change Function.update state.receivers count point other = .idle
    rw [Function.update_of_ne (by omega)]
    exact linked.fresh other above

end Linked

namespace Open

variable {earlier : List Nat}

theorem deliver (held : Open params state earlier call .ipi) :
    Open params { state with irq := .test, ipis := state.ipis - 1 } earlier call .irqTest :=
  ⟨held.acquired, held.pending, held.sole, held.linked.deliver, held.exchange, held.received⟩

theorem irqTest (held : Open params state earlier call .irqTest) :
    Open params { state with
      irq := if state.xbuf.flags.pending && !state.xbuf.flags.active then .raise else .idle }
      earlier call .irqRaise := by
  have inactive := held.exchange.1
  rw [held.pending, inactive]
  exact ⟨held.acquired, held.pending, held.sole, held.linked.irqTest, held.exchange, held.received⟩

theorem irqRaise (proper : Proper params) (held : Open params state earlier call .irqRaise) :
    Open params { state with
      xbuf := state.xbuf.raiseFlag xbufActive
      irq := if params.hasHandler then .idle else .noHandler
      accepted := if params.hasHandler then state.accepted + 1 else state.accepted }
      earlier call .accepted := by
  rw [proper.handler]
  refine ⟨held.acquired, ?_, held.sole, held.linked.irqRaise, held.exchange.raise_active, held.received⟩
  rw [Xbuf.raiseFlag_active]
  exact held.pending

theorem spawn (held : Open params state earlier call .accepted) :
    Open params { state with
      receivers := Function.update state.receivers state.started .testActive
      started := state.started + 1 } earlier call (.running .testActive) := by
  obtain ⟨active, complete, len, incoming⟩ := held.exchange
  exact ⟨held.acquired, held.pending, held.sole, held.linked.spawn, ⟨active, complete, len, incoming⟩, held.received⟩

theorem receiver {receiver point : Receiver} {after : Xbuf} (proper : Proper params)
    (held : Open params state earlier call (.running receiver))
    (steady : receiver.mayAbort = true → state.xbuf.flags.ready = true)
    (moved : receiver.step state.xbuf params.response = some (after, point)) :
    Open params { state with
      xbuf := after
      receivers := Function.update state.receivers earlier.length point
      received := recordReceived state.received point } earlier call (.running point) := by
  have pending := (Receiver.step_pending moved).1
  obtain ⟨exchange, history⟩ := Exchange.receiver_step (earlier.map params.message)
    (proper.message call) (proper.response _) rfl held.exchange steady moved
  refine ⟨held.acquired, pending.trans held.pending, held.sole, held.linked.receive, exchange, ?_⟩
  change recordReceived state.received point = _
  rw [held.received]
  exact history

end Open

/-- A waiting interrupt or a running handler belongs to the open exchange. -/
theorem Phase.of_irq (phase : Phase params state) (busy : 0 < state.ipis ∨ state.irq ≠ .idle) :
    ∃ earlier owner accept, Open params state earlier owner accept := by
  rcases phase with closed | opened
  · exfalso
    rcases busy with sent | running
    · rw [closed.linked.ipis] at sent
      exact absurd sent (Nat.lt_irrefl 0)
    · exact running closed.linked.irq
  · exact opened

theorem Phase.deliver (phase : Phase params state) (sent : 0 < state.ipis) :
    Phase params { state with irq := .test, ipis := state.ipis - 1 } := by
  obtain ⟨earlier, owner, accept, held⟩ := phase.of_irq (.inl sent)
  rw [held.linked.ipis] at sent
  cases accept with
  | ipi => exact .inr ⟨earlier, owner, .irqTest, held.deliver⟩
  | _ => exact absurd sent (Nat.lt_irrefl 0)

theorem Phase.irqTest (phase : Phase params state) (point : state.irq = .test) :
    Phase params { state with
      irq := if state.xbuf.flags.pending && !state.xbuf.flags.active then .raise else .idle } := by
  obtain ⟨earlier, owner, accept, held⟩ := phase.of_irq (.inr (by simp [point]))
  have handler := held.linked.irq
  rw [point] at handler
  cases accept with
  | irqTest => exact .inr ⟨earlier, owner, .irqRaise, held.irqTest⟩
  | _ => contradiction

theorem Phase.irqRaise (proper : Proper params) (phase : Phase params state) (point : state.irq = .raise) :
    Phase params { state with
      xbuf := state.xbuf.raiseFlag xbufActive
      irq := if params.hasHandler then .idle else .noHandler
      accepted := if params.hasHandler then state.accepted + 1 else state.accepted } := by
  obtain ⟨earlier, owner, accept, held⟩ := phase.of_irq (.inr (by simp [point]))
  have handler := held.linked.irq
  rw [point] at handler
  cases accept with
  | irqRaise => exact .inr ⟨earlier, owner, .accepted, held.irqRaise proper⟩
  | _ => contradiction

theorem Phase.spawn (phase : Phase params state) (waiting : state.started < state.accepted) :
    Phase params { state with
      receivers := Function.update state.receivers state.started .testActive
      started := state.started + 1 } := by
  rcases phase with closed | ⟨earlier, owner, accept, held⟩
  · have accepted := closed.linked.accepted
    have started := closed.linked.started
    simp only [Accept.handed, Accept.begun] at accepted started
    omega
  · have accepted := held.linked.accepted
    have started := held.linked.started
    cases accept with
    | accepted => exact .inr ⟨earlier, owner, .running .testActive, held.spawn⟩
    | _ =>
        simp only [Accept.handed, Accept.begun] at accepted started
        omega

theorem Linked.still {count index : Nat} (linked : Linked state count accept)
    (other : ∀ receiver, accept = .running receiver → index ≠ count) :
    state.receivers index = .done ∨ state.receivers index = .idle := by
  by_cases below : index < count
  · exact .inl (linked.served index below)
  · refine .inr (linked.fresh index ?_)
    rw [linked.started]
    cases accept with
    | running receiver =>
        have apart := other receiver rfl
        simp only [Accept.begun]
        omega
    | _ =>
        simp only [Accept.begun]
        omega

/-- A receiver with something to do is the one of the open exchange. -/
theorem Phase.of_busy {index : Nat} (phase : Phase params state)
    (busy : ¬ (state.receivers index = .done ∨ state.receivers index = .idle)) :
    ∃ earlier owner, index = earlier.length ∧
      Open params state earlier owner (.running (state.receivers index)) := by
  rcases phase with closed | ⟨earlier, owner, accept, held⟩
  · exact absurd (closed.linked.still (by simp)) busy
  · cases accept with
    | running receiver =>
        have mine : index = earlier.length := by
          by_contra apart
          exact busy (held.linked.still (fun _ _ => apart))
        have current := held.linked.running receiver rfl
        rw [← mine] at current
        rw [current]
        exact ⟨earlier, owner, mine, held⟩
    | _ => exact absurd (held.linked.still (by simp)) busy

theorem Phase.receiver {index : Nat} {after : Xbuf} {point : Receiver} (proper : Proper params)
    (phase : Phase params state)
    (steady : (state.receivers index).mayAbort = true → state.xbuf.flags.ready = true)
    (moved : (state.receivers index).step state.xbuf params.response = some (after, point)) :
    Phase params { state with
      xbuf := after
      receivers := Function.update state.receivers index point
      received := recordReceived state.received point } := by
  have busy : ¬ (state.receivers index = .done ∨ state.receivers index = .idle) := by
    rintro (still | still) <;> rw [still] at moved <;> cases moved
  obtain ⟨earlier, owner, rfl, held⟩ := phase.of_busy busy
  exact .inr ⟨earlier, owner, .running point, held.receiver proper steady moved⟩

theorem Phase.lower (phase : Phase params state) :
    Phase params { state with xbuf := state.xbuf.lowerFlag xbufReady } := by
  rcases phase with closed | ⟨earlier, owner, accept, held⟩
  · refine .inl ⟨?_, closed.unowned, closed.linked.frame rfl rfl rfl rfl rfl, closed.received⟩
    change (state.xbuf.lowerFlag xbufReady).flags = _
    rw [Xbuf.lowerFlag_ready, closed.flags]
  · refine .inr ⟨earlier, owner, accept, held.acquired, ?_, held.sole,
      held.linked.frame rfl rfl rfl rfl rfl, held.exchange.lower_ready, held.received⟩
    change (state.xbuf.lowerFlag xbufReady).flags.pending = true
    rw [Xbuf.lowerFlag_ready]
    exact held.pending

theorem Closed.resetFlags (closed : Closed params state) : state.xbuf.resetFlags = state.xbuf := by
  rw [Xbuf.resetFlags_eq, ← closed.flags]

theorem Phase.closed (phase : Phase params state) (clear : state.xbuf.flags.pending = false) :
    Closed params state := by
  rcases phase with closed | ⟨earlier, owner, accept, held⟩
  · exact closed
  · rw [held.pending] at clear
    contradiction

theorem Phase.frame (phase : Phase params state) (xbuf : next.xbuf = state.xbuf)
    (calls : next.calls = state.calls) (ipis : next.ipis = state.ipis) (irq : next.irq = state.irq)
    (accepted : next.accepted = state.accepted) (started : next.started = state.started)
    (receivers : next.receivers = state.receivers) (acquired : next.acquired = state.acquired)
    (received : next.received = state.received) : Phase params next := by
  rcases phase with closed | ⟨earlier, owner, accept, held⟩
  · refine .inl ⟨?_, ?_, ?_, ?_⟩
    · rw [xbuf]
      exact closed.flags
    · rw [calls]
      exact closed.unowned
    · rw [acquired]
      exact closed.linked.frame ipis irq accepted started receivers
    · rw [received, acquired]
      exact closed.received
  · refine .inr ⟨earlier, owner, accept, acquired.trans held.acquired, ?_, ?_,
      held.linked.frame ipis irq accepted started receivers, ?_, received.trans held.received⟩
    · rw [xbuf]
      exact held.pending
    · rw [calls]
      exact held.sole
    · rw [xbuf, calls]
      exact held.exchange

theorem Phase.step (proper : Proper params) (kept : Integrity params state)
    (disciplined : Disciplined state action) (stepped : step params state action = some next) :
    Phase params next := by
  have phase := kept.phase
  cases step_move stepped with
  | start point | wake point | signal point | lock point | unlockErr point | unlockBusy point =>
      exact phase.outside (by rw [point]; rfl) rfl kept.acquisition
  | testReady point | testPending point =>
      refine phase.outside (by rw [point]; rfl) ?_ kept.acquisition
      split <;> rfl
  | resetFlags point =>
      have closed := phase.closed (kept.exclusive.clear (.inl point))
      rw [closed.resetFlags]
      exact phase.outside (by rw [point]; rfl) rfl kept.acquisition
  | raisePending point =>
      have closed := phase.closed (kept.exclusive.clear (.inr point))
      exact .inr ⟨_, _, _, closed.acquire⟩
  | owner point => exact phase.owner proper point
  | deliver _ sent => exact phase.deliver sent
  | irqTest point => exact phase.irqTest point
  | irqRaise point => exact phase.irqRaise proper point
  | irqNoHandler point =>
      exfalso
      rcases phase with closed | ⟨earlier, owner, accept, held⟩
      · have idle := closed.linked.irq
        rw [point] at idle
        contradiction
      · have handler := held.linked.irq
        rw [point] at handler
        cases accept <;> contradiction
  | spawn => exact phase.spawn disciplined
  | receiver moved => exact phase.receiver proper disciplined moved
  | disable | enable => exact phase.frame rfl rfl rfl rfl rfl rfl rfl rfl rfl
  | lower => exact phase.lower.frame rfl rfl rfl rfl rfl rfl rfl rfl rfl
  | spurious | set => exact disciplined.elim

theorem Integrity.responses_step {resp : Option Bytes} (kept : Integrity params state)
    (stepped : step params state action = some next) (returned : next.calls call = .returned resp) :
    resp = some (params.response (params.message call)) := by
  by_cases before : state.calls call = .returned resp
  · exact kept.responses before
  · obtain ⟨_, point⟩ := step_returned stepped before returned
    obtain ⟨earlier, accept, held⟩ := kept.phase.open_of_owner point
    have exchange := held.exchange
    rw [point] at exchange
    exact exchange.finish.2

theorem Integrity.step (proper : Proper params) (kept : Integrity params state)
    (disciplined : Disciplined state action) (stepped : step params state action = some next) :
    Integrity params next where
  exclusive := by
    refine kept.exclusive.step ?_ stepped
    rintro ctl rfl
    exact disciplined.elim
  acquisition := kept.acquisition.step stepped
  responses := kept.responses_step stepped
  phase := .step proper kept disciplined stepped

end Pisces.Channel
