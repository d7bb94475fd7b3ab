import Pisces.Lcall.Thread
import Pisces.Xbuf.Rpc

/-! # The hand-over through `active_lcall`

Every message the interrupt accepted and the thread has not yet begun to
receive is in exactly one place: with the running `lcall_handler`, or in
`active_lcall`.  The channel admits no second one before the first is completed,
so the single flag loses nothing.
-/

namespace Pisces.Lcall

open Transition
open Channel (Params Receiver Integrity Disciplined Proper)

variable {params : Params} {state next : State} {action : Action}

/-- Messages whose length `kmalloc` can serve, so that a received length is never
read as -1. -/
structure Serviceable (params : Params) : Prop extends Proper params where
  fits : ∀ call, (params.message call).length < 0xFFFFFFFF

/-- One interrupt per message, no enable and no `pisces_lcall_deinit`; READY may
be lowered at any time. -/
def Plain : Action → Prop
  | .channel .spurious | .channel (.set _) | .deinit => False
  | _ => True

/-- The thread is about to find READY lowered inside `recv_data`. -/
def State.cutsShort (state : State) : Prop :=
  state.thread = .recv ∧ state.receiver.mayAbort = true ∧ state.channel.xbuf.flags.ready = false

/-- The thread's receive does not find READY lowered. -/
def Quiet (state : State) (action : Action) : Prop :=
  Plain action ∧ (action = .thread → ¬ state.cutsShort)

/-- Inside `pisces_xbuf_recv`. -/
def receiving : Receiver → Bool
  | .testActive | .recvLen | .recv _ _ _ => true
  | _ => false

/-- With the dispatched handler. -/
def completing : Receiver → Bool
  | .received _ _ | .testComplete _ | .stage _ _ | .raiseComplete _ | .reply _ _ => true
  | _ => false

def Handler.tokens : Handler → Nat
  | .test | .set => 1
  | .idle | .wake => 0

/-- What the thread's receiver is doing. -/
def Serves (state : State) : Prop :=
  match state.thread with
  | .recv => 0 < state.channel.started ∧ receiving state.receiver = true
  | .stopTest => 0 < state.channel.started ∧ ∃ len read, state.receiver = .received len read
  | .dispatch => 0 < state.channel.started ∧ completing state.receiver = true
  | .exited => False
  | _ => 0 < state.channel.started → state.receiver = .done

/-- The last received buffer, until it is dispatched. -/
def undispatched (state : State) : List Bytes :=
  if state.thread = .stopTest then [buffer state.receiver] else []

structure Served (state : State) : Prop where
  running : state.shouldStop = false
  tokens : state.channel.accepted =
    state.channel.started + state.handler.tokens + state.activeLcall.toNat
  noticed : state.thread = .check ∨ state.thread = .clear → state.activeLcall = true
  awake : state.thread = .asleep → state.activeLcall = true → state.handler = .wake
  serves : Serves state
  dispatched : state.channel.received = state.dispatched ++ undispatched state

theorem Served.initial {size : Nat} (start : Initial size state) : Served state where
  running := start.shouldStop
  tokens := by
    simp [start.channel.accepted, start.channel.started, start.handler, start.activeLcall, Handler.tokens]
  noticed := by
    rw [start.thread]
    simp
  awake := by
    rw [start.thread]
    simp
  serves := by
    simp [Serves, start.thread, start.channel.started]
  dispatched := by
    simp [start.channel.received, start.dispatched, undispatched, start.thread]

theorem Served.disciplined {inner : Channel.Action} (served : Served state) (quiet : Quiet state action)
    (stepped : step params state action = some next) (found : projected state action = some inner) :
    Disciplined state.channel inner := by
  cases action with
  | channel inner =>
      cases found
      cases inner with
      | spurious | set => exact quiet.1.elim
      | spawn | receiver => cases stepped
      | _ => trivial
  | thread =>
      cases point : state.thread with
      | clear =>
          simp only [projected, point] at found
          cases found
          have active := served.noticed (.inr point)
          have tokens := served.tokens
          rw [active] at tokens
          simp only [Bool.toNat_true] at tokens
          change state.channel.started < state.channel.accepted
          omega
      | recv =>
          simp only [projected, point] at found
          cases found
          intro aborts
          by_contra lowered
          exact quiet.2 rfl ⟨point, aborts, by simpa using lowered⟩
      | dispatch =>
          simp only [projected, point] at found
          cases found
          have serves := served.serves
          simp only [Serves, point] at serves
          intro aborts
          change state.receiver.mayAbort = true at aborts
          cases receiver : state.receiver with
          | recv =>
              rw [receiver] at serves
              exact absurd serves.2 (by simp [completing])
          | _ =>
              rw [receiver] at aborts
              exact absurd aborts (by simp [Receiver.mayAbort])
      | _ =>
          simp only [projected, point] at found
          cases found
  | handler => cases found
  | deinit => cases found

/-- At most one accepted message waits for a receiver, and it holds the buffer. -/
theorem waiting_message (phase : Channel.Phase params state.channel) :
    state.channel.accepted ≤ state.channel.started + 1 ∧
      (state.channel.started < state.channel.accepted → state.channel.xbuf.flags.pending = true) ∧
      (state.channel.irq ≠ .idle → state.channel.accepted = state.channel.started) := by
  rcases phase with closed | ⟨earlier, owner, accept, held⟩
  · have accepted := closed.linked.accepted
    have started := closed.linked.started
    have irq := closed.linked.irq
    simp only [Channel.Accept.handed, Channel.Accept.begun] at accepted started
    exact ⟨by omega, fun _ => by omega, fun busy => absurd irq busy⟩
  · have accepted := held.linked.accepted
    have started := held.linked.started
    have irq := held.linked.irq
    cases accept <;>
      simp only [Channel.Accept.handed, Channel.Accept.begun, Channel.Accept.irq] at accepted started irq <;>
      exact ⟨by omega, fun _ => held.pending, fun busy => by first | omega | exact absurd irq busy⟩

theorem Served.channel_step {inner : Channel.Action} (served : Served state)
    (phase : Channel.Phase params state.channel)
    (stepped : channelStep params state inner = some next) : Served next := by
  obtain ⟨_, _, irqs⟩ := waiting_message phase
  have tokens := served.tokens
  have spawned : inner ≠ .spawn := by
    intro same
    rw [same] at stepped
    cases stepped
  have received : ∀ index, inner ≠ .receiver index := by
    intro index same
    rw [same] at stepped
    cases stepped
  have frame : ∀ {channel : Channel.State} {handler : Handler},
      Channel.step params state.channel inner = some channel →
      channel.accepted = channel.started + handler.tokens + state.activeLcall.toNat →
      (state.thread = .asleep → state.activeLcall = true → handler = .wake) →
      Served { state with channel, handler } := by
    intro channel handler moved count awake
    obtain ⟨started, receivers, history⟩ := Channel.step_receivers spawned received moved
    have same : State.receiver { state with channel, handler } = state.receiver := by
      simp only [State.receiver, State.current, started, receivers]
    refine ⟨served.running, count, served.noticed, awake, ?_, ?_⟩
    · have serves := served.serves
      unfold Serves at serves ⊢
      rw [same, started]
      exact serves
    · have dispatched := served.dispatched
      unfold undispatched at dispatched ⊢
      rw [same, history]
      exact dispatched
  have kept : ∀ {channel : Channel.State}, inner ≠ .irq →
      Channel.step params state.channel inner = some channel → Served { state with channel } := by
    intro channel other moved
    apply frame moved ?_ served.awake
    rw [Channel.step_accepted other moved, (Channel.step_receivers spawned received moved).1]
    exact tokens
  cases inner with
  | spawn => exact absurd rfl spawned
  | receiver index => exact absurd rfl (received index)
  | deliver | spurious =>
      simp only [channelStep] at stepped
      split at stepped
      · obtain ⟨channel, moved, rfl⟩ := Option.map_eq_some_iff.mp stepped
        exact kept (by simp) moved
      · cases stepped
  | irq =>
      simp only [channelStep] at stepped
      obtain ⟨channel, moved, rfl⟩ := Option.map_eq_some_iff.mp stepped
      have started := (Channel.step_receivers spawned received moved).1
      cases point : state.channel.irq with
      | idle =>
          simp only [Channel.step, point] at moved
          cases moved
      | test | noHandler =>
          simp only [Channel.step, point] at moved
          cases moved
          simp only [reduceCtorEq, false_and, if_false]
          exact frame (by simp only [Channel.step, point]) tokens served.awake
      | raise =>
          have none := irqs (by simp [point])
          have unset : state.handler.tokens = 0 ∧ state.activeLcall.toNat = 0 := by omega
          have inactive : state.activeLcall = false := by simpa using unset.2
          have accepted : channel.accepted =
              if params.hasHandler then state.channel.accepted + 1 else state.channel.accepted := by
            simp only [Channel.step, point] at moved
            cases moved
            rfl
          apply frame moved
          · rw [accepted, started]
            simp only [true_and]
            split
            · simp only [Handler.tokens]
              omega
            · omega
          · intro _ active
            rw [inactive] at active
            contradiction
  | _ =>
      simp only [channelStep] at stepped
      obtain ⟨channel, moved, rfl⟩ := Option.map_eq_some_iff.mp stepped
      exact kept (by simp) moved

theorem Served.handler_step (served : Served state) (phase : Channel.Phase params state.channel)
    (stepped : handlerStep state = some next) : Served next := by
  obtain ⟨bound, pending, _⟩ := waiting_message phase
  have tokens := served.tokens
  cases point : state.handler with
  | idle =>
      simp only [handlerStep, point] at stepped
      cases stepped
  | test =>
      simp only [handlerStep, point] at stepped
      cases stepped
      rw [point] at tokens
      simp only [Handler.tokens] at tokens
      have raised := pending (by omega)
      have inactive : state.activeLcall = false := by
        cases active : state.activeLcall with
        | false => rfl
        | true =>
            rw [active] at tokens
            simp only [Bool.toNat_true] at tokens
            omega
      rw [if_pos raised]
      refine ⟨served.running, ?_, served.noticed, ?_, served.serves, served.dispatched⟩
      · exact tokens
      · intro _ active
        change state.activeLcall = true at active
        rw [inactive] at active
        contradiction
  | set =>
      simp only [handlerStep, point] at stepped
      cases stepped
      rw [point] at tokens
      simp only [Handler.tokens] at tokens
      have inactive : state.activeLcall.toNat = 0 := by omega
      refine ⟨served.running, ?_, fun _ => rfl, fun _ _ => rfl, served.serves, served.dispatched⟩
      simp only [Handler.tokens, Bool.toNat_true]
      omega
  | wake =>
      simp only [handlerStep, point] at stepped
      cases stepped
      rw [point] at tokens
      have serves := served.serves
      have dispatched := served.dispatched
      have noticed := served.noticed
      cases thread : state.thread with
      | asleep =>
          simp only [Thread.woken]
          simp only [Serves, thread] at serves
          simp only [undispatched, thread] at dispatched
          exact ⟨served.running, tokens, by simp, by simp, serves, dispatched⟩
      | exited => simp [Serves, thread] at serves
      | _ =>
          simp only [Serves, thread] at serves
          simp only [undispatched, thread] at dispatched
          rw [thread] at noticed
          exact ⟨served.running, tokens, noticed, by simp [Thread.woken], serves, dispatched⟩

/-- `pisces_xbuf_recv` ends with a message or, on an inactive buffer, with -1. -/
theorem receiving_step {xbuf after : Xbuf} {response : Bytes → Bytes} {receiver point : Receiver}
    (busy : receiving receiver = true) (moved : receiver.step xbuf response = some (after, point)) :
    receiving point = true ∨ (∃ len read, point = .received len read) ∨ point = .inactive := by
  cases receiver with
  | testActive =>
      cases moved
      split
      · exact .inl rfl
      · exact .inr (.inr rfl)
  | recvLen =>
      cases moved
      unfold enterRecv
      split
      · exact .inl rfl
      · exact .inr (.inl ⟨_, _, rfl⟩)
  | recv pc len read =>
      cases moved
      cases (recvData xbuf len read pc).2 with
      | running following rest => exact .inl rfl
      | finished rest | aborted rest => exact .inr (.inl ⟨_, _, rfl⟩)
  | _ => contradiction

theorem completing_step {xbuf after : Xbuf} {response : Bytes → Bytes} {receiver point : Receiver}
    (busy : completing receiver = true) (moved : receiver.step xbuf response = some (after, point)) :
    (∀ history, Channel.recordReceived history point = history) ∧
      (completing point = true ∨ point = .done ∨ point = .inactive) := by
  cases receiver with
  | received len read => cases moved; exact ⟨fun _ => rfl, .inl rfl⟩
  | testComplete resp =>
      cases moved
      split
      · split <;> exact ⟨fun _ => rfl, .inl rfl⟩
      · exact ⟨fun _ => rfl, .inr (.inr rfl)⟩
  | stage pc resp => cases pc <;> cases moved <;> exact ⟨fun _ => rfl, .inl rfl⟩
  | raiseComplete left =>
      cases moved
      unfold enterSend
      split
      · exact ⟨fun _ => rfl, .inl rfl⟩
      · exact ⟨fun _ => rfl, .inr (.inl rfl)⟩
  | reply pc left =>
      cases moved
      cases (sendData xbuf left pc).2 with
      | running following rest => exact ⟨fun _ => rfl, .inl rfl⟩
      | finished | aborted => exact ⟨fun _ => rfl, .inr (.inl rfl)⟩
  | _ => contradiction

theorem receiver_moved {channel : Channel.State}
    (moved : Channel.step params state.channel (.receiver state.current) = some channel) :
    ∃ after point, state.receiver.step state.channel.xbuf params.response = some (after, point) ∧
      channel.receivers state.current = point ∧ channel.started = state.channel.started ∧
      channel.accepted = state.channel.accepted ∧
      channel.received = Channel.recordReceived state.channel.received point := by
  cases Channel.step_move moved with
  | receiver stepped => exact ⟨_, _, stepped, by simp, rfl, rfl, rfl⟩

/-- The receiver of an open exchange is never turned away, and what it has
received is the message. -/
theorem receiver_sound {channel : Channel.State} {index : Nat} (kept : Integrity params channel)
    (busy : ¬ (channel.receivers index = .done ∨ channel.receivers index = .idle)) :
    channel.receivers index ≠ .inactive ∧
      ∀ len read, channel.receivers index = .received len read → ∃ call, read = params.message call := by
  obtain ⟨earlier, owner, _, held⟩ := kept.phase.of_busy busy
  have exchange := held.exchange
  refine ⟨?_, ?_⟩
  · intro inactive
    rw [inactive] at exchange
    exact exchange.2
  · intro len read received
    rw [received] at exchange
    obtain ⟨_, _, _, _, _, whole⟩ := exchange
    exact ⟨owner, whole⟩

theorem Serviceable.not_error (serviceable : Serviceable params) (call : Nat) :
    isError (params.message call) = false := by
  have fits := serviceable.fits call
  simp only [isError, decide_eq_false_iff_not]
  omega

theorem Served.recv_step (serviceable : Serviceable params) (served : Served state)
    (point : state.thread = .recv) (stepped : threadStep params state = some next)
    (kept : Integrity params next.channel) : Served next := by
  have serves := served.serves
  have history := served.dispatched
  simp only [Serves, point] at serves
  simp only [undispatched, point, reduceCtorEq, if_false, List.append_nil] at history
  simp only [threadStep, point] at stepped
  split at stepped
  · cases stepped
  · rename_i channel moved
    cases stepped
    obtain ⟨after, receiver, inner, current, started, accepted, received⟩ := receiver_moved moved
    have tokens : channel.accepted = channel.started + state.handler.tokens + state.activeLcall.toNat := by
      rw [started, accepted]
      exact served.tokens
    have same : ∀ {thread : Thread}, State.receiver { state with channel, thread } = receiver := by
      intro thread
      simp only [State.receiver, State.current, started]
      exact current
    rcases receiving_step serves.2 inner with busy | ⟨len, read, rfl⟩ | rfl
    · have still : Thread.afterRecv receiver = .recv := by
        cases receiver with
        | testActive | recvLen | recv => rfl
        | _ => contradiction
      have unrecorded : channel.received = state.channel.received := by
        rw [received]
        cases receiver with
        | testActive | recvLen | recv => rfl
        | _ => contradiction
      rw [current, still]
      refine ⟨served.running, tokens, by simp, by simp, ?_, ?_⟩
      · simp only [Serves, same, started]
        exact ⟨serves.1, busy⟩
      · simp only [undispatched, reduceCtorEq, if_false, List.append_nil]
        exact unrecorded.trans history
    · have busy : ¬ (channel.receivers state.current = .done ∨ channel.receivers state.current = .idle) := by
        simp [current]
      obtain ⟨call, whole⟩ := (receiver_sound kept busy).2 len read current
      have sound : isError read = false := by
        rw [whole]
        exact serviceable.not_error call
      have next : Thread.afterRecv (.received len read) = .stopTest := by
        simp [Thread.afterRecv, sound]
      rw [current, next]
      refine ⟨served.running, tokens, by simp, by simp, ?_, ?_⟩
      · simp only [Serves, same, started]
        exact ⟨serves.1, len, read, rfl⟩
      · simp only [undispatched, if_true, same, buffer]
        rw [received, history]
        rfl
    · have busy : ¬ (channel.receivers state.current = .done ∨ channel.receivers state.current = .idle) := by
        simp [current]
      exact absurd current (receiver_sound kept busy).1

theorem Served.dispatch_step (served : Served state) (point : state.thread = .dispatch)
    (stepped : threadStep params state = some next) (kept : Integrity params next.channel) :
    Served next := by
  have serves := served.serves
  have history := served.dispatched
  simp only [Serves, point] at serves
  simp only [undispatched, point, reduceCtorEq, if_false, List.append_nil] at history
  simp only [threadStep, point] at stepped
  split at stepped
  · cases stepped
  · rename_i channel moved
    cases stepped
    obtain ⟨after, receiver, inner, current, started, accepted, received⟩ := receiver_moved moved
    have tokens : channel.accepted = channel.started + state.handler.tokens + state.activeLcall.toNat := by
      rw [started, accepted]
      exact served.tokens
    have same : ∀ {thread : Thread}, State.receiver { state with channel, thread } = receiver := by
      intro thread
      simp only [State.receiver, State.current, started]
      exact current
    obtain ⟨unrecorded, busy | rfl | rfl⟩ := completing_step serves.2 inner
    · have still : Thread.afterComplete receiver = .dispatch := by
        cases receiver with
        | done | inactive => contradiction
        | _ => rfl
      rw [current, still]
      refine ⟨served.running, tokens, by simp, by simp, ?_, ?_⟩
      · simp only [Serves, same, started]
        exact ⟨serves.1, busy⟩
      · simp only [undispatched, reduceCtorEq, if_false, List.append_nil]
        rw [received, unrecorded]
        exact history
    · rw [current]
      refine ⟨served.running, tokens, by simp [Thread.afterComplete], by simp [Thread.afterComplete], ?_, ?_⟩
      · simp [Serves, Thread.afterComplete, same]
      · simp only [undispatched, Thread.afterComplete, reduceCtorEq, if_false, List.append_nil]
        rw [received, unrecorded]
        exact history
    · have busy : ¬ (channel.receivers state.current = .done ∨ channel.receivers state.current = .idle) := by
        simp [current]
      exact absurd current (receiver_sound kept busy).1

theorem Served.thread_step (serviceable : Serviceable params) (served : Served state)
    (stepped : threadStep params state = some next) (kept : Integrity params next.channel) :
    Served next := by
  have serves := served.serves
  have history := served.dispatched
  have tokens := served.tokens
  cases point : state.thread with
  | recv => exact served.recv_step serviceable point stepped kept
  | dispatch => exact served.dispatch_step point stepped kept
  | top | check =>
      simp only [Serves, point] at serves
      simp only [undispatched, point, reduceCtorEq, if_false, List.append_nil] at history
      have noticed := served.noticed
      simp only [threadStep, point, served.running] at stepped
      cases stepped
      refine ⟨rfl, tokens, ?_, by simp, serves, by simpa [undispatched] using history⟩
      intro reached
      apply noticed
      simp_all
  | wait =>
      simp only [Serves, point] at serves
      simp only [undispatched, point, reduceCtorEq, if_false, List.append_nil] at history
      simp only [threadStep, point] at stepped
      cases stepped
      cases active : state.activeLcall with
      | true =>
          rw [active] at tokens
          exact ⟨served.running, tokens, fun _ => rfl, by simp, serves,
            by simpa [undispatched] using history⟩
      | false =>
          rw [active] at tokens
          exact ⟨served.running, tokens, by simp, by simp, serves,
            by simpa [undispatched] using history⟩
  | clear =>
      simp only [undispatched, point, reduceCtorEq, if_false, List.append_nil] at history
      have active := served.noticed (.inr point)
      rw [active] at tokens
      simp only [Bool.toNat_true] at tokens
      simp only [threadStep, point, Channel.step] at stepped
      cases stepped
      refine ⟨served.running, ?_, by simp, by simp, ?_, ?_⟩
      · simp only [Bool.toNat_false]
        omega
      · simp [Serves, State.receiver, State.current, receiving]
      · simpa [undispatched] using history
  | stopTest =>
      simp only [Serves, point] at serves
      simp only [undispatched, point, if_true] at history
      obtain ⟨begun, len, read, received⟩ := serves
      simp only [threadStep, point, served.running] at stepped
      cases stepped
      refine ⟨rfl, tokens, by simp, by simp, ?_, ?_⟩
      · refine ⟨begun, ?_⟩
        change completing state.receiver = true
        rw [received]
        rfl
      · simpa [undispatched] using history
  | asleep | exited =>
      simp only [threadStep, point] at stepped
      cases stepped

/-- The thread's state and the channel's, together. -/
structure Sound (params : Params) (state : State) : Prop where
  integrity : Integrity params state.channel
  served : Served state

theorem Sound.initial {size : Nat} (start : Initial size state) : Sound params state :=
  ⟨.initial start.channel, .initial start⟩

theorem Sound.step (serviceable : Serviceable params) (sound : Sound params state)
    (quiet : Quiet state action) (stepped : step params state action = some next) :
    Sound params next := by
  have running : action ≠ .deinit := by
    intro same
    rw [same] at quiet
    exact quiet.1
  have inner := step_channel stepped running
  have kept : Integrity params next.channel := by
    cases found : projected state action with
    | none =>
        rw [found] at inner
        rw [inner]
        exact sound.integrity
    | some move =>
        rw [found] at inner
        exact sound.integrity.step serviceable.toProper (sound.served.disciplined quiet stepped found) inner
  refine ⟨kept, ?_⟩
  cases action with
  | channel move => exact sound.served.channel_step sound.integrity.phase stepped
  | handler => exact sound.served.handler_step sound.integrity.phase stepped
  | thread => exact sound.served.thread_step serviceable stepped kept
  | deinit => exact absurd rfl running

end Pisces.Lcall
