import Pisces.Lcall.Complete

/-! # Long calls sent one after another

An enclave that issues a long call only after the response to the previous one
gets each of them dispatched exactly once and in order.  From every state the
run can be carried on until the current call has returned, so no hand-over is
ever lost.
-/

namespace Pisces.Lcall

open Transition
open Channel (Params Running Steady Working)

variable {params : Params} {state next : State} {action : Action}

/-- Calls are issued in turn, one interrupt per message, READY stays set and the
thread is not stopped. -/
def InTurn (state : State) : Action → Prop
  | .channel .spurious | .channel (.lower _) | .deinit => False
  | .channel (.start call) =>
      ∀ earlier, earlier < call → ∃ resp, state.channel.calls earlier = .returned resp
  | _ => True

/-- Calls up to `count` have been issued, all but the last have returned. -/
structure Turn (channel : Channel.State) (count : Nat) : Prop where
  returned : ∀ call, call < count → ∃ resp, channel.calls call = .returned resp
  idle : ∀ call, count < call → channel.calls call = .idle
  acquired : channel.acquired =
    List.range (if (channel.calls count).hasAcquired then count + 1 else count)

theorem Turn.last {channel : Channel.State} {count call : Nat} (turn : Turn channel count)
    (started : channel.calls call ≠ .idle) (unfinished : ∀ resp, channel.calls call ≠ .returned resp) :
    call = count := by
  rcases Nat.lt_trichotomy call count with before | same | after
  · obtain ⟨resp, returned⟩ := turn.returned call before
    exact absurd returned (unfinished resp)
  · exact same
  · exact absurd (turn.idle call after) started

theorem Turn.move {channel after : Channel.State} {count : Nat} {point : Channel.Call}
    (turn : Turn channel count) (calls : after.calls = Function.update channel.calls count point)
    (same : point.hasAcquired = (channel.calls count).hasAcquired)
    (acquired : after.acquired = channel.acquired) : Turn after count where
  returned := by
    intro call before
    rw [calls, Function.update_of_ne (Nat.ne_of_lt before)]
    exact turn.returned call before
  idle := by
    intro call later
    rw [calls, Function.update_of_ne (Nat.ne_of_gt later)]
    exact turn.idle call later
  acquired := by
    rw [calls, Function.update_self, same, acquired]
    exact turn.acquired

theorem Turn.acquire {channel after : Channel.State} {count : Nat}
    (turn : Turn channel count) (point : channel.calls count = .raisePending)
    (calls : after.calls = Function.update channel.calls count (.owner .unlock))
    (acquired : after.acquired = channel.acquired ++ [count]) : Turn after count where
  returned := by
    intro call before
    rw [calls, Function.update_of_ne (Nat.ne_of_lt before)]
    exact turn.returned call before
  idle := by
    intro call later
    rw [calls, Function.update_of_ne (Nat.ne_of_gt later)]
    exact turn.idle call later
  acquired := by
    have before := turn.acquired
    rw [point] at before
    rw [calls, Function.update_self, acquired, before]
    simp [Channel.Call.hasAcquired, List.range_succ]

theorem Turn.start {channel after : Channel.State} {count call : Nat} (turn : Turn channel count)
    (idle : channel.calls call = .idle)
    (inTurn : ∀ earlier, earlier < call → ∃ resp, channel.calls earlier = .returned resp)
    (calls : after.calls = Function.update channel.calls call .lock)
    (acquired : after.acquired = channel.acquired) : ∃ next, Turn after next := by
  rcases Nat.lt_trichotomy call count with before | rfl | later
  · obtain ⟨resp, returned⟩ := turn.returned call before
    rw [idle] at returned
    contradiction
  · refine ⟨call, turn.move calls ?_ acquired⟩
    rw [idle]
    rfl
  · obtain ⟨resp, finished⟩ := inTurn count later
    have following : call = count + 1 := by
      by_contra apart
      obtain ⟨resp, returned⟩ := inTurn (count + 1) (by omega)
      rw [turn.idle (count + 1) (by omega)] at returned
      contradiction
    subst following
    refine ⟨count + 1, ?_, ?_, ?_⟩
    · intro earlier before
      rw [calls, Function.update_of_ne (by omega)]
      exact inTurn earlier before
    · intro other beyond
      rw [calls, Function.update_of_ne (by omega)]
      exact turn.idle other (by omega)
    · have before := turn.acquired
      rw [finished] at before
      rw [calls, Function.update_self, acquired, before]
      rfl

theorem Turn.step {channel after : Channel.State} {count : Nat} {inner : Channel.Action}
    (turn : Turn channel count)
    (inTurn : ∀ call, inner = .start call → ∀ earlier, earlier < call →
      ∃ resp, channel.calls earlier = .returned resp)
    (stepped : Channel.step params channel inner = some after) : ∃ next, Turn after next := by
  cases Channel.step_move stepped with
  | start idle => exact turn.start idle (inTurn _ rfl) rfl rfl
  | lock point | resetFlags point | unlockErr point | unlockBusy point | wake point | signal point =>
      obtain rfl := turn.last (by rw [point]; simp) (by rw [point]; simp)
      exact ⟨_, turn.move rfl (by rw [point]; rfl) rfl⟩
  | testReady point | testPending point =>
      obtain rfl := turn.last (by rw [point]; simp) (by rw [point]; simp)
      refine ⟨_, turn.move rfl ?_ rfl⟩
      rw [point]
      split <;> rfl
  | raisePending point =>
      obtain rfl := turn.last (by rw [point]; simp) (by rw [point]; simp)
      exact ⟨_, turn.acquire point rfl rfl⟩
  | @owner call owner point =>
      obtain rfl := turn.last (by rw [point]; simp) (by rw [point]; simp)
      refine ⟨_, turn.move rfl ?_ rfl⟩
      rw [point, owner.step_hasAcquired]
      rfl
  | _ => exact ⟨count, turn.returned, turn.idle, turn.acquired⟩

/-- Everything that holds between a sender in turn and the thread. -/
structure Calm (params : Params) (size : Nat) (state : State) : Prop where
  running : Running params size state.channel
  served : Served state
  turn : ∃ count, Turn state.channel count

theorem Calm.initial {size : Nat} (start : Initial size state) : Calm params size state where
  running := .initial start.channel
  served := .initial start
  turn := by
    refine ⟨0, ?_, ?_, ?_⟩
    · intro call before
      exact absurd before (Nat.not_lt_zero call)
    · intro call _
      exact start.channel.calls call
    · simp [start.channel.acquired, start.channel.calls 0, Channel.Call.hasAcquired]

theorem Calm.quiet {size : Nat} (calm : Calm params size state) (inTurn : InTurn state action)
    (stepped : step params state action = some next) : Quiet state action := by
  refine ⟨?_, ?_⟩
  · cases action with
    | channel inner =>
        cases inner with
        | spurious => exact inTurn.elim
        | set ctl =>
            have inner := step_channel stepped (by simp)
            simp only [projected] at inner
            generalize next.channel = after at inner
            cases Channel.step_move inner with
            | set point => exact calm.running.ctls ctl point
        | _ => trivial
    | deinit => exact inTurn.elim
    | _ => trivial
  · intro _ cut
    have lowered := cut.2.2
    rw [calm.running.ready] at lowered
    contradiction

theorem Calm.steady {size : Nat} {inner : Channel.Action} (calm : Calm params size state)
    (inTurn : InTurn state action) (stepped : step params state action = some next)
    (found : projected state action = some inner) : Steady state.channel inner := by
  have disciplined := calm.served.disciplined (calm.quiet inTurn stepped) stepped found
  cases inner with
  | spurious => exact disciplined.elim
  | spawn => exact disciplined
  | lower ctl =>
      cases action with
      | channel inner =>
          cases found
          exact inTurn.elim
      | thread =>
          simp only [projected] at found
          split at found <;> cases found
      | _ => cases found
  | _ => trivial

theorem Calm.step {size : Nat} (serviceable : Serviceable params) (calm : Calm params size state)
    (inTurn : InTurn state action) (stepped : step params state action = some next) :
    Calm params size next := by
  have quiet := calm.quiet inTurn stepped
  have running : action ≠ .deinit := by
    intro same
    rw [same] at inTurn
    exact inTurn
  have inner := step_channel stepped running
  have sound : Sound params next :=
    Sound.step serviceable ⟨calm.running.integrity, calm.served⟩ quiet stepped
  obtain ⟨count, turn⟩ := calm.turn
  cases found : projected state action with
  | none =>
      rw [found] at inner
      refine ⟨?_, sound.served, count, ?_⟩
      · rw [inner]
        exact calm.running
      · rw [inner]
        exact turn
  | some move =>
      rw [found] at inner
      refine ⟨calm.running.step serviceable.toProper (calm.steady inTurn stepped found) inner, sound.served,
        turn.step ?_ inner⟩
      rintro call rfl
      cases action with
      | channel inner =>
          cases found
          exact inTurn
      | thread =>
          simp only [projected] at found
          split at found <;> cases found
      | _ => cases found

theorem Calm.path {size : Nat} {after : State} (serviceable : Serviceable params)
    (calm : Calm params size state) (path : (system params size).Path InTurn state after) :
    Calm params size after :=
  path.invariant calm (fun kept inTurn stepped => kept.step serviceable inTurn stepped)

/-! ## Carrying on -/

/-- The system can make the channel take this step. -/
def Performs (params : Params) (size : Nat) (state : State) (inner : Channel.Action) : Prop :=
  ∃ after, (system params size).Path InTurn state after ∧
    Channel.step params state.channel inner = some after.channel

theorem Performs.first {size : Nat} {inner : Channel.Action} (inTurn : InTurn state action)
    (stepped : step params state action = some next) (same : next.channel = state.channel)
    (rest : Performs params size next inner) : Performs params size state inner := by
  obtain ⟨after, path, reached⟩ := rest
  rw [same] at reached
  exact ⟨after, .head inTurn stepped path, reached⟩

theorem Performs.last {size : Nat} {inner : Channel.Action} (inTurn : InTurn state action)
    (stepped : step params state action = some next)
    (moved : Channel.step params state.channel inner = some next.channel) :
    Performs params size state inner :=
  ⟨next, .single inTurn stepped, moved⟩

theorem inTurn_thread : InTurn state .thread := trivial

theorem inTurn_handler : InTurn state .handler := trivial

/-- While an accepted message waits, the thread is on its way to it. -/
theorem Calm.thread_free {size : Nat} (calm : Calm params size state)
    (waiting : state.channel.started < state.channel.accepted) :
    state.thread = .top ∨ state.thread = .wait ∨ state.thread = .asleep ∨ state.thread = .check ∨
      state.thread = .clear := by
  have serves := calm.served.serves
  have finished : 0 < state.channel.started → state.receiver = .done := by
    intro begun
    rcases calm.running.integrity.phase with closed | ⟨earlier, owner, accept, held⟩
    · have accepted := closed.linked.accepted
      have started := closed.linked.started
      simp only [Channel.Accept.handed, Channel.Accept.begun] at accepted started
      omega
    · have accepted := held.linked.accepted
      have started := held.linked.started
      cases accept with
      | accepted =>
          simp only [Channel.Accept.begun] at started
          apply held.linked.served
          simp only [State.current]
          omega
      | _ =>
          simp only [Channel.Accept.handed, Channel.Accept.begun] at accepted started
          omega
  cases point : state.thread with
  | recv | dispatch =>
      simp only [Serves, point] at serves
      obtain ⟨begun, busy⟩ := serves
      rw [finished begun] at busy
      contradiction
  | stopTest =>
      simp only [Serves, point] at serves
      obtain ⟨begun, len, read, received⟩ := serves
      rw [finished begun] at received
      contradiction
  | exited =>
      simp only [Serves, point] at serves
  | _ => simp

section Spawning

variable {size : Nat} (serviceable : Serviceable params) (calm : Calm params size state)
  (waiting : state.channel.started < state.channel.accepted)

theorem performs_clear (point : state.thread = .clear) : Performs params size state .spawn := by
  let channel : Channel.State := { state.channel with
    receivers := Function.update state.channel.receivers state.channel.started .testActive
    started := state.channel.started + 1 }
  have moved : Channel.step params state.channel .spawn = some channel := rfl
  have stepped : step params state .thread = some { state with
      channel, activeLcall := false, thread := .recv } := by
    simp only [step, threadStep, point, moved]
  exact .last inTurn_thread stepped moved

theorem performs_check (running : state.shouldStop = false) (point : state.thread = .check) :
    Performs params size state .spawn := by
  have stepped : step params state .thread = some { state with thread := .clear } := by
    simp [step, threadStep, point, running]
  exact .first inTurn_thread stepped rfl (performs_clear rfl)

theorem performs_wait (running : state.shouldStop = false) (active : state.activeLcall = true)
    (point : state.thread = .wait) : Performs params size state .spawn := by
  have stepped : step params state .thread = some { state with thread := .check } := by
    simp [step, threadStep, point, active]
  exact .first inTurn_thread stepped rfl (performs_check running rfl)

theorem performs_top (running : state.shouldStop = false) (active : state.activeLcall = true)
    (point : state.thread = .top) : Performs params size state .spawn := by
  have stepped : step params state .thread = some { state with thread := .wait } := by
    simp [step, threadStep, point, running]
  exact .first inTurn_thread stepped rfl (performs_wait running active rfl)

include calm waiting

theorem performs_active (active : state.activeLcall = true) : Performs params size state .spawn := by
  have running := calm.served.running
  rcases calm.thread_free waiting with point | point | point | point | point
  · exact performs_top running active point
  · exact performs_wait running active point
  · have wakes := calm.served.awake point active
    have stepped : step params state .handler = some { state with thread := .wait, handler := .idle } := by
      simp [step, handlerStep, wakes, point, Thread.woken]
    exact .first inTurn_handler stepped rfl (performs_wait running active rfl)
  · exact performs_check running point
  · exact performs_clear point

include serviceable

theorem performs_set (handler : state.handler = .set) : Performs params size state .spawn := by
  have stepped : step params state .handler = some { state with activeLcall := true, handler := .wake } := by
    simp [step, handlerStep, handler]
  have next := calm.step serviceable inTurn_handler stepped
  exact .first inTurn_handler stepped rfl (performs_active next waiting rfl)

/-- An accepted message gets the thread to begin receiving. -/
theorem performs_spawn : Performs params size state .spawn := by
  cases active : state.activeLcall with
  | true => exact performs_active calm waiting active
  | false =>
      have tokens := calm.served.tokens
      rw [active, Bool.toNat_false] at tokens
      cases handler : state.handler with
      | idle | wake =>
          rw [handler] at tokens
          simp only [Handler.tokens] at tokens
          omega
      | set => exact performs_set serviceable calm waiting handler
      | test =>
          have pending := (waiting_message calm.running.integrity.phase).2.1 waiting
          have stepped : step params state .handler = some { state with handler := .set } := by
            simp [step, handlerStep, handler, pending]
          have next := calm.step serviceable inTurn_handler stepped
          exact .first inTurn_handler stepped rfl (performs_set serviceable next waiting rfl)

end Spawning

theorem performs_complete {size : Nat} {channel : Channel.State} (point : state.thread = .dispatch)
    (moved : Channel.step params state.channel (.receiver state.current) = some channel) :
    Performs params size state (.receiver state.current) := by
  have stepped : step params state .thread = some { state with
      channel, thread := .afterComplete (channel.receivers state.current) } := by
    simp only [step, threadStep, point, moved]
  exact .last inTurn_thread stepped moved

theorem performs_receiver {size index : Nat} {channel : Channel.State} (calm : Calm params size state)
    (moved : Channel.step params state.channel (.receiver index) = some channel) :
    Performs params size state (.receiver index) := by
  have busy : ¬ (state.channel.receivers index = .done ∨ state.channel.receivers index = .idle) := by
    intro still
    cases Channel.step_move moved with
    | receiver inner =>
        rcases still with still | still <;> rw [still] at inner <;> cases inner
  obtain ⟨earlier, owner, mine, held⟩ := calm.running.integrity.phase.of_busy busy
  have started := held.linked.started
  simp only [Channel.Accept.begun] at started
  have current : index = state.current := by
    simp only [State.current]
    omega
  subst current
  have serves := calm.served.serves
  cases point : state.thread with
  | recv =>
      have stepped : step params state .thread = some { state with
          channel, thread := .afterRecv (channel.receivers state.current) } := by
        simp only [step, threadStep, point, moved]
      exact .last inTurn_thread stepped moved
  | dispatch => exact performs_complete point moved
  | stopTest =>
      have runs : ¬ state.shouldStop = true := by simp [calm.served.running]
      have stepped : step params state .thread = some { state with
          thread := .dispatch, dispatched := state.dispatched ++ [buffer state.receiver] } := by
        simp only [step, threadStep, point, if_neg runs]
      have complete : Performs params size { state with
          thread := .dispatch, dispatched := state.dispatched ++ [buffer state.receiver] }
          (.receiver state.current) := performs_complete rfl moved
      exact .first inTurn_thread stepped rfl complete
  | exited =>
      simp only [Serves, point] at serves
  | _ =>
      simp only [Serves, point] at serves
      exact absurd (.inl (serves (by omega))) busy

theorem performs_deliver {size : Nat} {channel : Channel.State} (calm : Calm params size state)
    (moved : Channel.step params state.channel .deliver = some channel) :
    Performs params size state .deliver := by
  have direct : ∀ {state : State}, state.handler = .idle →
      Channel.step params state.channel .deliver = some channel → Performs params size state .deliver := by
    intro state idle moved
    have stepped : step params state (.channel .deliver) = some { state with channel } := by
      simp [step, channelStep, idle, moved]
    have inTurn : InTurn state (.channel .deliver) := trivial
    exact .last inTurn stepped moved
  cases handler : state.handler with
  | idle => exact direct handler moved
  | wake =>
      have stepped : step params state .handler =
          some { state with thread := state.thread.woken, handler := .idle } := by
        simp [step, handlerStep, handler]
      exact .first inTurn_handler stepped rfl (direct rfl moved)
  | test | set =>
      have tokens := calm.served.tokens
      rw [handler] at tokens
      simp only [Handler.tokens] at tokens
      rcases calm.running.integrity.phase with closed | ⟨earlier, owner, accept, held⟩
      · have accepted := closed.linked.accepted
        have started := closed.linked.started
        simp only [Channel.Accept.handed, Channel.Accept.begun] at accepted started
        omega
      · have accepted := held.linked.accepted
        have started := held.linked.started
        have ipis := held.linked.ipis
        cases Channel.step_move moved with
        | deliver _ sent =>
            cases accept <;>
              simp only [Channel.Accept.handed, Channel.Accept.begun, Channel.Accept.ipis] at accepted started ipis <;>
              omega

/-- Whatever the channel can do to carry on, the system can make it do. -/
theorem Calm.performs {size : Nat} {inner : Channel.Action} {channel : Channel.State}
    (serviceable : Serviceable params) (calm : Calm params size state)
    (working : Working state.channel inner) (moved : Channel.step params state.channel inner = some channel) :
    Performs params size state inner := by
  cases inner with
  | call call =>
      have stepped : Lcall.step params state (.channel (.call call)) = some { state with channel } := by
        simp [Lcall.step, channelStep, moved]
      have inTurn : InTurn state (.channel (.call call)) := trivial
      exact .last inTurn stepped moved
  | deliver => exact performs_deliver calm moved
  | irq =>
      have stepped : Lcall.step params state (.channel .irq) = some { state with
          channel
          handler := if state.channel.irq = .raise ∧ params.hasHandler then .test else state.handler } := by
        simp only [Lcall.step, channelStep, moved, Option.map_some]
      have inTurn : InTurn state (.channel .irq) := trivial
      exact .last inTurn stepped moved
  | spawn => exact performs_spawn serviceable calm working
  | receiver index => exact performs_receiver calm moved
  | _ => exact working.elim

/-- A long call that was issued can still be answered. -/
theorem Calm.returns {size call : Nat} (serviceable : Serviceable params) (positive : 0 < size)
    (calm : Calm params size state) (started : state.channel.calls call ≠ .idle) :
    ∃ after resp, (system params size).Path InTurn state after ∧ Calm params size after ∧
      after.channel.calls call = .returned resp := by
  obtain ⟨target, resp, path, returned⟩ :=
    calm.running.returns serviceable.toProper positive started
  have matched : ∀ {state inner channel}, Calm params size state → Working state.channel inner →
      (Channel.system params size).step state.channel inner = some channel →
      ∃ after, (system params size).Path InTurn state after ∧ after.channel = channel ∧
        Calm params size after := by
    intro state inner channel calm working moved
    obtain ⟨after, path, performed⟩ := calm.performs serviceable working moved
    have same : some after.channel = some channel := performed.symm.trans moved
    exact ⟨after, path, Option.some.inj same, calm.path serviceable path⟩
  obtain ⟨after, lifted, rfl, reached⟩ := System.Path.lift State.channel path calm matched
  exact ⟨after, resp, lifted, reached, returned⟩

/-! ## Order -/

/-- Every long call dispatched so far was dispatched once, in the order of
issue; an answered one is among them. -/
structure InOrder (params : Params) (state : State) : Prop where
  dispatched : state.dispatched = (List.range state.dispatched.length).map params.message
  issued : ∀ call, call < state.dispatched.length → state.channel.calls call ≠ .idle
  answered : ∀ call resp, state.channel.calls call = .returned resp → call < state.dispatched.length

theorem Turn.take_range {channel : Channel.State} {count length : Nat} (turn : Turn channel count)
    (bound : length ≤ channel.acquired.length) : channel.acquired.take length = List.range length := by
  rw [turn.acquired, List.length_range] at bound
  rw [turn.acquired, List.take_range, Nat.min_eq_left bound]

/-- A received message that is not dispatched yet belongs to a call that has not
returned. -/
theorem Calm.dispatched_of_returned {size call : Nat} {resp : Option Bytes}
    (calm : Calm params size state) (returned : state.channel.calls call = .returned resp) :
    call < state.dispatched.length := by
  have integrity := calm.running.integrity
  have dispatched := calm.served.dispatched
  have serves := calm.served.serves
  obtain ⟨count, turn⟩ := calm.turn
  have acquired : call ∈ state.channel.acquired := by
    rw [integrity.acquisition.mem, returned]
    rfl
  by_cases point : state.thread = .stopTest
  · simp only [Serves, point] at serves
    obtain ⟨_, len, read, received⟩ := serves
    have busy : ¬ (state.channel.receivers state.current = .done ∨
        state.channel.receivers state.current = .idle) := by
      change ¬ (state.receiver = .done ∨ state.receiver = .idle)
      simp [received]
    obtain ⟨earlier, owner, _, held⟩ := integrity.phase.of_busy busy
    have apart : call ≠ owner := by
      intro same
      rw [same] at returned
      exact held.not_returned returned
    have history := held.received
    change state.channel.received = earlier.map params.message ++
      (if (Channel.Accept.running state.receiver).hasMessage then _ else _) at history
    rw [received] at history
    have lengths : state.dispatched.length = earlier.length := by
      have same := congrArg List.length (dispatched.symm.trans history)
      simpa [undispatched, point, Channel.Accept.hasMessage, Channel.Receiver.hasMessage] using same
    have before : earlier = List.range earlier.length := by
      have bound : earlier.length ≤ state.channel.acquired.length := by simp [held.acquired]
      rw [← turn.take_range bound, held.acquired, List.take_left]
    rw [held.acquired, List.mem_append, List.mem_singleton] at acquired
    have member := acquired.resolve_right apart
    rw [before] at member
    rw [lengths]
    exact List.mem_range.mp member
  · have same : state.channel.received = state.dispatched := by
      simpa [undispatched, point] using dispatched
    have once := integrity.delivered_of_returned returned
    have member : call ∈ state.channel.delivered := List.count_pos_iff.mp (by omega)
    have bound : state.channel.received.length ≤ state.channel.acquired.length := by
      have lengths := congrArg List.length integrity.phase.delivered.1
      rw [List.length_map, Channel.State.delivered, List.length_take] at lengths
      omega
    rw [Channel.State.delivered, turn.take_range bound, same] at member
    exact List.mem_range.mp member

theorem Calm.inOrder {size : Nat} (calm : Calm params size state) : InOrder params state := by
  have integrity := calm.running.integrity
  obtain ⟨count, turn⟩ := calm.turn
  have dispatched := (Sound.mk integrity calm.served).wholeOnly.dispatched
  have bound : state.dispatched.length ≤ state.channel.acquired.length := by
    have lengths := congrArg List.length dispatched
    rw [List.length_map, List.length_take] at lengths
    omega
  refine ⟨?_, ?_, ?_⟩
  · rw [turn.take_range bound] at dispatched
    exact dispatched
  · intro call below idle
    have member : call ∈ state.channel.acquired := by
      rw [turn.acquired, List.length_range] at bound
      rw [turn.acquired]
      exact List.mem_range.mpr (by omega)
    rw [integrity.acquisition.mem, idle] at member
    contradiction
  · intro call resp returned
    exact calm.dispatched_of_returned returned

theorem calm_of_reachable {size : Nat} (serviceable : Serviceable params)
    (reached : (system params size).Reachable InTurn state) : Calm params size state :=
  reached.invariant Calm.initial (fun calm inTurn stepped => calm.step serviceable inTurn stepped)

/-- Long calls sent in turn are dispatched exactly once and in order, and each
one that was issued can still be dispatched and answered. -/
theorem lcalls_in_order (params : Params) (size : Nat) (serviceable : Serviceable params)
    (positive : 1 ≤ size) (state : State) (reached : (system params size).Reachable InTurn state) :
    InOrder params state ∧
      ∀ call, state.channel.calls call ≠ .idle → ∃ after resp, (system params size).Path InTurn state after ∧
        InOrder params after ∧ call < after.dispatched.length ∧
        after.channel.calls call = .returned resp := by
  have calm := calm_of_reachable serviceable reached
  refine ⟨calm.inOrder, ?_⟩
  intro call started
  obtain ⟨after, resp, path, settled, returned⟩ := calm.returns serviceable positive started
  exact ⟨after, resp, path, settled.inOrder, settled.dispatched_of_returned returned, returned⟩

/-- Two long calls, one after the other. -/
def twoCalls : List Action :=
  let call (index : Nat) : List Action :=
    .channel (.start index) :: List.replicate 10 (.channel (.call index)) ++
      [.channel .deliver, .channel .irq, .channel .irq, .handler, .handler, .handler] ++
      List.replicate 17 .thread ++ List.replicate 7 (.channel (.call index)) ++ List.replicate 4 .thread ++
      List.replicate 5 (.channel (.call index))
  call 0 ++ call 1

def isReturned : Channel.Call → Bool
  | .returned _ => true
  | _ => false

def inTurn (state : State) : Action → Bool
  | .channel .spurious | .channel (.lower _) | .deinit => false
  | .channel (.start call) => (List.range call).all fun earlier => isReturned (state.channel.calls earlier)
  | _ => true

theorem inTurn_sound (checked : inTurn state action = true) : InTurn state action := by
  cases action with
  | channel inner =>
      cases inner with
      | start call =>
          intro earlier before
          have returned := List.all_eq_true.mp checked earlier (List.mem_range.mpr before)
          cases point : state.channel.calls earlier with
          | returned resp => exact ⟨resp, rfl⟩
          | _ =>
              rw [point] at returned
              contradiction
      | spurious | lower => contradiction
      | _ => trivial
  | deinit => contradiction
  | _ => trivial

theorem lcalls_in_order_twoCalls :
    ∃ state, (system Channel.echo 1).Reachable InTurn state ∧ state.dispatched = [[0], [0]] ∧
      state.channel.calls 1 = .returned (some [1, 0]) ∧ InOrder Channel.echo state := by
  obtain ⟨state, executed, observed⟩ := Option.map_eq_some_iff.mp
    (show ((system Channel.echo 1).run inTurn (boot 1) twoCalls).map
      (fun state => (state.dispatched, state.channel.calls 1)) =
        some ([[0], [0]], .returned (some [1, 0])) by decide +kernel)
  obtain ⟨dispatched, returned⟩ := Prod.mk.inj observed
  have reached : (system Channel.echo 1).Reachable InTurn state :=
    ⟨boot 1, boot_initial 1, System.run_path inTurn_sound executed⟩
  exact ⟨state, reached, dispatched, returned,
    (lcalls_in_order Channel.echo 1 echo_serviceable (Nat.le_refl 1) state reached).1⟩

end Pisces.Lcall
