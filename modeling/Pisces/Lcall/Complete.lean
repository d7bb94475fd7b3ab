import Pisces.Lcall.Mailbox

/-! # Only complete messages are acted on

`recv_data` reports an aborted transfer as 0, and the thread looks for -1 only:
a receive that finds READY lowered hands the dispatcher the bytes it has.
-/

namespace Pisces.Lcall

open Transition
open Channel (Params)

variable {params : Params} {state next : State}

/-- Every dispatched buffer is the whole message of its call, and a call that
returned 0 had its message consumed and its response received in full. -/
structure WholeOnly (params : Params) (state : State) : Prop where
  dispatched : state.dispatched =
    (state.channel.acquired.take state.dispatched.length).map params.message
  consumed : state.channel.received = state.channel.delivered.map params.message
  returned : ∀ call resp, state.channel.calls call = .returned resp →
    state.channel.delivered.count call = 1 ∧ resp = some (params.response (params.message call))

theorem Served.dispatched_le (served : Served state) :
    state.dispatched.length ≤ state.channel.received.length := by
  rw [served.dispatched, List.length_append]
  exact Nat.le_add_right _ _

theorem Sound.wholeOnly (sound : Sound params state) : WholeOnly params state where
  dispatched := by
    have received := sound.integrity.phase.delivered.1
    have dispatched := sound.served.dispatched
    have shorter := sound.served.dispatched_le
    have first : state.channel.received.take state.dispatched.length = state.dispatched := by
      rw [dispatched, List.take_left]
    calc
      state.dispatched = state.channel.received.take state.dispatched.length := first.symm
      _ = (state.channel.delivered.map params.message).take state.dispatched.length := by rw [← received]
      _ = (state.channel.acquired.take state.dispatched.length).map params.message := by
          rw [← List.map_take, Channel.State.delivered, List.take_take, Nat.min_eq_left shorter]
  consumed := sound.integrity.phase.delivered.1
  returned := by
    intro call resp returned
    exact ⟨sound.integrity.delivered_of_returned returned, sound.integrity.responses returned⟩

theorem sound_of_reachable {size : Nat} (serviceable : Serviceable params)
    (reached : (system params size).Reachable Quiet state) : Sound params state :=
  reached.invariant Sound.initial (fun sound quiet stepped => sound.step serviceable quiet stepped)

/-- The receive of the open exchange has only part of the message so far. -/
theorem Sound.short_read {pc : RecvPc} {len : Nat} {read : Bytes} (sound : Sound params state)
    (point : state.thread = .recv) (tests : pc = .ready ∨ pc = .spin)
    (receiver : state.receiver = .recv pc len read) :
    ∃ earlier owner, state.channel.acquired = earlier ++ [owner] ∧
      state.dispatched = earlier.map params.message ∧ read.length < (params.message owner).length := by
  have busy : ¬ (state.channel.receivers state.current = .done ∨
      state.channel.receivers state.current = .idle) := by
    change ¬ (state.receiver = .done ∨ state.receiver = .idle)
    simp [receiver]
  obtain ⟨earlier, owner, _, held⟩ := sound.integrity.phase.of_busy busy
  change Channel.Open params state.channel earlier owner (.running state.receiver) at held
  rw [receiver] at held
  obtain ⟨_, _, _, unread, _⟩ := held.exchange
  have received := held.received
  have dispatched := sound.served.dispatched
  simp only [undispatched, point, reduceCtorEq, if_false, List.append_nil] at dispatched
  simp only [Channel.Accept.hasMessage, Channel.Receiver.hasMessage, Bool.false_eq_true, if_false,
    List.append_nil] at received
  refine ⟨earlier, owner, held.acquired, dispatched.symm.trans received, unread ?_⟩
  rcases tests with rfl | rfl <;> simp

/-- A receive that is cut short is dispatched all the same. -/
theorem Sound.dispatches_short (serviceable : Serviceable params) (sound : Sound params state)
    (cut : state.cutsShort) (size : Nat) :
    ∃ after, (system params size).Path (fun _ => Plain) state after ∧ ¬ WholeOnly params after := by
  obtain ⟨point, aborts, lowered⟩ := cut
  obtain ⟨pc, len, read, tests, receiver⟩ : ∃ pc len read, (pc = RecvPc.ready ∨ pc = .spin) ∧
      state.receiver = .recv pc len read := by
    cases receiver : state.receiver with
    | recv pc len read =>
        rw [receiver] at aborts
        cases pc with
        | ready => exact ⟨_, _, _, .inl rfl, rfl⟩
        | spin => exact ⟨_, _, _, .inr rfl, rfl⟩
        | _ => contradiction
    | _ =>
        rw [receiver] at aborts
        contradiction
  obtain ⟨earlier, owner, acquired, dispatched, short⟩ := sound.short_read point tests receiver
  have fits := serviceable.fits owner
  have returns : isError read = false := by
    simp only [isError, decide_eq_false_iff_not]
    omega
  have current : state.channel.receivers state.current = .recv pc len read := receiver
  have moved : (Channel.Receiver.recv pc len read).step state.channel.xbuf params.response =
      some (state.channel.xbuf, .received len read) := by
    rcases tests with rfl | rfl <;> simp [Channel.Receiver.step, recvData, lowered, Channel.Receiver.afterRecv]
  let channel : Channel.State := { state.channel with
    receivers := Function.update state.channel.receivers state.current (.received len read)
    received := state.channel.received ++ [read] }
  have first : Lcall.step params state .thread = some { state with channel, thread := .stopTest } := by
    simp [Lcall.step, threadStep, point, Channel.step, current, moved, Channel.recordReceived,
      Thread.afterRecv, returns, channel]
  have second : Lcall.step params { state with channel, thread := .stopTest } .thread =
      some { state with channel, thread := .dispatch, dispatched := state.dispatched ++ [read] } := by
    have same : State.receiver { state with channel, thread := .stopTest } = .received len read := by
      simp [State.receiver, State.current, channel]
    have runs : ¬ state.shouldStop = true := by simp [sound.served.running]
    simp only [Lcall.step, threadStep]
    rw [if_neg runs, same]
    rfl
  have plain : Plain .thread := trivial
  refine ⟨_, .head plain first (.single plain second), ?_⟩
  intro whole
  have claimed := whole.dispatched
  have count : state.dispatched.length + 1 = (earlier ++ [owner]).length := by simp [dispatched]
  change state.dispatched ++ [read] =
    (state.channel.acquired.take (state.dispatched ++ [read]).length).map params.message at claimed
  rw [List.length_append, List.length_singleton, count, acquired, List.take_length, List.map_append,
    dispatched] at claimed
  have same : [read] = [params.message owner] := List.append_cancel_left claimed
  rw [List.singleton_inj] at same
  rw [same] at short
  exact absurd short (Nat.lt_irrefl _)

/-- With READY lowered at any time, the dispatcher acts on whole messages only
and calls return 0 only with everything consumed, as long as no receive of the
thread finds READY lowered; a receive that does is dispatched in part. -/
theorem whole_only_of_quiet (params : Params) (size : Nat) (serviceable : Serviceable params) :
    (∀ state, (system params size).Reachable Quiet state → WholeOnly params state) ∧
      ∀ state, (system params size).Reachable Quiet state → state.cutsShort →
        ∃ after, (system params size).Path (fun _ => Plain) state after ∧ ¬ WholeOnly params after := by
  refine ⟨?_, ?_⟩
  · intro state reached
    exact (sound_of_reachable serviceable reached).wholeOnly
  · intro state reached cut
    exact (sound_of_reachable serviceable reached).dispatches_short serviceable cut size

theorem echo_serviceable : Serviceable Channel.echo where
  toProper := Channel.echo_proper
  fits := by simp [Channel.echo]

def plain : Action → Bool
  | .channel .spurious | .channel (.set _) | .deinit => false
  | _ => true

theorem plain_sound {action : Action} (checked : plain action = true) : Plain action := by
  cases action with
  | channel inner => cases inner <;> trivial
  | deinit => contradiction
  | _ => trivial

/-- Call 0 sends, the thread dispatches its message, and READY is lowered. -/
def dispatchOne : List Action :=
  .channel (.start 0) :: List.replicate 10 (.channel (.call 0)) ++
    [.channel .deliver, .channel .irq, .channel .irq, .handler, .handler] ++ List.replicate 11 .thread ++
    [.channel (.disable 0), .channel (.lower 0)]

theorem whole_only_dispatchOne :
    ∃ state, (system Channel.echo 1).Reachable Quiet state ∧ state.dispatched = [[0]] ∧
      state.channel.xbuf.flags.ready = false ∧ WholeOnly Channel.echo state := by
  obtain ⟨state, executed, observed⟩ := Option.map_eq_some_iff.mp
    (show ((system Channel.echo 1).run (fun state action => plain action && state.channel.xbuf.flags.ready)
      (boot 1) dispatchOne).map (fun state => (state.dispatched, state.channel.xbuf.flags.ready)) =
        some ([[0]], false) by decide +kernel)
  obtain ⟨dispatched, lowered⟩ := Prod.mk.inj observed
  have reached : (system Channel.echo 1).Reachable Quiet state := by
    refine ⟨boot 1, boot_initial 1, System.run_path ?_ executed⟩
    intro state action checked
    rw [Bool.and_eq_true] at checked
    refine ⟨plain_sound checked.1, ?_⟩
    intro _ cut
    rw [cut.2.2] at checked
    exact absurd checked.2 (by simp)
  exact ⟨state, reached, dispatched, lowered,
    (whole_only_of_quiet Channel.echo 1 echo_serviceable).1 state reached⟩

/-- Two-byte messages. -/
def pair : Params := { Channel.echo with message := fun _ => [0, 1] }

/-- READY is lowered after the first of two chunks was copied out. -/
def dispatchPart : List Action :=
  .channel (.start 0) :: List.replicate 10 (.channel (.call 0)) ++
    [.channel .deliver, .channel .irq, .channel .irq, .handler, .handler] ++ List.replicate 10 .thread ++
    [.channel (.disable 0), .channel (.lower 0), .thread, .thread]

theorem dispatches_part :
    ∃ state, (system pair 1).Reachable (fun _ => Plain) state ∧ state.channel.acquired = [0] ∧
      state.dispatched = [[0]] ∧ ¬ WholeOnly pair state := by
  obtain ⟨state, executed, observed⟩ := Option.map_eq_some_iff.mp
    (show ((system pair 1).run (fun _ => plain) (boot 1) dispatchPart).map
      (fun state => (state.channel.acquired, state.dispatched)) = some ([0], [[0]]) by decide +kernel)
  obtain ⟨acquired, dispatched⟩ := Prod.mk.inj observed
  refine ⟨state, ⟨boot 1, boot_initial 1, System.run_path plain_sound executed⟩, acquired, dispatched, ?_⟩
  intro whole
  have claimed := whole.dispatched
  rw [dispatched, acquired] at claimed
  exact absurd claimed (by decide)

end Pisces.Lcall
