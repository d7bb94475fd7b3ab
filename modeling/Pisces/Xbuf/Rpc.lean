import Pisces.Xbuf.Progress

/-! # Remote calls over the buffer

What callers and receivers of a buffer that stays enabled can rely on.
-/

namespace Pisces.Channel

open Transition

variable {params : Params} {state : State} {call : Nat} {accept : Accept}

/-- The call is about to copy into the staging area. -/
def Call.stores : Call → Bool
  | .owner (.stage .copy) | .owner (.send .copy _) => true
  | _ => false

def Receiver.stores : Receiver → Bool
  | .stage .copy _ | .reply .copy _ => true
  | _ => false

/-- The calls whose messages were copied out so far, in that order. -/
def State.delivered (state : State) : List Nat := state.acquired.take state.received.length

/-- Every finished receive is the whole message of its own call, every answer
the response to that message, and no chunk is overwritten before it is read. -/
structure Exact (params : Params) (state : State) : Prop where
  received : state.received = state.delivered.map params.message
  once : ∀ call, state.delivered.count call ≤ 1
  lengths : ∀ index len read, state.receivers index = .received len read → len = read.length
  answered : ∀ call resp, state.calls call = .returned resp →
    state.delivered.count call = 1 ∧ resp = some (params.response (params.message call))
  succeeds : ∀ call, state.calls call ≠ .failed ∧ state.calls call ≠ .rejected
  consumed : (∃ call, (state.calls call).stores = true) ∨ (∃ index, (state.receivers index).stores = true) →
    state.xbuf.flags.staged = false

theorem Phase.delivered (phase : Phase params state) :
    state.received = state.delivered.map params.message ∧
      (Closed params state ∧ state.delivered = state.acquired ∨
        ∃ earlier owner accept, Open params state earlier owner accept ∧
          (state.delivered = earlier ∨ state.delivered = earlier ++ [owner])) := by
  rcases phase with closed | ⟨earlier, owner, accept, held⟩
  · have whole : state.delivered = state.acquired := by
      have lengths : state.received.length = state.acquired.length := by simp [closed.received]
      simp [State.delivered, lengths]
    rw [whole]
    exact ⟨closed.received, .inl ⟨closed, rfl⟩⟩
  · cases message : accept.hasMessage with
    | true =>
        have received : state.received = (earlier ++ [owner]).map params.message := by
          simpa [message] using held.received
        have whole : state.delivered = earlier ++ [owner] := by
          have lengths : state.received.length = (earlier ++ [owner]).length := by simp [received]
          rw [State.delivered, lengths, held.acquired, List.take_length]
        rw [whole]
        exact ⟨received, .inr ⟨earlier, owner, accept, held, .inr rfl⟩⟩
    | false =>
        have received : state.received = earlier.map params.message := by
          simpa [message] using held.received
        have whole : state.delivered = earlier := by
          have lengths : state.received.length = earlier.length := by simp [received]
          simp [State.delivered, lengths, held.acquired]
        rw [whole]
        exact ⟨received, .inr ⟨earlier, owner, accept, held, .inl rfl⟩⟩

theorem Acquisition.delivered_once (acquisition : Acquisition state) (call : Nat) :
    state.delivered.count call ≤ 1 :=
  List.nodup_iff_count_le_one.mp (acquisition.nodup.sublist (List.take_sublist _ _)) call

theorem Open.not_returned {earlier : List Nat} {resp : Option Bytes}
    (held : Open params state earlier call accept) : state.calls call ≠ .returned resp := by
  intro returned
  have exchange := held.exchange
  rw [returned] at exchange
  rcases exchange.caller with staging | ⟨_, _, _, sending, _⟩ | awaiting | ⟨_, reading⟩
  · exact staging.elim
  · exact sending.elim
  · exact awaiting.elim
  · exact reading.elim

/-- A call that returned is among those whose message was copied out. -/
theorem Integrity.delivered_of_returned {resp : Option Bytes} (kept : Integrity params state)
    (returned : state.calls call = .returned resp) : state.delivered.count call = 1 := by
  have acquired : call ∈ state.acquired := by
    rw [kept.acquisition.mem, returned]
    rfl
  have member : call ∈ state.delivered := by
    rcases kept.phase.delivered.2 with ⟨_, whole⟩ | ⟨earlier, owner, accept, held, earlier_or⟩
    · rw [whole]
      exact acquired
    · have apart : call ≠ owner := by
        intro same
        rw [same] at returned
        exact held.not_returned returned
      rw [held.acquired, List.mem_append, List.mem_singleton] at acquired
      have before : call ∈ earlier := acquired.resolve_right apart
      rcases earlier_or with whole | whole <;> simp [whole, before]
  have positive := List.count_pos_iff.mpr member
  have once := kept.acquisition.delivered_once call
  omega

/-- Copying into the staging area happens only after the last chunk was read. -/
theorem Exchange.consumed {xbuf : Xbuf} {message resp : Bytes} {owner : Call}
    (exchange : Exchange xbuf message resp owner accept) (untroubled : owner.untroubled = true)
    (stores : owner.stores = true ∨ ∃ receiver, accept = .running receiver ∧ receiver.stores = true) :
    xbuf.flags.staged = false := by
  rcases stores with stores | ⟨receiver, rfl, stores⟩
  · cases owner with
    | owner point =>
        rcases exchange.caller with staging | ⟨read, pc, view, sending, transfer⟩ | awaiting | ⟨_, reading⟩
        · cases point with
          | stage pc =>
              cases pc with
              | copy => exact staging.1
              | _ => contradiction
          | send => exact staging.elim
          | _ => contradiction
        · cases point with
          | send sender left =>
              cases sender with
              | copy =>
                  obtain ⟨_, rfl⟩ := sending
                  cases pc with
                  | ready | staged | spin => exact transfer.1
                  | copy | lower => exact transfer.elim
              | _ => contradiction
          | stage => exact sending.elim
          | _ => contradiction
        · cases point with
          | stage | send => exact awaiting.elim
          | _ => contradiction
        · cases point with
          | stage | send => exact reading.elim
          | _ => contradiction
    | _ => contradiction
  · obtain ⟨_, serving⟩ := exchange
    cases receiver with
    | stage pc out => exact serving.2.1
    | reply pc left =>
        cases pc with
        | copy =>
            obtain ⟨_, unsent, reading⟩ := serving
            cases owner with
            | owner point =>
                cases point with
                | waitComplete | waitReady | testResp | recvLen => exact reading.2.2.1
                | recv pc len read =>
                    obtain ⟨_, _, transfer⟩ := reading
                    cases pc with
                    | ready | staged | spin => exact transfer.1
                    | copy | lower => exact transfer.elim
                | finish result => cases reading.2
                | _ => exact reading.elim
            | failed => contradiction
            | _ => exact reading.elim
        | _ => contradiction
    | _ => contradiction

theorem Running.consumed {size : Nat} (running : Running params size state)
    (stores : (∃ call, (state.calls call).stores = true) ∨
      ∃ index, (state.receivers index).stores = true) : state.xbuf.flags.staged = false := by
  rcases stores with ⟨call, stores⟩ | ⟨index, stores⟩
  · cases point : state.calls call with
    | owner owner =>
        obtain ⟨earlier, accept, held⟩ := running.integrity.phase.open_of_owner point
        exact held.exchange.consumed (running.untroubled call) (.inl stores)
    | _ =>
        rw [point] at stores
        contradiction
  · have busy : ¬ (state.receivers index = .done ∨ state.receivers index = .idle) := by
      rintro (still | still) <;> rw [still] at stores <;> contradiction
    obtain ⟨earlier, owner, _, held⟩ := running.integrity.phase.of_busy busy
    exact held.exchange.consumed (running.untroubled owner) (.inr ⟨_, rfl, stores⟩)

theorem Running.exact {size : Nat} (running : Running params size state) : Exact params state where
  received := running.integrity.phase.delivered.1
  once := running.integrity.acquisition.delivered_once
  lengths := by
    intro index len read reached
    have busy : ¬ (state.receivers index = .done ∨ state.receivers index = .idle) := by simp [reached]
    obtain ⟨earlier, owner, _, held⟩ := running.integrity.phase.of_busy busy
    have exchange := held.exchange
    rw [reached] at exchange
    obtain ⟨_, _, _, _, length, whole⟩ := exchange
    rw [length, whole]
  answered := by
    intro call resp returned
    exact ⟨running.integrity.delivered_of_returned returned, running.integrity.responses returned⟩
  succeeds := by
    intro call
    have untroubled := running.untroubled call
    constructor <;> intro reached <;> rw [reached] at untroubled <;> contradiction
  consumed := running.consumed

/-- While READY stays set, every reachable state is exact and every call that
was started can still return the response to its own message, its message then
having been received exactly once. -/
theorem rpc_exact (params : Params) (size : Nat) (proper : Proper params) (positive : 1 ≤ size)
    (state : State) (reached : (system params size).Reachable Steady state) :
    Exact params state ∧
      ∀ call, state.calls call ≠ .idle → ∃ after, (system params size).Path Steady state after ∧
        Exact params after ∧ after.delivered.count call = 1 ∧
        after.calls call = .returned (some (params.response (params.message call))) := by
  have running := running_of_reachable proper reached
  refine ⟨running.exact, ?_⟩
  intro call started
  obtain ⟨after, resp, path, returned⟩ := running.returns proper positive started
  have exact := (running.path proper path).exact
  obtain ⟨once, answer⟩ := exact.answered call resp returned
  rw [answer] at returned
  exact ⟨after, path.mono (fun _ _ working => working.steady), exact, once, returned⟩

theorem echo_proper : Proper echo := ⟨by simp [echo], by simp [echo], by simp [echo], rfl⟩

/-- A whole exchange through a one-byte staging area: the response takes two
chunks. -/
def exchange : List Action :=
  .start 0 :: List.replicate 10 (.call 0) ++ [.deliver, .irq, .irq, .spawn] ++
    List.replicate 12 (.receiver 0) ++ List.replicate 7 (.call 0) ++ List.replicate 4 (.receiver 0) ++
    List.replicate 5 (.call 0)

def steady (state : State) : Action → Bool
  | .spurious | .lower _ => false
  | .spawn => state.started < state.accepted
  | _ => true

theorem steady_sound {action : Action} (checked : steady state action = true) : Steady state action := by
  cases action with
  | spurious | lower => contradiction
  | spawn => simpa [steady, Steady] using checked
  | _ => trivial

theorem rpc_exact_echo :
    ∃ state, (system echo 1).Reachable Steady state ∧ state.calls 0 = .returned (some [1, 0]) ∧
      Exact echo state := by
  obtain ⟨state, executed, returned⟩ := Option.map_eq_some_iff.mp
    (show ((system echo 1).run steady (boot 1) exchange).map (fun state => state.calls 0) =
      some (.returned (some [1, 0])) by decide +kernel)
  have reached : (system echo 1).Reachable Steady state :=
    ⟨boot 1, boot_initial 1, System.run_path steady_sound executed⟩
  exact ⟨state, reached, returned, (rpc_exact echo 1 echo_proper (Nat.le_refl 1) state reached).1⟩

end Pisces.Channel
