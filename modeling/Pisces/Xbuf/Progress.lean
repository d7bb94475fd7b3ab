import Pisces.Xbuf.Integrity

/-! # Every exchange can be finished

While READY stays set some party of an open exchange can always make a step
that brings the exchange closer to its end.  `rank` counts what is left to do
on each side; the waiting loops are the only steps that do not lower it.
-/

namespace Pisces

def SendPc.rank : SendPc → Nat
  | .ready | .spin => 4
  | .staged => 3
  | .copy => 2
  | .raise => 1

def RecvPc.rank : RecvPc → Nat
  | .lower => 6
  | .ready | .spin => 5
  | .staged => 4
  | .copy => 3

def SendOut.rank : SendOut → Nat
  | .running pc left => 8 * left.length + pc.rank
  | .finished | .aborted => 0

def RecvOut.rank (len : Nat) : RecvOut → Nat
  | .running pc read => 8 * (len - read.length) + pc.rank
  | .finished _ | .aborted _ => 0

theorem enterSend_rank (left : Bytes) : (enterSend left).rank ≤ 8 * left.length + 4 := by
  unfold enterSend
  split
  · exact Nat.le_refl _
  · exact Nat.zero_le _

theorem enterSend_not_aborted (left : Bytes) : enterSend left ≠ .aborted := by
  unfold enterSend
  split <;> simp

theorem sendData_rank {xbuf : Xbuf} {left : Bytes} {pc : SendPc} (unsent : left ≠ [])
    (ready : xbuf.flags.ready = true) (size : 0 < xbuf.totalSize)
    (clear : pc = .staged → xbuf.flags.staged = false) :
    (sendData xbuf left pc).2 ≠ .aborted ∧
      (sendData xbuf left pc).2.rank < 8 * left.length + pc.rank := by
  have positive := List.length_pos_iff.mpr unsent
  cases pc with
  | ready | spin => simp [sendData, ready, SendOut.rank, SendPc.rank]
  | staged => simp [sendData, clear rfl, SendOut.rank, SendPc.rank]
  | copy => simp [sendData, SendOut.rank, SendPc.rank]
  | raise =>
      refine ⟨enterSend_not_aborted _, ?_⟩
      have entered := enterSend_rank (left.drop (stagedLen left.length xbuf.totalSize))
      rw [List.length_drop, stagedLen_eq_min] at entered
      simp only [sendData, SendPc.rank, stagedLen_eq_min]
      omega

/-- The chunk the reader is about to copy out is not empty. -/
def ChunkReady (xbuf : Xbuf) (len : Nat) (read : Bytes) : Prop :=
  0 < (xbuf.data.take (stagedLen (len - read.length) xbuf.totalSize)).length

theorem InFlight.chunkReady {xbuf : Xbuf} {message read left : Bytes}
    (flight : InFlight xbuf message read left) (size : 0 < xbuf.totalSize) :
    ChunkReady xbuf message.length read := by
  have pending := flight.pending
  have full := flight.full
  unfold ChunkReady
  rw [stagedLen_eq_min] at full
  rw [List.length_take, stagedLen_eq_min]
  omega

theorem recvData_rank {xbuf : Xbuf} {len : Nat} {read : Bytes} {pc : RecvPc}
    (ready : xbuf.flags.ready = true) (unread : pc ≠ .lower → read.length < len)
    (staged : pc = .staged → xbuf.flags.staged = true) (chunk : pc = .copy → ChunkReady xbuf len read) :
    (∀ rest, (recvData xbuf len read pc).2 ≠ .aborted rest) ∧
      (recvData xbuf len read pc).2.rank len < 8 * (len - read.length) + pc.rank := by
  cases pc with
  | ready | spin => simp [recvData, ready, RecvOut.rank, RecvPc.rank]
  | staged => simp [recvData, staged rfl, RecvOut.rank, RecvPc.rank]
  | copy =>
      have some : 0 < (xbuf.data.take (stagedLen (len - read.length) xbuf.totalSize)).length := chunk rfl
      have more := unread (by simp)
      refine ⟨by simp [recvData], ?_⟩
      simp only [recvData, RecvOut.rank, RecvPc.rank, List.length_append]
      omega
  | lower =>
      simp only [recvData, enterRecv]
      split
      · refine ⟨by simp, ?_⟩
        simp only [RecvOut.rank, RecvPc.rank]
        omega
      · simp [RecvOut.rank, RecvPc.rank]

theorem recvData_finished {xbuf : Xbuf} {len : Nat} {read rest : Bytes} {pc : RecvPc} (positive : 0 < len)
    (out : (recvData xbuf len read pc).2 = .finished rest) : rest.length ≠ 0 := by
  cases pc with
  | ready | staged | spin =>
      simp only [recvData] at out
      split at out <;> cases out
  | copy => cases out
  | lower =>
      simp only [recvData, enterRecv] at out
      split at out
      · cases out
      · cases out
        omega

end Pisces

namespace Pisces.Channel

open Transition

variable {params : Params} {state next : State} {action : Action} {call : Nat} {accept : Accept}
  {xbuf : Xbuf} {message resp : Bytes}

/-- What is left for the caller to do. -/
def Owner.rank (message resp : Bytes) : Owner → Nat
  | .unlock => 8 * resp.length + 8 * message.length + 31
  | .stage .len => 8 * resp.length + 8 * message.length + 30
  | .stage .copy => 8 * resp.length + 8 * message.length + 29
  | .stage .raise => 8 * resp.length + 8 * message.length + 28
  | .ipi left => 8 * resp.length + 8 * left.length + 26
  | .send pc left => 8 * resp.length + 8 * left.length + 20 + pc.rank
  | .waitReady => 8 * resp.length + 14
  | .waitComplete => 8 * resp.length + 13
  | .testResp => 8 * resp.length + 12
  | .recvLen => 8 * resp.length + 11
  | .recv pc len read => 8 * (len - read.length) + pc.rank
  | .finish _ => 1

def Receiver.rank (message resp : Bytes) : Receiver → Nat
  | .testActive => 8 * resp.length + 8 * message.length + 32
  | .recvLen => 8 * resp.length + 8 * message.length + 31
  | .recv pc len read => 8 * resp.length + 20 + 8 * (len - read.length) + pc.rank
  | .received _ _ => 8 * resp.length + 19
  | .testComplete _ => 8 * resp.length + 18
  | .stage .len _ => 8 * resp.length + 17
  | .stage .copy _ => 8 * resp.length + 16
  | .stage .raise _ => 8 * resp.length + 15
  | .raiseComplete left => 8 * left.length + 7
  | .reply pc left => 8 * left.length + pc.rank
  | .idle | .done | .inactive => 0

/-- What is left for the receiving side to do. -/
def Accept.rank (message resp : Bytes) : Accept → Nat
  | .before => 8 * resp.length + 8 * message.length + 45
  | .ipi => 8 * resp.length + 8 * message.length + 44
  | .irqTest => 8 * resp.length + 8 * message.length + 43
  | .irqRaise => 8 * resp.length + 8 * message.length + 42
  | .accepted => 8 * resp.length + 8 * message.length + 41
  | .running receiver => receiver.rank message resp

/-- The caller's next step is not another round of a wait. -/
def Owner.moves (xbuf : Xbuf) : Owner → Bool
  | .send .staged _ => !xbuf.flags.staged
  | .waitComplete => xbuf.flags.complete
  | .recv .staged _ _ => xbuf.flags.staged
  | _ => true

def Receiver.moves (xbuf : Xbuf) : Receiver → Bool
  | .recv .staged _ _ => xbuf.flags.staged
  | .reply .staged _ => !xbuf.flags.staged
  | .idle | .done | .inactive => false
  | _ => true

/-- Somebody can go on, while READY is set. -/
theorem Exchange.moves {point : Owner} (ready : xbuf.flags.ready = true)
    (exchange : Exchange xbuf message resp (.owner point) accept) :
    point.moves xbuf = true ∨ (∀ receiver, accept ≠ .running receiver) ∧ accept ≠ .before ∨
      ∃ receiver, accept = .running receiver ∧ receiver.moves xbuf = true := by
  cases accept with
  | before =>
      left
      cases point with
      | unlock | stage | ipi => rfl
      | _ => exact exchange.2.2.elim
  | ipi | irqTest | irqRaise | accepted => exact .inr (.inl ⟨by simp, by simp⟩)
  | running receiver =>
      cases receiver with
      | recv pc len read =>
          cases pc with
          | staged =>
              cases staged : xbuf.flags.staged with
              | true => exact .inr (.inr ⟨_, rfl, staged⟩)
              | false =>
                  left
                  obtain ⟨_, _, rfl, unread, view, sending, transfer⟩ := exchange
                  cases point with
                  | send sender left => cases sender <;> simp [Owner.moves, staged]
                  | waitComplete =>
                      obtain ⟨left, rfl, drained⟩ := sending
                      have short := unread (by simp)
                      rcases transfer with ⟨flight, _⟩ | ⟨_, whole⟩
                      · rw [staged] at flight
                        contradiction
                      · rw [drained ready, List.append_nil] at whole
                        rw [whole] at short
                        exact absurd short (Nat.lt_irrefl _)
                  | waitReady => rfl
                  | _ => exact sending.elim
          | _ => exact .inr (.inr ⟨_, rfl, rfl⟩)
      | reply pc left =>
          cases pc with
          | staged =>
              cases staged : xbuf.flags.staged with
              | false => exact .inr (.inr ⟨_, rfl, by simp [Receiver.moves, staged]⟩)
              | true =>
                  left
                  obtain ⟨_, complete, _, reading⟩ := exchange
                  cases point with
                  | waitComplete => exact complete
                  | recv pc len read => cases pc <;> simp [Owner.moves, staged]
                  | waitReady | testResp | recvLen | finish => rfl
                  | _ => exact reading.elim
          | _ => exact .inr (.inr ⟨_, rfl, rfl⟩)
      | done =>
          left
          obtain ⟨_, complete, left, drained, reading⟩ := exchange
          cases point with
          | waitComplete => exact complete
          | recv pc len read =>
              cases pc with
              | staged =>
                  cases staged : xbuf.flags.staged with
                  | true => exact staged
                  | false =>
                      obtain ⟨rfl, unread, transfer⟩ := reading
                      have short := unread (by simp)
                      rcases transfer with ⟨flight, _⟩ | ⟨_, whole⟩
                      · rw [staged] at flight
                        contradiction
                      · rw [drained ready, List.append_nil] at whole
                        rw [whole] at short
                        exact absurd short (Nat.lt_irrefl _)
              | _ => rfl
          | waitReady | testResp | recvLen | finish => rfl
          | _ => exact reading.elim
      | idle | inactive => exact exchange.2.elim
      | _ => exact .inr (.inr ⟨_, rfl, rfl⟩)

theorem Exchange.caller {owner : Call} (exchange : Exchange xbuf message resp owner accept) :
    Staging xbuf message owner ∨ (∃ read pc, Incoming xbuf message read owner pc) ∨ Awaiting owner ∨
      ∃ view, Reading xbuf resp owner view := by
  cases accept with
  | before => exact .inl exchange.2.2
  | ipi | irqTest | irqRaise | accepted => exact .inr (.inl ⟨_, _, exchange.2.2.2⟩)
  | running receiver =>
      obtain ⟨_, serving⟩ := exchange
      cases receiver with
      | testActive | recvLen => exact .inr (.inl ⟨_, _, serving.2.2⟩)
      | recv pc len read => exact .inr (.inl ⟨_, _, serving.2.2.2⟩)
      | received | testComplete | stage => exact .inr (.inr (.inl serving.2.2.1))
      | raiseComplete => exact .inr (.inr (.inl serving.2.1))
      | reply => exact .inr (.inr (.inr ⟨_, serving.2.2⟩))
      | done =>
          obtain ⟨_, left, _, reading⟩ := serving
          exact .inr (.inr (.inr ⟨_, reading⟩))
      | idle | inactive => exact serving.elim

/-- What the loops of a caller rely on to advance. -/
def Owner.Fit (xbuf : Xbuf) (resp : Bytes) : Owner → Prop
  | .send _ left => left ≠ []
  | .recvLen => xbuf.dataLen = resp.length
  | .recv pc len read =>
      len = resp.length ∧ (pc ≠ .lower → read.length < resp.length) ∧
        (pc = .copy → ChunkReady xbuf resp.length read)
  | _ => True

theorem Transfer.chunkReady {sender : SenderView} {read : Bytes} (size : 0 < xbuf.totalSize)
    (transfer : Transfer xbuf message sender (.copying read)) : ChunkReady xbuf message.length read := by
  cases sender with
  | waiting left => exact transfer.2.chunkReady size
  | copying left | raising left => exact transfer.elim

theorem Exchange.owner_fit {point : Owner} (size : 0 < xbuf.totalSize)
    (exchange : Exchange xbuf message resp (.owner point) accept) : point.Fit xbuf resp := by
  rcases exchange.caller with staging | ⟨read, pc, view, sending, transfer⟩ | awaiting | ⟨view, reading⟩
  · cases point with
    | send | recvLen | recv => exact staging.elim
    | _ => trivial
  · cases point with
    | send sender left => exact sending.1
    | recvLen | recv => exact sending.elim
    | _ => trivial
  · cases point with
    | send | recvLen | recv => exact awaiting.elim
    | _ => trivial
  · cases point with
    | send => exact reading.elim
    | recvLen => exact reading.2.1
    | recv pc len read =>
        obtain ⟨length, unread, transfer⟩ := reading
        refine ⟨length, unread, ?_⟩
        rintro rfl
        exact Transfer.chunkReady size transfer
    | _ => trivial

/-- A step of the caller that is not another round of a wait lowers its rank. -/
theorem Owner.step_rank {point : Owner} (sent : message ≠ []) (answered : resp ≠ [])
    (ready : xbuf.flags.ready = true) (size : 0 < xbuf.totalSize) (fit : point.Fit xbuf resp)
    (moves : point.moves xbuf = true) (unfinished : ∀ result, point ≠ .finish result) :
    ∃ after, (point.step xbuf message true).2 = .owner after ∧
      after.rank message resp < point.rank message resp := by
  have more := List.length_pos_iff.mpr sent
  have positive := List.length_pos_iff.mpr answered
  cases point with
  | unlock =>
      refine ⟨.stage .len, by simp [Owner.step, more], ?_⟩
      simp only [Owner.rank]
      omega
  | stage pc =>
      cases pc with
      | len => exact ⟨.stage .copy, rfl, by simp [Owner.rank]⟩
      | copy => exact ⟨.stage .raise, rfl, by simp [Owner.rank]⟩
      | raise =>
          refine ⟨.ipi (message.drop (stagedLen message.length xbuf.totalSize)), rfl, ?_⟩
          simp only [Owner.rank, List.length_drop]
          omega
  | ipi left =>
      simp only [Owner.step, enterSend]
      split
      · exact ⟨_, rfl, by simp [Owner.rank, SendPc.rank]⟩
      · refine ⟨_, rfl, ?_⟩
        simp only [Owner.rank]
        omega
  | send pc left =>
      have clear : pc = .staged → xbuf.flags.staged = false := by
        rintro rfl
        simpa [Owner.moves] using moves
      obtain ⟨continues, lower⟩ := sendData_rank fit ready size clear
      simp only [Owner.step]
      cases out : (sendData xbuf left pc).2 with
      | running following rest =>
          rw [out] at lower
          refine ⟨_, rfl, ?_⟩
          simp only [SendOut.rank] at lower
          simp only [Owner.rank]
          omega
      | finished =>
          refine ⟨_, rfl, ?_⟩
          simp only [Owner.rank]
          omega
      | aborted => exact absurd out continues
  | waitComplete =>
      have complete : xbuf.flags.complete = true := moves
      exact ⟨.testResp, by simp [Owner.step, complete], by simp [Owner.rank]⟩
  | waitReady => exact ⟨.waitComplete, by simp [Owner.step, ready], by simp [Owner.rank]⟩
  | testResp =>
      simp only [Owner.step]
      split
      · exact ⟨_, rfl, by simp [Owner.rank]⟩
      · refine ⟨_, rfl, ?_⟩
        simp only [Owner.rank]
        omega
  | recvLen =>
      have len : xbuf.dataLen = resp.length := fit
      have unread : resp.length - ([] : Bytes).length > 0 := by simpa using positive
      refine ⟨.recv .ready resp.length [], ?_, ?_⟩
      · simp only [Owner.step, len, enterRecv, if_pos unread, Call.afterRecv]
      · simp [Owner.rank, RecvPc.rank]
  | recv pc len read =>
      obtain ⟨rfl, unread, chunk⟩ := fit
      have staged : pc = .staged → xbuf.flags.staged = true := by
        rintro rfl
        exact moves
      obtain ⟨continues, lower⟩ := recvData_rank ready unread staged chunk
      simp only [Owner.step]
      cases out : (recvData xbuf resp.length read pc).2 with
      | running following rest =>
          rw [out] at lower
          exact ⟨_, rfl, lower⟩
      | finished rest =>
          have whole : rest.length ≠ 0 := recvData_finished positive out
          simp only [Call.afterRecv, if_neg whole]
          refine ⟨_, rfl, ?_⟩
          have weight : 3 ≤ pc.rank := by cases pc <;> simp [RecvPc.rank]
          simp only [Owner.rank]
          omega
      | aborted rest => exact absurd out (continues rest)
  | finish result => exact absurd rfl (unfinished result)

theorem Exchange.receiver_rank {owner : Call} {receiver : Receiver} {response : Bytes → Bytes}
    (sent : message ≠ []) (answered : resp ≠ []) (ready : xbuf.flags.ready = true)
    (size : 0 < xbuf.totalSize) (exchange : Exchange xbuf message resp owner (.running receiver))
    (moves : receiver.moves xbuf = true) :
    ∃ after following, receiver.step xbuf response = some (after, following) ∧
      following.rank message resp < receiver.rank message resp := by
  have more := List.length_pos_iff.mpr sent
  have positive := List.length_pos_iff.mpr answered
  obtain ⟨active, serving⟩ := exchange
  cases receiver with
  | testActive =>
      refine ⟨xbuf, .recvLen, by simp [Receiver.step, active], ?_⟩
      simp [Receiver.rank]
  | recvLen =>
      obtain ⟨_, len, _⟩ := serving
      have unread : message.length - ([] : Bytes).length > 0 := by simpa using more
      refine ⟨xbuf, .recv .ready message.length [], ?_, ?_⟩
      · simp only [Receiver.step, len, enterRecv, if_pos unread, Receiver.afterRecv]
      · simp only [Receiver.rank, RecvPc.rank, List.length_nil]
        omega
  | recv pc len read =>
      obtain ⟨_, rfl, unread, view, _, transfer⟩ := serving
      have staged : pc = .staged → xbuf.flags.staged = true := by
        rintro rfl
        exact moves
      have chunk : pc = .copy → ChunkReady xbuf message.length read := by
        rintro rfl
        exact Transfer.chunkReady size transfer
      obtain ⟨continues, lower⟩ := recvData_rank ready unread staged chunk
      refine ⟨_, _, rfl, ?_⟩
      cases out : (recvData xbuf message.length read pc).2 with
      | running following rest =>
          rw [out] at lower
          simp only [RecvOut.rank] at lower
          simp only [Receiver.afterRecv, Receiver.rank]
          omega
      | finished rest =>
          simp only [Receiver.afterRecv, Receiver.rank]
          omega
      | aborted rest => exact absurd out (continues rest)
  | received len read => exact ⟨_, _, rfl, by simp [Receiver.rank]⟩
  | testComplete out =>
      obtain ⟨_, _, _, rfl⟩ := serving
      refine ⟨xbuf, .stage .len out, by simp [Receiver.step, active, positive], ?_⟩
      simp [Receiver.rank]
  | stage pc out =>
      obtain ⟨_, _, _, rfl, _⟩ := serving
      cases pc with
      | len | copy => exact ⟨_, _, rfl, by simp [Receiver.rank]⟩
      | raise =>
          refine ⟨_, _, rfl, ?_⟩
          simp only [Receiver.rank, List.length_drop]
          omega
  | raiseComplete left =>
      refine ⟨_, _, rfl, ?_⟩
      unfold enterSend
      split <;> simp [Receiver.afterSend, Receiver.rank, SendPc.rank]
  | reply pc left =>
      obtain ⟨_, unsent, _⟩ := serving
      have clear : pc = .staged → xbuf.flags.staged = false := by
        rintro rfl
        simpa [Receiver.moves] using moves
      obtain ⟨continues, lower⟩ := sendData_rank unsent ready size clear
      refine ⟨_, _, rfl, ?_⟩
      cases out : (sendData xbuf left pc).2 with
      | running following rest =>
          rw [out] at lower
          exact lower
      | finished =>
          rw [out] at lower
          simp only [SendOut.rank] at lower
          simp only [Receiver.afterSend, Receiver.rank]
          omega
      | aborted => exact absurd out continues
  | idle | done | inactive => contradiction

/-! ## Runs in which READY stays set -/

/-- One interrupt per message, one receiver per accepted message, and READY
stays set. -/
def Steady (state : State) : Action → Prop
  | .spurious | .lower _ => False
  | .spawn => state.started < state.accepted
  | _ => True

/-- Steps that carry on what has been started. -/
def Working (state : State) : Action → Prop
  | .call _ | .deliver | .irq | .receiver _ => True
  | .spawn => state.started < state.accepted
  | _ => False

theorem Working.steady (working : Working state action) : Steady state action := by
  cases action with
  | call | deliver | irq | receiver => trivial
  | spawn => exact working
  | _ => exact working.elim

/-- No call has met or will meet a lowered READY. -/
def Call.untroubled : Call → Bool
  | .unlockErr | .rejected | .failed => false
  | _ => true

structure Running (params : Params) (size : Nat) (state : State) : Prop where
  integrity : Integrity params state
  ready : state.xbuf.flags.ready = true
  totalSize : state.xbuf.totalSize = size
  ctls : ∀ ctl, state.ctls ctl ≠ .set
  untroubled : ∀ call, (state.calls call).untroubled = true

theorem Running.disciplined {size : Nat} (running : Running params size state)
    (steady : Steady state action) (stepped : step params state action = some next) :
    Disciplined state action := by
  cases step_move stepped with
  | spurious | lower => exact steady.elim
  | spawn => exact steady
  | receiver => exact fun _ => running.ready
  | @set ctl point => exact running.ctls ctl point
  | _ => trivial

theorem step_ready (steady : Steady state action) (unset : ∀ ctl, state.ctls ctl ≠ .set)
    (stepped : step params state action = some next) :
    next.xbuf.flags.ready = state.xbuf.flags.ready ∧ next.xbuf.totalSize = state.xbuf.totalSize := by
  cases step_move stepped with
  | spurious | lower => exact steady.elim
  | @set ctl point => exact absurd point (unset ctl)
  | resetFlags | raisePending | irqRaise | irqNoHandler => simp
  | @owner call owner =>
      by_cases last : ∃ result, owner = .finish result
      · obtain ⟨result, rfl⟩ := last
        simp [Owner.step]
      · have same := owner.step_sameControl state.xbuf (params.message call) (params.wantsResp call)
          (fun result same => last ⟨result, same⟩)
        exact ⟨same.ready, same.totalSize⟩
  | receiver moved => exact (Receiver.step_pending moved).2
  | _ => exact ⟨rfl, rfl⟩

theorem Running.untroubled_step {size : Nat} (proper : Proper params) (running : Running params size state)
    (stepped : step params state action = some next) :
    (next.calls call).untroubled = true := by
  by_cases apart : action.concerns call = false
  · rw [step_calls_other apart stepped]
    exact running.untroubled call
  · cases step_move stepped with
    | @owner mine owner point =>
        have same : mine = call := by simpa [Action.concerns] using apart
        subst same
        rw [State.setCall_calls, if_pos rfl]
        rcases owner.step_call state.xbuf (params.message mine) (params.wantsResp mine) with
          ⟨after, moved, _⟩ | moved | ⟨result, rfl, moved⟩
        · rw [moved]
          rfl
        · exfalso
          rw [Owner.step_failed (running.integrity.exclusive.sized point)] at moved
          obtain ⟨earlier, accept, held⟩ := running.integrity.phase.open_of_owner point
          have exchange := held.exchange
          rw [point] at exchange
          cases owner with
          | waitReady => simp [Owner.givesUp, running.ready] at moved
          | recv pc len read => cases pc <;> simp [Owner.givesUp, running.ready] at moved
          | recvLen =>
              have empty : state.xbuf.dataLen = 0 := by simpa [Owner.givesUp] using moved
              rcases exchange.caller with staging | ⟨_, _, _, sending, _⟩ | awaiting | ⟨_, reading⟩
              · exact staging.elim
              · exact sending.elim
              · exact awaiting.elim
              · rw [reading.2.1] at empty
                exact proper.response _ (List.eq_nil_of_length_eq_zero empty)
          | _ => simp [Owner.givesUp] at moved
        · rw [moved]
          rfl
    | @unlockErr mine point =>
        have troubled := running.untroubled mine
        rw [point] at troubled
        contradiction
    | start | lock | resetFlags | raisePending | unlockBusy | wake | signal =>
        simp only [Action.concerns, Bool.not_eq_false, decide_eq_true_eq] at apart
        rw [State.setCall_calls, if_pos apart.symm]
        rfl
    | testReady =>
        simp only [Action.concerns, Bool.not_eq_false, decide_eq_true_eq] at apart
        rw [State.setCall_calls, if_pos apart.symm, if_pos running.ready]
        rfl
    | testPending =>
        simp only [Action.concerns, Bool.not_eq_false, decide_eq_true_eq] at apart
        rw [State.setCall_calls, if_pos apart.symm]
        split <;> rfl
    | _ => simp [Action.concerns] at apart

theorem step_ctls (ready : state.xbuf.flags.ready = true) (unset : ∀ ctl, state.ctls ctl ≠ .set)
    (stepped : step params state action = some next) (ctl : Nat) : next.ctls ctl ≠ .set := by
  cases step_move stepped with
  | enable _ lowered =>
      rw [ready] at lowered
      contradiction
  | disable | lower | set =>
      rw [State.setCtl_ctls]
      split
      · simp
      · exact unset ctl
  | _ => exact unset ctl

theorem Running.step {size : Nat} (proper : Proper params) (running : Running params size state)
    (steady : Steady state action) (stepped : step params state action = some next) :
    Running params size next where
  integrity := running.integrity.step proper (running.disciplined steady stepped) stepped
  ready := (step_ready steady running.ctls stepped).1.trans running.ready
  totalSize := (step_ready steady running.ctls stepped).2.trans running.totalSize
  ctls := step_ctls running.ready running.ctls stepped
  untroubled := fun _ => running.untroubled_step proper stepped

theorem Running.initial {size : Nat} (start : Initial size state) : Running params size state where
  integrity := .initial start
  ready := by simp [start.flags, xbufReady]
  totalSize := start.totalSize
  ctls := by
    intro ctl
    rw [start.ctls ctl]
    simp
  untroubled := by
    intro call
    rw [start.calls call]
    rfl

theorem running_of_reachable {size : Nat} (proper : Proper params)
    (reached : (system params size).Reachable Steady state) : Running params size state :=
  reached.invariant Running.initial (fun running steady stepped => running.step proper steady stepped)

/-! ## Finishing an exchange -/

def Call.rank (message resp : Bytes) : Call → Nat
  | .owner point => point.rank message resp
  | _ => 0

/-- What is left to do in an open exchange. -/
def rank (params : Params) (state : State) (call : Nat) (accept : Accept) : Nat :=
  (state.calls call).rank (params.message call) (params.response (params.message call)) +
    accept.rank (params.message call) (params.response (params.message call))

/-- The caller returned and nobody has the buffer. -/
structure Finished (params : Params) (state : State) (call : Nat) : Prop where
  closed : Closed params state
  returned : ∃ resp, state.calls call = .returned resp

theorem Running.owner {size : Nat} {earlier : List Nat} (running : Running params size state)
    (held : Open params state earlier call accept) : ∃ point, state.calls call = .owner point := by
  have untroubled := running.untroubled call
  cases point : state.calls call with
  | owner owner => exact ⟨owner, rfl⟩
  | failed =>
      rw [point] at untroubled
      contradiction
  | _ =>
      exfalso
      have exchange := held.exchange
      rw [point] at exchange
      rcases exchange.caller with staging | ⟨_, _, _, sending, _⟩ | awaiting | ⟨_, reading⟩
      · exact staging.elim
      · exact sending.elim
      · exact awaiting.elim
      · exact reading.elim

theorem Running.advance_owner {size : Nat} {earlier : List Nat} {point : Owner} (proper : Proper params)
    (positive : 0 < size) (running : Running params size state) (held : Open params state earlier call accept)
    (reached : state.calls call = .owner point) (moves : point.moves state.xbuf = true) :
    ∃ after, Channel.step params state (.call call) = some after ∧
      (Finished params after call ∨
        ∃ following, Open params after earlier call following ∧
          rank params after call following < rank params state call accept) := by
  have exchange := held.exchange
  rw [reached] at exchange
  have size : 0 < state.xbuf.totalSize := by
    rw [running.totalSize]
    exact positive
  refine ⟨_, by simp only [Channel.step, callStep, reached]; rfl, ?_⟩
  have lowers : (∀ result, point ≠ .finish result) → ∃ after,
      (point.step state.xbuf (params.message call) true).2 = .owner after ∧
        after.rank (params.message call) (params.response (params.message call)) <
          point.rank (params.message call) (params.response (params.message call)) :=
    Owner.step_rank (proper.message call) (proper.response _) running.ready size
      (exchange.owner_fit size) moves
  rw [proper.wants call]
  unfold rank
  cases point with
  | finish result => exact .inl ⟨held.finish reached, result, by simp [Owner.step]⟩
  | ipi left =>
      obtain ⟨rfl, _⟩ := exchange.ipi_step
      obtain ⟨after, moved, lower⟩ := lowers (by simp)
      refine .inr ⟨.ipi, held.interrupt reached, ?_⟩
      rw [State.setCall_calls, if_pos rfl, moved, reached]
      simp only [Call.rank, Accept.rank]
      omega
  | _ =>
      obtain ⟨after, moved, lower⟩ := lowers (by simp)
      refine .inr ⟨accept, held.hold proper reached (by simp) (by simp), ?_⟩
      rw [State.setCall_calls, if_pos rfl, moved, reached]
      simp only [Call.rank]
      omega

/-- Some step brings an open exchange closer to its end. -/
theorem Running.advance {size : Nat} {earlier : List Nat} (proper : Proper params) (positive : 0 < size)
    (running : Running params size state) (held : Open params state earlier call accept) :
    ∃ action after, Working state action ∧ (∀ other, other ≠ call → action.concerns other = false) ∧
      Channel.step params state action = some after ∧
      (Finished params after call ∨
        ∃ following, Open params after earlier call following ∧
          rank params after call following < rank params state call accept) := by
  obtain ⟨point, reached⟩ := running.owner held
  have exchange := held.exchange
  rw [reached] at exchange
  have linked := held.linked
  have size : 0 < state.xbuf.totalSize := by
    rw [running.totalSize]
    exact positive
  rcases exchange.moves running.ready with moves | ⟨early, sent⟩ | ⟨receiver, rfl, moves⟩
  · obtain ⟨after, stepped, result⟩ := running.advance_owner proper positive held reached moves
    refine ⟨.call call, after, trivial, ?_, stepped, result⟩
    intro other apart
    simpa [Action.concerns] using fun same => apart same.symm
  · cases accept with
    | before => exact absurd rfl sent
    | ipi =>
        have idle : state.irq = .idle := linked.irq
        have waiting : 0 < state.ipis := by
          rw [linked.ipis]
          exact Nat.one_pos
        refine ⟨.deliver, _, trivial, fun _ _ => rfl, by simp only [Channel.step]; rw [if_pos ⟨idle, waiting⟩],
          .inr ⟨_, held.deliver, ?_⟩⟩
        simp [rank, Accept.rank]
    | irqTest =>
        have handler : state.irq = .test := linked.irq
        refine ⟨.irq, _, trivial, fun _ _ => rfl, by simp only [Channel.step, handler],
          .inr ⟨_, held.irqTest, ?_⟩⟩
        simp [rank, Accept.rank]
    | irqRaise =>
        have handler : state.irq = .raise := linked.irq
        refine ⟨.irq, _, trivial, fun _ _ => rfl, by simp only [Channel.step, handler],
          .inr ⟨_, held.irqRaise proper, ?_⟩⟩
        simp [rank, Accept.rank]
    | accepted =>
        have waiting : state.started < state.accepted := by
          rw [linked.started, linked.accepted]
          simp [Accept.begun, Accept.handed]
        refine ⟨.spawn, _, waiting, fun _ _ => rfl, rfl, .inr ⟨_, held.spawn, ?_⟩⟩
        simp [rank, Accept.rank, Receiver.rank]
    | running receiver => exact absurd rfl (early receiver)
  · obtain ⟨after, following, moved, lower⟩ := Exchange.receiver_rank (proper.message call)
      (proper.response _) running.ready size exchange moves
    have current := linked.running receiver rfl
    refine ⟨.receiver earlier.length, _, trivial, fun _ _ => rfl, ?_,
      .inr ⟨.running following, held.receiver proper (fun _ => running.ready) moved, ?_⟩⟩
    · simp only [Channel.step, current, moved]
    · simp only [rank, Accept.rank]
      omega

/-- `call` can be brought to its return, moving no other call. -/
def Completes (params : Params) (size : Nat) (state : State) (call : Nat) : Prop :=
  ∃ after, (system params size).Path Working state after ∧ Finished params after call ∧
    ∀ other, other ≠ call → after.calls other = state.calls other

theorem Completes.head {size : Nat} (working : Working state action)
    (apart : ∀ other, other ≠ call → action.concerns other = false)
    (stepped : step params state action = some next) (rest : Completes params size next call) :
    Completes params size state call := by
  obtain ⟨after, path, finished, frame⟩ := rest
  refine ⟨after, .head working stepped path, finished, ?_⟩
  intro other different
  rw [frame other different]
  exact step_calls_other (apart other different) stepped

/-- From every state of an open exchange it can be finished. -/
theorem Running.drain {size : Nat} {earlier : List Nat} (proper : Proper params) (positive : 0 < size)
    (running : Running params size state) (held : Open params state earlier call accept) :
    Completes params size state call := by
  generalize remaining : rank params state call accept = count
  induction count using Nat.strongRecOn generalizing state accept with
  | ind count ih =>
      obtain ⟨action, middle, working, apart, stepped, result⟩ := running.advance proper positive held
      rcases result with finished | ⟨following, opened, lower⟩
      · exact ⟨middle, .single working stepped, finished,
          fun other different => step_calls_other (apart other different) stepped⟩
      · rw [remaining] at lower
        have next := running.step proper working.steady stepped
        exact .head working apart stepped (ih _ lower next opened rfl)

theorem call_concerns {other : Nat} (apart : other ≠ call) : (Action.call call).concerns other = false := by
  simp only [Action.concerns, decide_eq_false_iff_not]
  exact fun same => apart same.symm

namespace Running

theorem completes_step {size : Nat} {after : State} (proper : Proper params)
    (running : Running params size state)
    (stepped : Channel.step params state (.call call) = some after)
    (rest : Running params size after → Completes params size after call) :
    Completes params size state call := by
  have working : Working state (.call call) := trivial
  exact .head working (fun _ => call_concerns) stepped (rest (running.step proper working.steady stepped))

section FreeBuffer

variable {size : Nat} (proper : Proper params) (positive : 0 < size)

include proper positive

theorem completes_raisePending (running : Running params size state)
    (clear : state.xbuf.flags.pending = false) (reached : state.calls call = .raisePending) :
    Completes params size state call := by
  have closed := running.integrity.phase.closed clear
  apply running.completes_step proper
  · simp only [Channel.step, callStep, reached]
    rfl
  · intro next
    exact next.drain proper positive closed.acquire

theorem completes_resetFlags (running : Running params size state)
    (reached : state.calls call = .resetFlags) : Completes params size state call := by
  apply running.completes_step proper
  · simp only [Channel.step, callStep, reached]
    rfl
  · intro next
    exact next.completes_raisePending proper positive (by simp) (by simp)

theorem completes_testPending (running : Running params size state)
    (clear : state.xbuf.flags.pending = false) (reached : state.calls call = .testPending) :
    Completes params size state call := by
  apply running.completes_step proper
  · simp only [Channel.step, callStep, reached, clear]
    rfl
  · intro next
    exact next.completes_resetFlags proper positive (by simp)

theorem completes_testReady (running : Running params size state)
    (clear : state.xbuf.flags.pending = false) (reached : state.calls call = .testReady) :
    Completes params size state call := by
  apply running.completes_step proper
  · simp only [Channel.step, callStep, reached, running.ready]
    rfl
  · intro next
    exact next.completes_testPending proper positive clear (by simp)

theorem completes_lock (running : Running params size state) (clear : state.xbuf.flags.pending = false)
    (free : state.lock = none) (reached : state.calls call = .lock) : Completes params size state call := by
  apply running.completes_step proper
  · simp only [Channel.step, callStep, reached, free]
    rfl
  · intro next
    exact next.completes_testReady proper positive clear (by simp)

theorem completes_sleep (running : Running params size state) (clear : state.xbuf.flags.pending = false)
    (free : state.lock = none) (reached : state.calls call = .sleep) : Completes params size state call := by
  apply running.completes_step proper
  · simp only [Channel.step, callStep, reached, clear]
    rfl
  · intro next
    exact next.completes_lock proper positive clear free (by simp)

end FreeBuffer

theorem path {size : Nat} {after : State} (proper : Proper params) (running : Running params size state)
    (path : (system params size).Path Working state after) : Running params size after :=
  path.invariant running (fun kept working stepped => kept.step proper working.steady stepped)

end Running

theorem Closed.clear (closed : Closed params state) : state.xbuf.flags.pending = false := by
  rw [closed.flags]

/-- Whatever is going on can be brought to an end that leaves buffer and lock
free, without starting a call. -/
theorem Running.settle {size : Nat} (proper : Proper params) (positive : 0 < size)
    (running : Running params size state) :
    ∃ after, (system params size).Path Working state after ∧ Closed params after ∧ after.lock = none ∧
      ∀ call, state.calls call ≠ .idle → after.calls call ≠ .idle := by
  have unlock : ∀ {state : State}, Running params size state → Closed params state →
      ∃ after, (system params size).Path Working state after ∧ Closed params after ∧ after.lock = none ∧
        ∀ call, state.calls call ≠ .idle → after.calls call ≠ .idle := by
    intro state running closed
    cases held : state.lock with
    | none => exact ⟨state, .refl, closed, held, fun _ started => started⟩
    | some holder =>
        have locked := running.integrity.exclusive.locked
        have holds := (locked holder).mpr held
        have finish : Completes params size state holder →
            ∃ after, (system params size).Path Working state after ∧ Closed params after ∧
              after.lock = none ∧ ∀ call, state.calls call ≠ .idle → after.calls call ≠ .idle := by
          rintro ⟨after, path, finished, frame⟩
          obtain ⟨resp, returned⟩ := finished.returned
          refine ⟨after, path, finished.closed, ?_, ?_⟩
          · cases taken : after.lock with
            | none => rfl
            | some other =>
                have kept := ((running.path proper path).integrity.exclusive.locked other).mpr taken
                by_cases mine : other = holder
                · rw [mine, returned] at kept
                  contradiction
                · rw [frame other mine, locked other, held] at kept
                  exact absurd (Option.some.inj kept).symm mine
          · intro call started
            by_cases mine : call = holder
            · rw [mine, returned]
              simp
            · rw [frame call mine]
              exact started
        cases point : state.calls holder with
        | testReady => exact finish (running.completes_testReady proper positive closed.clear point)
        | testPending => exact finish (running.completes_testPending proper positive closed.clear point)
        | resetFlags => exact finish (running.completes_resetFlags proper positive point)
        | raisePending => exact finish (running.completes_raisePending proper positive closed.clear point)
        | unlockBusy =>
            have stepped : Channel.step params state (.call holder) =
                some ({ state with lock := none }.setCall holder .sleep) := by
              simp only [Channel.step, callStep, point]
            have working : Working state (.call holder) := trivial
            have next := running.step proper working.steady stepped
            refine ⟨_, .single working stepped, next.integrity.phase.closed closed.clear, rfl, ?_⟩
            intro call started
            rw [State.setCall_calls]
            split
            · simp
            · exact started
        | unlockErr =>
            have untroubled := running.untroubled holder
            rw [point] at untroubled
            contradiction
        | owner owner =>
            have unowned := closed.unowned holder
            rw [point] at unowned
            contradiction
        | _ =>
            rw [point] at holds
            contradiction
  rcases running.integrity.phase with closed | ⟨earlier, owner, accept, held⟩
  · exact unlock running closed
  · obtain ⟨middle, first, finished, frame⟩ := running.drain proper positive held
    obtain ⟨after, second, closed, free, kept⟩ := unlock (running.path proper first) finished.closed
    refine ⟨after, first.trans second, closed, free, ?_⟩
    intro call started
    apply kept
    by_cases mine : call = owner
    · obtain ⟨resp, returned⟩ := finished.returned
      rw [mine, returned]
      simp
    · rw [frame call mine]
      exact started

theorem Running.returns {size : Nat} (proper : Proper params) (positive : 0 < size)
    (running : Running params size state) (started : state.calls call ≠ .idle) :
    ∃ after resp, (system params size).Path Working state after ∧ after.calls call = .returned resp := by
  obtain ⟨middle, first, closed, free, kept⟩ := running.settle proper positive
  have settled := running.path proper first
  have completes : Completes params size middle call →
      ∃ after resp, (system params size).Path Working state after ∧ after.calls call = .returned resp := by
    rintro ⟨after, second, finished, _⟩
    obtain ⟨resp, returned⟩ := finished.returned
    exact ⟨after, resp, first.trans second, returned⟩
  have unlocked : ¬ (middle.calls call).holdsLock = true := by
    rw [settled.integrity.exclusive.locked call, free]
    simp
  have untroubled := settled.untroubled call
  have unowned := closed.unowned call
  cases point : middle.calls call with
  | lock => exact completes (settled.completes_lock proper positive closed.clear free point)
  | sleep => exact completes (settled.completes_sleep proper positive closed.clear free point)
  | returned resp => exact ⟨middle, resp, first, point⟩
  | idle => exact absurd point (kept call started)
  | owner owner =>
      rw [point] at unowned
      contradiction
  | failed | rejected | unlockErr =>
      rw [point] at untroubled
      contradiction
  | _ =>
      rw [point] at unlocked
      exact absurd rfl unlocked

end Pisces.Channel
