import Pisces.Xbuf.Transfer
import Pisces.Xbuf.Channel

/-! # One exchange

From raising PENDING to the `reset_flags` that ends it, an exchange involves
one call and, once its interrupt was accepted, one receiver.  `Exchange` relates
their control points to the buffer.  It survives READY being lowered at any
time: a sender that gives up keeps the relation with the bytes it never staged.
-/

namespace Pisces.Channel

variable {xbuf : Xbuf} {message resp : Bytes} {call : Call}

/-- How far the receiving side has come. -/
inductive Accept where
  | before
  | ipi
  | irqTest
  | irqRaise
  | accepted
  | running (receiver : Receiver)

/-- A sender between its interrupt and the completion of its message. -/
def Sending (xbuf : Xbuf) : Call → SenderView → Prop
  | .owner (.send pc left), view => left ≠ [] ∧ view = pc.view left
  | .owner .waitComplete, view | .owner .waitReady, view | .failed, view =>
      ∃ left, view = .waiting left ∧ (xbuf.flags.ready = true → left = [])
  | _, _ => False

/-- A sender with nothing left to stage. -/
def Awaiting : Call → Prop
  | .owner .waitComplete | .owner .waitReady | .failed => True
  | _ => False

/-- A sender after the completion of its message. -/
def Reading (xbuf : Xbuf) (resp : Bytes) : Call → SenderView → Prop
  | .owner .waitComplete, view | .owner .waitReady, view
  | .owner .testResp, view | .owner .recvLen, view =>
      xbuf.flags.staged = true ∧ xbuf.dataLen = resp.length ∧ Transfer xbuf resp view (.waiting [])
  | .owner (.recv pc len read), view =>
      len = resp.length ∧ (pc ≠ .lower → read.length < resp.length) ∧
        Transfer xbuf resp view (pc.view read)
  | .owner (.finish result), view => result = some resp ∧ view = .waiting []
  | .failed, _ => True
  | _, _ => False

/-- A call before its interrupt. -/
def Staging (xbuf : Xbuf) (message : Bytes) : Call → Prop
  | .owner .unlock | .owner (.stage .len) => xbuf.flags.staged = false
  | .owner (.stage .copy) => xbuf.flags.staged = false ∧ xbuf.dataLen = message.length
  | .owner (.stage .raise) =>
      xbuf.flags.staged = false ∧ xbuf.dataLen = message.length ∧
        xbuf.data.take (stagedLen message.length xbuf.totalSize) =
          message.take (stagedLen message.length xbuf.totalSize)
  | .owner (.ipi left) =>
      xbuf.dataLen = message.length ∧ Transfer xbuf message (.waiting left) (.waiting [])
  | _ => False

def Incoming (xbuf : Xbuf) (message read : Bytes) (call : Call) (pc : RecvPc) : Prop :=
  ∃ view, Sending xbuf call view ∧ Transfer xbuf message view (pc.view read)

/-- A receiver working on `message`. -/
def Serving (xbuf : Xbuf) (message resp : Bytes) (call : Call) : Receiver → Prop
  | .testActive | .recvLen =>
      xbuf.flags.complete = false ∧ xbuf.dataLen = message.length ∧ Incoming xbuf message [] call .ready
  | .recv pc len read =>
      xbuf.flags.complete = false ∧ len = message.length ∧
        (pc ≠ .lower → read.length < message.length) ∧ Incoming xbuf message read call pc
  | .received len read =>
      xbuf.flags.complete = false ∧ xbuf.flags.staged = false ∧ Awaiting call ∧
        len = message.length ∧ read = message
  | .testComplete out =>
      xbuf.flags.complete = false ∧ xbuf.flags.staged = false ∧ Awaiting call ∧ out = resp
  | .stage pc out =>
      xbuf.flags.complete = false ∧ xbuf.flags.staged = false ∧ Awaiting call ∧ out = resp ∧
        (pc ≠ .len → xbuf.dataLen = resp.length) ∧
        (pc = .raise → xbuf.data.take (stagedLen resp.length xbuf.totalSize) =
          resp.take (stagedLen resp.length xbuf.totalSize))
  | .raiseComplete left =>
      xbuf.flags.complete = false ∧ Awaiting call ∧ xbuf.flags.staged = true ∧
        xbuf.dataLen = resp.length ∧ Transfer xbuf resp (.waiting left) (.waiting [])
  | .reply pc left => xbuf.flags.complete = true ∧ left ≠ [] ∧ Reading xbuf resp call (pc.view left)
  | .done =>
      xbuf.flags.complete = true ∧
        ∃ left, (xbuf.flags.ready = true → left = []) ∧ Reading xbuf resp call (.waiting left)
  | .idle | .inactive => False

def Exchange (xbuf : Xbuf) (message resp : Bytes) (call : Call) : Accept → Prop
  | .before =>
      xbuf.flags.active = false ∧ xbuf.flags.complete = false ∧ Staging xbuf message call
  | .ipi | .irqTest | .irqRaise =>
      xbuf.flags.active = false ∧ xbuf.flags.complete = false ∧ xbuf.dataLen = message.length ∧
        Incoming xbuf message [] call .ready
  | .accepted =>
      xbuf.flags.active = true ∧ xbuf.flags.complete = false ∧ xbuf.dataLen = message.length ∧
        Incoming xbuf message [] call .ready
  | .running receiver => xbuf.flags.active = true ∧ Serving xbuf message resp call receiver

/-- The receiver copied out the whole message. -/
def Receiver.hasMessage : Receiver → Bool
  | .received _ _ | .testComplete _ | .stage _ _ | .raiseComplete _ | .reply _ _ | .done => true
  | _ => false

def Accept.hasMessage : Accept → Bool
  | .running receiver => receiver.hasMessage
  | _ => false

/-! ## Steps of the sender -/

theorem Incoming.of_afterSend {after : Xbuf} {left : Bytes} {out : SendOut} {read : Bytes} {pc : RecvPc}
    (kept : out.Kept xbuf after message left (pc.view read)) :
    Incoming after message read (.afterSend out) pc := by
  cases out with
  | running next rest => exact ⟨next.view rest, ⟨kept.1, rfl⟩, kept.2⟩
  | finished => exact ⟨.waiting [], ⟨[], rfl, fun _ => rfl⟩, kept⟩
  | aborted =>
      obtain ⟨lowered, rfl, transfer⟩ := kept
      refine ⟨.waiting left, ⟨left, rfl, fun ready => ?_⟩, transfer⟩
      rw [lowered] at ready
      contradiction

theorem Incoming.send_step {left read : Bytes} {sender : SendPc} {pc : RecvPc}
    (incoming : Incoming xbuf message read (.owner (.send sender left)) pc) :
    Incoming (sendData xbuf left sender).1 message read (.afterSend (sendData xbuf left sender).2) pc := by
  obtain ⟨view, ⟨unsent, rfl⟩, transfer⟩ := incoming
  exact Incoming.of_afterSend (sendData_transfer unsent transfer)

theorem Incoming.wait_step {read : Bytes} {pc : RecvPc} {point : Owner}
    (waiting : point = .waitComplete ∨ point = .waitReady) (running : xbuf.flags.complete = false)
    (incoming : Incoming xbuf message read (.owner point) pc) (wants : Bool) :
    (point.step xbuf message wants).1 = xbuf ∧
      Incoming xbuf message read (point.step xbuf message wants).2 pc := by
  obtain ⟨view, sending, transfer⟩ := incoming
  rcases waiting with rfl | rfl
  · simp only [Owner.step, running]
    exact ⟨trivial, view, sending, transfer⟩
  · refine ⟨rfl, view, ?_, transfer⟩
    simp only [Owner.step]
    split <;> exact sending

theorem Incoming.owner_step {read : Bytes} {pc : RecvPc} {point : Owner} {wants : Bool}
    (running : xbuf.flags.complete = false)
    (incoming : Incoming xbuf message read (.owner point) pc) :
    xbuf.SameOutside (point.step xbuf message wants).1 ∧
      Incoming (point.step xbuf message wants).1 message read (point.step xbuf message wants).2 pc := by
  cases point with
  | send sender left => exact ⟨sendData_sameOutside xbuf left sender, incoming.send_step⟩
  | waitComplete | waitReady =>
      obtain ⟨same, kept⟩ := incoming.wait_step (by simp) running wants
      rw [same]
      exact ⟨.refl xbuf, kept⟩
  | _ =>
      obtain ⟨view, sending, _⟩ := incoming
      exact sending.elim

theorem Awaiting.owner_step {point : Owner} (awaiting : Awaiting (.owner point)) (message : Bytes)
    (wants : Bool) (running : xbuf.flags.complete = false) :
    (point.step xbuf message wants).1 = xbuf ∧ Awaiting (point.step xbuf message wants).2 := by
  cases point with
  | waitComplete => simp [Owner.step, running, Awaiting]
  | waitReady =>
      refine ⟨rfl, ?_⟩
      simp only [Owner.step]
      split <;> trivial
  | _ => exact awaiting.elim

theorem Reading.owner_step {point : Owner} {view : SenderView} (nonempty : resp ≠ [])
    (reading : Reading xbuf resp (.owner point) view) (complete : xbuf.flags.complete = true)
    (unfinished : ∀ result, point ≠ .finish result) :
    xbuf.SameOutside (point.step xbuf message true).1 ∧
      Reading (point.step xbuf message true).1 resp (point.step xbuf message true).2 view := by
  have positive := List.length_pos_iff.mpr nonempty
  cases point with
  | waitComplete => simpa [Owner.step, complete] using ⟨Xbuf.SameOutside.refl xbuf, reading⟩
  | waitReady =>
      refine ⟨.refl xbuf, ?_⟩
      simp only [Owner.step]
      split
      · exact reading
      · trivial
  | testResp =>
      have staged := reading.1
      simpa [Owner.step, staged] using ⟨Xbuf.SameOutside.refl xbuf, reading⟩
  | recvLen =>
      obtain ⟨_, len, transfer⟩ := reading
      refine ⟨.refl xbuf, ?_⟩
      have more : resp.length - ([] : Bytes).length > 0 := by simpa using positive
      simp only [Owner.step, len, enterRecv, if_pos more, Call.afterRecv]
      exact ⟨rfl, fun _ => positive, transfer⟩
  | recv pc len read =>
      obtain ⟨rfl, unread, transfer⟩ := reading
      refine ⟨recvData_sameOutside xbuf resp.length read pc, ?_⟩
      have kept := recvData_transfer unread transfer
      simp only [Owner.step]
      cases out : (recvData xbuf resp.length read pc).2 with
      | running next rest =>
          rw [out] at kept
          exact ⟨rfl, kept.1, kept.2⟩
      | finished rest =>
          rw [out] at kept
          obtain ⟨rfl, _, rfl⟩ := kept
          have some : rest.length ≠ 0 := by omega
          simp only [Call.afterRecv, if_neg some]
          exact ⟨rfl, rfl⟩
      | aborted rest => trivial
  | finish result => exact absurd rfl (unfinished result)
  | _ => exact reading.elim

theorem Owner.step_sameControl (xbuf : Xbuf) (message : Bytes) (wants : Bool) {point : Owner}
    (unfinished : ∀ result, point ≠ .finish result) :
    xbuf.SameControl (point.step xbuf message wants).1 := by
  cases point with
  | stage pc =>
      have same := initStageData_sameControl xbuf message pc
      cases pc with
      | len | copy | raise => exact same
  | send pc left => exact (sendData_sameOutside xbuf left pc).toSameControl
  | recv pc len read => exact (recvData_sameOutside xbuf len read pc).toSameControl
  | finish result => exact absurd rfl (unfinished result)
  | _ => exact ⟨rfl, rfl⟩

theorem Staging.owner_step {point : Owner} (nonempty : message ≠ []) (wants : Bool)
    (staging : Staging xbuf message (.owner point)) (early : ∀ left, point ≠ .ipi left) :
    Staging (point.step xbuf message wants).1 message (point.step xbuf message wants).2 := by
  have positive := List.length_pos_iff.mpr nonempty
  cases point with
  | unlock =>
      simp only [Owner.step, if_pos positive]
      exact staging
  | stage pc =>
      cases pc with
      | len => exact ⟨staging, rfl⟩
      | copy => exact ⟨staging.1, staging.2, store_readable xbuf message⟩
      | raise =>
          obtain ⟨_, len, stored⟩ := staging
          simp only [Owner.step, initStageData, Xbuf.raiseFlag_staged]
          exact ⟨len, .inl ⟨rfl, inFlight_of_stored rfl nonempty stored⟩⟩
  | ipi left => exact absurd rfl (early left)
  | _ => exact staging.elim

theorem Exchange.owner_step {point : Owner} {accept : Accept} (sent : message ≠ []) (answered : resp ≠ [])
    (exchange : Exchange xbuf message resp (.owner point) accept)
    (early : ∀ left, point ≠ .ipi left) (unfinished : ∀ result, point ≠ .finish result) :
    Exchange (point.step xbuf message true).1 message resp (point.step xbuf message true).2 accept := by
  have same := point.step_sameControl xbuf message true unfinished
  cases accept with
  | before =>
      obtain ⟨active, complete, staging⟩ := exchange
      exact ⟨same.active.trans active, same.complete.trans complete,
        staging.owner_step sent true early⟩
  | ipi | irqTest | irqRaise | accepted =>
      obtain ⟨active, complete, len, incoming⟩ := exchange
      obtain ⟨outside, kept⟩ := incoming.owner_step complete
      exact ⟨same.active.trans active, same.complete.trans complete, outside.dataLen.trans len, kept⟩
  | running receiver =>
      obtain ⟨active, serving⟩ := exchange
      refine ⟨same.active.trans active, ?_⟩
      cases receiver with
      | testActive | recvLen =>
          obtain ⟨complete, len, incoming⟩ := serving
          obtain ⟨outside, kept⟩ := incoming.owner_step complete
          exact ⟨same.complete.trans complete, outside.dataLen.trans len, kept⟩
      | recv pc len read =>
          obtain ⟨complete, length, unread, incoming⟩ := serving
          exact ⟨same.complete.trans complete, length, unread, (incoming.owner_step complete).2⟩
      | received len read | testComplete out | stage pc out | raiseComplete left =>
          have awaiting : Awaiting (.owner point) := by
            first | exact serving.2.2.1 | exact serving.2.1
          obtain ⟨unchanged, kept⟩ := awaiting.owner_step message true serving.1
          rw [unchanged]
          simp only [Serving] at serving ⊢
          tauto
      | reply pc left =>
          obtain ⟨complete, unsent, reading⟩ := serving
          exact ⟨same.complete.trans complete, unsent,
            (reading.owner_step answered complete unfinished).2⟩
      | done =>
          obtain ⟨complete, left, drained, reading⟩ := serving
          refine ⟨same.complete.trans complete, left, ?_, (reading.owner_step answered complete unfinished).2⟩
          rw [same.ready]
          exact drained
      | idle | inactive => exact serving.elim

theorem Exchange.ipi_step {left : Bytes} {accept : Accept}
    (exchange : Exchange xbuf message resp (.owner (.ipi left)) accept) :
    accept = .before ∧ Exchange xbuf message resp (.afterSend (enterSend left)) .ipi := by
  cases accept with
  | before =>
      obtain ⟨active, complete, len, transfer⟩ := exchange
      have kept : (enterSend left).Kept xbuf xbuf message left (RecvPc.ready.view []) :=
        enterSend_kept transfer
      exact ⟨rfl, active, complete, len, .of_afterSend kept⟩
  | ipi | irqTest | irqRaise | accepted =>
      obtain ⟨_, _, _, _, sending, _⟩ := exchange
      exact sending.elim
  | running receiver =>
      cases receiver with
      | testActive | recvLen =>
          obtain ⟨_, _, _, _, sending, _⟩ := exchange
          exact sending.elim
      | recv pc len read =>
          obtain ⟨_, _, _, _, _, sending, _⟩ := exchange
          exact sending.elim
      | received len read | testComplete out | stage pc out => exact exchange.2.2.2.1.elim
      | raiseComplete rest => exact exchange.2.2.1.elim
      | reply pc rest => exact exchange.2.2.2.elim
      | done =>
          obtain ⟨_, _, _, _, reading⟩ := exchange
          exact reading.elim
      | idle | inactive => exact exchange.2.elim

/-- The owner ends the exchange only with the whole response, behind a
receiver that staged all of it. -/
theorem Exchange.finish {result : Option Bytes} {accept : Accept}
    (exchange : Exchange xbuf message resp (.owner (.finish result)) accept) :
    accept = .running .done ∧ result = some resp := by
  cases accept with
  | before => exact exchange.2.2.elim
  | ipi | irqTest | irqRaise | accepted =>
      obtain ⟨_, _, _, _, sending, _⟩ := exchange
      exact sending.elim
  | running receiver =>
      cases receiver with
      | testActive | recvLen =>
          obtain ⟨_, _, _, _, sending, _⟩ := exchange
          exact sending.elim
      | recv pc len read =>
          obtain ⟨_, _, _, _, _, sending, _⟩ := exchange
          exact sending.elim
      | received len read | testComplete out | stage pc out => exact exchange.2.2.2.1.elim
      | raiseComplete rest => exact exchange.2.2.1.elim
      | reply pc rest =>
          obtain ⟨_, _, unsent, _, waiting⟩ := exchange
          cases pc with
          | ready | staged | spin => cases waiting; contradiction
          | copy | raise => cases waiting
      | done =>
          obtain ⟨_, _, _, _, reading⟩ := exchange
          exact ⟨rfl, reading.1⟩
      | idle | inactive => exact exchange.2.elim

/-! ## Steps of the receiver -/

/-- The receiver is about to test READY inside `recv_data`. -/
def Receiver.mayAbort : Receiver → Bool
  | .recv .ready _ _ | .recv .spin _ _ => true
  | _ => false

theorem Incoming.recv_step {read : Bytes} {pc : RecvPc} {base : List Bytes}
    (complete : xbuf.flags.complete = false) (active : xbuf.flags.active = true)
    (unread : pc ≠ .lower → read.length < message.length)
    (incoming : Incoming xbuf message read call pc)
    (steady : (Receiver.recv pc message.length read).mayAbort = true → xbuf.flags.ready = true) :
    let after := (recvData xbuf message.length read pc).1
    let next := Receiver.afterRecv message.length (recvData xbuf message.length read pc).2
    Exchange after message resp call (.running next) ∧
      recordReceived base next = base ++ (if next.hasMessage then [message] else []) := by
  obtain ⟨view, sending, transfer⟩ := incoming
  have same := recvData_sameOutside xbuf message.length read pc
  have kept := recvData_transfer unread transfer
  have sending : Sending (recvData xbuf message.length read pc).1 call view := by
    unfold Sending at sending ⊢
    rw [same.ready]
    exact sending
  intro after next
  have runs : after.flags.active = true := same.active.trans active
  have open_ : after.flags.complete = false := same.complete.trans complete
  cases out : (recvData xbuf message.length read pc).2 with
  | running following rest =>
      rw [out] at kept
      have moved : next = .recv following message.length rest := by simp [next, out, Receiver.afterRecv]
      rw [moved]
      exact ⟨⟨runs, open_, rfl, kept.1, view, sending, kept.2⟩, by simp [recordReceived, Receiver.hasMessage]⟩
  | finished rest =>
      rw [out] at kept
      obtain ⟨whole, clear, rfl⟩ := kept
      have moved : next = .received message.length rest := by simp [next, out, Receiver.afterRecv]
      rw [moved]
      refine ⟨⟨runs, open_, clear, ?_, rfl, whole⟩, by simp [recordReceived, Receiver.hasMessage, whole]⟩
      cases call with
      | owner point =>
          cases point with
          | send sender left =>
              obtain ⟨unsent, waiting⟩ := sending
              cases sender with
              | ready | staged | spin => cases waiting; contradiction
              | copy | raise => cases waiting
          | waitComplete | waitReady => trivial
          | _ => exact sending.elim
      | failed => trivial
      | _ => exact sending.elim
  | aborted rest =>
      rw [out] at kept
      obtain ⟨lowered, _⟩ := kept
      have raised : xbuf.flags.ready = true := by
        apply steady
        cases pc with
        | ready | spin => rfl
        | staged => simp only [recvData] at out; split at out <;> cases out
        | copy => cases out
        | lower => simp only [recvData, enterRecv] at out; split at out <;> cases out
      rw [raised] at lowered
      contradiction

/-- While the caller has not begun to read, the receiver waits behind its first
chunk. -/
theorem sendData_waiting {left : Bytes} {pc : SendPc} (staged : xbuf.flags.staged = true)
    (transfer : Transfer xbuf resp (pc.view left) (.waiting [])) :
    (sendData xbuf left pc).1 = xbuf := by
  cases pc with
  | ready | staged | spin => rfl
  | copy | raise =>
      have clear := transfer.1
      rw [staged] at clear
      contradiction

theorem Reading.send_step {left : Bytes} {pc : SendPc} (unsent : left ≠ [])
    (reading : Reading xbuf resp call (pc.view left)) :
    Reading (sendData xbuf left pc).1 resp call ((sendData xbuf left pc).2.view left) := by
  cases call with
  | owner point =>
      cases point with
      | waitComplete | waitReady | testResp | recvLen =>
          obtain ⟨staged, len, transfer⟩ := reading
          have kept := (sendData_transfer unsent transfer).transfer
          rw [sendData_waiting staged transfer] at kept ⊢
          exact ⟨staged, len, kept⟩
      | recv reader len read =>
          obtain ⟨length, unread, transfer⟩ := reading
          exact ⟨length, unread, (sendData_transfer unsent transfer).transfer⟩
      | finish result =>
          obtain ⟨_, waiting⟩ := reading
          cases pc with
          | ready | staged | spin => cases waiting; contradiction
          | copy | raise => cases waiting
      | _ => exact reading.elim
  | failed => trivial
  | _ => exact reading.elim

theorem sendData_aborted {left : Bytes} {pc : SendPc} (out : (sendData xbuf left pc).2 = .aborted) :
    xbuf.flags.ready = false := by
  cases pc with
  | ready | spin =>
      simp only [sendData] at out
      split at out
      · cases out
      · rename_i lowered
        simpa using lowered
  | staged => simp only [sendData] at out; split at out <;> cases out
  | copy => cases out
  | raise => simp only [sendData, enterSend] at out; split at out <;> cases out

theorem Reading.reply_step {left : Bytes} {pc : SendPc} (unsent : left ≠ [])
    (complete : xbuf.flags.complete = true) (reading : Reading xbuf resp call (pc.view left)) :
    Serving (sendData xbuf left pc).1 message resp call (.afterSend (sendData xbuf left pc).2) := by
  have same := sendData_sameOutside xbuf left pc
  have kept := reading.send_step unsent
  have completed := same.complete.trans complete
  cases out : (sendData xbuf left pc).2 with
  | running next rest =>
      rw [out] at kept
      exact ⟨completed, sendData_unsent unsent out, kept⟩
  | finished =>
      rw [out] at kept
      exact ⟨completed, [], fun _ => rfl, kept⟩
  | aborted =>
      rw [out] at kept
      refine ⟨completed, left, fun ready => ?_, kept⟩
      rw [same.ready, sendData_aborted out] at ready
      contradiction

/-- COMPLETE turns a waiting sender into a reader of the response. -/
theorem Awaiting.reading {left : Bytes} (awaiting : Awaiting call) (staged : xbuf.flags.staged = true)
    (len : xbuf.dataLen = resp.length) (transfer : Transfer xbuf resp (.waiting left) (.waiting [])) :
    Reading xbuf resp call (.waiting left) := by
  cases call with
  | owner point =>
      cases point with
      | waitComplete | waitReady => exact ⟨staged, len, transfer⟩
      | _ => exact awaiting.elim
  | failed => trivial
  | _ => exact awaiting.elim

theorem Receiver.step_pending {response : Bytes → Bytes} {receiver next : Receiver} {after : Xbuf}
    (stepped : receiver.step xbuf response = some (after, next)) :
    after.flags.pending = xbuf.flags.pending ∧ after.flags.ready = xbuf.flags.ready ∧
      after.totalSize = xbuf.totalSize := by
  cases receiver with
  | testActive | recvLen | received | testComplete => cases stepped; simp
  | recv pc len read =>
      cases stepped
      have same := recvData_sameOutside xbuf len read pc
      exact ⟨same.pending, same.ready, same.totalSize⟩
  | stage pc out =>
      have same := initStageData_sameControl xbuf out pc
      cases pc <;> cases stepped <;> exact ⟨same.pending, same.ready, same.totalSize⟩
  | raiseComplete left => cases stepped; simp
  | reply pc left =>
      cases stepped
      have same := sendData_sameOutside xbuf left pc
      exact ⟨same.pending, same.ready, same.totalSize⟩
  | idle | done | inactive => cases stepped

theorem Exchange.receiver_step {response : Bytes → Bytes} {receiver next : Receiver} {after : Xbuf}
    (base : List Bytes) (sent : message ≠ []) (answered : resp ≠ []) (computed : response message = resp)
    (exchange : Exchange xbuf message resp call (.running receiver))
    (steady : receiver.mayAbort = true → xbuf.flags.ready = true)
    (stepped : receiver.step xbuf response = some (after, next)) :
    Exchange after message resp call (.running next) ∧
      recordReceived (base ++ if receiver.hasMessage then [message] else []) next =
        base ++ if next.hasMessage then [message] else [] := by
  have positive := List.length_pos_iff.mpr answered
  have more : 0 < message.length := List.length_pos_iff.mpr sent
  obtain ⟨active, serving⟩ := exchange
  cases receiver with
  | testActive =>
      simp only [Receiver.step, active, if_true] at stepped
      cases stepped
      exact ⟨⟨active, serving⟩, rfl⟩
  | recvLen =>
      obtain ⟨complete, len, incoming⟩ := serving
      have unread : message.length - ([] : Bytes).length > 0 := by simpa using more
      simp only [Receiver.step, len, enterRecv, if_pos unread, Receiver.afterRecv] at stepped
      cases stepped
      exact ⟨⟨active, complete, rfl, fun _ => more, incoming⟩, rfl⟩
  | recv pc len read =>
      obtain ⟨complete, rfl, unread, incoming⟩ := serving
      cases stepped
      simpa [Receiver.hasMessage] using incoming.recv_step complete active unread steady
  | received len read =>
      obtain ⟨complete, clear, awaiting, _, rfl⟩ := serving
      cases stepped
      exact ⟨⟨active, complete, clear, awaiting, computed⟩, rfl⟩
  | testComplete out =>
      obtain ⟨complete, clear, awaiting, rfl⟩ := serving
      simp only [Receiver.step, active, if_true, if_pos positive] at stepped
      cases stepped
      exact ⟨⟨active, complete, clear, awaiting, rfl, by simp, by simp⟩, rfl⟩
  | stage pc out =>
      obtain ⟨complete, clear, awaiting, rfl, len, stored⟩ := serving
      cases pc with
      | len =>
          cases stepped
          exact ⟨⟨active, complete, clear, awaiting, rfl, fun _ => rfl, by simp⟩, rfl⟩
      | copy =>
          cases stepped
          exact ⟨⟨active, complete, clear, awaiting, rfl, fun _ => len (by simp),
            fun _ => store_readable xbuf out⟩, rfl⟩
      | raise =>
          simp only [Receiver.step, initStageData, Xbuf.raiseFlag_staged] at stepped
          cases stepped
          exact ⟨⟨active, complete, awaiting, rfl, len (by simp),
            .inl ⟨rfl, inFlight_of_stored rfl answered (stored rfl)⟩⟩, rfl⟩
  | raiseComplete left =>
      obtain ⟨complete, awaiting, staged, len, transfer⟩ := serving
      simp only [Receiver.step, Xbuf.raiseFlag_complete] at stepped
      cases stepped
      have reading : Reading { xbuf with flags := { xbuf.flags with complete := true } } resp call
          (.waiting left) := awaiting.reading staged len (transfer.of_flags rfl)
      unfold enterSend
      split
      · rename_i unsent
        exact ⟨⟨active, rfl, List.ne_nil_of_length_pos unsent, reading⟩, rfl⟩
      · rename_i none
        have empty : left = [] := List.eq_nil_of_length_eq_zero (by omega)
        subst empty
        exact ⟨⟨active, rfl, [], fun _ => rfl, reading⟩, rfl⟩
  | reply pc left =>
      obtain ⟨complete, unsent, reading⟩ := serving
      cases stepped
      refine ⟨⟨(sendData_sameOutside xbuf left pc).active.trans active,
        reading.reply_step unsent complete⟩, ?_⟩
      cases (sendData xbuf left pc).2 <;> rfl
  | done => cases stepped
  | idle | inactive => exact serving.elim

/-! ## Steps of the interrupt handler and of disable -/

theorem Incoming.of_flags {read : Bytes} {pc : RecvPc} {flags : Flags}
    (same : flags.staged = xbuf.flags.staged) (lower : flags.ready = true → xbuf.flags.ready = true)
    (incoming : Incoming xbuf message read call pc) :
    Incoming { xbuf with flags } message read call pc := by
  obtain ⟨view, sending, transfer⟩ := incoming
  refine ⟨view, ?_, transfer.of_flags same⟩
  cases call with
  | owner point =>
      cases point with
      | waitComplete | waitReady =>
          obtain ⟨left, waiting, drained⟩ := sending
          exact ⟨left, waiting, fun ready => drained (lower ready)⟩
      | _ => exact sending
  | failed =>
      obtain ⟨left, waiting, drained⟩ := sending
      exact ⟨left, waiting, fun ready => drained (lower ready)⟩
  | _ => exact sending

theorem Reading.of_flags {view : SenderView} {flags : Flags} (same : flags.staged = xbuf.flags.staged)
    (reading : Reading xbuf resp call view) : Reading { xbuf with flags } resp call view := by
  cases call with
  | owner point =>
      cases point with
      | waitComplete | waitReady | testResp | recvLen =>
          obtain ⟨staged, len, transfer⟩ := reading
          exact ⟨same.trans staged, len, transfer.of_flags same⟩
      | recv pc len read =>
          obtain ⟨length, unread, transfer⟩ := reading
          exact ⟨length, unread, transfer.of_flags same⟩
      | _ => exact reading
  | _ => exact reading

theorem Exchange.raise_active (exchange : Exchange xbuf message resp call .irqRaise) :
    Exchange (xbuf.raiseFlag xbufActive) message resp call .accepted := by
  obtain ⟨_, complete, len, incoming⟩ := exchange
  rw [Xbuf.raiseFlag_active]
  exact ⟨rfl, complete, len, incoming.of_flags rfl id⟩

theorem Exchange.lower_ready {accept : Accept} (exchange : Exchange xbuf message resp call accept) :
    Exchange (xbuf.lowerFlag xbufReady) message resp call accept := by
  rw [Xbuf.lowerFlag_ready]
  have never : false = true → xbuf.flags.ready = true := by simp
  cases accept with
  | before =>
      obtain ⟨active, complete, staging⟩ := exchange
      refine ⟨active, complete, ?_⟩
      cases call with
      | owner point =>
          cases point with
          | stage pc => cases pc with | len | copy | raise => exact staging
          | ipi left => exact ⟨staging.1, staging.2.of_flags rfl⟩
          | _ => exact staging
      | _ => exact staging
  | ipi | irqTest | irqRaise | accepted =>
      obtain ⟨active, complete, len, incoming⟩ := exchange
      exact ⟨active, complete, len, incoming.of_flags rfl never⟩
  | running receiver =>
      obtain ⟨active, serving⟩ := exchange
      refine ⟨active, ?_⟩
      cases receiver with
      | testActive | recvLen =>
          obtain ⟨complete, len, incoming⟩ := serving
          exact ⟨complete, len, incoming.of_flags rfl never⟩
      | recv pc len read =>
          obtain ⟨complete, length, unread, incoming⟩ := serving
          exact ⟨complete, length, unread, incoming.of_flags rfl never⟩
      | raiseComplete left =>
          obtain ⟨complete, awaiting, staged, len, transfer⟩ := serving
          exact ⟨complete, awaiting, staged, len, transfer.of_flags rfl⟩
      | reply pc left =>
          obtain ⟨complete, unsent, reading⟩ := serving
          exact ⟨complete, unsent, reading.of_flags rfl⟩
      | done =>
          obtain ⟨complete, left, _, reading⟩ := serving
          exact ⟨complete, left, by simp, reading.of_flags rfl⟩
      | _ => exact serving

theorem Exchange.opened (active : xbuf.flags.active = false) (complete : xbuf.flags.complete = false)
    (staged : xbuf.flags.staged = false) :
    Exchange (xbuf.raiseFlag xbufPending) message resp (.owner .unlock) .before := by
  rw [Xbuf.raiseFlag_pending]
  exact ⟨active, complete, staged⟩

end Pisces.Channel
