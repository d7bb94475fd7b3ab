import Pisces.Xbuf.Integrity

/-! # An exchange of any kind

The relation between a call, its receiver and the buffer where messages and
responses may be empty and the caller may decline the response, up to the point
where the receiving side is done with the message.  READY stays set.
-/

namespace Pisces.Channel

variable {xbuf after : Xbuf} {message resp : Bytes} {wants : Bool} {owner : Call} {accept : Accept}
  {receiver point : Receiver}

/-- A call before its interrupt. -/
def Preparing (xbuf : Xbuf) (message : Bytes) (call : Call) : Prop :=
  (message ≠ [] ∧ Staging xbuf message call) ∨
    (message = [] ∧ xbuf.flags.staged = false ∧ (call = .owner .unlock ∨ call = .owner (.ipi [])))

/-- An empty message leaves `data_len` as it was. -/
def Announced (xbuf : Xbuf) (message : Bytes) (call : Call) : Prop :=
  xbuf.flags.complete = false ∧ (message ≠ [] → xbuf.dataLen = message.length) ∧
    Incoming xbuf message [] call .ready

/-- A receiver with a message of any kind.  A stale `data_len` makes it wait for
an empty message for ever. -/
def Attending (xbuf : Xbuf) (message resp : Bytes) (wants : Bool) (call : Call) : Receiver → Prop
  | .testActive | .recvLen => Announced xbuf message call
  | .recv pc len read =>
      Serving xbuf message resp call (.recv pc len read) ∨
        (message = [] ∧ xbuf.flags.complete = false ∧ pc.view read = .waiting [] ∧
          Incoming xbuf [] [] call .ready)
  | .received len read => Serving xbuf message resp call (.received len read)
  | .testComplete out => Serving xbuf message resp call (.testComplete out)
  | .stage pc out => resp ≠ [] ∧ Serving xbuf message resp call (.stage pc out)
  | .raiseComplete left =>
      (resp ≠ [] ∧ Serving xbuf message resp call (.raiseComplete left)) ∨
        (resp = [] ∧ left = [] ∧ xbuf.flags.complete = false ∧ xbuf.flags.staged = false ∧ Awaiting call)
  | .reply pc left => resp ≠ [] ∧ wants = true ∧ Serving xbuf message resp call (.reply pc left)
  | .idle | .done | .inactive => False

/-- The receiving side has still to do with the message. -/
def Underway (xbuf : Xbuf) (message resp : Bytes) (wants : Bool) (call : Call) : Accept → Prop
  | .before =>
      xbuf.flags.active = false ∧ xbuf.flags.complete = false ∧ Preparing xbuf message call
  | .ipi | .irqTest | .irqRaise => xbuf.flags.active = false ∧ Announced xbuf message call
  | .accepted => xbuf.flags.active = true ∧ Announced xbuf message call
  | .running receiver => xbuf.flags.active = true ∧ Attending xbuf message resp wants call receiver

/-- A call past its interrupt. -/
def Call.notified : Call → Bool
  | .owner .unlock | .owner (.stage _) | .owner (.ipi _) => false
  | .owner _ | .failed => true
  | _ => false

/-- A caller to whom the receiving side answers nothing. -/
def Unanswered (xbuf : Xbuf) : Call → Prop
  | .owner .waitComplete | .owner .waitReady | .owner .testResp => xbuf.flags.staged = false
  | .owner (.finish result) => result = none
  | .failed => True
  | _ => False

/-- A caller to whom the receiving side has handed its whole response. -/
def Concluding (xbuf : Xbuf) (resp : Bytes) (call : Call) : Prop :=
  xbuf.flags.complete = true ∧
    ((resp ≠ [] ∧ Reading xbuf resp call (.waiting [])) ∨ (resp = [] ∧ Unanswered xbuf call))

theorem Incoming.empty (incoming : Incoming xbuf [] [] owner .ready) :
    xbuf.flags.staged = false ∧ Awaiting owner := by
  obtain ⟨view, sending, transfer⟩ := incoming
  have nothing : ∀ {left}, [] = ([] : Bytes) ++ left → left = [] := fun same => same.symm
  cases owner with
  | owner point =>
      cases point with
      | send pc left =>
          obtain ⟨unsent, rfl⟩ := sending
          cases pc with
          | ready | staged | spin =>
              rcases transfer with ⟨_, flight⟩ | ⟨_, whole⟩
              · exact absurd flight.pending (Nat.lt_irrefl _)
              · exact absurd (nothing whole) unsent
          | copy => exact absurd (nothing transfer.2) unsent
          | raise => exact absurd (nothing transfer.2.1) unsent
      | waitComplete | waitReady =>
          obtain ⟨left, rfl, _⟩ := sending
          rcases transfer with ⟨_, flight⟩ | ⟨clear, _⟩
          · exact absurd flight.pending (Nat.lt_irrefl _)
          · exact ⟨clear, trivial⟩
      | _ => exact sending.elim
  | failed =>
      obtain ⟨left, rfl, _⟩ := sending
      rcases transfer with ⟨_, flight⟩ | ⟨clear, _⟩
      · exact absurd flight.pending (Nat.lt_irrefl _)
      · exact ⟨clear, trivial⟩
  | _ => exact sending.elim

theorem Incoming.notified {read : Bytes} {pc : RecvPc} (incoming : Incoming xbuf message read owner pc) :
    owner.notified = true := by
  obtain ⟨view, sending, _⟩ := incoming
  cases owner with
  | owner point =>
      cases point with
      | send | waitComplete | waitReady => rfl
      | _ => exact sending.elim
  | failed => rfl
  | _ => exact sending.elim

theorem Awaiting.notified (awaiting : Awaiting owner) : owner.notified = true := by
  cases owner with
  | owner point =>
      cases point with
      | waitComplete | waitReady => rfl
      | _ => exact awaiting.elim
  | failed => rfl
  | _ => exact awaiting.elim

theorem Reading.notified {view : SenderView} (reading : Reading xbuf resp owner view) :
    owner.notified = true := by
  cases owner with
  | owner point =>
      cases point with
      | waitComplete | waitReady | testResp | recvLen | recv | finish => rfl
      | _ => exact reading.elim
  | failed => rfl
  | _ => exact reading.elim

/-! ## Steps of the caller -/

theorem Preparing.owner_step {point : Owner} (preparing : Preparing xbuf message (.owner point))
    (early : ∀ left, point ≠ .ipi left) (wants : Bool) :
    Preparing (point.step xbuf message wants).1 message (point.step xbuf message wants).2 := by
  rcases preparing with ⟨sent, staging⟩ | ⟨rfl, clear, same | same⟩
  · exact .inl ⟨sent, staging.owner_step sent wants early⟩
  · cases same
    exact .inr ⟨rfl, clear, .inr rfl⟩
  · cases same
    exact absurd rfl (early [])

theorem Announced.owner_step {point : Owner} (announced : Announced xbuf message (.owner point)) (wants : Bool) :
    Announced (point.step xbuf message wants).1 message (point.step xbuf message wants).2 := by
  obtain ⟨complete, len, incoming⟩ := announced
  obtain ⟨same, kept⟩ := incoming.owner_step complete
  refine ⟨same.complete.trans complete, fun sent => ?_, kept⟩
  rw [same.dataLen]
  exact len sent

/-- The caller does not end the exchange while the receiving side has to do with it. -/
theorem Underway.unfinished {result : Option Bytes} :
    ¬ Underway xbuf message resp wants (.owner (.finish result)) accept := by
  intro underway
  cases accept with
  | before =>
      rcases underway.2.2 with ⟨_, staging⟩ | ⟨_, _, same | same⟩
      · exact staging.elim
      · cases same
      · cases same
  | ipi | irqTest | irqRaise | accepted =>
      obtain ⟨_, _, _, _, sending, _⟩ := underway
      exact sending.elim
  | running receiver =>
      obtain ⟨active, attending⟩ := underway
      cases receiver with
      | testActive | recvLen =>
          obtain ⟨_, _, _, sending, _⟩ := attending
          exact sending.elim
      | recv pc len read =>
          rcases attending with serving | ⟨_, _, _, _, sending, _⟩
          · obtain ⟨_, _, _, _, sending, _⟩ := serving
            exact sending.elim
          · exact sending.elim
      | received | testComplete => exact attending.2.2.1.elim
      | stage => exact attending.2.2.2.1.elim
      | raiseComplete left =>
          rcases attending with ⟨_, serving⟩ | ⟨_, _, _, _, awaiting⟩
          · exact serving.2.1.elim
          · exact awaiting.elim
      | reply pc left =>
          obtain ⟨_, _, _, unsent, _, waiting⟩ := attending
          cases pc with
          | ready | staged | spin => cases waiting; contradiction
          | copy | raise => cases waiting
      | idle | done | inactive => exact attending.elim

theorem Attending.owner_step {point : Owner} (attending : Attending xbuf message resp wants (.owner point) receiver)
    (unfinished : ∀ result, point ≠ .finish result) :
    Attending (point.step xbuf message wants).1 message resp wants (point.step xbuf message wants).2 receiver := by
  cases receiver with
  | testActive | recvLen => exact Announced.owner_step attending wants
  | recv pc len read =>
      rcases attending with ⟨complete, length, unread, incoming⟩ | ⟨rfl, complete, view, incoming⟩
      · obtain ⟨same, kept⟩ := incoming.owner_step complete
        exact .inl ⟨same.complete.trans complete, length, unread, kept⟩
      · obtain ⟨same, kept⟩ := incoming.owner_step complete
        exact .inr ⟨rfl, same.complete.trans complete, view, kept⟩
  | received | testComplete =>
      obtain ⟨complete, clear, awaiting, whole⟩ := attending
      obtain ⟨unchanged, kept⟩ := awaiting.owner_step message wants complete
      rw [unchanged]
      exact ⟨complete, clear, kept, whole⟩
  | stage pc out =>
      obtain ⟨answered, complete, clear, awaiting, stored⟩ := attending
      obtain ⟨unchanged, kept⟩ := awaiting.owner_step message wants complete
      rw [unchanged]
      exact ⟨answered, complete, clear, kept, stored⟩
  | raiseComplete left =>
      rcases attending with ⟨answered, complete, awaiting, staged⟩ | ⟨none, last, complete, clear, awaiting⟩
      · obtain ⟨unchanged, kept⟩ := awaiting.owner_step message wants complete
        rw [unchanged]
        exact .inl ⟨answered, complete, kept, staged⟩
      · obtain ⟨unchanged, kept⟩ := awaiting.owner_step message wants complete
        rw [unchanged]
        exact .inr ⟨none, last, complete, clear, kept⟩
  | reply pc left =>
      obtain ⟨answered, rfl, complete, unsent, reading⟩ := attending
      obtain ⟨same, kept⟩ := reading.owner_step answered complete unfinished
      exact ⟨answered, rfl, same.complete.trans complete, unsent, kept⟩
  | idle | done | inactive => exact attending.elim

theorem Underway.owner_step {point : Owner} (underway : Underway xbuf message resp wants (.owner point) accept)
    (early : ∀ left, point ≠ .ipi left) :
    Underway (point.step xbuf message wants).1 message resp wants (point.step xbuf message wants).2 accept := by
  have unfinished : ∀ result, point ≠ .finish result := by
    rintro result rfl
    exact underway.unfinished
  have same := point.step_sameControl xbuf message wants unfinished
  cases accept with
  | before =>
      obtain ⟨active, complete, preparing⟩ := underway
      exact ⟨same.active.trans active, same.complete.trans complete, preparing.owner_step early wants⟩
  | ipi | irqTest | irqRaise | accepted =>
      obtain ⟨active, announced⟩ := underway
      exact ⟨same.active.trans active, announced.owner_step wants⟩
  | running receiver =>
      obtain ⟨active, attending⟩ := underway
      exact ⟨same.active.trans active, attending.owner_step unfinished⟩

theorem Attending.notified (attending : Attending xbuf message resp wants owner receiver) :
    owner.notified = true := by
  cases receiver with
  | testActive | recvLen => exact attending.2.2.notified
  | recv pc len read =>
      rcases attending with ⟨_, _, _, incoming⟩ | ⟨_, _, _, incoming⟩
      · exact incoming.notified
      · exact incoming.notified
  | received | testComplete => exact attending.2.2.1.notified
  | stage => exact attending.2.2.2.1.notified
  | raiseComplete left =>
      rcases attending with ⟨_, serving⟩ | ⟨_, _, _, _, awaiting⟩
      · exact serving.2.1.notified
      · exact awaiting.notified
  | reply => exact attending.2.2.2.2.notified
  | idle | done | inactive => exact attending.elim

theorem Underway.ipi_step {left : Bytes} (underway : Underway xbuf message resp wants (.owner (.ipi left)) accept) :
    accept = .before ∧ Underway xbuf message resp wants (.afterSend (enterSend left)) .ipi := by
  cases accept with
  | before =>
      obtain ⟨active, complete, preparing⟩ := underway
      refine ⟨rfl, active, complete, ?_⟩
      rcases preparing with ⟨_, len, transfer⟩ | ⟨rfl, clear, same | same⟩
      · have kept : (enterSend left).Kept xbuf xbuf message left (RecvPc.ready.view []) :=
          enterSend_kept transfer
        exact ⟨fun _ => len, .of_afterSend kept⟩
      · cases same
      · cases same
        exact ⟨fun sent => absurd rfl sent, .waiting [], ⟨[], rfl, fun _ => rfl⟩, .inr ⟨clear, rfl⟩⟩
  | ipi | irqTest | irqRaise | accepted =>
      have later := underway.2.2.2.notified
      contradiction
  | running receiver =>
      have later := underway.2.notified
      contradiction

theorem afterRecv_notified (len : Nat) (out : RecvOut) : (Call.afterRecv len out).notified = true := by
  cases out with
  | running | aborted => rfl
  | finished read =>
      simp only [Call.afterRecv]
      split <;> rfl

theorem Owner.step_notified {point : Owner} (notified : (Call.owner point).notified = true)
    (xbuf : Xbuf) (message : Bytes) (wants : Bool) :
    point.ipisSent = 0 ∧ ((point.step xbuf message wants).2.notified = true ∨ ∃ result, point = .finish result) := by
  cases point with
  | unlock | stage | ipi => contradiction
  | send pc left =>
      refine ⟨rfl, .inl ?_⟩
      simp only [Owner.step]
      cases (sendData xbuf left pc).2 <;> rfl
  | waitComplete | waitReady | testResp =>
      refine ⟨rfl, .inl ?_⟩
      simp only [Owner.step]
      split <;> rfl
  | recvLen => exact ⟨rfl, .inl (afterRecv_notified _ _)⟩
  | recv pc len read => exact ⟨rfl, .inl (afterRecv_notified _ _)⟩
  | finish result => exact ⟨rfl, .inr ⟨result, rfl⟩⟩

theorem Concluding.owner_step {point : Owner} (concluding : Concluding xbuf resp (.owner point))
    (unfinished : ∀ result, point ≠ .finish result) (message : Bytes) :
    Concluding (point.step xbuf message true).1 resp (point.step xbuf message true).2 := by
  obtain ⟨complete, ⟨answered, reading⟩ | ⟨none, unanswered⟩⟩ := concluding
  · obtain ⟨same, kept⟩ := reading.owner_step answered complete unfinished
    exact ⟨same.complete.trans complete, .inl ⟨answered, kept⟩⟩
  · cases point with
    | waitComplete =>
        simp only [Owner.step, complete, if_true]
        exact ⟨complete, .inr ⟨none, unanswered⟩⟩
    | waitReady =>
        refine ⟨complete, .inr ⟨none, ?_⟩⟩
        simp only [Owner.step]
        split
        · exact unanswered
        · trivial
    | testResp =>
        have clear : xbuf.flags.staged = false := unanswered
        simp only [Owner.step, clear, Bool.and_false]
        exact ⟨complete, .inr ⟨none, rfl⟩⟩
    | finish result => exact absurd rfl (unfinished result)
    | _ => exact unanswered.elim

theorem Concluding.finish {result : Option Bytes} (concluding : Concluding xbuf resp (.owner (.finish result))) :
    result = if resp = [] then none else some resp := by
  obtain ⟨_, ⟨answered, reading⟩ | ⟨none, unanswered⟩⟩ := concluding
  · rw [if_neg answered]
    exact reading.1
  · rw [if_pos none]
    exact unanswered

/-! ## Steps of the receiver -/

/-- The receiver is done, and a caller that wants the response gets all of it. -/
def Ended (xbuf : Xbuf) (resp : Bytes) (wants : Bool) (call : Call) : Prop :=
  call.notified = true ∧ (wants = true → Concluding xbuf resp call)

/-- A stale `data_len` keeps the receiver waiting for an empty message. -/
theorem recvData_stuck (len : Nat) {read : Bytes} {pc : RecvPc} (ready : xbuf.flags.ready = true)
    (clear : xbuf.flags.staged = false) (waiting : pc.view read = .waiting []) :
    ∃ following, recvData xbuf len read pc = (xbuf, .running following read) ∧
      following.view read = .waiting [] := by
  cases pc with
  | ready | spin => exact ⟨.staged, by simp [recvData, ready], waiting⟩
  | staged => exact ⟨.spin, by simp [recvData, clear], waiting⟩
  | copy | lower => cases waiting

/-- A response that fits leaves nothing to send after its first chunk. -/
theorem inFlight_last {left : Bytes} (flight : InFlight xbuf resp [] left) (fits : resp.length ≤ xbuf.totalSize) :
    left = [] := by
  have lengths := congrArg List.length flight.split
  have full := flight.full
  simp only [stagedLen_eq_min, List.length_nil, Nat.sub_zero, List.nil_append, List.length_append,
    List.length_take] at lengths full
  apply List.eq_nil_of_length_eq_zero
  omega

/-- With `data_len` read, an empty message is waited for if there is an old one. -/
theorem Announced.recvLen_step (announced : Announced xbuf message owner) :
    Attending xbuf message resp wants owner (.afterRecv xbuf.dataLen (enterRecv xbuf.dataLen [])) := by
  obtain ⟨complete, len, incoming⟩ := announced
  by_cases sent : message = []
  · subst sent
    obtain ⟨clear, awaiting⟩ := incoming.empty
    simp only [enterRecv]
    split
    · exact .inr ⟨rfl, complete, rfl, incoming⟩
    · rename_i none
      have zero : xbuf.dataLen = 0 := by simpa using none
      exact ⟨complete, clear, awaiting, zero, rfl⟩
  · have more : 0 < message.length := List.length_pos_iff.mpr sent
    have unread : message.length - ([] : Bytes).length > 0 := by simpa using more
    simp only [len sent, enterRecv, if_pos unread, Receiver.afterRecv]
    exact .inl ⟨complete, rfl, fun _ => more, incoming⟩

theorem Attending.recv_step {pc : RecvPc} {len : Nat} {read : Bytes} (active : xbuf.flags.active = true)
    (ready : xbuf.flags.ready = true) (attending : Attending xbuf message resp wants owner (.recv pc len read)) :
    (recvData xbuf len read pc).1.flags.active = xbuf.flags.active ∧
      Attending (recvData xbuf len read pc).1 message resp wants owner
        (.afterRecv len (recvData xbuf len read pc).2) := by
  rcases attending with ⟨complete, rfl, unread, incoming⟩ | ⟨rfl, complete, waiting, incoming⟩
  · refine ⟨(recvData_sameOutside xbuf message.length read pc).active, ?_⟩
    have kept := (@Incoming.recv_step xbuf message resp owner read pc [] complete active unread incoming
      (fun _ => ready)).1.2
    cases out : (recvData xbuf message.length read pc).2 with
    | running following rest =>
        simp only [out, Receiver.afterRecv] at kept ⊢
        exact .inl kept
    | finished rest | aborted rest =>
        simp only [out, Receiver.afterRecv] at kept ⊢
        exact kept
  · obtain ⟨following, same, still⟩ := recvData_stuck len ready incoming.empty.1 waiting
    rw [same]
    exact ⟨rfl, .inr ⟨rfl, complete, still, incoming⟩⟩

theorem Awaiting.unanswered (awaiting : Awaiting owner) (clear : xbuf.flags.staged = false) : Unanswered xbuf owner := by
  cases owner with
  | owner point =>
      cases point with
      | waitComplete | waitReady => exact clear
      | _ => exact awaiting.elim
  | failed => trivial
  | _ => exact awaiting.elim

/-- A receiver that raises COMPLETE is done unless there is more to send, which a
caller that declines the response must not leave it with. -/
theorem Attending.raiseComplete_step {left : Bytes} (fits : wants = false → resp.length ≤ xbuf.totalSize)
    (attending : Attending xbuf message resp wants owner (.raiseComplete left)) :
    Attending { xbuf with flags := { xbuf.flags with complete := true } } message resp wants owner
        (.afterSend (enterSend left)) ∨
      (Receiver.afterSend (enterSend left) = .done ∧
        Ended { xbuf with flags := { xbuf.flags with complete := true } } resp wants owner) := by
  rcases attending with ⟨answered, complete, awaiting, staged, len, transfer⟩ | ⟨rfl, rfl, _, clear, awaiting⟩
  · have reading : Reading { xbuf with flags := { xbuf.flags with complete := true } } resp owner
        (.waiting left) := awaiting.reading staged len (transfer.of_flags rfl)
    unfold enterSend
    split
    · rename_i unsent
      cases wants with
      | true => exact .inl ⟨answered, rfl, rfl, List.ne_nil_of_length_pos unsent, reading⟩
      | false =>
          rcases transfer with ⟨_, flight⟩ | ⟨lowered, _⟩
          · rw [inFlight_last flight (fits rfl)] at unsent
            exact absurd unsent (Nat.lt_irrefl 0)
          · rw [staged] at lowered
            contradiction
    · rename_i none
      have empty : left = [] := List.eq_nil_of_length_eq_zero (by omega)
      subst empty
      exact .inr ⟨rfl, awaiting.notified, fun _ => ⟨rfl, .inl ⟨answered, reading⟩⟩⟩
  · exact .inr ⟨rfl, awaiting.notified, fun _ => ⟨rfl, .inr ⟨rfl, awaiting.unanswered clear⟩⟩⟩

theorem Attending.receiver_step {response : Bytes → Bytes} (active : xbuf.flags.active = true)
    (ready : xbuf.flags.ready = true) (computed : response message = resp)
    (fits : wants = false → resp.length ≤ xbuf.totalSize)
    (attending : Attending xbuf message resp wants owner receiver)
    (stepped : receiver.step xbuf response = some (after, point)) :
    after.flags.active = true ∧ (Attending after message resp wants owner point ∨
      (point = .done ∧ Ended after resp wants owner)) := by
  cases receiver with
  | testActive =>
      simp only [Receiver.step, active, if_true] at stepped
      cases stepped
      exact ⟨active, .inl attending⟩
  | recvLen =>
      cases stepped
      exact ⟨active, .inl attending.recvLen_step⟩
  | recv pc len read =>
      cases stepped
      obtain ⟨same, kept⟩ := attending.recv_step active ready
      exact ⟨same.trans active, .inl kept⟩
  | received len read =>
      obtain ⟨complete, clear, awaiting, _, rfl⟩ := attending
      cases stepped
      exact ⟨active, .inl ⟨complete, clear, awaiting, computed⟩⟩
  | testComplete out =>
      obtain ⟨complete, clear, awaiting, rfl⟩ := attending
      simp only [Receiver.step, active, if_true] at stepped
      cases stepped
      refine ⟨active, .inl ?_⟩
      split
      · rename_i more
        exact ⟨List.ne_nil_of_length_pos more, complete, clear, awaiting, rfl, by simp, by simp⟩
      · rename_i none
        have empty : out = [] := List.eq_nil_of_length_eq_zero (by omega)
        exact .inr ⟨empty, empty, complete, clear, awaiting⟩
  | stage pc out =>
      obtain ⟨answered, complete, clear, awaiting, rfl, len, stored⟩ := attending
      cases pc with
      | len =>
          cases stepped
          exact ⟨active, .inl ⟨answered, complete, clear, awaiting, rfl, fun _ => rfl, by simp⟩⟩
      | copy =>
          cases stepped
          exact ⟨active, .inl ⟨answered, complete, clear, awaiting, rfl, fun _ => len (by simp),
            fun _ => store_readable xbuf out⟩⟩
      | raise =>
          simp only [Receiver.step, initStageData, Xbuf.raiseFlag_staged] at stepped
          cases stepped
          exact ⟨active, .inl (.inl ⟨answered, complete, awaiting, rfl, len (by simp),
            .inl ⟨rfl, inFlight_of_stored rfl answered (stored rfl)⟩⟩)⟩
  | raiseComplete left =>
      simp only [Receiver.step, Xbuf.raiseFlag_complete] at stepped
      cases stepped
      exact ⟨active, attending.raiseComplete_step fits⟩
  | reply pc left =>
      obtain ⟨answered, rfl, complete, unsent, reading⟩ := attending
      cases stepped
      have same := sendData_sameOutside xbuf left pc
      have kept : Serving (sendData xbuf left pc).1 message resp owner (.afterSend (sendData xbuf left pc).2) :=
        reading.reply_step unsent complete
      refine ⟨same.active.trans active, ?_⟩
      cases out : (sendData xbuf left pc).2 with
      | running following rest =>
          rw [out] at kept
          exact .inl ⟨answered, rfl, kept⟩
      | finished | aborted =>
          rw [out] at kept
          obtain ⟨completed, rest, drained, reading⟩ := kept
          rw [drained (same.ready.trans ready)] at reading
          exact .inr ⟨rfl, reading.notified, fun _ => ⟨completed, .inl ⟨answered, reading⟩⟩⟩
  | idle | done | inactive => cases stepped

end Pisces.Channel
