import Pisces.Xbuf.Progress

/-! # Bytes to read and bytes to send

A receiver gets as many bytes as it waits for, whatever the bytes are and
whoever else raises STAGED: what its caller has still to send, together with
what is in the staging area, is at least what is left to read.
-/

namespace Pisces.Channel

variable {xbuf after : Xbuf} {message : Bytes} {call : Call} {receiver point : Receiver} {left : Nat}

def Receiver.unread (length : Nat) : Receiver → Nat
  | .testActive | .recvLen => length
  | .recv _ _ read => length - read.length
  | _ => 0

def Receiver.lowering : Receiver → Bool
  | .recv .lower _ _ => true
  | _ => false

/-- Between the test of STAGED and its lowering -/
def Receiver.consuming : Receiver → Bool
  | .recv .copy _ _ | .recv .lower _ _ => true
  | _ => false

/-- Before the end of `init_stage_data` -/
def Call.staging : Call → Bool
  | .owner .unlock | .owner (.stage _) => true
  | _ => false

/-- The staging area is as long as any chunk of the message. -/
def Filled (xbuf : Xbuf) (message : Bytes) : Prop :=
  min message.length xbuf.totalSize ≤ xbuf.data.length

/-- A chunk that is staged counts until it has been copied. -/
def Offered (xbuf : Xbuf) (message : Bytes) (receiver : Receiver) (left : Nat) : Prop :=
  receiver.unread message.length ≤
    left + if xbuf.flags.staged = true ∧ receiver.lowering = false then xbuf.totalSize else 0

/-- Nothing of a caller that is past its test of STAGED is in the staging area. -/
def Offering (xbuf : Xbuf) (message : Bytes) (receiver : Receiver) (left : Nat) : Prop :=
  receiver.unread message.length = 0 ∨
    receiver.unread message.length + (if receiver.lowering = true then xbuf.totalSize else 0) ≤ left

def Supplying (xbuf : Xbuf) (message : Bytes) (receiver : Receiver) : Call → Prop
  | .owner .unlock | .owner (.stage .len) | .owner (.stage .copy) => True
  | .owner (.stage .raise) => Filled xbuf message
  | .owner (.ipi left) | .owner (.send .ready left) | .owner (.send .staged left) | .owner (.send .spin left) =>
      Filled xbuf message ∧ Offered xbuf message receiver left.length
  | .owner (.send .copy left) | .owner (.send .raise left) =>
      Filled xbuf message ∧ Offering xbuf message receiver left.length
  | .owner .waitComplete | .owner .waitReady => Filled xbuf message ∧ Offered xbuf message receiver 0
  | _ => False

structure Supply (xbuf : Xbuf) (message : Bytes) (call : Call) (receiver : Receiver) : Prop where
  held : receiver.consuming = true → xbuf.flags.staged = true
  supplying : Supplying xbuf message receiver call

theorem Receiver.unread_le (length : Nat) : receiver.unread length ≤ length := by
  cases receiver with
  | testActive | recvLen => exact Nat.le_refl _
  | recv => exact Nat.sub_le ..
  | _ => exact Nat.zero_le _

theorem Xbuf.store_length (xbuf : Xbuf) (chunk : Bytes) :
    xbuf.data.length ≤ (xbuf.store chunk).data.length ∧ chunk.length ≤ (xbuf.store chunk).data.length := by
  simp only [Xbuf.store, List.length_append, List.length_drop]
  omega

/-- Others stage what they like. -/
structure Fuller (before after : Xbuf) : Prop where
  staged : before.flags.staged = true → after.flags.staged = true
  data : before.data.length ≤ after.data.length
  totalSize : after.totalSize = before.totalSize

theorem Fuller.refl (xbuf : Xbuf) : Fuller xbuf xbuf := ⟨id, Nat.le_refl _, rfl⟩

theorem Offered.fuller (offered : Offered xbuf message receiver left) (fuller : Fuller xbuf after) :
    Offered after message receiver left := by
  unfold Offered at *
  rw [fuller.totalSize]
  by_cases counts : xbuf.flags.staged = true ∧ receiver.lowering = false
  · rw [if_pos counts] at offered
    rw [if_pos ⟨fuller.staged counts.1, counts.2⟩]
    exact offered
  · rw [if_neg counts] at offered
    omega

/-- Who steps changes what is counted, not what the caller has done so far. -/
theorem Supplying.map (supplying : Supplying xbuf message receiver call)
    (filled : Filled xbuf message → Filled after message)
    (offered : ∀ {left}, Filled xbuf message → Offered xbuf message receiver left → Offered after message point left)
    (offering : ∀ {left}, Filled xbuf message → Offering xbuf message receiver left → Offering after message point left) :
    Supplying after message point call := by
  cases call with
  | owner owner =>
      cases owner with
      | unlock => trivial
      | stage pc =>
          cases pc with
          | len | copy => trivial
          | raise => exact filled supplying
      | ipi | waitComplete | waitReady => exact ⟨filled supplying.1, offered supplying.1 supplying.2⟩
      | send pc left =>
          cases pc with
          | ready | staged | spin => exact ⟨filled supplying.1, offered supplying.1 supplying.2⟩
          | copy | raise => exact ⟨filled supplying.1, offering supplying.1 supplying.2⟩
      | _ => exact supplying.elim
  | _ => exact supplying.elim

theorem Fuller.filled (fuller : Fuller xbuf after) (filled : Filled xbuf message) : Filled after message := by
  unfold Filled at *
  rw [fuller.totalSize]
  exact Nat.le_trans filled fuller.data

theorem Supply.fuller (supply : Supply xbuf message call receiver) (fuller : Fuller xbuf after) :
    Supply after message call receiver := by
  refine ⟨fun consuming => fuller.staged (supply.held consuming), supply.supplying.map fuller.filled
    (fun _ offered => offered.fuller fuller) ?_⟩
  intro left _ offering
  unfold Offering at *
  rw [fuller.totalSize]
  exact offering

/-! ## Steps of the caller -/

theorem supplying_enterSend {left : Bytes} (filled : Filled xbuf message)
    (offered : Offered xbuf message receiver left.length) :
    Supplying xbuf message receiver (.afterSend (enterSend left)) := by
  unfold enterSend
  split
  · exact ⟨filled, offered⟩
  · rename_i none
    rw [Nat.not_lt.mp none |> Nat.le_zero.mp] at offered
    exact ⟨filled, offered⟩

theorem offered_first (unbegun : message ≠ [] → receiver.lowering = false) (staged : xbuf.flags.staged = true) :
    Offered xbuf message receiver (message.drop (stagedLen message.length xbuf.totalSize)).length := by
  have within : receiver.unread message.length ≤ message.length := Receiver.unread_le _
  unfold Offered
  rw [List.length_drop, stagedLen_eq_min]
  by_cases empty : message = []
  · rw [empty] at within ⊢
    simp only [List.length_nil] at within ⊢
    omega
  · rw [if_pos ⟨staged, unbegun empty⟩]
    omega

theorem Offering.raise (offering : Offering xbuf message receiver left) :
    Offered (xbuf.raiseFlag xbufStaged) message receiver (left - min left xbuf.totalSize) := by
  unfold Offered
  simp only [Xbuf.raiseFlag_staged, true_and]
  rcases offering with done | room
  · omega
  · cases lowering : receiver.lowering with
    | false =>
        simp only [lowering, Bool.false_eq_true, if_false] at room
        simp only [if_true]
        omega
    | true =>
        simp only [lowering, if_true] at room
        simp only [Bool.true_eq_false, if_false]
        omega

theorem sendData_supply {left : Bytes} {pc : SendPc} {receiver : Receiver}
    (supply : Supply xbuf message (.owner (.send pc left)) receiver) (ready : xbuf.flags.ready = true) :
    Supply (sendData xbuf left pc).1 message (.afterSend (sendData xbuf left pc).2) receiver := by
  obtain ⟨held, supplying⟩ := supply
  cases pc with
  | ready | spin =>
      simp only [sendData, ready, if_true]
      exact ⟨held, supplying⟩
  | staged =>
      obtain ⟨filled, offered⟩ := supplying
      cases staged : xbuf.flags.staged with
      | true =>
          simp only [sendData, staged, if_true]
          exact ⟨held, filled, offered⟩
      | false =>
          simp only [sendData, staged, Bool.false_eq_true, if_false]
          refine ⟨held, filled, .inr ?_⟩
          -- A receiver that is about to lower STAGED has not lowered it yet.
          have still : receiver.lowering = false := by
            cases receiver with
            | recv pc len read =>
                cases pc with
                | lower =>
                    have raised := held rfl
                    rw [staged] at raised
                    contradiction
                | _ => rfl
            | _ => rfl
          simpa [Offered, staged, still] using offered
  | copy =>
      obtain ⟨filled, offering⟩ := supplying
      refine ⟨held, ?_, offering⟩
      exact Nat.le_trans filled (Xbuf.store_length xbuf _).1
  | raise =>
      obtain ⟨filled, offering⟩ := supplying
      refine ⟨fun _ => by simp [sendData], ?_⟩
      apply supplying_enterSend
      · simpa [Filled, sendData] using filled
      · rw [List.length_drop, stagedLen_eq_min]
        exact offering.raise

theorem Supply.owner_step {point : Owner} {wants : Bool} (supply : Supply xbuf message (.owner point) receiver)
    (ready : xbuf.flags.ready = true) (complete : xbuf.flags.complete = false)
    (unbegun : (Call.owner point).staging = true → message ≠ [] → receiver.lowering = false) :
    Supply (point.step xbuf message wants).1 message (point.step xbuf message wants).2 receiver := by
  cases point with
  | unlock =>
      simp only [Owner.step]
      split
      · exact ⟨supply.held, trivial⟩
      · rename_i none
        have empty : message = [] := List.length_eq_zero_iff.mp (Nat.le_zero.mp (Nat.not_lt.mp none))
        subst empty
        refine ⟨supply.held, by simp [Filled], ?_⟩
        have within : receiver.unread 0 ≤ 0 := Receiver.unread_le 0
        exact Nat.le_trans within (Nat.zero_le _)
  | stage pc =>
      cases pc with
      | len => exact ⟨supply.held, trivial⟩
      | copy =>
          refine ⟨supply.held, ?_⟩
          have chunk := (Xbuf.store_length xbuf (message.take (stagedLen message.length xbuf.totalSize))).2
          have size : (message.take (stagedLen message.length xbuf.totalSize)).length =
              min message.length xbuf.totalSize := by
            rw [List.length_take, stagedLen_eq_min]
            omega
          rw [size] at chunk
          exact chunk
      | raise =>
          refine ⟨fun _ => by simp [Owner.step, initStageData], ?_, ?_⟩
          · have filled : Filled xbuf message := supply.supplying
            simpa [Filled, Owner.step, initStageData] using filled
          · have first : Offered (xbuf.raiseFlag xbufStaged) message receiver
                (message.drop (stagedLen message.length (xbuf.raiseFlag xbufStaged).totalSize)).length :=
              offered_first (unbegun rfl) (by simp)
            simpa [Owner.step, initStageData] using first
  | ipi left => exact ⟨supply.held, supplying_enterSend supply.supplying.1 supply.supplying.2⟩
  | send pc left => exact sendData_supply supply ready
  | waitComplete =>
      simp only [Owner.step, complete, Bool.false_eq_true, if_false]
      exact ⟨supply.held, supply.supplying⟩
  | waitReady =>
      simp only [Owner.step, ready, if_true]
      exact ⟨supply.held, supply.supplying⟩
  | _ => exact supply.supplying.elim

theorem afterRecv_staging (len : Nat) (out : RecvOut) : (Call.afterRecv len out).staging = false := by
  cases out with
  | running | aborted => rfl
  | finished read =>
      simp only [Call.afterRecv]
      split <;> rfl

theorem Owner.staging_of_step {point : Owner} {wants : Bool}
    (staging : (point.step xbuf message wants).2.staging = true) : (Call.owner point).staging = true := by
  cases point with
  | unlock | stage => rfl
  | ipi left =>
      simp only [Owner.step, enterSend] at staging
      split at staging <;> contradiction
  | send pc left =>
      simp only [Owner.step] at staging
      cases out : (sendData xbuf left pc).2 <;> rw [out] at staging <;> contradiction
  | waitComplete | waitReady | testResp =>
      simp only [Owner.step] at staging
      split at staging <;> contradiction
  | recvLen | recv => exact absurd ((afterRecv_staging _ _).symm.trans staging) Bool.false_ne_true
  | finish => contradiction

theorem Owner.step_dataLen (owner : Owner) (xbuf : Xbuf) (message : Bytes) (wants : Bool) :
    (owner.step xbuf message wants).1.dataLen = xbuf.dataLen ∨
      (owner.step xbuf message wants).1.dataLen = message.length := by
  cases owner with
  | stage pc =>
      cases pc with
      | len => exact .inr rfl
      | copy => exact .inl rfl
      | raise => exact .inl (by simp [Owner.step, initStageData])
  | send pc left => exact .inl (sendData_sameOutside xbuf left pc).dataLen
  | recv pc len read => exact .inl (recvData_sameOutside xbuf len read pc).dataLen
  | finish => exact .inl (by simp [Owner.step])
  | _ => exact .inl rfl

/-! ## Steps of the receiver -/

theorem Supplying.less (supplying : Supplying xbuf message receiver call)
    (fewer : point.unread message.length ≤ receiver.unread message.length) (same : point.lowering = receiver.lowering) :
    Supplying xbuf message point call := by
  apply supplying.map id
  · intro left _ offered
    unfold Offered at *
    rw [same]
    exact Nat.le_trans fewer offered
  · rintro left _ (done | room)
    · exact .inl (Nat.le_zero.mp (done ▸ fewer))
    · refine .inr ?_
      rw [same]
      omega

theorem Supplying.copy {len : Nat} {read : Bytes} (supplying : Supplying xbuf message (.recv .copy len read) call)
    (same : len = message.length) :
    Supplying xbuf message
      (.recv .lower len (read ++ xbuf.data.take (stagedLen (len - read.length) xbuf.totalSize))) call := by
  have chunk : Filled xbuf message →
      (xbuf.data.take (stagedLen (len - read.length) xbuf.totalSize)).length =
        min (len - read.length) xbuf.totalSize := by
    intro filled
    unfold Filled at filled
    rw [List.length_take, stagedLen_eq_min]
    omega
  apply supplying.map id
  · intro left filled offered
    unfold Offered at *
    simp only [Receiver.unread, Receiver.lowering, List.length_append, chunk filled] at *
    simp only [and_true, Bool.true_eq_false, and_false, if_false] at *
    split at offered <;> omega
  · intro left filled offering
    unfold Offering at *
    simp only [Receiver.unread, Receiver.lowering, List.length_append, chunk filled] at *
    simp only [Bool.false_eq_true, if_true, if_false] at *
    omega

theorem Supplying.lower {len : Nat} {read : Bytes} (supplying : Supplying xbuf message (.recv .lower len read) call) :
    Supplying (xbuf.lowerFlag xbufStaged) message (.recv .ready len read) call := by
  apply supplying.map
  · intro filled
    simpa [Filled] using filled
  · intro left _ offered
    simpa [Offered, Receiver.unread, Receiver.lowering] using offered
  · intro left _ offering
    unfold Offering at *
    simp only [Receiver.unread, Receiver.lowering] at *
    simp only [Bool.false_eq_true, if_true, if_false] at *
    omega

theorem initStageData_fuller (xbuf : Xbuf) (data : Bytes) (pc : StagePc) :
    Fuller xbuf (initStageData xbuf data pc).1 := by
  cases pc with
  | len => exact ⟨id, Nat.le_refl _, rfl⟩
  | copy => exact ⟨id, (Xbuf.store_length xbuf _).1, rfl⟩
  | raise =>
      simp only [initStageData, Xbuf.raiseFlag_staged]
      exact ⟨fun _ => rfl, Nat.le_refl _, rfl⟩

theorem sendData_fuller (xbuf : Xbuf) (left : Bytes) (pc : SendPc) : Fuller xbuf (sendData xbuf left pc).1 := by
  cases pc with
  | ready | staged | spin => exact .refl xbuf
  | copy => exact ⟨id, (Xbuf.store_length xbuf _).1, rfl⟩
  | raise =>
      simp only [sendData, Xbuf.raiseFlag_staged]
      exact ⟨fun _ => rfl, Nat.le_refl _, rfl⟩

theorem recvData_supply {len : Nat} {read : Bytes} {pc : RecvPc}
    (supply : Supply xbuf message call (.recv pc len read)) (same : len = message.length) :
    Supply (recvData xbuf len read pc).1 message call (.afterRecv len (recvData xbuf len read pc).2) := by
  obtain ⟨held, supplying⟩ := supply
  cases pc with
  | ready | spin =>
      simp only [recvData]
      split
      · exact ⟨by simp [Receiver.afterRecv, Receiver.consuming], supplying.less (Nat.le_refl _) rfl⟩
      · exact ⟨by simp [Receiver.afterRecv, Receiver.consuming], supplying.less (Nat.zero_le _) rfl⟩
  | staged =>
      simp only [recvData]
      split
      · rename_i staged
        exact ⟨fun _ => staged, supplying.less (Nat.le_refl _) rfl⟩
      · exact ⟨by simp [Receiver.afterRecv, Receiver.consuming], supplying.less (Nat.le_refl _) rfl⟩
  | copy => exact ⟨fun _ => held rfl, supplying.copy same⟩
  | lower =>
      have lowered := supplying.lower
      simp only [recvData, enterRecv]
      split
      · exact ⟨by simp [Receiver.afterRecv, Receiver.consuming], lowered⟩
      · exact ⟨by simp [Receiver.afterRecv, Receiver.consuming], lowered.less (Nat.zero_le _) rfl⟩

theorem Supply.less (supply : Supply xbuf message call receiver)
    (fewer : point.unread message.length ≤ receiver.unread message.length)
    (still : receiver.lowering = false) (waits : point.consuming = false) : Supply xbuf message call point := by
  refine ⟨by simp [waits], supply.supplying.less fewer (Eq.trans ?_ still.symm)⟩
  cases point with
  | recv pc len read => cases pc <;> first | rfl | contradiction
  | _ => rfl

theorem Supply.receiver_step {response : Bytes → Bytes} (supply : Supply xbuf message call receiver)
    (same : ∀ pc len read, receiver = .recv pc len read → len = message.length)
    (stepped : receiver.step xbuf response = some (after, point)) : Supply after message call point := by
  cases receiver with
  | testActive =>
      cases stepped
      split
      · exact supply.less (Nat.le_refl _) rfl rfl
      · exact supply.less (Nat.zero_le _) rfl rfl
  | recvLen =>
      cases stepped
      unfold enterRecv
      split
      · exact supply.less (Nat.le_refl _) rfl rfl
      · exact supply.less (Nat.zero_le _) rfl rfl
  | recv pc len read =>
      cases stepped
      exact recvData_supply supply (same pc len read rfl)
  | received => cases stepped; exact supply.less (Nat.zero_le _) rfl rfl
  | testComplete resp =>
      cases stepped
      split
      · split <;> exact supply.less (Nat.zero_le _) rfl rfl
      · exact supply.less (Nat.zero_le _) rfl rfl
  | stage pc resp =>
      have staged := supply.fuller (initStageData_fuller xbuf resp pc)
      cases pc <;> cases stepped <;> exact staged.less (Nat.zero_le _) rfl rfl
  | raiseComplete left =>
      cases stepped
      have raised : Fuller xbuf (xbuf.raiseFlag xbufComplete) := by
        rw [Xbuf.raiseFlag_complete]
        exact ⟨id, Nat.le_refl _, rfl⟩
      unfold enterSend
      split <;> exact (supply.fuller raised).less (Nat.zero_le _) rfl rfl
  | reply pc left =>
      cases stepped
      have sent := supply.fuller (sendData_fuller xbuf left pc)
      cases (sendData xbuf left pc).2 <;> exact sent.less (Nat.zero_le _) rfl rfl
  | idle | done | inactive => cases stepped

/-! ## The wait for a chunk -/

/-- What a caller has still to do for its receiver -/
def Call.unsent : Call → Nat
  | .owner (.ipi left) => 8 * left.length + 5
  | .owner (.send pc left) => 8 * left.length + pc.rank
  | _ => 0

theorem Call.afterSend_unsent (out : SendOut) : (Call.afterSend out).unsent = out.rank := by
  cases out <;> rfl

theorem Supply.filled (supply : Supply xbuf message call receiver) (begun : call.staging = false) :
    Filled xbuf message := by
  have supplying := supply.supplying
  cases call with
  | owner point =>
      cases point with
      | unlock | stage => contradiction
      | ipi | waitComplete | waitReady => exact supplying.1
      | send pc left => cases pc <;> exact supplying.1
      | _ => exact supplying.elim
  | _ => exact supplying.elim

/-- While a receiver waits for a chunk, its caller has one to send. -/
theorem Supply.moves {len : Nat} {read : Bytes} (supply : Supply xbuf message call (.recv .staged len read))
    (more : read.length < message.length) (clear : xbuf.flags.staged = false) (ready : xbuf.flags.ready = true)
    (size : 0 < xbuf.totalSize) (begun : call.staging = false) (wants : Bool) :
    ∃ point, call = .owner point ∧ (point.step xbuf message wants).2.unsent < call.unsent := by
  have left_of_offered : ∀ {left}, Offered xbuf message (.recv .staged len read) left → 0 < left := by
    intro left offered
    simp only [Offered, Receiver.unread, clear, Bool.false_eq_true, false_and, if_false] at offered
    omega
  have left_of_offering : ∀ {left}, Offering xbuf message (.recv .staged len read) left → 0 < left := by
    intro left offering
    simp only [Offering, Receiver.unread, Receiver.lowering, Bool.false_eq_true, if_false] at offering
    omega
  have supplying := supply.supplying
  cases call with
  | owner point =>
      refine ⟨point, rfl, ?_⟩
      cases point with
      | unlock | stage => contradiction
      | ipi left =>
          have some := left_of_offered supplying.2
          simp [Owner.step, enterSend, some, Call.afterSend, Call.unsent, SendPc.rank]
      | send pc left =>
          have unsent : left ≠ [] := by
            apply List.length_pos_iff.mp
            cases pc with
            | ready | staged | spin => exact left_of_offered supplying.2
            | copy | raise => exact left_of_offering supplying.2
          simp only [Owner.step, Call.afterSend_unsent]
          exact (sendData_rank unsent ready size fun _ => clear).2
      | waitComplete | waitReady => exact absurd (left_of_offered supplying.2) (Nat.lt_irrefl 0)
      | _ => exact supplying.elim
  | _ => exact supplying.elim

end Pisces.Channel
