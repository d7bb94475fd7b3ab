import Pisces.Xbuf.Buffer

/-! # One message through the staging area

A sender inside `init_stage_data` or `send_data` and a reader inside
`recv_data` share the staging area and the STAGED flag.  `Transfer` relates the
bytes not yet staged, the chunk in flight and the bytes already copied out at
every pair of control points, and is kept by each step of either side.
-/

namespace Pisces

/-- The control points of a sender that matter to the reader. -/
inductive SenderView where
  | waiting (left : Bytes)
  | copying (left : Bytes)
  | raising (left : Bytes)

inductive ReaderView where
  | waiting (read : Bytes)
  | copying (read : Bytes)
  | lowering (read : Bytes)

def SendPc.view (left : Bytes) : SendPc → SenderView
  | .ready | .staged | .spin => .waiting left
  | .copy => .copying left
  | .raise => .raising left

def RecvPc.view (read : Bytes) : RecvPc → ReaderView
  | .ready | .staged | .spin => .waiting read
  | .copy => .copying read
  | .lower => .lowering read

/-- The staging area holds the chunk of `message` that follows `read`. -/
structure InFlight (xbuf : Xbuf) (message read left : Bytes) : Prop where
  pending : read.length < message.length
  full : stagedLen (message.length - read.length) xbuf.totalSize ≤ xbuf.data.length
  split : message =
    read ++ xbuf.data.take (stagedLen (message.length - read.length) xbuf.totalSize) ++ left

/-- Where the bytes of `message` are. -/
def Transfer (xbuf : Xbuf) (message : Bytes) : SenderView → ReaderView → Prop
  | .waiting left, .waiting read =>
      (xbuf.flags.staged = true ∧ InFlight xbuf message read left) ∨
        (xbuf.flags.staged = false ∧ message = read ++ left)
  | .copying left, .waiting read => xbuf.flags.staged = false ∧ message = read ++ left
  | .raising left, .waiting read =>
      xbuf.flags.staged = false ∧ message = read ++ left ∧
        xbuf.data.take (stagedLen left.length xbuf.totalSize) =
          left.take (stagedLen left.length xbuf.totalSize)
  | .waiting left, .copying read => xbuf.flags.staged = true ∧ InFlight xbuf message read left
  | .waiting left, .lowering read => xbuf.flags.staged = true ∧ message = read ++ left
  | .copying _, .copying _ | .copying _, .lowering _ => False
  | .raising _, .copying _ | .raising _, .lowering _ => False

theorem InFlight.of_flags {xbuf : Xbuf} {message read left : Bytes} (flags : Flags)
    (flight : InFlight xbuf message read left) : InFlight { xbuf with flags } message read left :=
  ⟨flight.pending, flight.full, flight.split⟩

theorem Transfer.of_flags {xbuf : Xbuf} {message : Bytes} {sender : SenderView} {reader : ReaderView}
    {flags : Flags} (same : flags.staged = xbuf.flags.staged)
    (transfer : Transfer xbuf message sender reader) :
    Transfer { xbuf with flags } message sender reader := by
  cases sender with
  | waiting left =>
      cases reader with
      | waiting read =>
          rcases transfer with ⟨staged, flight⟩ | ⟨clear, whole⟩
          · exact .inl ⟨same.trans staged, flight.of_flags flags⟩
          · exact .inr ⟨same.trans clear, whole⟩
      | copying read => exact ⟨same.trans transfer.1, transfer.2.of_flags flags⟩
      | lowering read => exact ⟨same.trans transfer.1, transfer.2⟩
  | copying left | raising left =>
      cases reader with
      | waiting read => exact ⟨same.trans transfer.1, transfer.2⟩
      | copying read | lowering read => exact transfer.elim

/-- Nothing but the message and STAGED changed. -/
structure Xbuf.SameControl (before after : Xbuf) : Prop where
  flags : after.flags = { before.flags with staged := after.flags.staged }
  totalSize : after.totalSize = before.totalSize

/-- A transfer step leaves `data_len` alone too. -/
structure Xbuf.SameOutside (before after : Xbuf) : Prop extends before.SameControl after where
  dataLen : after.dataLen = before.dataLen

theorem Xbuf.SameOutside.refl (xbuf : Xbuf) : xbuf.SameOutside xbuf := ⟨⟨rfl, rfl⟩, rfl⟩

namespace Xbuf.SameControl

variable {before after : Xbuf} (same : before.SameControl after)

include same

theorem ready : after.flags.ready = before.flags.ready := by rw [same.flags]

theorem pending : after.flags.pending = before.flags.pending := by rw [same.flags]

theorem active : after.flags.active = before.flags.active := by rw [same.flags]

theorem complete : after.flags.complete = before.flags.complete := by rw [same.flags]

end Xbuf.SameControl

theorem sendData_sameOutside (xbuf : Xbuf) (left : Bytes) (pc : SendPc) :
    xbuf.SameOutside (sendData xbuf left pc).1 := by
  cases pc with
  | ready | staged | spin => exact .refl xbuf
  | copy => exact ⟨⟨rfl, rfl⟩, rfl⟩
  | raise =>
      simp only [sendData, Xbuf.raiseFlag_staged]
      exact ⟨⟨rfl, rfl⟩, rfl⟩

theorem recvData_sameOutside (xbuf : Xbuf) (len : Nat) (read : Bytes) (pc : RecvPc) :
    xbuf.SameOutside (recvData xbuf len read pc).1 := by
  cases pc with
  | ready | staged | spin | copy => exact .refl xbuf
  | lower =>
      simp only [recvData, Xbuf.lowerFlag_staged]
      exact ⟨⟨rfl, rfl⟩, rfl⟩

theorem initStageData_sameControl (xbuf : Xbuf) (data : Bytes) (pc : StagePc) :
    xbuf.SameControl (initStageData xbuf data pc).1 := by
  cases pc with
  | len | copy => exact ⟨rfl, rfl⟩
  | raise =>
      simp only [initStageData, Xbuf.raiseFlag_staged]
      exact ⟨rfl, rfl⟩

theorem store_readable (xbuf : Xbuf) (left : Bytes) :
    (xbuf.store (left.take (stagedLen left.length xbuf.totalSize))).data.take
        (stagedLen left.length xbuf.totalSize) =
      left.take (stagedLen left.length xbuf.totalSize) := by
  have width : (left.take (stagedLen left.length xbuf.totalSize)).length =
      stagedLen left.length xbuf.totalSize := by
    rw [List.length_take, stagedLen_eq_min]
    omega
  simp only [Xbuf.store]
  rw [List.take_append_of_le_length (by omega), List.take_of_length_le (by omega)]

theorem inFlight_of_stored {xbuf : Xbuf} {message read left : Bytes}
    (whole : message = read ++ left) (unsent : left ≠ [])
    (stored : xbuf.data.take (stagedLen left.length xbuf.totalSize) =
      left.take (stagedLen left.length xbuf.totalSize)) :
    InFlight { xbuf with flags := { xbuf.flags with staged := true } } message read
      (left.drop (stagedLen left.length xbuf.totalSize)) := by
  have positive := List.length_pos_iff.mpr unsent
  have remaining : message.length - read.length = left.length := by simp [whole]
  refine ⟨by rw [whole, List.length_append]; omega, ?_, ?_⟩
  · have lengths := congrArg List.length stored
    rw [List.length_take, List.length_take, stagedLen_eq_min] at lengths
    rw [remaining, stagedLen_eq_min]
    change min left.length xbuf.totalSize ≤ xbuf.data.length
    omega
  · rw [remaining, stored, List.append_assoc, List.take_append_drop]
    exact whole

/-- What a step of `send_data` leaves for the reader. -/
def SendOut.Kept (xbuf after : Xbuf) (message left : Bytes) (reader : ReaderView) : SendOut → Prop
  | .running pc rest => rest ≠ [] ∧ Transfer after message (pc.view rest) reader
  | .finished => Transfer after message (.waiting []) reader
  | .aborted => xbuf.flags.ready = false ∧ after = xbuf ∧ Transfer after message (.waiting left) reader

theorem enterSend_kept {xbuf after : Xbuf} {message left rest : Bytes} {reader : ReaderView}
    (transfer : Transfer after message (.waiting rest) reader) :
    (enterSend rest).Kept xbuf after message left reader := by
  unfold enterSend
  split
  · rename_i more
    exact ⟨List.ne_nil_of_length_pos more, transfer⟩
  · rename_i none
    have empty : rest = [] := List.eq_nil_of_length_eq_zero (by omega)
    subst empty
    exact transfer

theorem sendData_transfer {xbuf : Xbuf} {message left : Bytes} {pc : SendPc}
    {reader : ReaderView} (unsent : left ≠ [])
    (transfer : Transfer xbuf message (pc.view left) reader) :
    (sendData xbuf left pc).2.Kept xbuf (sendData xbuf left pc).1 message left reader := by
  cases pc with
  | ready | spin =>
      simp only [sendData]
      split
      · exact ⟨unsent, transfer⟩
      · rename_i lowered
        exact ⟨by simpa using lowered, rfl, transfer⟩
  | staged =>
      simp only [sendData]
      split
      · exact ⟨unsent, transfer⟩
      · rename_i clear
        refine ⟨unsent, ?_⟩
        cases reader with
        | waiting read =>
            rcases transfer with ⟨staged, _⟩ | settled
            · exact absurd staged clear
            · exact settled
        | copying read | lowering read => exact absurd transfer.1 clear
  | copy =>
      refine ⟨unsent, ?_⟩
      cases reader with
      | waiting read => exact ⟨transfer.1, transfer.2, store_readable xbuf left⟩
      | copying read | lowering read => exact transfer.elim
  | raise =>
      simp only [sendData, Xbuf.raiseFlag_staged]
      apply enterSend_kept
      cases reader with
      | waiting read =>
          obtain ⟨_, whole, stored⟩ := transfer
          exact .inl ⟨rfl, inFlight_of_stored whole unsent stored⟩
      | copying read | lowering read => exact transfer.elim

def SendOut.view (left : Bytes) : SendOut → SenderView
  | .running pc rest => pc.view rest
  | .finished => .waiting []
  | .aborted => .waiting left

theorem SendOut.Kept.transfer {xbuf after : Xbuf} {message left : Bytes} {reader : ReaderView}
    {out : SendOut} (kept : out.Kept xbuf after message left reader) :
    Transfer after message (out.view left) reader := by
  cases out with
  | running pc rest => exact kept.2
  | finished => exact kept
  | aborted => exact kept.2.2

theorem sendData_unsent {xbuf : Xbuf} {left rest : Bytes} {pc next : SendPc} (unsent : left ≠ [])
    (out : (sendData xbuf left pc).2 = .running next rest) : rest ≠ [] := by
  cases pc with
  | ready | staged | spin =>
      simp only [sendData] at out
      split at out
      · cases out; exact unsent
      · cases out <;> exact unsent
  | copy => cases out; exact unsent
  | raise =>
      simp only [sendData, enterSend] at out
      split at out
      · rename_i more
        cases out
        exact List.ne_nil_of_length_pos more
      · cases out

/-- What a step of `recv_data` leaves, for a reader of all of `message`. -/
def RecvOut.Kept (xbuf after : Xbuf) (message read : Bytes) (sender : SenderView) : RecvOut → Prop
  | .running pc rest =>
      (pc ≠ .lower → rest.length < message.length) ∧ Transfer after message sender (pc.view rest)
  | .finished rest =>
      rest = message ∧ after.flags.staged = false ∧ sender = .waiting []
  | .aborted rest =>
      xbuf.flags.ready = false ∧ after = xbuf ∧ rest = read ∧ Transfer after message sender (.waiting read)

theorem recvData_transfer {xbuf : Xbuf} {message read : Bytes} {pc : RecvPc}
    {sender : SenderView} (unread : pc ≠ .lower → read.length < message.length)
    (transfer : Transfer xbuf message sender (pc.view read)) :
    (recvData xbuf message.length read pc).2.Kept xbuf
      (recvData xbuf message.length read pc).1 message read sender := by
  cases pc with
  | ready | spin =>
      simp only [recvData]
      split
      · exact ⟨fun _ => unread (by simp), transfer⟩
      · rename_i lowered
        exact ⟨by simpa using lowered, rfl, rfl, transfer⟩
  | staged =>
      simp only [recvData]
      split
      · rename_i staged
        refine ⟨fun _ => unread (by simp), ?_⟩
        cases sender with
        | waiting left =>
            rcases transfer with flight | ⟨clear, _⟩
            · exact flight
            · rw [clear] at staged; contradiction
        | copying left | raising left =>
            have clear := transfer.1
            rw [clear] at staged; contradiction
      · exact ⟨fun _ => unread (by simp), transfer⟩
  | copy =>
      refine ⟨by simp, ?_⟩
      cases sender with
      | waiting left => exact ⟨transfer.1, transfer.2.split⟩
      | copying left | raising left => exact transfer.elim
  | lower =>
      simp only [recvData, Xbuf.lowerFlag_staged, enterRecv]
      cases sender with
      | waiting left =>
          obtain ⟨_, whole⟩ := transfer
          split
          · rename_i more
            exact ⟨fun _ => by omega, .inr ⟨rfl, whole⟩⟩
          · rename_i done
            have lengths := congrArg List.length whole
            rw [List.length_append] at lengths
            have empty : left = [] := List.eq_nil_of_length_eq_zero (by omega)
            subst empty
            exact ⟨by simp [whole], rfl, rfl⟩
      | copying left | raising left => exact transfer.elim

end Pisces
