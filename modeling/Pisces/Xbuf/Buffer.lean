import Mathlib.Data.List.Basic

/-! # The shared cross-enclave buffer

`struct pisces_xbuf` as both operating systems see it, with the three transfer
routines cut at their accesses to shared memory.  A control point stands for
the code up to and including one such access, so that every interleaving of
flag updates and chunk copies is an interleaving of these steps.
-/

namespace Pisces

abbrev Bytes := List UInt8

structure Flags where
  ready : Bool := false
  pending : Bool := false
  staged : Bool := false
  active : Bool := false
  complete : Bool := false
deriving DecidableEq, Repr

namespace Flags

def or (left right : Flags) : Flags where
  ready := left.ready || right.ready
  pending := left.pending || right.pending
  staged := left.staged || right.staged
  active := left.active || right.active
  complete := left.complete || right.complete

def and (left right : Flags) : Flags where
  ready := left.ready && right.ready
  pending := left.pending && right.pending
  staged := left.staged && right.staged
  active := left.active && right.active
  complete := left.complete && right.complete

def inv (flags : Flags) : Flags where
  ready := !flags.ready
  pending := !flags.pending
  staged := !flags.staged
  active := !flags.active
  complete := !flags.complete

end Flags

def xbufReady : Flags := { ready := true }
def xbufPending : Flags := { pending := true }
def xbufStaged : Flags := { staged := true }
def xbufActive : Flags := { active := true }
def xbufComplete : Flags := { complete := true }

/-- `data` is the staging area behind the header, `totalSize` bytes long. -/
structure Xbuf where
  flags : Flags
  totalSize : Nat
  dataLen : Nat
  data : Bytes
deriving DecidableEq, Repr

namespace Xbuf

variable (xbuf : Xbuf)

def resetFlags : Xbuf := { xbuf with flags := xbuf.flags.and xbufReady }

def setFlags (newFlags : Flags) : Xbuf := { xbuf with flags := newFlags }

def raiseFlag (flags : Flags) : Xbuf := { xbuf with flags := xbuf.flags.or flags }

def lowerFlag (flags : Flags) : Xbuf := { xbuf with flags := xbuf.flags.and flags.inv }

/-- `memcpy` to the start of the staging area. -/
def store (chunk : Bytes) : Xbuf := { xbuf with data := chunk ++ xbuf.data.drop chunk.length }

@[simp] theorem resetFlags_eq : xbuf.resetFlags = { xbuf with flags := { ready := xbuf.flags.ready } } := by
  simp [resetFlags, Flags.and, xbufReady]

@[simp] theorem raiseFlag_pending :
    xbuf.raiseFlag xbufPending = { xbuf with flags := { xbuf.flags with pending := true } } := by
  simp [raiseFlag, Flags.or, xbufPending]

@[simp] theorem raiseFlag_staged :
    xbuf.raiseFlag xbufStaged = { xbuf with flags := { xbuf.flags with staged := true } } := by
  simp [raiseFlag, Flags.or, xbufStaged]

@[simp] theorem raiseFlag_active :
    xbuf.raiseFlag xbufActive = { xbuf with flags := { xbuf.flags with active := true } } := by
  simp [raiseFlag, Flags.or, xbufActive]

@[simp] theorem raiseFlag_complete :
    xbuf.raiseFlag xbufComplete = { xbuf with flags := { xbuf.flags with complete := true } } := by
  simp [raiseFlag, Flags.or, xbufComplete]

@[simp] theorem lowerFlag_staged :
    xbuf.lowerFlag xbufStaged = { xbuf with flags := { xbuf.flags with staged := false } } := by
  simp [lowerFlag, Flags.and, Flags.inv, xbufStaged]

@[simp] theorem lowerFlag_ready :
    xbuf.lowerFlag xbufReady = { xbuf with flags := { xbuf.flags with ready := false } } := by
  simp [lowerFlag, Flags.and, Flags.inv, xbufReady]

end Xbuf

/-- Length of the next chunk, as all three routines compute it. -/
def stagedLen (bytesLeft xbufSize : Nat) : Nat :=
  if bytesLeft > xbufSize then xbufSize else bytesLeft

theorem stagedLen_eq_min (bytesLeft xbufSize : Nat) :
    stagedLen bytesLeft xbufSize = min bytesLeft xbufSize := by
  unfold stagedLen
  split <;> omega

/-- Control points of `init_stage_data`. -/
inductive StagePc where
  | len
  | copy
  | raise
deriving DecidableEq, Repr

inductive StageOut where
  | running (pc : StagePc)
  | finished (left : Bytes)
deriving DecidableEq, Repr

def initStageData (xbuf : Xbuf) (data : Bytes) : StagePc → Xbuf × StageOut
  | .len => ({ xbuf with dataLen := data.length }, .running .copy)
  | .copy => (xbuf.store (data.take (stagedLen data.length xbuf.totalSize)), .running .raise)
  | .raise => (xbuf.raiseFlag xbufStaged, .finished (data.drop (stagedLen data.length xbuf.totalSize)))

/-- Control points of `send_data`. `spin` is the test of READY inside the wait
for the previous chunk to be consumed. -/
inductive SendPc where
  | ready
  | staged
  | spin
  | copy
  | raise
deriving DecidableEq, Repr

/-- `left` are the bytes not yet staged; aborting is the return value 0. -/
inductive SendOut where
  | running (pc : SendPc) (left : Bytes)
  | finished
  | aborted
deriving DecidableEq, Repr

def enterSend (left : Bytes) : SendOut :=
  if left.length > 0 then .running .ready left else .finished

def sendData (xbuf : Xbuf) (left : Bytes) : SendPc → Xbuf × SendOut
  | .ready => (xbuf, if xbuf.flags.ready then .running .staged left else .aborted)
  | .staged => (xbuf, if xbuf.flags.staged then .running .spin left else .running .copy left)
  | .spin => (xbuf, if xbuf.flags.ready then .running .staged left else .aborted)
  | .copy => (xbuf.store (left.take (stagedLen left.length xbuf.totalSize)), .running .raise left)
  | .raise =>
      (xbuf.raiseFlag xbufStaged, enterSend (left.drop (stagedLen left.length xbuf.totalSize)))

/-- Control points of `recv_data` after it has read `data_len`. -/
inductive RecvPc where
  | ready
  | staged
  | spin
  | copy
  | lower
deriving DecidableEq, Repr

/-- `read` are the bytes copied out so far. -/
inductive RecvOut where
  | running (pc : RecvPc) (read : Bytes)
  | finished (read : Bytes)
  | aborted (read : Bytes)
deriving DecidableEq, Repr

def enterRecv (len : Nat) (read : Bytes) : RecvOut :=
  if len - read.length > 0 then .running .ready read else .finished read

def recvData (xbuf : Xbuf) (len : Nat) (read : Bytes) : RecvPc → Xbuf × RecvOut
  | .ready => (xbuf, if xbuf.flags.ready then .running .staged read else .aborted read)
  | .staged => (xbuf, if xbuf.flags.staged then .running .copy read else .running .spin read)
  | .spin => (xbuf, if xbuf.flags.ready then .running .staged read else .aborted read)
  | .copy =>
      (xbuf, .running .lower (read ++ xbuf.data.take (stagedLen (len - read.length) xbuf.totalSize)))
  | .lower => (xbuf.lowerFlag xbufStaged, enterRecv len read)

end Pisces
