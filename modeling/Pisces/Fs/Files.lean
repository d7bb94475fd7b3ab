import Pisces.Assign
import Pisces.Lcall.Message
import Pisces.Ledger
import Pisces.Transition
import Pisces.Util.Hashtable

/-! # The file long calls

`enclave_fs.c`: the handlers of the VFS long calls, with the file operations of
the kernel behind `file_io.c` as parameters and every allocation succeeding.
-/

namespace Pisces.Fs

open Ledger Transition Util

/-- `struct vfs_buf_desc` -/
structure BufDesc where
  size : UInt32
  physAddr : UInt64
  deriving DecidableEq

/-- `struct enclave_fs` -/
structure State where
  numFiles : UInt32
  openFileTable : Hashtable
  openFileList : List UInt64
  deriving DecidableEq

/-- One `file_read` or `file_write` and its result. -/
structure Io where
  address : UInt64
  length : UInt32
  offset : UInt64
  result : Int
  deriving DecidableEq

/-- `count` places of memory from an address on, each with its place in the file. -/
def track (address offset : UInt64) (count : Nat) : List (UInt64 × UInt64) :=
  (List.range count).map fun index => (address + .ofNat index, offset + .ofNat index)

/-- The bytes that one call moves. -/
def Io.moved (io : Io) : List (UInt64 × UInt64) :=
  track io.address io.offset io.result.toNat

/-- What the kernel answers during one long call.  A transfer may depend on the
transfers before it and is never longer than asked for. -/
structure Vfs where
  /-- `filp_open` on the bytes at a path with a mode: a pointer or an error pointer. -/
  filpOpen : (Nat → UInt8) → UInt32 → UInt64
  /-- `vfs_getattr`: the result and the size. -/
  getattr : UInt64 → Int × UInt64
  transfer : UInt64 → List Io → UInt64 → UInt32 → UInt64 → Int
  /-- The bytes of a file after the transfers so far -/
  contents : UInt64 → List Io → UInt64 → UInt8
  bounded : ∀ file history address length offset,
    transfer file history address length offset ≤ length.toNat

/-- `struct vfs_read_lcall` and `struct vfs_write_lcall`, which are alike; the
descriptors have 12 bytes each. -/
abbrev TransferLcall := Dispatch.Message

namespace TransferLcall

variable (lcall : TransferLcall)

def fileHandle : UInt64 := lcall.u64At 12

def offset : UInt64 := lcall.u64At 20

def length : UInt64 := lcall.u64At 28

def numDescs : UInt32 := lcall.u32At 36

def size (i : Nat) : UInt32 := lcall.u32At (40 + 12 * i)

def physAddr (i : Nat) : UInt64 := lcall.u64At (44 + 12 * i)

end TransferLcall

/-- The file long calls. -/
inductive Lcall where
  | open (mode : UInt32) (path : Nat → UInt8)
  | close (fileHandle : UInt64)
  | size (fileHandle : UInt64)
  | read (lcall : TransferLcall)
  | write (lcall : TransferLcall)

/-- What a handler completes a call with. -/
inductive Answer where
  /-- The file does not exist. -/
  | missing
  | done (status : UInt64)
  deriving DecidableEq

def Answer.status : Answer → UInt64
  | .missing => -1
  | .done status => status

/-- `IS_ERR` -/
def isErr (pointer : UInt64) : Bool :=
  pointer ≥ -4095

/-- `file_open`, with `O_LARGEFILE` added to the mode -/
def fileOpen (vfs : Vfs) (path : Nat → UInt8) (mode : UInt32) : UInt64 :=
  let file := vfs.filpOpen path (mode ||| 0x8000)
  if isErr file then 0 else file

/-- `file_size` -/
def fileSize (vfs : Vfs) (file : UInt64) : UInt64 :=
  if (vfs.getattr file).1 ≠ 0 then -1 else (vfs.getattr file).2

def fileHashFn : UInt64 → UInt32 :=
  hashLong

/-- What a handler did: its calls of `pisces_xbuf_complete`, the state it leaves
and the files it opened and closed, newest first. -/
structure Outcome where
  answers : List Answer
  state : State
  files : List (Event UInt64) := []

def search (state : State) (file : UInt64) : Bool :=
  htableSearch fileHashFn state.openFileTable file != 0

/-- `enclave_vfs_open_lcall`: the answer of `file_open` is tested for an error
pointer, which it never is. -/
def enclaveVfsOpenLcall (vfs : Vfs) (state : State) (mode : UInt32) (path : Nat → UInt8) : Outcome :=
  let file := fileOpen vfs path mode
  if isErr file then { answers := [.done 0], state }
  else
    let registered :=
      if search state file then state
      else
        { state with
          openFileTable := htableInsert fileHashFn state.openFileTable file file
          openFileList := state.openFileList ++ [file] }
    { answers := [.done file]
      state := { registered with numFiles := registered.numFiles + 1 }
      files := if file = 0 then [] else [.acquire file] }

/-- `enclave_vfs_close_lcall` -/
def enclaveVfsCloseLcall (state : State) (file : UInt64) : Outcome :=
  if search state file then
    { answers := [.done 0]
      state :=
        { numFiles := state.numFiles - 1
          openFileTable := htableRemove fileHashFn state.openFileTable file
          openFileList := state.openFileList.erase file }
      files := [.release (some file)] }
  else { answers := [.missing], state }

/-- `enclave_vfs_size_lcall` -/
def enclaveVfsSizeLcall (vfs : Vfs) (state : State) (file : UInt64) : Outcome :=
  if search state file then { answers := [.done (fileSize vfs file)], state }
  else { answers := [.missing], state }

/-- Where a transfer stands: the file offset, the bytes so far and the calls made. -/
structure Progress where
  offset : UInt64
  total : UInt64
  history : List Io

def Progress.advance (progress : Progress) (io : Io) : Progress :=
  { offset := progress.offset + .ofNat io.result.toNat
    total := progress.total + .ofNat io.result.toNat
    history := io :: progress.history }

theorem left_decreases {left : UInt32} {result : Int} (positive : 0 < result) (bounded : result ≤ left.toNat) :
    (left - .ofNat result.toNat).toNat < left.toNat := by
  have small : result.toNat < 4294967296 := by
    have := left.toNat_lt
    omega
  have exact : (UInt32.ofNat result.toNat).toNat = result.toNat := by
    rw [UInt32.toNat_ofNat']
    exact Nat.mod_eq_of_lt small
  rw [UInt32.toNat_sub_of_le _ _ (UInt32.le_iff_toNat_le.mpr (by omega)), exact]
  omega

inductive Direction where
  | read
  | write
  deriving DecidableEq

/-- What a call does to memory, and so to a message that its buffer overlaps -/
def Direction.after (direction : Direction) (vfs : Vfs) (file : UInt64) (history : List Io) (io : Io)
    (lcall : TransferLcall) : TransferLcall :=
  match direction with
  | .read =>
      { lcall with
        memory := Assign.assign lcall.memory (io.moved.map fun place => (place.1, vfs.contents file history place.2)) }
  | .write => lcall

/-- The inner loop over descriptor `i`, with the bytes done and left and the last
result.  The address of the buffer is read from the message at each turn. -/
def innerLoop (direction : Direction) (vfs : Vfs) (file : UInt64) (i : Nat) (done left : UInt32) (ret : Int)
    (lcall : TransferLcall) (progress : Progress) : Int × TransferLcall × Progress :=
  if left = 0 then (ret, lcall, progress)
  else
    let address := lcall.physAddr i + done.toUInt64
    let result := vfs.transfer file progress.history address left progress.offset
    let io : Io := ⟨address, left, progress.offset, result⟩
    let after := direction.after vfs file progress.history io lcall
    if stop : result ≤ 0 then (result, after, { progress with history := io :: progress.history })
    else
      have : (left - .ofNat result.toNat).toNat < left.toNat :=
        left_decreases (by omega) (vfs.bounded ..)
      innerLoop direction vfs file i (done + .ofNat result.toNat) (left - .ofNat result.toNat) result after
        (progress.advance io)
termination_by left.toNat

/-- The loop over the descriptors.  Their number is read from the message at each
turn, and so is the size of the next one. -/
def outerLoop (direction : Direction) (vfs : Vfs) (file length : UInt64) (i : Nat) (lcall : TransferLcall)
    (progress : Progress) : TransferLcall × Progress :=
  -- as a `u32` the index is below the number of descriptors, so it does not wrap
  if more : i < lcall.numDescs.toNat then
    if progress.total ≥ length then (lcall, progress)
    else
      let turn := innerLoop direction vfs file i 0 (lcall.size i) 0 lcall progress
      if turn.1 = 0 then turn.2 else outerLoop direction vfs file length (i + 1) turn.2.1 turn.2.2
  else (lcall, progress)
termination_by 0x100000000 - i
decreasing_by
  have bound : lcall.numDescs.toNat < 0x100000000 := lcall.numDescs.toNat_lt
  omega

/-- The whole of a transfer -/
def transfer (direction : Direction) (vfs : Vfs) (lcall : TransferLcall) : TransferLcall × Progress :=
  outerLoop direction vfs lcall.fileHandle lcall.length 0 lcall ⟨lcall.offset, 0, []⟩

/-- Its calls, oldest first -/
def calls (direction : Direction) (vfs : Vfs) (lcall : TransferLcall) : List Io :=
  (transfer direction vfs lcall).2.history.reverse

/-- The common body of the read and write handlers. -/
def enclaveVfsTransferLcall (direction : Direction) (vfs : Vfs) (state : State) (lcall : TransferLcall) : Outcome :=
  if search state lcall.fileHandle then
    { answers := [.done (transfer direction vfs lcall).2.total], state }
  else { answers := [.missing], state }

/-- `enclave_vfs_read_lcall` -/
def enclaveVfsReadLcall (vfs : Vfs) (state : State) (lcall : TransferLcall) : Outcome :=
  enclaveVfsTransferLcall .read vfs state lcall

/-- `enclave_vfs_write_lcall` -/
def enclaveVfsWriteLcall (vfs : Vfs) (state : State) (lcall : TransferLcall) : Outcome :=
  enclaveVfsTransferLcall .write vfs state lcall

def handle (vfs : Vfs) (state : State) : Lcall → Outcome
  | .open mode path => enclaveVfsOpenLcall vfs state mode path
  | .close file => enclaveVfsCloseLcall state file
  | .size file => enclaveVfsSizeLcall vfs state file
  | .read lcall => enclaveVfsReadLcall vfs state lcall
  | .write lcall => enclaveVfsWriteLcall vfs state lcall

/-- `init_enclave_fs`; the enclave was cleared when it was created. -/
def initEnclaveFs : Option State :=
  (createHtable 0).map fun table => { numFiles := 0, openFileTable := table, openFileList := [] }

/-- `deinit_enclave_fs`: the files it closes, in order. -/
def deinitEnclaveFs (state : State) : List UInt64 :=
  state.openFileList

end Pisces.Fs
