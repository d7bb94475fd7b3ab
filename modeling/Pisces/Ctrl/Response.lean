import Pisces.Ctrl.Ioctl
import Pisces.Lcall.Dispatch
import Pisces.Xbuf.Quiet

/-! # The response to a control command

What `send_vm_cmd`, `ctrl_add_mem`, `ctrl_add_cpu`, `ctrl_add_pci` and every
command of `ctrl_ioctl` do with the response of `pisces_xbuf_sync_send`, however
the enclave completes the command.
-/

namespace Pisces.Response

open Transition

/-- How a command ends: COMPLETE without staged data, COMPLETE with a staged
response, or READY lowered before. -/
inductive Completion where
  | bare
  | staged (response : Bytes)
  | disabled
  deriving DecidableEq

/-- What a call of `pisces_xbuf_sync_send` leaves: `resp` is null unless a buffer
was allocated for the response. -/
structure Sent where
  ret : Int
  resp : Option Bytes
  deriving DecidableEq

/-- `recv_data` allocates the buffer first; that it has copied no byte counts as
its failure. -/
def syncSend : Completion → Sent
  | .bare => ⟨0, none⟩
  | .staged response => if response.length = 0 then ⟨-1, some []⟩ else ⟨0, some response⟩
  | .disabled => ⟨-1, none⟩

/-- The pointers through which `resp->status` is read on the way to a result.
Reading through a null pointer leaves none. -/
structure Fetch (α : Type) where
  reads : List (Option Bytes)
  value : Option α
  deriving DecidableEq

def Fetch.map {α β : Type} (f : α → β) (fetch : Fetch α) : Fetch β :=
  ⟨fetch.reads, fetch.value.map f⟩

def Fetch.unread (ret : Int) : Fetch Int :=
  ⟨[], some ret⟩

/-- The first eight bytes at `resp`; `beyond` is what follows the buffer in memory. -/
def statusOf (beyond : Nat → UInt8) : Option Bytes → Option UInt64
  | none => none
  | some response => some (Dispatch.u64At (fun index => response.getD index (beyond index)) 0)

/-- The status of a send that returned 0, else -1. -/
def fetchStatus (beyond : Nat → UInt8) (completion : Completion) : Fetch UInt64 :=
  if (syncSend completion).ret = 0 then
    ⟨[(syncSend completion).resp], statusOf beyond (syncSend completion).resp⟩
  else ⟨[], some (-1)⟩

/-- `int status = resp->status` -/
def intStatus (status : UInt64) : Int := status.toUInt32.toInt32.toInt

def sendVmCmd (beyond : Nat → UInt8) (completion : Completion) : Fetch Int :=
  (fetchStatus beyond completion).map fun status => status.toInt64.toInt

/-- The commands that any status but 0 fails -/
def acknowledged (beyond : Nat → UInt8) (completion : Completion) : Fetch Int :=
  (fetchStatus beyond completion).map fun status => if intStatus status ≠ 0 then -1 else 0

/-- The commands that return the status unless it is negative -/
def numbered (beyond : Nat → UInt8) (completion : Completion) : Fetch Int :=
  (fetchStatus beyond completion).map fun status => if intStatus status < 0 then -1 else intStatus status

/-- The commands that only free the response -/
def sentOnly (completion : Completion) : Fetch Int :=
  .unread (if (syncSend completion).ret = 0 then 0 else -1)

def ctrlAddMem (completion : Completion) : Fetch Int := sentOnly completion

def ctrlAddCpu (beyond : Nat → UInt8) (completion : Completion) : Fetch Int := acknowledged beyond completion

def ctrlAddPci (beyond : Nat → UInt8) (completion : Completion) : Fetch Int := acknowledged beyond completion

/-- The commands of `ctrl_ioctl`, with what the kernel answers before and after
the send: `copied` is the result of `copy_from_user`. -/
inductive Request where
  | addCpu (added : Bool)
  | removeCpu
  | addMem (copied added : Bool)
  | removeMem
  | addPci (copied : Bool) (added : Int)
  | freePci (copied removed : Bool)
  | launchJob (copied : Bool)
  | loadFile (copied : Bool)
  | storeFile (copied : Bool)
  | createVm (copied : Bool)
  /-- LAUNCH_VM, STOP_VM, FREE_VM, PAUSE_VM and CONTINUE_VM -/
  | vmCtrl
  /-- VM_CONS_CONNECT, with the result of `v3_console_connect` -/
  | vmConsConnect (connected : Int)
  | vmDbg (copied : Bool)
  | shutdown
  | unknown
  deriving DecidableEq

/-- `copy_from_user` comes first; -14 is `-EFAULT`. -/
def afterCopy (copied : Bool) (fetch : Fetch Int) : Fetch Int :=
  if copied then fetch else .unread (-14)

/-- The `switch` of `ctrl_ioctl` -/
def command (beyond : Nat → UInt8) (completion : Completion) : Request → Fetch Int
  | .addCpu added => if added then ctrlAddCpu beyond completion else .unread (-1)
  | .removeCpu => acknowledged beyond completion
  | .addMem copied added => afterCopy copied (if added then ctrlAddMem completion else .unread (-1))
  | .removeMem => .unread (-1)
  | .addPci copied added => afterCopy copied (if added ≠ 0 then .unread added else ctrlAddPci beyond completion)
  | .freePci copied removed =>
      afterCopy copied ((acknowledged beyond completion).map fun ret =>
        if ret ≠ 0 then -1 else if removed then 0 else -1)
  | .launchJob copied => afterCopy copied (numbered beyond completion)
  | .loadFile copied => afterCopy copied (numbered beyond completion)
  | .storeFile copied => afterCopy copied (numbered beyond completion)
  | .createVm copied => afterCopy copied (numbered beyond completion)
  | .vmCtrl => (sendVmCmd beyond completion).map fun status => if status ≠ 0 then -1 else 0
  | .vmConsConnect connected =>
      (sendVmCmd beyond completion).map fun consPa => if consPa ≤ 0 then -1 else connected
  | .vmDbg copied => afterCopy copied (sentOnly completion)
  | .shutdown => sentOnly completion
  | .unknown => .unread (-1)

/-- `running` is `enclave->state == ENCLAVE_RUNNING`. -/
def ctrlIoctl (running : Bool) (beyond : Nat → UInt8) (completion : Completion) (request : Request) : Fetch Int :=
  if running then command beyond completion request else .unread (-1)

/-- The command gets as far as `pisces_xbuf_sync_send`. -/
def Request.sends : Request → Bool
  | .addCpu added => added
  | .addMem copied added => copied && added
  | .addPci copied added => copied && added == 0
  | .freePci copied _ | .launchJob copied | .loadFile copied | .storeFile copied | .createVm copied
  | .vmDbg copied => copied
  | .removeCpu | .vmCtrl | .vmConsConnect _ | .shutdown => true
  | .removeMem | .unknown => false

/-- The command looks at the status. -/
def Request.looks : Request → Bool
  | .addMem _ _ | .vmDbg _ | .shutdown | .removeMem | .unknown => false
  | _ => true

/-- A response of at least `sizeof(struct pisces_resp)` bytes -/
def Usable (resp : Option Bytes) : Prop := ∃ response, resp = some response ∧ 12 ≤ response.length

/-- The status is read out of a usable response only. -/
def ReadsUsable (completion : Completion) (fetch : Fetch Int) : Prop :=
  (syncSend completion).ret = 0 → ∀ resp ∈ fetch.reads, resp = (syncSend completion).resp ∧ Usable resp

/-- Without a usable response, a send that returned 0 is reported as an error. -/
def Reports (completion : Completion) (fetch : Fetch Int) : Prop :=
  (syncSend completion).ret = 0 → ¬ Usable (syncSend completion).resp → ∃ ret, fetch.value = some ret ∧ ret < 0

def Careful (completion : Completion) (fetch : Fetch Int) : Prop :=
  ReadsUsable completion fetch ∧ Reports completion fetch

/-- The enclave stages a whole response, or none that `pisces_xbuf_sync_send` accepts. -/
def Completion.whole : Completion → Bool
  | .bare => false
  | .staged response => decide (response.length = 0 ∨ 12 ≤ response.length)
  | .disabled => true

variable {beyond : Nat → UInt8} {completion : Completion} {fetch : Fetch Int} {request : Request}

theorem usable_iff_whole (zero : (syncSend completion).ret = 0) :
    Usable (syncSend completion).resp ↔ completion.whole = true := by
  cases completion with
  | bare => simp [syncSend, Usable, Completion.whole]
  | disabled => simp [syncSend] at zero
  | staged response =>
      simp only [syncSend] at zero ⊢
      split at zero
      · simp at zero
      · rename_i some
        simp [Usable, Completion.whole, some]

theorem zero_of_not_whole (short : completion.whole = false) : (syncSend completion).ret = 0 := by
  cases completion with
  | bare => rfl
  | disabled => simp [Completion.whole] at short
  | staged response =>
      simp only [Completion.whole, decide_eq_false_iff_not, not_or] at short
      simp [syncSend, short.1]

def Looks (completion : Completion) (fetch : Fetch Int) : Prop :=
  fetch.reads = if (syncSend completion).ret = 0 then [(syncSend completion).resp] else []

def Ignores (completion : Completion) (fetch : Fetch Int) : Prop :=
  fetch.reads = [] ∧ ((syncSend completion).ret = 0 → fetch.value = some 0)

theorem looks_fetchStatus (f : UInt64 → Int) : Looks completion ((fetchStatus beyond completion).map f) := by
  simp only [Looks, fetchStatus, Fetch.map]
  split <;> rfl

theorem Looks.map (looks : Looks completion fetch) (f : Int → Int) : Looks completion (fetch.map f) := looks

theorem Looks.readsUsable_iff (looks : Looks completion fetch) :
    ReadsUsable completion fetch ↔ completion.whole = true := by
  constructor
  · intro careful
    by_contra short
    have zero := zero_of_not_whole (Bool.eq_false_iff.mpr short)
    have read : (syncSend completion).resp ∈ fetch.reads := by
      rw [looks, if_pos zero]
      exact List.mem_singleton_self _
    exact short ((usable_iff_whole zero).mp (careful zero _ read).2)
  · intro whole zero resp member
    rw [looks, if_pos zero, List.mem_singleton] at member
    rw [member]
    exact ⟨rfl, (usable_iff_whole zero).mpr whole⟩

theorem reports_of_whole (whole : completion.whole = true) : Reports completion fetch :=
  fun zero unusable => absurd ((usable_iff_whole zero).mpr whole) unusable

theorem Looks.careful_iff (looks : Looks completion fetch) : Careful completion fetch ↔ completion.whole = true :=
  ⟨fun careful => looks.readsUsable_iff.mp careful.1,
    fun whole => ⟨looks.readsUsable_iff.mpr whole, reports_of_whole whole⟩⟩

theorem Ignores.readsUsable (ignores : Ignores completion fetch) : ReadsUsable completion fetch := by
  intro _ resp member
  rw [ignores.1] at member
  contradiction

theorem Ignores.careful_iff (ignores : Ignores completion fetch) :
    Careful completion fetch ↔ completion.whole = true := by
  constructor
  · intro careful
    by_contra short
    have zero := zero_of_not_whole (Bool.eq_false_iff.mpr short)
    obtain ⟨ret, same, negative⟩ := careful.2 zero (fun usable => short ((usable_iff_whole zero).mp usable))
    rw [ignores.2 zero] at same
    cases same
    contradiction
  · intro whole
    exact ⟨ignores.readsUsable, reports_of_whole whole⟩

theorem ignores_sentOnly : Ignores completion (sentOnly completion) :=
  ⟨rfl, fun zero => by simp [sentOnly, Fetch.unread, zero]⟩

theorem command_looks (sends : request.sends = true) :
    if request.looks then Looks completion (command beyond completion request)
    else Ignores completion (command beyond completion request) := by
  cases request with
  | addMem copied added =>
      simp only [Request.sends, Bool.and_eq_true] at sends
      simp only [command, afterCopy, sends, if_true]
      exact ignores_sentOnly
  | vmDbg copied =>
      simp only [Request.sends] at sends
      simp only [command, afterCopy, sends, if_true]
      exact ignores_sentOnly
  | shutdown => exact ignores_sentOnly
  | removeMem | unknown => contradiction
  | addPci copied added =>
      simp only [Request.sends, Bool.and_eq_true, beq_iff_eq] at sends
      simp only [command, afterCopy, sends, if_true]
      exact looks_fetchStatus _
  | addCpu copied | launchJob copied | loadFile copied | storeFile copied | createVm copied =>
      simp only [Request.sends] at sends
      simp only [command, afterCopy, sends, if_true]
      exact looks_fetchStatus _
  | freePci copied removed =>
      simp only [Request.sends] at sends
      simp only [command, afterCopy, sends, if_true]
      exact (looks_fetchStatus _).map _
  | removeCpu => exact looks_fetchStatus _
  | vmCtrl | vmConsConnect => exact (looks_fetchStatus _).map _

/-- Exactly when the responses to control commands are read where they exist:
for every caller that gets 0, the enclave staged at least 12 bytes. -/
theorem careful_iff_whole (beyond : Nat → UInt8) (completion : Completion) :
    (Careful completion (sendVmCmd beyond completion) ↔ completion.whole = true) ∧
    (Careful completion (ctrlAddCpu beyond completion) ↔ completion.whole = true) ∧
    (Careful completion (ctrlAddPci beyond completion) ↔ completion.whole = true) ∧
    ∀ running request, (running && request.sends) = true →
      (Careful completion (ctrlIoctl running beyond completion request) ↔ completion.whole = true) ∧
      (ReadsUsable completion (ctrlIoctl running beyond completion request) ↔
        request.looks = false ∨ completion.whole = true) := by
  refine ⟨(looks_fetchStatus _).careful_iff, (looks_fetchStatus _).careful_iff,
    (looks_fetchStatus _).careful_iff, ?_⟩
  intro running request sends
  simp only [Bool.and_eq_true] at sends
  simp only [ctrlIoctl, sends.1, if_true]
  have reached : if request.looks then Looks completion (command beyond completion request)
      else Ignores completion (command beyond completion request) := command_looks sends.2
  cases looking : request.looks with
  | true =>
      rw [looking] at reached
      have looks : Looks completion (command beyond completion request) := reached
      simp [looks.careful_iff, looks.readsUsable_iff]
  | false =>
      rw [looking] at reached
      have ignores : Ignores completion (command beyond completion request) := reached
      simp [ignores.careful_iff, ignores.readsUsable]

/-- Adding a CPU, answered with 12 zero bytes -/
theorem careful_iff_whole_addCpu :
    Careful (.staged (List.replicate 12 0))
      (ctrlIoctl true (fun _ => 0) (.staged (List.replicate 12 0)) (.addCpu true)) :=
  (((careful_iff_whole (fun _ => 0) (.staged (List.replicate 12 0))).2.2.2 true (.addCpu true) rfl).1).mpr rfl

/-- A VM command that is completed without a response: `resp` is null when
`send_vm_cmd` reads the status. -/
theorem status_of_no_response :
    (syncSend .bare).ret = 0 ∧ sendVmCmd (fun _ => 0) .bare = ⟨[none], none⟩ ∧
      ¬ Careful .bare (sendVmCmd (fun _ => 0) .bare) := by
  refine ⟨rfl, rfl, ?_⟩
  intro careful
  obtain ⟨_, response, missing, _⟩ := careful.1 rfl none (List.mem_singleton_self none)
  cases missing

/-! ## The other models -/

def Completion.of (response : Bytes) : Completion :=
  if response = [] then .bare else .staged response

/-- A call that returns 0 leaves what `syncSend` says of its response. -/
theorem syncSend_of_returned {params : Channel.Params} {size call : Nat} {state : Channel.State}
    {resp : Option Bytes} (handler : params.hasHandler = true) (wants : params.wantsResp call = true)
    (reached : (Channel.system params size).Reachable (Channel.Fitting params size) state)
    (returned : state.calls call = .returned resp) :
    syncSend (.of (params.response (params.message call))) = ⟨0, resp⟩ := by
  rw [(Channel.orderly_of_reachable reached).responses handler wants returned, Completion.of]
  split
  · rfl
  · rename_i answered
    simp [syncSend, answered]

/-- What the kernel answers to the commands that move resources -/
def Request.of (record : Enclave.Record) (answer : Ctrl.Answer) : Ctrl.Ioctl → Request
  | .addCpu cpuId => .addCpu (Enclave.enclaveAddCpu record cpuId.toUInt32).1
  | .removeCpu _ => .removeCpu
  | .addMem copied _ => .addMem copied true
  | .addPci copied spec hardware => .addPci copied (Pci.enclavePciAddDev record.pciState spec hardware).1
  | .freePci copied spec =>
      .freePci copied ((Pci.enclavePciRemoveDev (answer.record record).pciState spec).1 == 0)

def Completion.status (beyond : Nat → UInt8) (completion : Completion) : Option UInt64 :=
  if (syncSend completion).ret = 0 then statusOf beyond (syncSend completion).resp else none

theorem intStatus_eq_zero (status : UInt64) : intStatus status = 0 ↔ status.toUInt32 = 0 := by
  constructor
  · intro zero
    have signed : status.toUInt32.toInt32 = 0 := Int32.toInt_inj.mp (by simpa [intStatus] using zero)
    exact congrArg Int32.toUInt32 signed
  · intro zero
    simp [intStatus, zero]

variable {record : Enclave.Record} {answer : Ctrl.Answer}

theorem acknowledged_value (answered : answer.status = completion.status beyond) (responded : completion ≠ .bare) :
    (acknowledged beyond completion).value = some (if answer.accepted then 0 else -1) := by
  simp only [acknowledged, Fetch.map, fetchStatus, Ctrl.Answer.accepted, answered, Completion.status]
  cases completion with
  | bare => contradiction
  | disabled => rfl
  | staged response =>
      simp only [syncSend]
      split
      · rfl
      · simp [statusOf, intStatus_eq_zero]

/-- Up to the commands that nobody answers, this is the `ctrl_ioctl` that moves resources. -/
theorem ctrlIoctl_value (answered : answer.status = completion.status beyond) (responded : completion ≠ .bare)
    (ioctl : Ctrl.Ioctl) :
    (ctrlIoctl true beyond completion (.of record answer ioctl)).value =
      some (Ctrl.ctrlIoctl record answer ioctl).ret := by
  have value := acknowledged_value answered responded
  simp only [ctrlIoctl, if_true]
  cases ioctl with
  | addCpu cpuId =>
      simp only [command, Request.of, Ctrl.ctrlIoctl]
      cases (Enclave.enclaveAddCpu record cpuId.toUInt32) with
      | mk added after =>
          cases added with
          | false => rfl
          | true => exact value
  | removeCpu cpuId => exact value
  | addMem copied reg =>
      cases copied with
      | false => rfl
      | true =>
          simp only [command, Request.of, Ctrl.ctrlIoctl, afterCopy, if_true, Ctrl.ctrlAddMem, answered]
          cases completion with
          | bare => contradiction
          | disabled => rfl
          | staged response =>
              simp only [ctrlAddMem, sentOnly, Fetch.unread, Completion.status, syncSend]
              split <;> rfl
  | addPci copied spec hardware =>
      cases copied with
      | false => rfl
      | true =>
          simp only [command, Request.of, Ctrl.ctrlIoctl, afterCopy, if_true]
          split
          · rfl
          · simp only [Ctrl.ctrlAddPci, ctrlAddPci, value]
            split <;> rfl
  | freePci copied spec =>
      cases copied with
      | false => rfl
      | true =>
          simp only [command, Request.of, Ctrl.ctrlIoctl, afterCopy, if_true, Fetch.map, value, Option.map_some]
          cases answer.accepted with
          | false => rfl
          | true => simp

end Pisces.Response
