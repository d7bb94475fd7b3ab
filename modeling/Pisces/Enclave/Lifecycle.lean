import Pisces.Transition
import Pisces.Ledger

/-! # Creating, launching, resetting and freeing an enclave

`pisces_enclave_create`, `enclave_ioctl` and `pisces_enclave_free`, down to the
descriptors, threads and interrupts that `setup_boot_params` creates.  Every
call that can fail takes its answer from the label of the step.  Releasing a
pointer that is NULL or dangling is undefined in the kernel; here the release
is recorded and the pointer's old value used.
-/

namespace Pisces.Enclave

open Ledger Transition

inductive Status where
  | loaded
  | running
  | dead
  deriving DecidableEq

inductive Resource where
  | ctrlDesc
  | lcallDesc
  | lcallIrq
  | lcallThread
  deriving DecidableEq

structure Handle where
  kind : Resource
  id : Nat
  deriving DecidableEq

/-- The long-call pointers; `pisces_lcall_init` sets `xbuf_desc` and
`kern_thread` together, and `irq` is a field of the descriptor. -/
structure LcallState where
  xbufDesc : Handle
  irq : Handle
  kernThread : Handle
  deriving DecidableEq

structure Lifecycle where
  state : Status
  ctrlDesc : Option Handle
  lcallState : Option LcallState
  /-- `enclave_map` still holds the enclave and its device node exists. -/
  mapped : Bool
  /-- Open descriptors of the enclave device. -/
  files : Nat
  /-- Whether the last call of `pisces_enclave_launch` succeeded. -/
  lastLaunch : Option Bool
  log : List (Event Handle)
  nextId : Nat
  deriving DecidableEq

/-- The answers of everything a launch depends on.  `pisces_cons_init` and
`pisces_ctrl_init` cannot report a failure: when `pisces_xbuf_client_init` gets
no memory the control descriptor is NULL and the launch goes on. -/
structure Boot where
  bootParams : Bool
  launchCode : Bool
  ctrlAlloc : Bool
  xbufReady : Bool
  requestIrq : Bool
  irqToVector : Bool
  /-- `pisces_xpmem_init`, or true without `USING_XPMEM`. -/
  xpmemInit : Bool
  kernelOffset : Bool
  loadKernel : Bool
  loadInitrd : Bool
  setupTrampoline : Bool
  /-- `boot_params->initialized` was seen before the time-out. -/
  initialized : Bool
  deriving DecidableEq

/-- `pisces_enclave_create` -/
def create : Lifecycle where
  state := .loaded
  ctrlDesc := none
  lcallState := none
  mapped := true
  files := 0
  lastLaunch := none
  log := []
  nextId := 0

namespace Lifecycle

def acquire (enclave : Lifecycle) (kind : Resource) : Lifecycle :=
  { enclave with
    log := .acquire ⟨kind, enclave.nextId⟩ :: enclave.log
    nextId := enclave.nextId + 1 }

/-- The handle that the next `acquire` hands out. -/
def fresh (enclave : Lifecycle) (kind : Resource) : Handle :=
  ⟨kind, enclave.nextId⟩

def release (enclave : Lifecycle) (pointer : Option Handle) : Lifecycle :=
  { enclave with log := .release pointer :: enclave.log }

/-- `pisces_ctrl_init` with `pisces_xbuf_client_init` -/
def ctrlInit (enclave : Lifecycle) (allocated : Bool) : Lifecycle :=
  if allocated then
    { enclave.acquire .ctrlDesc with ctrlDesc := some (enclave.fresh .ctrlDesc) }
  else
    { enclave with ctrlDesc := none }

/-- `pisces_ctrl_deinit` -/
def ctrlDeinit (enclave : Lifecycle) : Lifecycle :=
  enclave.release enclave.ctrlDesc

/-- `pisces_xbuf_server_init`: the descriptor and its interrupt. -/
def xbufServerInit (enclave : Lifecycle) (boot : Boot) : Option (Handle × Handle) × Lifecycle :=
  if boot.xbufReady then
    (none, enclave)
  else
    let desc := enclave.fresh .lcallDesc
    let enclave := enclave.acquire .lcallDesc
    if boot.requestIrq then
      let irq := enclave.fresh .lcallIrq
      let enclave := enclave.acquire .lcallIrq
      if boot.irqToVector then
        (some (desc, irq), enclave)
      else
        (none, (enclave.release (some irq)).release (some desc))
    else
      (none, enclave.release (some desc))

/-- `pisces_xbuf_server_deinit`; `pisces_release_irq` always returns 0. -/
def xbufServerDeinit (enclave : Lifecycle) (desc irq : Option Handle) : Lifecycle :=
  (enclave.release irq).release desc

/-- `pisces_lcall_init` -/
def lcallInit (enclave : Lifecycle) (boot : Boot) : Bool × Lifecycle :=
  match enclave.xbufServerInit boot with
  | (none, enclave) => (false, enclave)
  | (some (desc, irq), enclave) =>
      (true, { enclave.acquire .lcallThread with
        lcallState := some ⟨desc, irq, enclave.fresh .lcallThread⟩ })

/-- `pisces_lcall_deinit` -/
def lcallDeinit (enclave : Lifecycle) : Lifecycle :=
  (enclave.release (enclave.lcallState.map (·.kernThread))).xbufServerDeinit
    (enclave.lcallState.map (·.xbufDesc)) (enclave.lcallState.map (·.irq))

def setupBootParams (enclave : Lifecycle) (boot : Boot) : Bool × Lifecycle :=
  if boot.bootParams && boot.launchCode then
    match (enclave.ctrlInit boot.ctrlAlloc).lcallInit boot with
    | (false, enclave) => (false, enclave)
    | (true, enclave) =>
        (boot.xpmemInit && boot.kernelOffset && boot.loadKernel && boot.loadInitrd, enclave)
  else
    (false, enclave)

def bootEnclave (boot : Boot) : Bool :=
  boot.setupTrampoline && boot.initialized

/-- `pisces_enclave_launch` -/
def launch (enclave : Lifecycle) (boot : Boot) : Bool × Lifecycle :=
  match enclave.setupBootParams boot with
  | (false, enclave) => (false, { enclave with lastLaunch := some false })
  | (true, enclave) =>
      if bootEnclave boot then
        (true, { enclave with state := .running, lastLaunch := some true })
      else
        (false, { enclave with lastLaunch := some false })

/-- `pisces_enclave_free` -/
def free (enclave : Lifecycle) : Lifecycle :=
  let enclave := { enclave with state := Status.dead }
  let enclave := enclave.ctrlDeinit
  let enclave := { enclave with mapped := false }
  enclave.lcallDeinit

/-- `PISCES_ENCLAVE_RESET`.  Stopping the CPUs, resetting the PCI devices and
announcing the resources again leave the fields modelled here alone. -/
def reset (enclave : Lifecycle) (boot : Boot) : Bool × Lifecycle :=
  enclave.ctrlDeinit.lcallDeinit.launch boot

/-- The test at the head of `ctrl_ioctl`: whether a command is forwarded. -/
def forwards (enclave : Lifecycle) : Bool :=
  enclave.state == .running

end Lifecycle

inductive Operation where
  /-- `PISCES_LOAD_IMAGE`, with the result of `pisces_enclave_create`. -/
  | loadImage (created : Bool)
  | openFile
  | closeFile
  /-- `PISCES_ENCLAVE_LAUNCH`, with the result of `copy_from_user`. -/
  | launch (copied : Bool) (boot : Boot)
  | reset (boot : Boot)
  | free
  deriving DecidableEq

/-- One request concerning one enclave, which does not exist before its image
is loaded; a later `PISCES_LOAD_IMAGE` is about another enclave.  Requests to
the enclave device need an open descriptor, which outlives
`PISCES_FREE_ENCLAVE`; opening needs the device node. -/
def step : Option Lifecycle → Operation → Option (Option Lifecycle)
  | none, .loadImage created => some (if created then some create else none)
  | none, _ => none
  | some enclave, .loadImage _ => some (some enclave)
  | some enclave, .openFile =>
      if enclave.mapped then some (some { enclave with files := enclave.files + 1 }) else none
  | some enclave, .closeFile =>
      if 0 < enclave.files then some (some { enclave with files := enclave.files - 1 }) else none
  | some enclave, .launch copied boot =>
      if 0 < enclave.files then
        some (some (if copied then (enclave.launch boot).2 else enclave))
      else none
  | some enclave, .reset boot =>
      if 0 < enclave.files then some (some (enclave.reset boot).2) else none
  | some enclave, .free =>
      -- a cleared map entry makes `device_ioctl` return -EINVAL
      some (some (if enclave.mapped then enclave.free else enclave))

def system : System (Option Lifecycle) Operation where
  initial enclave := enclave = none
  step := step

/-- What a request does to an enclave that exists. -/
inductive Requested (enclave : Lifecycle) : Operation → Lifecycle → Prop where
  | loadImage (created : Bool) : Requested enclave (.loadImage created) enclave
  | openFile : Requested enclave .openFile { enclave with files := enclave.files + 1 }
  | closeFile : Requested enclave .closeFile { enclave with files := enclave.files - 1 }
  | notCopied (boot : Boot) : Requested enclave (.launch false boot) enclave
  | launch (boot : Boot) : Requested enclave (.launch true boot) (enclave.launch boot).2
  | reset (boot : Boot) : Requested enclave (.reset boot) (enclave.reset boot).2
  | notMapped (absent : enclave.mapped = false) : Requested enclave .free enclave
  | free (mapped : enclave.mapped = true) : Requested enclave .free enclave.free

theorem step_requested {enclave : Lifecycle} {operation : Operation} {next : Option Lifecycle}
    (stepped : step (some enclave) operation = some next) :
    ∃ after, next = some after ∧ Requested enclave operation after := by
  cases operation with
  | loadImage created =>
      cases stepped
      exact ⟨enclave, rfl, .loadImage created⟩
  | openFile =>
      simp only [step, Option.ite_none_right_eq_some, Option.some.injEq] at stepped
      exact ⟨_, stepped.2.symm, .openFile⟩
  | closeFile =>
      simp only [step, Option.ite_none_right_eq_some, Option.some.injEq] at stepped
      exact ⟨_, stepped.2.symm, .closeFile⟩
  | launch copied boot =>
      simp only [step, Option.ite_none_right_eq_some, Option.some.injEq] at stepped
      cases copied with
      | false => exact ⟨enclave, stepped.2.symm, .notCopied boot⟩
      | true => exact ⟨_, stepped.2.symm, .launch boot⟩
  | reset boot =>
      simp only [step, Option.ite_none_right_eq_some, Option.some.injEq] at stepped
      exact ⟨_, stepped.2.symm, .reset boot⟩
  | free =>
      cases stepped
      cases mapped : enclave.mapped with
      | false => exact ⟨enclave, rfl, .notMapped mapped⟩
      | true => exact ⟨enclave.free, rfl, .free mapped⟩

/-- Before the image is loaded nothing else can happen. -/
theorem step_created {operation : Operation} {next : Option Lifecycle}
    (stepped : step none operation = some next) :
    (∃ created, operation = .loadImage created) ∧ (next = none ∨ next = some create) := by
  cases operation with
  | loadImage created =>
      cases stepped
      cases created with
      | false => exact ⟨⟨false, rfl⟩, .inl rfl⟩
      | true => exact ⟨⟨true, rfl⟩, .inr rfl⟩
  | _ => cases stepped

end Pisces.Enclave
