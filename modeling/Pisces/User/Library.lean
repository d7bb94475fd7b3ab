import Mathlib.Logic.Function.Basic
import Pisces.Ctrl.Ioctl

/-! # The user library

The calls of `linux_usr` that move CPUs between Linux and enclaves, on top of
the record kept by the kernel module.  The library itself keeps no state: it
takes a CPU from Linux with petlib, hands it over with an ioctl, and gives it
back to Linux when the ioctl fails.
-/

namespace Pisces.User

open Enclave Transition

/-- Linux numbers its CPUs with 32 bits. -/
def fits (cpuId : UInt64) : Bool :=
  cpuId.toUInt32.toUInt64 == cpuId

/-- `pet_offline_cpu`: works only on a CPU that is online. -/
def petOfflineCpu (online : Finset UInt32) (cpuId : UInt64) (works : Bool) : Option (Finset UInt32) :=
  if works && fits cpuId && decide (cpuId.toUInt32 ∈ online) then
    some (online.erase cpuId.toUInt32)
  else
    none

/-- `pet_offline_cpus`: the CPUs it got hold of among those it tried. -/
def petOfflineCpus (online : Finset UInt32) : List UInt32 → List UInt32 × Finset UInt32
  | [] => ([], online)
  | cpu :: rest =>
      if cpu ∈ online then
        let (taken, left) := petOfflineCpus (online.erase cpu) rest
        (cpu :: taken, left)
      else
        petOfflineCpus online rest

/-- `pet_online_cpu` -/
def petOnlineCpu (online : Finset UInt32) (cpuId : UInt64) : Finset UInt32 :=
  if fits cpuId then insert cpuId.toUInt32 online else online

def petOnlineCpus (online : Finset UInt32) (cpus : List UInt32) : Finset UInt32 :=
  cpus.foldl (fun online cpu => petOnlineCpu online cpu.toUInt64) online

/-- `struct enclave_boot_env` without the CPU, which `pisces_launch` fills in. -/
structure BootMem where
  baseAddr : UInt64
  blockSize : UInt64
  numBlocks : UInt32

/-- What `PISCES_ENCLAVE_LAUNCH` writes to the record before it launches; the
result of `pisces_enclave_add_cpu` is ignored. -/
def launchRecord (record : Record) (bootMem : BootMem) (cpuId : UInt32) : Record :=
  (List.range bootMem.numBlocks.toNat).foldl
    (fun record i =>
      enclaveAddMem record (bootMem.baseAddr + UInt64.ofNat i * bootMem.blockSize)
        (bootMem.blockSize / 4096).toUInt32)
    (enclaveAddCpu record cpuId).2

structure State where
  online : Finset UInt32
  records : Nat → Record
  /-- CPUs that got an INIT from `stop_enclave` while Linux was using them. -/
  struck : Finset UInt32

/-- How far a control command gets: the control channel is opened and the
enclave is running, and then the enclave's answer. -/
structure Reply where
  connected : Bool
  answer : Ctrl.Answer

/-- How far a launch gets. -/
structure LaunchReply where
  opened : Bool
  copied : Bool
  launched : Bool

inductive Call where
  /-- `pisces_launch`: whether the memory blocks were offlined, the CPU asked
  for (none for `PISCES_ANY_CPU`), and the one that petlib tried. -/
  | launch (id : Nat) (bootMem : BootMem) (memory : Bool) (cpuId : Option UInt32) (tried : UInt32)
      (works : Bool) (reply : LaunchReply)
  | addCpu (id : Nat) (cpuId : UInt64) (works : Bool) (reply : Reply)
  | addCpus (id : Nat) (numCpus : Nat) (tried : List UInt32) (replies : UInt32 → Reply)
  | removeCpu (id : Nat) (cpuId : UInt64) (reply : Reply)
  /-- `pisces_reset`: whether the ioctl reached the enclave, and the devices it
  leaves on the list. -/
  | reset (id : Nat) (opened : Bool) (pciState : Pci.State)

/-- `pisces_send_ctrl_cmd` -/
def sendCtrlCmd (records : Nat → Record) (id : Nat) (ioctl : Ctrl.Ioctl) (reply : Reply) :
    Int × (Nat → Record) :=
  if reply.connected then
    let outcome := Ctrl.ctrlIoctl (records id) reply.answer ioctl
    (outcome.ret, Function.update records id outcome.record)
  else
    (-1, records)

/-- `pisces_add_cpu` after the CPU is offline, and the loop body of
`pisces_add_cpus`. -/
def giveCpu (state : State) (id : Nat) (cpuId : UInt64) (reply : Reply) : State :=
  let (ret, records) := sendCtrlCmd state.records id (.addCpu cpuId) reply
  if ret ≠ 0 then
    { state with records := records, online := petOnlineCpu state.online cpuId }
  else
    { state with records := records }

/-- The end of `pisces_launch`, from `PISCES_ENCLAVE_LAUNCH` on. -/
def launchOn (state : State) (id : Nat) (bootMem : BootMem) (cpuId : UInt32) (reply : LaunchReply) : State :=
  if reply.opened && reply.copied then
    let state := { state with
      records := Function.update state.records id (launchRecord (state.records id) bootMem cpuId) }
    if reply.launched then state
    else { state with online := petOnlineCpu state.online cpuId.toUInt64 }
  else
    { state with online := petOnlineCpu state.online cpuId.toUInt64 }

def step (state : State) : Call → State
  | .launch id bootMem memory cpuId tried works reply =>
      -- `pet_offline_cpu` is given the CPU asked for, `pet_offline_cpus` picks one
      let boot := cpuId.getD tried
      if memory then
        match petOfflineCpu state.online boot.toUInt64 works with
        | none => state
        | some online => launchOn { state with online := online } id bootMem boot reply
      else
        state
  | .addCpu id cpuId works reply =>
      match petOfflineCpu state.online cpuId works with
      | none => state
      | some online => giveCpu { state with online := online } id cpuId reply
  | .addCpus id numCpus tried replies =>
      let (taken, online) := petOfflineCpus state.online (tried.take numCpus)
      if taken.length ≠ numCpus then
        { state with online := petOnlineCpus online taken }
      else
        taken.foldl (fun state cpu => giveCpu state id cpu.toUInt64 (replies cpu))
          { state with online := online }
  | .removeCpu id cpuId reply =>
      let (ret, records) := sendCtrlCmd state.records id (.removeCpu cpuId) reply
      if ret ≠ 0 then { state with records := records }
      else { state with records := records, online := petOnlineCpu state.online cpuId }
  | .reset id opened pciState =>
      if opened then
        -- `stop_enclave` sends INIT to every assigned CPU
        let record := state.records id
        { state with
          records := Function.update state.records id { record with pciState := pciState }
          struck := state.struck ∪ (record.assignedCpus ∩ state.online) }
      else
        state

/-- No enclave exists at first; any CPUs may be online. -/
def system : System State Call where
  initial state := state.records = (fun _ => Record.empty) ∧ state.struck = ∅
  step state call := some (step state call)

end Pisces.User
