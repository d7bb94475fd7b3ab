import Pisces.Enclave.Record
import Pisces.Transition

/-! # Control ioctls that move resources

The five commands of `ctrl_ioctl` that change what an enclave has, on an enclave
whose state is `ENCLAVE_RUNNING`.  A command waits for the enclave's answer in
`pisces_xbuf_sync_send`; long calls about PCI devices are handled meanwhile.
-/

namespace Pisces.Ctrl

open Enclave Transition

/-- `struct memory_range` -/
structure MemoryRange where
  baseAddr : UInt64
  pages : UInt64
  deriving DecidableEq

/-- The commands as the enclave receives them. -/
inductive Command where
  | addCpu (physCpuId : UInt64)
  | removeCpu (physCpuId : UInt64)
  | addMem (physAddr size : UInt64)
  | addPci (spec : Pci.Spec)
  | freePci (spec : Pci.Spec)
  deriving DecidableEq

structure Answer where
  lcalls : List Pci.Lcall
  /-- The status of the response; none when `pisces_xbuf_sync_send` fails. -/
  status : Option UInt64
  deriving DecidableEq

/-- The status as an `int`, or -1 after a failed send, is zero. -/
def Answer.accepted (answer : Answer) : Bool :=
  answer.status.any (·.toUInt32 == 0)

/-- The record when the answer arrives. -/
def Answer.record (answer : Answer) (record : Record) : Record :=
  { record with pciState := Pci.handleAll record.pciState answer.lcalls }

structure Outcome where
  ret : Int
  record : Record
  sent : Option Command
  deriving DecidableEq

def ctrlAddMem (record : Record) (reg : MemoryRange) (answer : Answer) : Outcome where
  ret := if answer.status.isSome then 0 else -1
  record := answer.record record
  sent := some (.addMem reg.baseAddr (reg.pages * 4096))

def ctrlAddCpu (record : Record) (cpuId : UInt64) (answer : Answer) : Outcome where
  ret := if answer.accepted then 0 else -1
  record := answer.record record
  sent := some (.addCpu cpuId)

def ctrlAddPci (record : Record) (spec : Pci.Spec) (answer : Answer) : Outcome :=
  let record := answer.record record
  if answer.accepted then
    { ret := 0, record := record, sent := some (.addPci spec) }
  else
    { ret := -1
      record := { record with pciState := (Pci.enclavePciRemoveDev record.pciState spec).2 }
      sent := some (.addPci spec) }

/-- The commands with their arguments, and the result of `copy_from_user` where
the argument is a pointer. -/
inductive Ioctl where
  | addCpu (cpuId : UInt64)
  | removeCpu (cpuId : UInt64)
  | addMem (copied : Bool) (reg : MemoryRange)
  | addPci (copied : Bool) (spec : Pci.Spec) (hardware : Pci.Hardware)
  | freePci (copied : Bool) (spec : Pci.Spec)
  deriving DecidableEq

def ctrlIoctl (record : Record) (answer : Answer) : Ioctl → Outcome
  | .addCpu cpuId =>
      match enclaveAddCpu record cpuId.toUInt32 with
      | (false, record) => { ret := -1, record := record, sent := none }
      | (true, record) => ctrlAddCpu record cpuId answer
  | .removeCpu cpuId =>
      -- the call of `pisces_enclave_remove_cpu` is commented out
      { ret := if answer.accepted then 0 else -1
        record := answer.record record
        sent := some (.removeCpu cpuId) }
  | .addMem copied reg =>
      if copied then
        ctrlAddMem (enclaveAddMem record reg.baseAddr reg.pages.toUInt32) reg answer
      else
        { ret := -14, record := record, sent := none }
  | .addPci copied spec hardware =>
      if copied then
        let (ret, pciState) := Pci.enclavePciAddDev record.pciState spec hardware
        let record := { record with pciState := pciState }
        if ret ≠ 0 then
          { ret := ret, record := record, sent := none }
        else
          ctrlAddPci record spec answer
      else
        { ret := -14, record := record, sent := none }
  | .freePci copied spec =>
      if copied then
        let record := answer.record record
        if answer.accepted then
          let (ret, pciState) := Pci.enclavePciRemoveDev record.pciState spec
          { ret := if ret ≠ 0 then -1 else 0
            record := { record with pciState := pciState }
            sent := some (.freePci spec) }
        else
          { ret := -1, record := record, sent := some (.freePci spec) }
      else
        { ret := -14, record := record, sent := none }

/-- What the enclave has accepted and not given up since. -/
structure Held where
  cpus : Finset UInt64
  memory : Finset (UInt64 × UInt64)
  devices : Finset (List UInt8)
  deriving DecidableEq

def Held.accept (held : Held) : Command → Held
  | .addCpu physCpuId => { held with cpus := insert physCpuId held.cpus }
  | .removeCpu physCpuId => { held with cpus := held.cpus.erase physCpuId }
  | .addMem physAddr size => { held with memory := insert (physAddr, size) held.memory }
  | .addPci spec => { held with devices := insert (Pci.cString spec.name) held.devices }
  | .freePci spec => { held with devices := held.devices.erase (Pci.cString spec.name) }

/-- Status 0 is the only success. -/
def Held.answer (held : Held) (sent : Option Command) (answer : Answer) : Held :=
  match sent with
  | none => held
  | some command => if answer.status = some 0 then held.accept command else held

structure State where
  record : Record
  held : Held
  deriving DecidableEq

inductive Action where
  | ioctl (ioctl : Ioctl) (answer : Answer)
  | lcall (lcall : Pci.Lcall)
  /-- The fields around the CPU mask change, so that other bits are set there. -/
  | outside (bits : Finset UInt32)
  deriving DecidableEq

/-- The host's record lists exactly what the enclave holds. -/
structure Agree (nrCpus : Nat) (state : State) : Prop where
  cpus : ∀ cpu, cpu ∈ state.held.cpus ↔ ∃ cpuId ∈ state.record.cpumask nrCpus, cpuId.toUInt64 = cpu
  memory : ∀ range, range ∈ state.held.memory ↔
    ∃ block ∈ state.record.memdescList, (block.baseAddr, block.pages.toUInt64 * 4096) = range
  devices : ∀ name, name ∈ state.held.devices ↔ name ∈ state.record.pciState.entries.map (·.1)

def step (nrCpus : Nat) (state : State) : Action → State
  | .ioctl ioctl answer =>
      let outcome := ctrlIoctl state.record answer ioctl
      { record := outcome.record, held := state.held.answer outcome.sent answer }
  | .lcall lcall =>
      { state with record := { state.record with
          pciState := (Pci.handle state.record.pciState lcall).2 } }
  | .outside bits =>
      { state with record := { state.record with
          assignedCpus := state.record.cpumask nrCpus ∪ bits.filter (nrCpus ≤ ·.toNat) } }

/-- Runs start from any record that agrees with the enclave. -/
def system (nrCpus : Nat) : System State Action where
  initial state := state.record.WellFormed ∧ Agree nrCpus state
  step state action := some (step nrCpus state action)

end Pisces.Ctrl
