import Mathlib.Data.Finset.Sort
import Pisces.Ctrl.Ioctl

/-! # Replaying an enclave's resources after a reset

`PISCES_ENCLAVE_RESET` once the relaunch has succeeded: the memory blocks, CPUs
and PCI devices of the record are announced again, whatever the restarted
enclave answers.
-/

namespace Pisces.Enclave.Reset

open Ctrl

/-- `struct enclave_boot_env` -/
structure BootEnv where
  baseAddr : UInt64
  blockSize : UInt64
  numBlocks : UInt32
  cpuId : UInt32
  deriving DecidableEq

namespace BootEnv

/-- What LAUNCH stores as `bootmem_size` -/
def bootmemSize (env : BootEnv) : UInt64 :=
  env.numBlocks.toUInt64 * env.blockSize / 4096 * 4096

def bootBlocks (env : BootEnv) : List MemBlock :=
  (List.range env.numBlocks.toNat).map fun i =>
    ⟨env.baseAddr + .ofNat i * env.blockSize, (env.blockSize / 4096).toUInt32⟩

/-- The address test for boot memory -/
def inBootmem (env : BootEnv) (address : UInt64) : Bool :=
  address ≥ env.baseAddr && address < env.baseAddr + env.bootmemSize

/-- The record that LAUNCH leaves; nothing of it is announced. -/
def launch (env : BootEnv) : Record :=
  env.bootBlocks.foldl (fun record block => enclaveAddMem record block.baseAddr block.pages)
    (enclaveAddCpu .empty env.cpuId).2

end BootEnv

/-- The requests that add a resource -/
def isAdd : Ioctl → Bool
  | .addCpu _ => true
  | .addMem _ _ => true
  | .addPci _ _ _ => true
  | .removeCpu _ => false
  | .freePci _ _ => false

/-- The records that successful LAUNCH and ADD requests build, with what was
announced to the enclave. -/
inductive Built (env : BootEnv) : Record → List Command → Prop where
  | launch : Built env env.launch []
  | add {record : Record} {log : List Command} (ioctl : Ioctl) (answer : Answer) (command : Command)
      (earlier : Built env record log) (adds : isAdd ioctl = true)
      (succeeded : (ctrlIoctl record answer ioctl).ret = 0)
      (sent : (ctrlIoctl record answer ioctl).sent = some command) :
      Built env (ctrlIoctl record answer ioctl).record (log ++ [command])
  | lcall {record : Record} {log : List Command} (lcall : Pci.Lcall) (earlier : Built env record log) :
      Built env { record with pciState := (Pci.handle record.pciState lcall).2 } log

/-- What the kernel and the restarted enclave answer, by position -/
structure Relaunch where
  hardware : Nat → Pci.Hardware
  memoryAnswer : Nat → Answer
  cpuAnswer : Nat → Answer
  pciAnswer : Nat → Answer

structure Replay where
  record : Record
  sent : List Command
  /-- The loop over the devices has gone on from a removed one. -/
  fromRemoved : Bool

def replayMemory (env : BootEnv) (answers : Nat → Answer) : List MemBlock → Nat → Record → Replay
  | [], _, record => ⟨record, [], false⟩
  | block :: rest, position, record =>
      if env.inBootmem block.baseAddr then replayMemory env answers rest position record
      else
        let outcome := ctrlAddMem record ⟨block.baseAddr, block.pages.toUInt64⟩ (answers position)
        let later := replayMemory env answers rest (position + 1) outcome.record
        { later with sent := outcome.sent.toList ++ later.sent }

/-- `for_each_cpu` goes through the mask in ascending order and stops at
`nr_cpu_ids`, which is at most `NR_CPUS`. -/
def cpuList (nrCpuIds : Nat) (record : Record) : List Nat :=
  ((record.cpumask nrCpuIds).image UInt32.toNat).sort (· ≤ ·)

def replayCpus (env : BootEnv) (answers : Nat → Answer) : List Nat → Nat → Record → Replay
  | [], _, record => ⟨record, [], false⟩
  | cpu :: rest, position, record =>
      if cpu = env.cpuId.toNat then replayCpus env answers rest position record
      else
        let outcome := ctrlAddCpu record (.ofNat cpu) (answers position)
        let later := replayCpus env answers rest (position + 1) outcome.record
        { later with sent := outcome.sent.toList ++ later.sent }

/-- An entry of the device list as the loop reads it -/
abbrev Entry := List UInt8 × UInt32 × UInt32 × Bool

def specOf (entry : Entry) : Pci.Spec :=
  ⟨Pci.cString entry.1, entry.2.1, Pci.pciSlot entry.2.2.1, Pci.pciFunc entry.2.2.1⟩

/-- `ctrl_add_pci` takes a device that the enclave rejects off the list; the loop
then reads its successor out of the freed device. -/
def replayPci (answers : Nat → Answer) : List Pci.Spec → Nat → Record → Replay
  | [], _, record => ⟨record, [], false⟩
  | spec :: rest, position, record =>
      let answer := answers position
      let outcome := ctrlAddPci record spec answer
      if !answer.accepted && Pci.removableAs (answer.record record).pciState spec.name then
        ⟨outcome.record, outcome.sent.toList, true⟩
      else
        let later := replayPci answers rest (position + 1) outcome.record
        { later with sent := outcome.sent.toList ++ later.sent }

/-- RESET after the relaunch -/
def reset (nrCpuIds : Nat) (env : BootEnv) (record : Record) (relaunch : Relaunch) : Replay :=
  let record := { record with pciState := Pci.resetEnclavePci record.pciState relaunch.hardware }
  let memory := replayMemory env relaunch.memoryAnswer record.memdescList 0 record
  let cpus := replayCpus env relaunch.cpuAnswer (cpuList nrCpuIds memory.record) 0 memory.record
  let devices := replayPci relaunch.pciAnswer (cpus.record.pciState.entries.map specOf) 0 cpus.record
  { devices with sent := memory.sent ++ cpus.sent ++ devices.sent }

def memoryOf (log : List Command) : List (UInt64 × UInt64) :=
  log.filterMap fun
    | .addMem physAddr size => some (physAddr, size)
    | _ => none

def cpusOf (log : List Command) : List UInt64 :=
  log.filterMap fun
    | .addCpu physCpuId => some physCpuId
    | _ => none

def devicesOf (log : List Command) : List (List UInt8 × UInt32 × UInt32 × UInt32) :=
  log.filterMap fun
    | .addPci spec => some (Pci.cString spec.name, spec.bus, spec.dev, spec.func)
    | _ => none

/-- The block that an announced range is kept as -/
def blockOf (range : UInt64 × UInt64) : MemBlock :=
  ⟨range.1, (range.2 / 4096).toUInt32⟩

def rangeOf (block : MemBlock) : UInt64 × UInt64 :=
  (block.baseAddr, block.pages.toUInt64 * 4096)

def entryOf (device : List UInt8 × UInt32 × UInt32 × UInt32) : Entry :=
  (device.1, device.2.1, Pci.devfn device.2.2.1 device.2.2.2, true)

/-- The record follows from what was announced. -/
structure Mirrors (env : BootEnv) (record : Record) (log : List Command) : Prop where
  wellFormed : record.WellFormed
  blocks : record.memdescList.Perm ((memoryOf log).map blockOf ++ env.bootBlocks)
  cpus : record.assignedCpus = ((cpusOf log).map UInt64.toUInt32 ++ [env.cpuId]).toFinset
  distinct : ((cpusOf log).map UInt64.toUInt32 ++ [env.cpuId]).Nodup
  devices : record.pciState.entries = ((devicesOf log).map entryOf).reverse

section Building

variable {env : BootEnv} {record : Record} {log : List Command}

theorem addBlocks_spec (blocks : List MemBlock) (wellFormed : record.WellFormed) :
    let after := blocks.foldl (fun record block => enclaveAddMem record block.baseAddr block.pages) record
    after.WellFormed ∧ after.memdescList.Perm (record.memdescList ++ blocks) ∧
      after.assignedCpus = record.assignedCpus ∧ after.pciState = record.pciState := by
  induction blocks generalizing record with
  | nil => exact ⟨wellFormed, by simp, rfl, rfl⟩
  | cons block rest ih =>
      obtain ⟨kept, blocks, cpus, pci⟩ := ih (wellFormed.addMem block.baseAddr block.pages)
      refine ⟨kept, ?_, cpus, pci⟩
      have added := enclaveAddMem_perm wellFormed block.baseAddr block.pages
      exact blocks.trans ((added.append_right rest).trans List.perm_middle.symm)

theorem launch_mirrors (env : BootEnv) : Mirrors env env.launch [] := by
  have empty : Record.empty.WellFormed :=
    ⟨rfl, ⟨by simp [Record.empty, Pci.State.entries], by simp [Record.empty, Pci.State.entries],
      by simp [Record.empty, Pci.State.entries]⟩⟩
  obtain ⟨wellFormed, blocks, cpus, pci⟩ := addBlocks_spec env.bootBlocks (empty.addCpu env.cpuId)
  constructor
  · exact wellFormed
  · exact blocks.trans (by simp [memoryOf, enclaveAddCpu, Record.empty])
  · exact cpus.trans (by simp [enclaveAddCpu, Record.empty, cpusOf])
  · simp [cpusOf]
  · rw [BootEnv.launch, pci]
    simp [enclaveAddCpu, Record.empty, Pci.State.entries, devicesOf]

theorem blockOf_announced (baseAddr pages : UInt64) :
    blockOf (baseAddr, pages * 4096) = ⟨baseAddr, pages.toUInt32⟩ := by
  have kept : (pages * 4096 / 4096).toUInt32 = pages.toUInt32 := by
    apply UInt32.toNat_inj.mp
    have bound : pages.toNat < 0x10000000000000000 := pages.toNat_lt
    have page : (4096 : UInt64).toNat = 4096 := by decide
    rw [UInt64.toNat_toUInt32, UInt64.toNat_toUInt32, UInt64.toNat_div, UInt64.toNat_mul, page]
    simp only [Nat.reducePow]
    omega
  rw [blockOf, kept]

theorem memoryOf_append (log : List Command) (command : Command) :
    memoryOf (log ++ [command]) = memoryOf log ++ memoryOf [command] := List.filterMap_append

theorem cpusOf_append (log : List Command) (command : Command) :
    cpusOf (log ++ [command]) = cpusOf log ++ cpusOf [command] := List.filterMap_append

theorem devicesOf_append (log : List Command) (command : Command) :
    devicesOf (log ++ [command]) = devicesOf log ++ devicesOf [command] := List.filterMap_append

theorem Mirrors.lcalls (mirrors : Mirrors env record log) (lcalls : List Pci.Lcall) :
    Mirrors env { record with pciState := Pci.handleAll record.pciState lcalls } log where
  wellFormed := mirrors.wellFormed.of_pci (mirrors.wellFormed.pci.of_entries (Pci.handleAll_entries lcalls))
  blocks := mirrors.blocks
  cpus := mirrors.cpus
  distinct := mirrors.distinct
  devices := (Pci.handleAll_entries lcalls).trans mirrors.devices

theorem Mirrors.addMem (mirrors : Mirrors env record log) (reg : MemoryRange) (answer : Answer) :
    Mirrors env (ctrlAddMem (enclaveAddMem record reg.baseAddr reg.pages.toUInt32) reg answer).record
      (log ++ [.addMem reg.baseAddr (reg.pages * 4096)]) := by
  have ranges : memoryOf (log ++ [.addMem reg.baseAddr (reg.pages * 4096)]) =
      memoryOf log ++ [(reg.baseAddr, reg.pages * 4096)] := memoryOf_append _ _
  have sameCpus : cpusOf (log ++ [.addMem reg.baseAddr (reg.pages * 4096)]) = cpusOf log :=
    (cpusOf_append _ _).trans (List.append_nil _)
  have sameDevices : devicesOf (log ++ [.addMem reg.baseAddr (reg.pages * 4096)]) = devicesOf log :=
    (devicesOf_append _ _).trans (List.append_nil _)
  have stored : Mirrors env (enclaveAddMem record reg.baseAddr reg.pages.toUInt32)
      (log ++ [.addMem reg.baseAddr (reg.pages * 4096)]) := by
    constructor
    · exact mirrors.wellFormed.addMem _ _
    · refine (enclaveAddMem_perm mirrors.wellFormed _ _).trans ((mirrors.blocks.cons _).trans ?_)
      rw [ranges, List.map_append, List.map_singleton, blockOf_announced, List.append_assoc]
      exact List.perm_middle.symm
    · rw [sameCpus]
      exact mirrors.cpus
    · rw [sameCpus]
      exact mirrors.distinct
    · rw [sameDevices]
      exact mirrors.devices
  exact stored.lcalls answer.lcalls

theorem Mirrors.addCpu (mirrors : Mirrors env record log) (cpuId : UInt64) (answer : Answer)
    (added : cpuId.toUInt32 ∉ record.assignedCpus) :
    Mirrors env (ctrlAddCpu (enclaveAddCpu record cpuId.toUInt32).2 cpuId answer).record
      (log ++ [.addCpu cpuId]) := by
  have sameRanges : memoryOf (log ++ [.addCpu cpuId]) = memoryOf log :=
    (memoryOf_append _ _).trans (List.append_nil _)
  have ids : cpusOf (log ++ [.addCpu cpuId]) = cpusOf log ++ [cpuId] := cpusOf_append _ _
  have sameDevices : devicesOf (log ++ [.addCpu cpuId]) = devicesOf log :=
    (devicesOf_append _ _).trans (List.append_nil _)
  have stored : Mirrors env (enclaveAddCpu record cpuId.toUInt32).2 (log ++ [.addCpu cpuId]) := by
    have kept := mirrors.wellFormed.addCpu cpuId.toUInt32
    rw [enclaveAddCpu, if_neg added] at kept ⊢
    constructor
    · exact kept
    · rw [sameRanges]
      exact mirrors.blocks
    · rw [ids, mirrors.cpus]
      ext cpu
      simp only [Finset.mem_insert, List.mem_toFinset, List.map_append, List.mem_append, List.map_singleton,
        List.mem_singleton]
      tauto
    · rw [mirrors.cpus, List.mem_toFinset] at added
      rw [ids, List.map_append, List.map_singleton, List.append_assoc, List.singleton_append]
      exact List.nodup_middle.mpr (List.nodup_cons.mpr ⟨added, mirrors.distinct⟩)
    · rw [sameDevices]
      exact mirrors.devices
  exact stored.lcalls answer.lcalls

theorem Mirrors.addPci (mirrors : Mirrors env record log) (spec : Pci.Spec) (hardware : Pci.Hardware)
    (answer : Answer) (added : Pci.addable record.pciState spec hardware = true)
    (accepted : answer.accepted = true) :
    Mirrors env
      (ctrlAddPci { record with pciState := (Pci.enclavePciAddDev record.pciState spec hardware).2 } spec answer).record
      (log ++ [.addPci spec]) := by
  have sameRanges : memoryOf (log ++ [.addPci spec]) = memoryOf log :=
    (memoryOf_append _ _).trans (List.append_nil _)
  have sameCpus : cpusOf (log ++ [.addPci spec]) = cpusOf log := (cpusOf_append _ _).trans (List.append_nil _)
  have devices : devicesOf (log ++ [.addPci spec]) =
      devicesOf log ++ [(Pci.cString spec.name, spec.bus, spec.dev, spec.func)] := devicesOf_append _ _
  have stored : Mirrors env { record with pciState := (Pci.enclavePciAddDev record.pciState spec hardware).2 }
      (log ++ [.addPci spec]) := by
    constructor
    · exact mirrors.wellFormed.of_pci (mirrors.wellFormed.pci.add added)
    · rw [sameRanges]
      exact mirrors.blocks
    · rw [sameCpus]
      exact mirrors.cpus
    · rw [sameCpus]
      exact mirrors.distinct
    · rw [(Pci.enclavePciAddDev_added added).2, mirrors.devices, devices, List.map_append, List.map_singleton,
        List.reverse_append, List.reverse_singleton, List.singleton_append]
      rfl
  rw [ctrlAddPci, if_pos accepted]
  exact stored.lcalls answer.lcalls

/-- What an add request that succeeds has done -/
theorem built_mirrors (built : Built env record log) : Mirrors env record log := by
  induction built with
  | launch => exact launch_mirrors env
  | lcall lcall earlier ih => exact ih.lcalls [lcall]
  | @add record log ioctl answer command earlier adds succeeded sent ih =>
      cases ioctl with
      | removeCpu cpuId => cases adds
      | freePci copied spec => cases adds
      | addMem copied reg =>
          cases copied with
          | false => simp [ctrlIoctl] at succeeded
          | true =>
              obtain rfl := Option.some.inj sent
              exact ih.addMem reg answer
      | addCpu cpuId =>
          by_cases present : cpuId.toUInt32 ∈ record.assignedCpus
          · simp [ctrlIoctl, enclaveAddCpu, present] at succeeded
          · have reduced : ctrlIoctl record answer (.addCpu cpuId) =
                ctrlAddCpu (enclaveAddCpu record cpuId.toUInt32).2 cpuId answer := by
              simp [ctrlIoctl, enclaveAddCpu, present]
            rw [reduced] at sent ⊢
            obtain rfl := Option.some.inj sent
            exact ih.addCpu cpuId answer present
      | addPci copied spec hardware =>
          cases copied with
          | false => simp [ctrlIoctl] at succeeded
          | true =>
              cases added : Pci.addable record.pciState spec hardware with
              | false =>
                  have refused := (Pci.enclavePciAddDev_refused added).1
                  simp [ctrlIoctl, refused] at succeeded
              | true =>
                  have stored := (Pci.enclavePciAddDev_added added).1
                  have reduced : ctrlIoctl record answer (.addPci true spec hardware) =
                      ctrlAddPci { record with pciState := (Pci.enclavePciAddDev record.pciState spec hardware).2 }
                        spec answer := by
                    simp [ctrlIoctl, stored]
                  rw [reduced] at succeeded sent ⊢
                  have accepted : answer.accepted = true := by
                    by_contra rejected
                    simp [ctrlAddPci, rejected] at succeeded
                  rw [ctrlAddPci, if_pos accepted] at sent
                  obtain rfl := Option.some.inj sent
                  exact ih.addPci spec hardware answer added accepted

end Building

/-- The long calls that come in while these answers are awaited -/
def lcallsFrom (answers : Nat → Answer) (position count : Nat) : List Pci.Lcall :=
  (List.range' position count).flatMap fun i => (answers i).lcalls

/-- Memory outside boot memory -/
def outside (env : BootEnv) (block : MemBlock) : Bool := !env.inBootmem block.baseAddr

def otherCpus (nrCpuIds : Nat) (env : BootEnv) (record : Record) : List Nat :=
  (cpuList nrCpuIds record).filter (· ≠ env.cpuId.toNat)

section Replaying

variable {env : BootEnv} {record : Record} (answers : Nat → Answer)

theorem handleAll_append (state : Pci.State) (first second : List Pci.Lcall) :
    Pci.handleAll state (first ++ second) = Pci.handleAll (Pci.handleAll state first) second :=
  List.foldl_append

theorem replayMemory_spec (blocks : List MemBlock) (position : Nat) :
    (replayMemory env answers blocks position record).sent =
        (blocks.filter (outside env)).map (fun block => .addMem block.baseAddr (block.pages.toUInt64 * 4096)) ∧
      (replayMemory env answers blocks position record).record =
        { record with
          pciState := Pci.handleAll record.pciState
            (lcallsFrom answers position (blocks.filter (outside env)).length) } := by
  induction blocks generalizing position record with
  | nil => exact ⟨rfl, rfl⟩
  | cons block rest ih =>
      rw [replayMemory]
      by_cases boot : env.inBootmem block.baseAddr = true
      · have skipped : (block :: rest).filter (outside env) = rest.filter (outside env) := by
          simp [outside, boot]
        rw [if_pos boot, skipped]
        exact ih position
      · have announced : (block :: rest).filter (outside env) = block :: rest.filter (outside env) := by
          simp [outside, boot]
        obtain ⟨sent, after⟩ := @ih ((answers position).record record) (position + 1)
        rw [if_neg boot, announced]
        refine ⟨by simp [ctrlAddMem, sent], ?_⟩
        simp only [ctrlAddMem, after, List.length_cons, lcallsFrom, List.range'_succ, List.flatMap_cons,
          handleAll_append]
        rfl

theorem replayCpus_spec (cpus : List Nat) (position : Nat) :
    (replayCpus env answers cpus position record).sent =
        (cpus.filter (· ≠ env.cpuId.toNat)).map (fun cpu => .addCpu (.ofNat cpu)) ∧
      (replayCpus env answers cpus position record).record =
        { record with
          pciState := Pci.handleAll record.pciState
            (lcallsFrom answers position (cpus.filter (· ≠ env.cpuId.toNat)).length) } := by
  induction cpus generalizing position record with
  | nil => exact ⟨rfl, rfl⟩
  | cons cpu rest ih =>
      rw [replayCpus]
      by_cases boot : cpu = env.cpuId.toNat
      · have skipped : (cpu :: rest).filter (· ≠ env.cpuId.toNat) = rest.filter (· ≠ env.cpuId.toNat) := by
          simp [boot]
        rw [if_pos boot, skipped]
        exact ih position
      · have announced : (cpu :: rest).filter (· ≠ env.cpuId.toNat) =
            cpu :: rest.filter (· ≠ env.cpuId.toNat) := by
          simp [boot]
        obtain ⟨sent, after⟩ := @ih ((answers position).record record) (position + 1)
        rw [if_neg boot, announced]
        refine ⟨by simp [ctrlAddCpu, sent], ?_⟩
        simp only [ctrlAddCpu, after, List.length_cons, lcallsFrom, List.range'_succ, List.flatMap_cons,
          handleAll_append]
        rfl

/-- Every device is accepted, or cannot be removed when it is rejected. -/
def Spared (answers : Nat → Answer) (state : Pci.State) (specs : List Pci.Spec) (position : Nat) : Prop :=
  ∀ index spec, specs[index]? = some spec →
    (answers (position + index)).accepted = true ∨
      Pci.removableAs (Pci.handleAll state (lcallsFrom answers position (index + 1))) spec.name = false

theorem ctrlAddPci_spared {spec : Pci.Spec} {answer : Answer}
    (spared : answer.accepted = true ∨ Pci.removableAs (answer.record record).pciState spec.name = false) :
    ctrlAddPci record spec answer =
      { ret := if answer.accepted then 0 else -1, record := answer.record record, sent := some (.addPci spec) } := by
  rw [ctrlAddPci]
  by_cases accepted : answer.accepted = true
  · simp [accepted]
  · have kept := spared.resolve_left accepted
    simp [accepted, Pci.enclavePciRemoveDev_refused kept]

theorem replayPci_spec (specs : List Pci.Spec) (position : Nat) :
    ((replayPci answers specs position record).fromRemoved = false ↔
        Spared answers record.pciState specs position) ∧
      ((replayPci answers specs position record).fromRemoved = false →
        (replayPci answers specs position record).sent = specs.map .addPci) := by
  induction specs generalizing position record with
  | nil => exact ⟨by simp [replayPci, Spared], fun _ => rfl⟩
  | cons spec rest ih =>
      have first : Pci.handleAll record.pciState (lcallsFrom answers position 1) =
          ((answers position).record record).pciState := by
        simp [lcallsFrom, Answer.record]
      -- The conditions on the rest of the list, seen from the state after the first answer
      have later : Spared answers record.pciState (spec :: rest) position ↔
          ((answers position).accepted = true ∨
            Pci.removableAs ((answers position).record record).pciState spec.name = false) ∧
          Spared answers ((answers position).record record).pciState rest (position + 1) := by
        have shifted : ∀ index, Pci.handleAll record.pciState (lcallsFrom answers position (index + 1 + 1)) =
            Pci.handleAll ((answers position).record record).pciState
              (lcallsFrom answers (position + 1) (index + 1)) := by
          intro index
          rw [lcallsFrom, List.range'_succ, List.flatMap_cons, handleAll_append]
          rfl
        constructor
        · intro all
          refine ⟨by simpa [first] using all 0 spec rfl, fun index other listed => ?_⟩
          have here := all (index + 1) other listed
          rwa [shifted, ← Nat.add_assoc, Nat.add_right_comm] at here
        · rintro ⟨here, all⟩ index other listed
          cases index with
          | zero =>
              obtain rfl := Option.some.inj listed
              simpa [first] using here
          | succ index =>
              rw [shifted, ← Nat.add_assoc, Nat.add_right_comm]
              exact all index other listed
      rw [replayPci]
      by_cases spared : (answers position).accepted = true ∨
          Pci.removableAs ((answers position).record record).pciState spec.name = false
      · have continues : ¬ (!(answers position).accepted && Pci.removableAs
            ((answers position).record record).pciState spec.name) = true := by
          rcases spared with accepted | kept
          · simp [accepted]
          · simp [kept]
        obtain ⟨flag, sent⟩ := @ih ((answers position).record record) (position + 1)
        rw [if_neg continues, @ctrlAddPci_spared record spec _ spared, later]
        refine ⟨by simp [flag, spared], fun clean => ?_⟩
        simp [sent clean]
      · have stops : (!(answers position).accepted && Pci.removableAs
            ((answers position).record record).pciState spec.name) = true := by
          simpa using spared
        rw [if_pos stops, later]
        exact ⟨by simp [spared], by simp⟩

end Replaying

/-- What RESET is for: every resource is announced once, as it was at first, and
the loop over the devices stays on the list. -/
structure Replayed (env : BootEnv) (log : List Command) (replay : Replay) : Prop where
  memory : (memoryOf replay.sent).Perm ((memoryOf log).filter fun range => !env.inBootmem range.1)
  cpus : (cpusOf replay.sent).Perm (cpusOf log)
  devices : (devicesOf replay.sent).Perm (devicesOf log)
  onList : replay.fromRemoved = false

/-- The devices when the loop over them starts -/
def pciBefore (nrCpuIds : Nat) (env : BootEnv) (record : Record) (relaunch : Relaunch) : Pci.State :=
  Pci.handleAll (Pci.resetEnclavePci record.pciState relaunch.hardware)
    (lcallsFrom relaunch.memoryAnswer 0 (record.memdescList.filter (outside env)).length ++
      lcallsFrom relaunch.cpuAnswer 0 (otherCpus nrCpuIds env record).length)

/-- What the record keeps of a range -/
def keepRange (range : UInt64 × UInt64) : UInt64 × UInt64 := rangeOf (blockOf range)

def keepCpu (cpu : UInt64) : UInt64 := cpu.toUInt32.toUInt64

def keepDevice (device : List UInt8 × UInt32 × UInt32 × UInt32) : List UInt8 × UInt32 × UInt32 × UInt32 :=
  (device.1, device.2.1, Pci.pciSlot (Pci.devfn device.2.2.1 device.2.2.2),
      Pci.pciFunc (Pci.devfn device.2.2.1 device.2.2.2))

/-- The boot blocks are recognised, the record keeps what was announced, the loop over
the CPUs comes to each of them, and no device that could be removed is rejected. -/
structure Replayable (nrCpuIds : Nat) (env : BootEnv) (record : Record) (log : List Command)
    (relaunch : Relaunch) : Prop where
  boot : ∀ block ∈ env.bootBlocks, env.inBootmem block.baseAddr = true
  memory : ∀ range ∈ memoryOf log, env.inBootmem range.1 = false → keepRange range = range
  cpus : ∀ cpu ∈ cpusOf log, keepCpu cpu = cpu ∧ cpu.toUInt32.toNat < nrCpuIds
  devices : ∀ device ∈ devicesOf log, keepDevice device = device
  spared : Spared relaunch.pciAnswer (pciBefore nrCpuIds env record relaunch) (record.pciState.entries.map specOf) 0

section Reset

variable {nrCpuIds : Nat} {env : BootEnv} {record : Record} {log : List Command} {relaunch : Relaunch}

theorem map_perm_iff {Value : Type*} {keep : Value → Value} (idem : ∀ value, keep (keep value) = keep value)
    (values : List Value) : (values.map keep).Perm values ↔ ∀ value ∈ values, keep value = value := by
  constructor
  · intro perm value member
    obtain ⟨source, -, rfl⟩ := List.mem_map.mp (perm.mem_iff.mpr member)
    exact idem source
  · intro kept
    rw [List.map_congr_left kept, List.map_id']

theorem keepRange_idem (range : UInt64 × UInt64) : keepRange (keepRange range) = keepRange range := by
  have pages : blockOf (keepRange range) = ⟨range.1, (range.2 / 4096).toUInt32.toUInt64.toUInt32⟩ :=
    blockOf_announced range.1 (range.2 / 4096).toUInt32.toUInt64
  rw [UInt32.toUInt32_toUInt64] at pages
  calc
    keepRange (keepRange range) = rangeOf (blockOf (keepRange range)) := rfl
    _ = rangeOf ⟨range.1, (range.2 / 4096).toUInt32⟩ := by rw [pages]
    _ = keepRange range := rfl

theorem keepCpu_idem (cpu : UInt64) : keepCpu (keepCpu cpu) = keepCpu cpu := by
  rw [keepCpu, keepCpu, UInt32.toUInt32_toUInt64]

theorem keepDevice_idem (device : List UInt8 × UInt32 × UInt32 × UInt32) :
    keepDevice (keepDevice device) = keepDevice device := by
  have slot : Pci.pciSlot (Pci.devfn (keepDevice device).2.2.1 (keepDevice device).2.2.2) =
      (keepDevice device).2.2.1 := by
    apply UInt32.toNat_inj.mp
    have kept : (keepDevice device).2.2.1.toNat = device.2.2.1.toNat % 32 := Pci.pciSlot_devfn _ _
    rw [Pci.pciSlot_devfn, kept, Nat.mod_mod]
  have func : Pci.pciFunc (Pci.devfn (keepDevice device).2.2.1 (keepDevice device).2.2.2) =
      (keepDevice device).2.2.2 := by
    apply UInt32.toNat_inj.mp
    have kept : (keepDevice device).2.2.2.toNat = device.2.2.2.toNat % 8 := Pci.pciFunc_devfn _ _
    rw [Pci.pciFunc_devfn, kept, Nat.mod_mod]
  rw [keepDevice, slot, func]

theorem pciBefore_specs (nrCpuIds : Nat) (env : BootEnv) (record : Record) (relaunch : Relaunch) :
    (pciBefore nrCpuIds env record relaunch).entries.map specOf = record.pciState.entries.map specOf := by
  rw [pciBefore, Pci.handleAll_entries]
  simp only [Pci.resetEnclavePci, Pci.State.entries, List.map_map]
  apply List.ext_getElem
  · simp
  · intro index left right
    simp only [List.getElem_map, List.getElem_mapIdx, Function.comp_apply]
    split <;> rfl

/-- The last loop of RESET, on the record's own devices -/
def replayDevices (nrCpuIds : Nat) (env : BootEnv) (record : Record) (relaunch : Relaunch) : Replay :=
  replayPci relaunch.pciAnswer (record.pciState.entries.map specOf) 0
    { record with pciState := pciBefore nrCpuIds env record relaunch }

theorem reset_spec :
    (reset nrCpuIds env record relaunch).fromRemoved = (replayDevices nrCpuIds env record relaunch).fromRemoved ∧
      (reset nrCpuIds env record relaunch).sent =
        (record.memdescList.filter (outside env)).map
            (fun block => .addMem block.baseAddr (block.pages.toUInt64 * 4096)) ++
          (otherCpus nrCpuIds env record).map (fun cpu => .addCpu (.ofNat cpu)) ++
          (replayDevices nrCpuIds env record relaunch).sent := by
  have specs := pciBefore_specs nrCpuIds env record relaunch
  obtain ⟨ranges, memory⟩ := @replayMemory_spec env
    { record with pciState := Pci.resetEnclavePci record.pciState relaunch.hardware } relaunch.memoryAnswer
    record.memdescList 0
  obtain ⟨ids, cpus⟩ := @replayCpus_spec env
    { record with
      pciState := Pci.handleAll (Pci.resetEnclavePci record.pciState relaunch.hardware)
        (lcallsFrom relaunch.memoryAnswer 0 (record.memdescList.filter (outside env)).length) }
    relaunch.cpuAnswer (cpuList nrCpuIds record) 0
  have sameCpus : ∀ pciState, cpuList nrCpuIds { record with pciState := pciState } = cpuList nrCpuIds record :=
    fun _ => rfl
  rw [← handleAll_append] at cpus
  simp only [reset, memory, ranges]
  rw [sameCpus, cpus, ids, replayDevices, ← specs]
  exact ⟨rfl, rfl⟩

theorem replayPci_sent (answers : Nat → Answer) (specs : List Pci.Spec) (position : Nat) :
    ∃ named : List Pci.Spec, (replayPci answers specs position record).sent = named.map .addPci := by
  induction specs generalizing position record with
  | nil => exact ⟨[], rfl⟩
  | cons spec rest ih =>
      have announced : (ctrlAddPci record spec (answers position)).sent = some (.addPci spec) := by
        simp only [ctrlAddPci]
        split <;> rfl
      simp only [replayPci, announced]
      split
      · exact ⟨[spec], rfl⟩
      · obtain ⟨named, later⟩ := @ih (ctrlAddPci record spec (answers position)).record (position + 1)
        refine ⟨spec :: named, ?_⟩
        rw [later]
        rfl

theorem memoryOf_reset : memoryOf (reset nrCpuIds env record relaunch).sent =
    (record.memdescList.filter (outside env)).map rangeOf := by
  obtain ⟨specs, devices⟩ : ∃ specs : List Pci.Spec,
      (replayDevices nrCpuIds env record relaunch).sent = specs.map .addPci :=
    replayPci_sent _ _ _
  rw [reset_spec.2, devices]
  simp [memoryOf, List.filterMap_map, rangeOf]

theorem cpusOf_reset : cpusOf (reset nrCpuIds env record relaunch).sent =
    (otherCpus nrCpuIds env record).map UInt64.ofNat := by
  obtain ⟨specs, devices⟩ : ∃ specs : List Pci.Spec,
      (replayDevices nrCpuIds env record relaunch).sent = specs.map .addPci :=
    replayPci_sent _ _ _
  rw [reset_spec.2, devices]
  simp [cpusOf, List.filterMap_map]

theorem devicesOf_reset (onList : (reset nrCpuIds env record relaunch).fromRemoved = false) :
    devicesOf (reset nrCpuIds env record relaunch).sent = (record.pciState.entries.map specOf).map
      fun spec => (Pci.cString spec.name, spec.bus, spec.dev, spec.func) := by
  rw [reset_spec.1] at onList
  rw [reset_spec.2, replayDevices, (replayPci_spec _ _ _).2 onList]
  simp [devicesOf, List.filterMap_map, Function.comp_def]

theorem memory_replayed (mirrors : Mirrors env record log) :
    (memoryOf (reset nrCpuIds env record relaunch).sent).Perm
      ((memoryOf log).filter fun range => !env.inBootmem range.1) ↔
      (∀ block ∈ env.bootBlocks, env.inBootmem block.baseAddr = true) ∧
        ∀ range ∈ memoryOf log, env.inBootmem range.1 = false → keepRange range = range := by
  have sent : (memoryOf (reset nrCpuIds env record relaunch).sent).Perm
      (((memoryOf log).filter fun range => !env.inBootmem range.1).map keepRange ++
        (env.bootBlocks.filter (outside env)).map rangeOf) := by
    rw [memoryOf_reset]
    refine ((mirrors.blocks.filter (outside env)).map rangeOf).trans ?_
    rw [List.filter_append, List.map_append, List.filter_map, List.map_map]
    rfl
  have empty : env.bootBlocks.filter (outside env) = [] ↔
      ∀ block ∈ env.bootBlocks, env.inBootmem block.baseAddr = true := by
    simp [List.filter_eq_nil_iff, outside]
  have kept : (((memoryOf log).filter fun range => !env.inBootmem range.1).map keepRange).Perm
      ((memoryOf log).filter fun range => !env.inBootmem range.1) ↔
      ∀ range ∈ memoryOf log, env.inBootmem range.1 = false → keepRange range = range := by
    rw [map_perm_iff keepRange_idem]
    simp [List.mem_filter]
  rw [← empty, ← kept]
  constructor
  · intro replayed
    have both := sent.symm.trans replayed
    have none : env.bootBlocks.filter (outside env) = [] := by
      have lengths := both.length_eq
      rw [List.length_append, List.length_map, List.length_map] at lengths
      exact List.eq_nil_of_length_eq_zero (by omega)
    rw [none, List.map_nil, List.append_nil] at both
    exact ⟨none, both⟩
  · rintro ⟨none, same⟩
    rw [none, List.map_nil, List.append_nil] at sent
    exact sent.trans same

/-- The loop comes to the CPU. -/
def comesTo (nrCpuIds : Nat) (cpu : UInt64) : Bool := cpu.toUInt32.toNat < nrCpuIds

theorem otherCpus_perm (mirrors : Mirrors env record log) : (otherCpus nrCpuIds env record).Perm
    (((cpusOf log).filter (comesTo nrCpuIds)).map fun cpu => cpu.toUInt32.toNat) := by
  obtain ⟨distinct, -, others⟩ := List.nodup_append.mp mirrors.distinct
  have injective : (((cpusOf log).map UInt64.toUInt32).map UInt32.toNat).Nodup :=
    distinct.map (fun _ _ => UInt32.toNat_inj.mp)
  rw [List.map_map] at injective
  have once : (((cpusOf log).filter (comesTo nrCpuIds)).map fun cpu => cpu.toUInt32.toNat).Nodup :=
    injective.sublist (List.filter_sublist.map _)
  apply (List.perm_ext_iff_of_nodup ((Finset.sort_nodup _ _).filter _) once).mpr
  intro cpu
  simp only [List.mem_filter, Finset.mem_sort, Finset.mem_image, decide_eq_true_eq, Record.mem_cpumask,
    mirrors.cpus, List.mem_toFinset, List.mem_append, List.mem_map, List.mem_singleton, comesTo]
  constructor
  · rintro ⟨⟨id, ⟨⟨announced, listed, rfl⟩ | rfl, inside⟩, rfl⟩, different⟩
    · exact ⟨announced, ⟨listed, inside⟩, rfl⟩
    · exact absurd rfl different
  · rintro ⟨announced, ⟨listed, inside⟩, rfl⟩
    refine ⟨⟨_, ⟨.inl ⟨announced, listed, rfl⟩, inside⟩, rfl⟩, fun same => ?_⟩
    exact others _ (List.mem_map_of_mem listed) _ (List.mem_singleton_self _) (UInt32.toNat_inj.mp same)

theorem cpus_replayed (mirrors : Mirrors env record log) :
    (cpusOf (reset nrCpuIds env record relaunch).sent).Perm (cpusOf log) ↔
      ∀ cpu ∈ cpusOf log, keepCpu cpu = cpu ∧ cpu.toUInt32.toNat < nrCpuIds := by
  have sent : (cpusOf (reset nrCpuIds env record relaunch).sent).Perm
      (((cpusOf log).filter (comesTo nrCpuIds)).map keepCpu) := by
    rw [cpusOf_reset]
    refine ((otherCpus_perm mirrors).map UInt64.ofNat).trans ?_
    rw [List.map_map]
    apply List.Perm.of_eq
    apply List.map_congr_left
    intro cpu _
    apply UInt64.toNat_inj.mp
    rw [Function.comp_apply, keepCpu, UInt64.toNat_ofNat', UInt32.toNat_toUInt64]
    exact Nat.mod_eq_of_lt (Nat.lt_trans cpu.toUInt32.toNat_lt (by decide))
  have all : (cpusOf log).filter (comesTo nrCpuIds) = cpusOf log ↔
      ∀ cpu ∈ cpusOf log, cpu.toUInt32.toNat < nrCpuIds := by
    simp [List.filter_eq_self, comesTo]
  constructor
  · intro replayed
    have both := sent.symm.trans replayed
    -- no CPU is left out, or the lists differ in length
    have none : (cpusOf log).filter (comesTo nrCpuIds) = cpusOf log := by
      have lengths := both.length_eq
      rw [List.length_map] at lengths
      exact List.filter_sublist.eq_of_length lengths
    rw [none, map_perm_iff keepCpu_idem] at both
    exact fun cpu listed => ⟨both cpu listed, all.mp none cpu listed⟩
  · intro kept
    rw [all.mpr fun cpu listed => (kept cpu listed).2] at sent
    exact sent.trans ((map_perm_iff keepCpu_idem _).mpr fun cpu listed => (kept cpu listed).1)

theorem devices_replayed (mirrors : Mirrors env record log)
    (onList : (reset nrCpuIds env record relaunch).fromRemoved = false) :
    (devicesOf (reset nrCpuIds env record relaunch).sent).Perm (devicesOf log) ↔
      ∀ device ∈ devicesOf log, keepDevice device = device := by
  have sent : (devicesOf (reset nrCpuIds env record relaunch).sent).Perm ((devicesOf log).map keepDevice) := by
    rw [devicesOf_reset onList, mirrors.devices, List.map_reverse, List.map_reverse, List.map_map, List.map_map]
    refine (List.reverse_perm _).trans (List.Perm.of_eq ?_)
    apply List.map_congr_left
    intro device member
    obtain ⟨command, -, announced⟩ := List.mem_filterMap.mp member
    have named : Pci.cString device.1 = device.1 := by
      cases command with
      | addPci spec =>
          obtain rfl := Option.some.inj announced
          exact Pci.cString_idem spec.name
      | _ => cases announced
    simp [specOf, entryOf, keepDevice, named]
  rw [← map_perm_iff keepDevice_idem]
  exact ⟨fun replayed => sent.symm.trans replayed, fun kept => sent.trans kept⟩

theorem reset_onList : (reset nrCpuIds env record relaunch).fromRemoved = false ↔
    Spared relaunch.pciAnswer (pciBefore nrCpuIds env record relaunch) (record.pciState.entries.map specOf) 0 := by
  rw [reset_spec.1]
  exact (replayPci_spec _ _ _).1

/-- RESET replays a record built by LAUNCH and ADD requests exactly when each
entry fits what was announced and no removable device is rejected. -/
theorem reset_replayed_iff (built : Built env record log) :
    Replayed env log (reset nrCpuIds env record relaunch) ↔ Replayable nrCpuIds env record log relaunch := by
  have mirrors := built_mirrors built
  constructor
  · rintro ⟨memory, cpus, devices, onList⟩
    obtain ⟨boot, ranges⟩ := (memory_replayed mirrors).mp memory
    exact ⟨boot, ranges, (cpus_replayed mirrors).mp cpus, (devices_replayed mirrors onList).mp devices,
      reset_onList.mp onList⟩
  · rintro ⟨boot, ranges, cpus, devices, spared⟩
    have onList := reset_onList.mpr spared
    exact ⟨(memory_replayed mirrors).mpr ⟨boot, ranges⟩, (cpus_replayed mirrors).mpr cpus,
      (devices_replayed mirrors onList).mpr devices, onList⟩

/-- Boot memory of one block of 128 MB, on CPU 0 -/
def oneBlock : BootEnv := ⟨0x8000000, 0x8000000, 1, 0⟩

def nic : Pci.Spec := ⟨[110, 105, 99], 3, 0, 0⟩

def working : Pci.Hardware := ⟨true, true, true, true, 0, true⟩

/-- A CPU, a block of memory and a device added after the launch -/
def threeAdds : List Ioctl :=
  [.addCpu 1, .addMem true ⟨0x10000000, 0x8000⟩, .addPci true nic working]

/-- The same answer to every command, with no long calls meanwhile -/
def answering (status : UInt64) : Relaunch :=
  ⟨fun _ => working, fun _ => ⟨[], some status⟩, fun _ => ⟨[], some status⟩, fun _ => ⟨[], some status⟩⟩

def afterAdds (ioctls : List Ioctl) : Record :=
  ioctls.foldl (fun record ioctl => (ctrlIoctl record ⟨[], some 0⟩ ioctl).record) oneBlock.launch

theorem threeAdds_built : Built oneBlock (afterAdds threeAdds)
    [.addCpu 1, .addMem 0x10000000 0x8000000, .addPci nic] := by
  have launched : Built oneBlock oneBlock.launch [] := .launch
  have cpu := launched.add (.addCpu 1) ⟨[], some 0⟩ (.addCpu 1) rfl (by decide) (by decide)
  have memory := cpu.add (.addMem true ⟨0x10000000, 0x8000⟩) ⟨[], some 0⟩ (.addMem 0x10000000 0x8000000) rfl
    (by decide) (by decide)
  exact memory.add (.addPci true nic working) ⟨[], some 0⟩ (.addPci nic) rfl (by decide) (by decide)

theorem threeAdds_replayed :
    Replayed oneBlock [.addCpu 1, .addMem 0x10000000 0x8000000, .addPci nic]
      (reset 64 oneBlock (afterAdds threeAdds) (answering 0)) := by
  refine (reset_replayed_iff threeAdds_built).mpr ⟨by decide, ?_, ?_, by decide, ?_⟩
  · intro range listed _
    obtain rfl := List.mem_singleton.mp (show range ∈ [(0x10000000, 0x8000000)] from listed)
    decide
  · intro cpu listed
    obtain rfl := List.mem_singleton.mp (show cpu ∈ [1] from listed)
    decide
  · intro index spec listed
    exact .inl rfl

/-- A device that the restarted enclave rejects is removed under the loop. -/
theorem rejected_not_replayed : ¬ ∀ nrCpuIds env record log relaunch, Built env record log →
    Replayed env log (reset nrCpuIds env record relaunch) := by
  intro always
  have onList := (always 64 _ _ _ (answering 1) threeAdds_built).onList
  have spared := reset_onList.mp onList 0 nic (by decide)
  have quiet : ∀ position count, lcallsFrom (fun _ => ⟨[], some 1⟩) position count = [] := by
    intro position count
    simp [lcallsFrom]
  have before : pciBefore 64 oneBlock (afterAdds threeAdds) (answering 1) =
      Pci.resetEnclavePci (afterAdds threeAdds).pciState (answering 1).hardware := by
    simp only [pciBefore, answering, quiet]
    rfl
  rw [before] at spared
  simp only [answering, quiet] at spared
  exact absurd spared (by decide)

end Reset

end Pisces.Enclave.Reset
