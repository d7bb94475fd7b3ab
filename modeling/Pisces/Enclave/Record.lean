import Mathlib.Data.Finset.Basic
import Pisces.Pci.Device

/-! # The host's record of an enclave's resources

The fields of `struct pisces_enclave` that say which CPUs, memory blocks and
PCI devices an enclave has.  The CPU mask has `NR_CPUS` bits, which is a
parameter; the bit of a greater number lies outside of the mask.
-/

namespace Pisces.Enclave

/-- `struct enclave_mem_block` -/
structure MemBlock where
  baseAddr : UInt64
  pages : UInt32
  deriving DecidableEq

structure Record where
  /-- The bits that are set, counted from the start of `assigned_cpus`.  Those from
  `NR_CPUS` on belong to the fields around the mask; what such a bit does to its
  field is not followed. -/
  assignedCpus : Finset UInt32
  numCpus : UInt32
  memdescList : List MemBlock
  memdescNum : UInt32
  pciState : Pci.State
  deriving DecidableEq

/-- The record that `pisces_enclave_create` leaves. -/
def Record.empty : Record where
  assignedCpus := ∅
  numCpus := 0
  memdescList := []
  memdescNum := 0
  pciState := ⟨[], 0⟩

/-- `assigned_cpus` proper -/
def Record.cpumask (record : Record) (nrCpus : Nat) : Finset UInt32 :=
  record.assignedCpus.filter (·.toNat < nrCpus)

/-- `pisces_enclave_add_cpu`: false when the CPU is already present.  The number is
not checked, so that `test_and_set_bit` takes one from `NR_CPUS` on, too. -/
def enclaveAddCpu (record : Record) (cpuId : UInt32) : Bool × Record :=
  if cpuId ∈ record.assignedCpus then
    (false, record)
  else
    (true, { record with
      assignedCpus := insert cpuId record.assignedCpus, numCpus := record.numCpus + 1 })

/-- The loop of `pisces_enclave_add_mem`: before the first block with a higher
address, or after the last one.  On an empty list it adds nothing. -/
def insertBlock (memdesc : MemBlock) : List MemBlock → List MemBlock
  | [] => []
  | iter :: rest =>
      if iter.baseAddr > memdesc.baseAddr then memdesc :: iter :: rest
      else if rest.isEmpty then [iter, memdesc]
      else iter :: insertBlock memdesc rest

/-- `pisces_enclave_add_mem` -/
def enclaveAddMem (record : Record) (baseAddr : UInt64) (pages : UInt32) : Record :=
  let memdesc : MemBlock := ⟨baseAddr, pages⟩
  { record with
    memdescList :=
      if record.memdescNum = 0 then memdesc :: record.memdescList
      else insertBlock memdesc record.memdescList
    memdescNum := record.memdescNum + 1 }

/-- What the functions above maintain: the block count is the length of the
list, as far as 32 bits go, and the devices are well formed. -/
structure Record.WellFormed (record : Record) : Prop where
  counted : record.memdescNum = UInt32.ofNat record.memdescList.length
  pci : Pci.WellFormed record.pciState

variable {record : Record} {memdesc block : MemBlock} {blocks : List MemBlock} {nrCpus : Nat} {cpuId : UInt32}

theorem Record.mem_cpumask : cpuId ∈ record.cpumask nrCpus ↔ cpuId ∈ record.assignedCpus ∧ cpuId.toNat < nrCpus :=
  Finset.mem_filter

/-- Without bits outside, the mask is all there is. -/
theorem Record.cpumask_eq (inside : ∀ cpuId ∈ record.assignedCpus, cpuId.toNat < nrCpus) :
    record.cpumask nrCpus = record.assignedCpus :=
  Finset.filter_true_of_mem inside

theorem insertBlock_perm (filled : blocks ≠ []) : (insertBlock memdesc blocks).Perm (memdesc :: blocks) := by
  induction blocks with
  | nil => exact absurd rfl filled
  | cons iter rest ih =>
      simp only [insertBlock]
      split
      · exact List.Perm.refl _
      · split
        · rename_i last
          rw [List.isEmpty_iff.mp last]
          exact List.Perm.swap _ _ _
        · rename_i more
          have inner := ih (fun empty => more (List.isEmpty_iff.mpr empty))
          exact (inner.cons iter).trans (List.Perm.swap _ _ _)

theorem Record.WellFormed.filled (wellFormed : record.WellFormed) (counts : record.memdescNum ≠ 0) :
    record.memdescList ≠ [] := by
  intro empty
  rw [wellFormed.counted, empty] at counts
  exact counts rfl

theorem enclaveAddMem_perm (wellFormed : record.WellFormed) (baseAddr : UInt64) (pages : UInt32) :
    (enclaveAddMem record baseAddr pages).memdescList.Perm (⟨baseAddr, pages⟩ :: record.memdescList) := by
  simp only [enclaveAddMem]
  split
  · exact List.Perm.refl _
  · rename_i counts
    exact insertBlock_perm (wellFormed.filled counts)

theorem Record.WellFormed.addMem (wellFormed : record.WellFormed) (baseAddr : UInt64) (pages : UInt32) :
    (enclaveAddMem record baseAddr pages).WellFormed where
  counted := by
    rw [(enclaveAddMem_perm wellFormed baseAddr pages).length_eq]
    simp [enclaveAddMem, wellFormed.counted, UInt32.ofNat_add]
  pci := wellFormed.pci

theorem Record.WellFormed.addCpu (wellFormed : record.WellFormed) (cpuId : UInt32) :
    (enclaveAddCpu record cpuId).2.WellFormed := by
  unfold enclaveAddCpu
  split
  · exact wellFormed
  · exact ⟨wellFormed.counted, wellFormed.pci⟩

theorem Record.WellFormed.of_pci (wellFormed : record.WellFormed) {pciState : Pci.State}
    (pci : Pci.WellFormed pciState) : { record with pciState := pciState }.WellFormed :=
  ⟨wellFormed.counted, pci⟩

end Pisces.Enclave
