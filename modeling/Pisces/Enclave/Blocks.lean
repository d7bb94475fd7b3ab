import Mathlib.Data.Finset.Card
import Pisces.Enclave.Record
import Pisces.Stable

/-! # The memory blocks and CPUs of an enclave after any additions

`pisces_enclave_add_mem` keeps the list sorted by a search that distinguishes an
empty list, a block in the middle and a block at the end.
-/

namespace Pisces.Enclave

inductive Addition where
  | cpu (cpuId : UInt32)
  | mem (baseAddr : UInt64) (pages : UInt32)
  deriving DecidableEq

def Record.add (record : Record) : Addition → Record
  | .cpu cpuId => (enclaveAddCpu record cpuId).2
  | .mem baseAddr pages => enclaveAddMem record baseAddr pages

def Record.addAll (record : Record) (additions : List Addition) : Record :=
  additions.foldl Record.add record

def Addition.block : Addition → Option MemBlock
  | .cpu _ => none
  | .mem baseAddr pages => some ⟨baseAddr, pages⟩

/-- The blocks of some additions, in their order -/
def blocks (additions : List Addition) : List MemBlock := additions.filterMap (·.block)

/-- The CPUs of some additions -/
def cpus : List Addition → Finset UInt32
  | [] => ∅
  | .cpu cpuId :: additions => insert cpuId (cpus additions)
  | .mem _ _ :: additions => cpus additions

/-- The address by which the list is sorted -/
def MemBlock.key (block : MemBlock) : Nat := block.baseAddr.toNat

/-- The record says what was added, and in which order. -/
structure Faithful (nrCpus : Nat) (additions : List Addition) (record : Record) : Prop where
  sorted : record.memdescList.Pairwise fun first second => first.baseAddr ≤ second.baseAddr
  stable : ∀ baseAddr, record.memdescList.filter (·.baseAddr = baseAddr) =
    (blocks additions).filter (·.baseAddr = baseAddr)
  permuted : record.memdescList.Perm (blocks additions)
  memdescNum : record.memdescNum.toNat = record.memdescList.length
  assignedCpus : ∀ cpuId, cpuId ∈ record.cpumask nrCpus ↔ .cpu cpuId ∈ additions
  numCpus : record.numCpus.toNat = (record.cpumask nrCpus).card
  refused : ∀ cpuId : UInt32, cpuId.toNat < nrCpus →
    ((enclaveAddCpu record cpuId).1 = false ↔ cpuId ∈ record.cpumask nrCpus)
  unchanged : ∀ cpuId, (enclaveAddCpu record cpuId).1 = false → (enclaveAddCpu record cpuId).2 = record

section Faithful

variable {record : Record} {memdesc : MemBlock} {list : List MemBlock} {additions : List Addition}
  {addition : Addition} {cpuId : UInt32}

/-- The search of `pisces_enclave_add_mem` is a stable insertion. -/
theorem insertBlock_eq (filled : list ≠ []) : insertBlock memdesc list = Stable.insert MemBlock.key memdesc list := by
  induction list with
  | nil => exact absurd rfl filled
  | cons iter rest ih =>
      have order : iter.baseAddr > memdesc.baseAddr ↔ memdesc.key < iter.key := UInt64.lt_iff_toNat_lt
      by_cases before : memdesc.key < iter.key
      · have placed : Stable.insert MemBlock.key memdesc (iter :: rest) = memdesc :: iter :: rest := if_pos before
        rw [insertBlock, if_pos (order.mpr before), placed]
      · have passed : Stable.insert MemBlock.key memdesc (iter :: rest) =
          iter :: Stable.insert MemBlock.key memdesc rest :=
          if_neg before
        rw [insertBlock, if_neg fun above => before (order.mp above), passed]
        split
        · rename_i last
          rw [List.isEmpty_iff.mp last]
          rfl
        · rename_i more
          rw [ih fun empty => more (List.isEmpty_iff.mpr empty)]

theorem enclaveAddMem_list (counted : record.memdescNum.toNat = record.memdescList.length) (baseAddr : UInt64)
    (pages : UInt32) :
    (enclaveAddMem record baseAddr pages).memdescList =
      Stable.insert MemBlock.key ⟨baseAddr, pages⟩ record.memdescList := by
  cases list : record.memdescList with
  | nil =>
      have zero : record.memdescNum = 0 := by
        apply UInt32.toNat_inj.mp
        rw [counted, list]
        rfl
      rw [enclaveAddMem, if_pos zero, list]
      rfl
  | cons iter rest =>
      have some : record.memdescNum ≠ 0 := by
        intro zero
        rw [zero, list] at counted
        cases counted
      rw [enclaveAddMem, if_neg some, list]
      exact insertBlock_eq (List.cons_ne_nil iter rest)

theorem addAll_append (record : Record) (additions : List Addition) (addition : Addition) :
    record.addAll (additions ++ [addition]) = (record.addAll additions).add addition := by
  rw [Record.addAll, List.foldl_append]
  rfl

theorem blocks_append : blocks (additions ++ [addition]) = blocks additions ++ addition.block.toList := by
  rw [blocks, List.filterMap_append]
  cases addition <;> rfl

theorem blocks_length_le : (blocks additions).length ≤ additions.length :=
  List.length_filterMap_le _ _

theorem mem_cpus : cpuId ∈ cpus additions ↔ .cpu cpuId ∈ additions := by
  induction additions with
  | nil => simp [cpus]
  | cons addition rest ih => cases addition <;> simp [cpus, ih]

theorem cpus_card_le : (cpus additions).card ≤ additions.length := by
  induction additions with
  | nil => exact Nat.le_refl 0
  | cons addition rest ih =>
      cases addition with
      | cpu cpuId => exact (Finset.card_insert_le cpuId (cpus rest)).trans (Nat.succ_le_succ ih)
      | mem baseAddr pages => exact Nat.le_succ_of_le ih

theorem cpus_append_cpu : cpus (additions ++ [.cpu cpuId]) = insert cpuId (cpus additions) := by
  ext other
  simp [mem_cpus, or_comm]

theorem cpus_append_mem (baseAddr : UInt64) (pages : UInt32) :
    cpus (additions ++ [.mem baseAddr pages]) = cpus additions := by
  ext other
  simp [mem_cpus]

theorem addAll_memory (short : additions.length < 0x100000000) :
    (Record.empty.addAll additions).memdescList = Stable.sort MemBlock.key (blocks additions) ∧
      (Record.empty.addAll additions).memdescNum.toNat = (blocks additions).length := by
  induction additions using List.reverseRecOn with
  | nil => exact ⟨rfl, rfl⟩
  | append_singleton additions addition ih =>
      rw [List.length_append, List.length_singleton] at short
      obtain ⟨list, counted⟩ := ih (by omega)
      rw [addAll_append, blocks_append]
      cases addition with
      | cpu cpuId =>
          have same : ((Record.empty.addAll additions).add (.cpu cpuId)).memdescList =
              (Record.empty.addAll additions).memdescList ∧
              ((Record.empty.addAll additions).add (.cpu cpuId)).memdescNum =
                (Record.empty.addAll additions).memdescNum := by
            simp only [Record.add, enclaveAddCpu]
            split <;> exact ⟨rfl, rfl⟩
          simp [same, list, counted, Addition.block]
      | mem baseAddr pages =>
          have length : (Record.empty.addAll additions).memdescNum.toNat =
              (Record.empty.addAll additions).memdescList.length := by
            rw [counted, list, (Stable.sort_perm _).length_eq]
          have bound : (blocks additions).length ≤ additions.length := blocks_length_le
          constructor
          · rw [Record.add, enclaveAddMem_list length, list]
            exact Stable.sort_append.symm
          · have next : ((Record.empty.addAll additions).add (.mem baseAddr pages)).memdescNum =
                (Record.empty.addAll additions).memdescNum + 1 := rfl
            rw [next, UInt32.toNat_add, counted]
            simp only [Addition.block, Option.toList_some, List.length_append, List.length_singleton, UInt32.toNat_one]
            exact Nat.mod_eq_of_lt (by omega)

theorem addAll_cpus (short : additions.length < 0x100000000) :
    (Record.empty.addAll additions).assignedCpus = cpus additions ∧
      (Record.empty.addAll additions).numCpus.toNat = (cpus additions).card := by
  induction additions using List.reverseRecOn with
  | nil => exact ⟨rfl, rfl⟩
  | append_singleton additions addition ih =>
      rw [List.length_append, List.length_singleton] at short
      obtain ⟨assigned, counted⟩ := ih (by omega)
      rw [addAll_append]
      cases addition with
      | mem baseAddr pages =>
          rw [cpus_append_mem]
          exact ⟨assigned, counted⟩
      | cpu cpuId =>
          rw [cpus_append_cpu]
          simp only [Record.add, enclaveAddCpu, assigned]
          split
          · rename_i present
            rw [Finset.insert_eq_self.mpr present]
            exact ⟨assigned, counted⟩
          · rename_i absent
            have bound : (cpus additions).card ≤ additions.length := cpus_card_le
            refine ⟨rfl, ?_⟩
            rw [Finset.card_insert_of_notMem absent, UInt32.toNat_add, counted]
            exact Nat.mod_eq_of_lt (by simp only [UInt32.toNat_one]; omega)

theorem enclaveAddCpu_refused (record : Record) (cpuId : UInt32) :
    (enclaveAddCpu record cpuId).1 = false ↔ cpuId ∈ record.assignedCpus := by
  unfold enclaveAddCpu
  split <;> simp_all

/-- The lists are faithful after any additions to a fresh enclave, if the CPU mask has
a bit for every CPU. -/
theorem additions_faithful (nrCpus : Nat) (additions : List Addition) (short : additions.length < 0x100000000)
    (known : ∀ cpuId, .cpu cpuId ∈ additions → cpuId.toNat < nrCpus) :
    Faithful nrCpus additions (Record.empty.addAll additions) := by
  obtain ⟨list, counted⟩ := addAll_memory short
  obtain ⟨assigned, number⟩ := addAll_cpus short
  have mask : (Record.empty.addAll additions).cpumask nrCpus = cpus additions := by
    rw [Record.cpumask_eq, assigned]
    intro cpuId member
    rw [assigned, mem_cpus] at member
    exact known cpuId member
  have key : ∀ (block : MemBlock) (baseAddr : UInt64), block.baseAddr = baseAddr ↔ block.key = baseAddr.toNat :=
    fun block baseAddr => UInt64.toNat_inj.symm
  constructor
  · rw [list]
    have sorted : Stable.Sorted MemBlock.key _ := Stable.sort_sorted (blocks additions)
    exact sorted.imp fun ordered => UInt64.le_iff_toNat_le.mpr ordered
  · intro baseAddr
    simp only [key, list, Stable.sort_filter]
  · rw [list]
    exact Stable.sort_perm _
  · rw [counted, list, (Stable.sort_perm _).length_eq]
  · intro cpuId
    rw [mask, mem_cpus]
  · rw [number, mask]
  · intro cpuId _
    rw [enclaveAddCpu_refused, mask, assigned]
  · intro cpuId refused
    rw [enclaveAddCpu, if_pos ((enclaveAddCpu_refused _ cpuId).mp refused)]

/-- Two blocks at one address, one before them, and a CPU twice -/
theorem fourAdditions_faithful :
    Faithful 64 [.mem 8192 1, .cpu 2, .mem 8192 2, .cpu 2, .mem 4096 1]
      (Record.empty.addAll [.mem 8192 1, .cpu 2, .mem 8192 2, .cpu 2, .mem 4096 1]) :=
  additions_faithful 64 _ (by decide) (by simp)

/-- A CPU beyond a mask of 64 bits is added and counted, but not in the mask. -/
theorem cpuBeyondMask_added :
    (enclaveAddCpu .empty 64).1 = true ∧ (Record.empty.addAll [.cpu 64]).numCpus = 1 ∧
      64 ∉ (Record.empty.addAll [.cpu 64]).cpumask 64 ∧ ¬ Faithful 64 [.cpu 64] (Record.empty.addAll [.cpu 64]) := by
  have outside : 64 ∉ (Record.empty.addAll [.cpu 64]).cpumask 64 := by decide +kernel
  exact ⟨by decide +kernel, rfl, outside, fun faithful =>
    outside ((faithful.assignedCpus 64).mpr List.mem_cons_self)⟩

end Faithful

end Pisces.Enclave
