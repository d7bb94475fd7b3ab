import Pisces.Enclave.Blocks
import Pisces.Enclave.Reset

/-! # Boot memory

What LAUNCH records of the memory that the enclave boots in, and how RESET tells
it from memory that was added later.
-/

namespace Pisces.Enclave.Bootmem

open Reset

def addresses (block : MemBlock) : List Nat := List.range' block.baseAddr.toNat (block.pages.toNat * 4096)

def range (env : BootEnv) : List Nat := List.range' env.baseAddr.toNat env.bootmemSize.toNat

/-- Requests whose sizes and addresses are not cut off -/
structure Valid (env : BootEnv) : Prop where
  paged : env.blockSize.toNat % 4096 = 0
  positive : env.blockSize ≠ 0
  narrow : env.blockSize.toNat / 4096 < 2 ^ 32
  few : env.numBlocks.toNat < 2 ^ 31
  fits : env.baseAddr.toNat + env.numBlocks.toNat * env.blockSize.toNat < 2 ^ 64

/-- None of the blocks has an address in the boot memory. -/
def Apart (env : BootEnv) (later : List Addition) : Prop :=
  ∀ block ∈ blocks later, ∀ address ∈ addresses block, address ∉ range env

/-- The address test of RESET finds the blocks of LAUNCH. -/
def Recognised (env : BootEnv) (later : List Addition) : Prop :=
  (env.launch.addAll later).memdescList.filter (fun block => env.inBootmem block.baseAddr) = env.launch.memdescList

section Launch

variable {env : BootEnv} {record : Record} {later : List Addition}

theorem range'_tiles (base size count : Nat) :
    (List.range count).flatMap (fun i => List.range' (base + i * size) size) = List.range' base (count * size) := by
  induction count with
  | zero => rw [Nat.zero_mul]; rfl
  | succ count ih =>
      have last := @List.range'_append base (count * size) size 1
      rw [Nat.one_mul] at last
      rw [List.range_succ, List.flatMap_append, ih, List.flatMap_singleton, Nat.succ_mul, last]

theorem Valid.size (valid : Valid env) : env.blockSize.toNat / 4096 * 4096 = env.blockSize.toNat := by
  have paged := valid.paged
  omega

theorem Valid.pages (valid : Valid env) : (env.blockSize / 4096).toUInt32.toNat = env.blockSize.toNat / 4096 := by
  have page : (4096 : UInt64).toNat = 4096 := by decide
  rw [UInt64.toNat_toUInt32, UInt64.toNat_div, page]
  exact Nat.mod_eq_of_lt valid.narrow

theorem Valid.start (valid : Valid env) {i : Nat} (bound : i < env.numBlocks.toNat) :
    (env.baseAddr + .ofNat i * env.blockSize).toNat = env.baseAddr.toNat + i * env.blockSize.toNat := by
  have fits := valid.fits
  have few := valid.few
  have below : i * env.blockSize.toNat ≤ env.numBlocks.toNat * env.blockSize.toNat :=
    Nat.mul_le_mul_right _ (Nat.le_of_lt bound)
  have index : (UInt64.ofNat i).toNat = i := UInt64.toNat_ofNat_of_lt' (by simp only [UInt64.size]; omega)
  rw [UInt64.toNat_add, UInt64.toNat_mul, index, Nat.mod_eq_of_lt (by omega), Nat.mod_eq_of_lt (by omega)]

theorem Valid.bootmemSize (valid : Valid env) : env.bootmemSize.toNat = env.numBlocks.toNat * env.blockSize.toNat := by
  have page : (4096 : UInt64).toNat = 4096 := by decide
  have fits := valid.fits
  have product : (env.numBlocks.toUInt64 * env.blockSize).toNat = env.numBlocks.toNat * env.blockSize.toNat := by
    rw [UInt64.toNat_mul, UInt32.toNat_toUInt64]
    exact Nat.mod_eq_of_lt (by omega)
  have paged : env.numBlocks.toNat * env.blockSize.toNat % 4096 = 0 := by
    rw [Nat.mul_mod, valid.paged]
    rfl
  rw [BootEnv.bootmemSize, UInt64.toNat_mul, UInt64.toNat_div, product, page, Nat.mod_eq_of_lt (by omega)]
  omega

/-- The blocks of the loop of LAUNCH cover the boot memory, one after the other. -/
theorem Valid.bootBlocks_addresses (valid : Valid env) : env.bootBlocks.flatMap addresses = range env := by
  have block : ∀ i ∈ List.range env.numBlocks.toNat,
      addresses ⟨env.baseAddr + .ofNat i * env.blockSize, (env.blockSize / 4096).toUInt32⟩ =
        List.range' (env.baseAddr.toNat + i * env.blockSize.toNat) env.blockSize.toNat := by
    intro i member
    rw [addresses, valid.start (List.mem_range.mp member), valid.pages, valid.size]
  rw [BootEnv.bootBlocks, List.flatMap_map, List.flatMap_congr block, range'_tiles, range, valid.bootmemSize]

theorem Valid.bootBlocks_sorted (valid : Valid env) : Stable.Sorted MemBlock.key env.bootBlocks := by
  have keys : env.bootBlocks.map MemBlock.key =
      (List.range env.numBlocks.toNat).map fun i => env.baseAddr.toNat + i * env.blockSize.toNat := by
    rw [BootEnv.bootBlocks, List.map_map]
    exact List.map_congr_left fun i member => valid.start (List.mem_range.mp member)
  have ordered : (env.bootBlocks.map MemBlock.key).Pairwise (· ≤ ·) := by
    rw [keys, List.pairwise_map]
    exact List.pairwise_lt_range.imp fun below =>
      Nat.add_le_add_left (Nat.mul_le_mul_right _ (Nat.le_of_lt below)) _
  exact List.pairwise_map.mp ordered

/-- LAUNCH as additions to a fresh enclave -/
def additions (env : BootEnv) : List Addition :=
  .cpu env.cpuId :: env.bootBlocks.map fun block => .mem block.baseAddr block.pages

theorem launch_eq (env : BootEnv) : env.launch = Record.empty.addAll (additions env) := by
  rw [Record.addAll, additions, List.foldl_cons, List.foldl_map]
  rfl

theorem blocks_additions (env : BootEnv) : blocks (additions env) = env.bootBlocks := by
  rw [blocks, additions, List.filterMap_cons_none rfl, List.filterMap_map]
  exact List.filterMap_some

theorem Valid.launch_list (valid : Valid env) : env.launch.memdescList = env.bootBlocks := by
  have short : (additions env).length < 0x100000000 := by
    have few := valid.few
    rw [additions, List.length_cons, List.length_map, BootEnv.bootBlocks, List.length_map, List.length_range]
    omega
  rw [launch_eq, (addAll_memory short).1, blocks_additions, valid.bootBlocks_sorted.sort_eq]

theorem inBootmem_iff (valid : Valid env) (address : UInt64) :
    env.inBootmem address = true ↔ address.toNat ∈ range env := by
  have fits := valid.fits
  have final : (env.baseAddr + env.bootmemSize).toNat = env.baseAddr.toNat + env.bootmemSize.toNat := by
    rw [UInt64.toNat_add, Nat.mod_eq_of_lt (by rw [valid.bootmemSize]; exact fits)]
  simp only [BootEnv.inBootmem, ge_iff_le, Bool.and_eq_true, decide_eq_true_eq, UInt64.le_iff_toNat_le,
    UInt64.lt_iff_toNat_lt, final, range, List.mem_range'_1]

theorem mem_addresses (block : MemBlock) (address : Nat) : address ∈ addresses block ↔
    block.baseAddr.toNat ≤ address ∧ address < block.baseAddr.toNat + block.pages.toNat * 4096 :=
  List.mem_range'_1

theorem base_mem {block : MemBlock} (filled : block.pages ≠ 0) : block.baseAddr.toNat ∈ addresses block := by
  have positive : block.pages.toNat ≠ 0 := fun zero => filled (UInt32.toNat_inj.mp zero)
  rw [mem_addresses]
  omega

theorem Valid.bootBlocks_inBootmem (valid : Valid env) :
    ∀ block ∈ env.bootBlocks, env.inBootmem block.baseAddr = true := by
  intro block member
  rw [inBootmem_iff valid, ← valid.bootBlocks_addresses, List.mem_flatMap]
  refine ⟨block, member, base_mem ?_⟩
  obtain ⟨i, -, rfl⟩ := List.mem_map.mp member
  intro zero
  have pages := valid.pages
  rw [show (env.blockSize / 4096).toUInt32 = 0 from zero] at pages
  have size := valid.size
  have positive : env.blockSize.toNat ≠ 0 := fun none => valid.positive (UInt64.toNat_inj.mp none)
  have none : (0 : UInt32).toNat = 0 := rfl
  omega

theorem add_filter {test : MemBlock → Bool} (wellFormed : record.WellFormed) (addition : Addition)
    (rejected : ∀ block ∈ addition.block, test block = false) :
    (record.add addition).WellFormed ∧ (record.add addition).memdescList.filter test =
      record.memdescList.filter test := by
  cases addition with
  | cpu cpuId =>
      refine ⟨wellFormed.addCpu cpuId, ?_⟩
      simp only [Record.add, enclaveAddCpu]
      split <;> rfl
  | mem baseAddr pages =>
      have new := rejected ⟨baseAddr, pages⟩ rfl
      refine ⟨wellFormed.addMem baseAddr pages, ?_⟩
      simp only [Record.add, enclaveAddMem]
      split
      · rw [List.filter_cons_of_neg (by simp [new])]
      · rename_i counts
        rw [insertBlock_eq (wellFormed.filled counts)]
        exact Stable.insert_filter_rejected new

theorem addAll_filter {test : MemBlock → Bool} (wellFormed : record.WellFormed)
    (rejected : ∀ block ∈ blocks later, test block = false) :
    (record.addAll later).memdescList.filter test = record.memdescList.filter test := by
  induction later generalizing record with
  | nil => rfl
  | cons addition rest ih =>
      have here : ∀ block ∈ addition.block, test block = false := by
        intro block own
        exact rejected block (List.mem_filterMap.mpr ⟨addition, List.mem_cons_self .., own⟩)
      obtain ⟨kept, same⟩ := add_filter wellFormed addition here
      refine (ih kept fun block member => rejected block ?_).trans same
      obtain ⟨other, older, own⟩ := List.mem_filterMap.mp member
      exact List.mem_filterMap.mpr ⟨other, List.mem_cons_of_mem _ older, own⟩

theorem Valid.recognised (valid : Valid env) (apart : Apart env later)
    (filled : ∀ block ∈ blocks later, block.pages ≠ 0) :
    Recognised env later := by
  have rejected : ∀ block ∈ blocks later, env.inBootmem block.baseAddr = false := by
    intro block member
    rw [← Bool.not_eq_true, inBootmem_iff valid]
    exact apart block member _ (base_mem (filled block member))
  have own : ∀ block ∈ env.launch.memdescList, env.inBootmem block.baseAddr = true := by
    rw [valid.launch_list]
    exact valid.bootBlocks_inBootmem
  calc
    (env.launch.addAll later).memdescList.filter (fun block => env.inBootmem block.baseAddr) =
        env.launch.memdescList.filter (fun block => env.inBootmem block.baseAddr) :=
      addAll_filter (launch_mirrors env).wellFormed rejected
    _ = env.launch.memdescList := List.filter_eq_self.mpr own

end Launch

/-- LAUNCH tiles the boot memory, and RESET finds the tiles among any further
blocks of a page or more. -/
theorem bootmem_tiled (env : BootEnv) (valid : Valid env) :
    env.launch.memdescList.flatMap addresses = range env ∧
      ∀ later, Apart env later → (∀ block ∈ blocks later, block.pages ≠ 0) → Recognised env later := by
  refine ⟨?_, fun later => valid.recognised⟩
  rw [valid.launch_list]
  exact valid.bootBlocks_addresses

def twoBlocks : BootEnv := ⟨0x100000, 0x200000, 2, 1⟩

theorem twoBlocks_valid : Valid twoBlocks := by
  constructor <;> decide

theorem twoBlocks_tiled : twoBlocks.launch.memdescList.flatMap addresses = range twoBlocks ∧
    Recognised twoBlocks [.mem 0x4000000 512, .cpu 2, .mem 0x500000 1] := by
  obtain ⟨tiled, recognised⟩ := bootmem_tiled twoBlocks twoBlocks_valid
  refine ⟨tiled, recognised _ ?_ (by decide)⟩
  have known : blocks [.mem 0x4000000 512, .cpu 2, .mem 0x500000 1] = [⟨0x4000000, 512⟩, ⟨0x500000, 1⟩] := rfl
  have start : twoBlocks.baseAddr.toNat = 0x100000 := by decide
  have size : twoBlocks.bootmemSize.toNat = 0x400000 := by decide
  intro block member address own inside
  rw [known] at member
  rw [range, List.mem_range'_1, start, size] at inside
  have lower := ((mem_addresses block address).mp own).1
  have above : ∀ block ∈ ([⟨0x4000000, 512⟩, ⟨0x500000, 1⟩] : List MemBlock), 0x500000 ≤ block.baseAddr.toNat := by decide
  have least := above block member
  omega

/-- A block without pages at the start of the boot memory -/
theorem emptyBlock_recognised : ¬ ∀ env later, Valid env → Apart env later → Recognised env later := by
  intro recognised
  have apart : Apart twoBlocks [.mem 0x100000 0] := by
    intro block member address own
    obtain rfl := List.mem_singleton.mp member
    cases own
  have found := recognised twoBlocks [.mem 0x100000 0] twoBlocks_valid apart
  unfold Recognised at found
  revert found
  decide

end Pisces.Enclave.Bootmem
