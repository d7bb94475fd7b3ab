import Mathlib.Tactic
import Pisces.Job

/-! # The boot image of an enclave

`setup_boot_params` lays out the boot memory: the parameter block, the console
ring, three channel pages, the kernel and the initrd.  An event is one write
through the mapping of the boot memory.
-/

namespace Pisces.Boot.Params

/-- The fields of `struct pisces_boot_params` -/
inductive Field where
  | launchCode
  | initDbgBuf
  | magic
  | flags
  | bootParamsSize
  | cpuId
  | apicId
  | cpuKhz
  | trampolineCodePa
  | domainXcallMasterApicid
  | domainXcallVector
  | cmdLine
  | kernelAddr
  | kernelSize
  | initrdAddr
  | initrdSize
  | consoleRingAddr
  | consoleRingSize
  | controlBufAddr
  | controlBufSize
  | longcallBufAddr
  | longcallBufSize
  | xpmemBufAddr
  | xpmemBufSize
  | baseMemPaddr
  | baseMemSize
  deriving DecidableEq

namespace Field

def bytes : Field → Nat
  | launchCode => 64
  | initDbgBuf => 16
  | cmdLine => 1024
  | _ => 8

/-- The struct is packed, so its fields follow one another. -/
def layout : List Field :=
  [launchCode, initDbgBuf, magic, flags, bootParamsSize, cpuId, apicId, cpuKhz, trampolineCodePa,
    domainXcallMasterApicid, domainXcallVector, cmdLine, kernelAddr, kernelSize, initrdAddr, initrdSize,
    consoleRingAddr, consoleRingSize, controlBufAddr, controlBufSize, longcallBufAddr, longcallBufSize,
    xpmemBufAddr, xpmemBufSize, baseMemPaddr, baseMemSize]

def offset (field : Field) : Nat :=
  ((layout.takeWhile (· ≠ field)).map bytes).sum

end Field

def sizeofBootParams : Nat := (Field.layout.map Field.bytes).sum

theorem Field.ends_inside (field : Field) : field.offset + field.bytes ≤ 1288 := by
  cases field <;> decide

/-- What `setup_boot_params` stores in the parameter block -/
structure BootParams where
  launchCode : List UInt8
  magic : UInt64
  cpuId : UInt64
  apicId : UInt64
  cpuKhz : UInt64
  trampolineCodePa : UInt64
  cmdLine : List UInt8
  kernelAddr : UInt64
  kernelSize : UInt64
  initrdAddr : UInt64
  initrdSize : UInt64
  consoleRingAddr : UInt64
  consoleRingSize : UInt64
  controlBufAddr : UInt64
  controlBufSize : UInt64
  longcallBufAddr : UInt64
  longcallBufSize : UInt64
  xpmemBufAddr : UInt64
  xpmemBufSize : UInt64
  baseMemPaddr : UInt64
  baseMemSize : UInt64

/-- An image on disk.  Reads advance up to `readable` and end or fail there. -/
structure File where
  /-- `file_size`, which is `-1` when the file cannot be examined -/
  size : UInt64
  readable : Nat
  /-- How much one read returns, by length and offset -/
  chunk : Nat → Nat → Nat
  chunk_bounded : ∀ length offset, 0 < length → offset < readable →
    0 < chunk length offset ∧ chunk length offset ≤ length ∧ offset + chunk length offset ≤ readable

structure Enclave where
  bootmemAddr : UInt64
  bootmemSize : UInt64
  bootCpu : UInt32
  kernFile : Option File
  initFile : Option File
  kernCmdline : List UInt8

/-- What the code asks of Linux during the set-up. -/
structure Host where
  pageOffset : UInt64
  /-- The bytes from `launch_code_start` to `launch_code_end` -/
  launchCode : List UInt8
  cpuPresentToApicid : UInt32 → UInt64
  cpuKhz : UInt64
  cpuInitRip : UInt64
  usingXpmem : Bool
  ctrlAllocated : Bool
  /-- The ready bit of the long-call page, should the clearing not reach it -/
  staleReady : Bool
  lcallAllocated : Bool
  /-- The vector of the IRQ, if one is granted -/
  lcallVector : Option UInt32
  kthreadCreated : Bool
  xpmemAllocated : Bool
  xpmemLink : Int

structure Write where
  address : UInt64
  length : Nat

/-- Why the set-up does not return 0. -/
inductive Stop where
  | failed
  /-- A descriptor is written to that is NULL, or a thread woken up that is an `ERR_PTR`. -/
  | fault
  deriving DecidableEq

abbrev SetupJob := Job Write BootParams Stop

def Host.va (host : Host) (address : UInt64) : UInt64 := address + host.pageOffset

def Host.pa (host : Host) (address : UInt64) : UInt64 := address - host.pageOffset

/-- `ALIGN(x, a)` of Linux -/
def align (value boundary : UInt64) : UInt64 :=
  (value + (boundary - 1)) &&& ~~~(boundary - 1)

/-- `strncpy`, which pads with zeros -/
def strncpy (source : List UInt8) (count : Nat) : List UInt8 :=
  ((source.takeWhile (· ≠ 0)).take count).rightpad count 0

def consoleOffset : UInt64 := align (.ofNat sizeofBootParams) 0x1000

/-- `sizeof(struct pisces_cons_ringbuf)` -/
def consoleSize : UInt64 := 0x10000

def controlOffset : UInt64 := align (consoleOffset + consoleSize) 0x1000

def longcallOffset : UInt64 := align (controlOffset + 0x1000) 0x1000

def xpmemOffset : UInt64 := align (longcallOffset + 0x1000) 0x1000

def kernelOffset : UInt64 := align (xpmemOffset + 0x1000) 0x200000

/-- The kernel is followed by 8MB for its BSS. -/
def initrdOffset (kernelSize : UInt64) : UInt64 :=
  align (kernelOffset + kernelSize + 4 * 0x200000) 0x200000

section Setup

variable (host : Host) (enclave : Enclave)

def baseAddr : UInt64 := host.va enclave.bootmemAddr

def store (field : Field) (update : BootParams → BootParams) : SetupJob Unit :=
  .emit ⟨baseAddr host enclave + .ofNat field.offset, field.bytes⟩ update

/-- `file_read`; `vfs_read` refuses a length that is negative as `ssize_t`. -/
def fileRead (file : File) (length offset : Nat) : Option Nat :=
  if length < 0x8000000000000000 ∧ offset < file.readable then some (file.chunk length offset) else none

theorem fileRead_bounds {file : File} {length offset ret : Nat} (positive : 0 < length)
    (given : fileRead file length offset = some ret) :
    0 < ret ∧ ret ≤ length ∧ offset + ret ≤ file.readable := by
  unfold fileRead at given
  split at given
  next readable =>
    have bounds := file.chunk_bounded length offset positive readable.2
    have returned := Option.some.inj given
    rwa [returned] at bounds
  next => cases given

/-- The loop of `load_kernel` and `load_initrd`: what it writes and whether
it reads the whole file -/
def loadLoop (file : File) (target : UInt64) (bytesRead : Nat) : List Write × Bool :=
  if _more : bytesRead < file.size.toNat then
    match _given : fileRead file (file.size.toNat - bytesRead) bytesRead with
    | none => ([], false)
    | some ret =>
        let rest := loadLoop file target (bytesRead + ret)
        (⟨target + .ofNat bytesRead, ret⟩ :: rest.1, rest.2)
  else ([], true)
termination_by file.size.toNat - bytesRead
decreasing_by
  have bounds := fileRead_bounds (by omega) _given
  omega

def loadFile (file : File) (target : UInt64) : SetupJob Unit := fun params =>
  let loop := loadLoop file target 0
  ⟨loop.1, params, if loop.2 then .ok () else .error .failed⟩

def loadKernel (target : UInt64) : SetupJob Unit :=
  match enclave.kernFile with
  | none => .stop .failed
  | some file => do
      store host enclave .kernelAddr ({ · with kernelAddr := host.pa target })
      store host enclave .kernelSize ({ · with kernelSize := file.size })
      loadFile file target

def loadInitrd (target : UInt64) : SetupJob Unit :=
  match enclave.initFile with
  | none => .stop .failed
  | some file => do
      store host enclave .initrdAddr ({ · with initrdAddr := host.pa target })
      store host enclave .initrdSize ({ · with initrdSize := file.size })
      loadFile file target

/-- `pisces_xbuf_client_init`: whether a descriptor is returned -/
def xbufClientInit (xbuf : UInt64) (allocated : Bool) : SetupJob Bool :=
  if allocated then do
    .emit ⟨xbuf + 16, 4⟩ id
    .emit ⟨xbuf + 20, 4⟩ id
    return true
  else return false

/-- The ready bit of the long-call page -/
def longcallReady : Bool :=
  if longcallOffset < enclave.bootmemSize then false else host.staleReady

/-- `pisces_xbuf_server_init` -/
def xbufServerInit (xbuf : UInt64) : SetupJob Unit := do
  .require (longcallReady host enclave = false) .failed
  .require (host.lcallAllocated = true) .fault
  .emit ⟨xbuf, 32⟩ id
  .require (host.lcallVector.isSome = true) .failed
  .emit ⟨xbuf + 8, 4⟩ id
  .emit ⟨xbuf + 12, 4⟩ id
  .emit ⟨xbuf + 24, 4⟩ id

def piscesConsInit (ringbuf : UInt64) : SetupJob Unit :=
  .emit ⟨ringbuf, 8⟩ id

def piscesCtrlInit : SetupJob Unit := do
  let controlBufAddr ← .read (·.controlBufAddr)
  let _ ← xbufClientInit (host.va controlBufAddr) host.ctrlAllocated

def piscesLcallInit : SetupJob Unit := do
  let longcallBufAddr ← .read (·.longcallBufAddr)
  xbufServerInit host enclave (host.va longcallBufAddr)
  -- `wake_up_process` takes what `kthread_create` returns.
  .require (host.kthreadCreated = true) .fault
  .emit ⟨host.va longcallBufAddr, 8⟩ id

def piscesXpmemInit : SetupJob Unit := do
  let xpmemBufAddr ← .read (·.xpmemBufAddr)
  let desc ← xbufClientInit (host.va xpmemBufAddr) host.xpmemAllocated
  .require (desc = true) .failed
  .require (0 < host.xpmemLink) .failed

def clearBootmem : SetupJob Unit :=
  .emit ⟨baseAddr host enclave, enclave.bootmemSize.toNat⟩ id

def copyLaunchCode : SetupJob Unit := do
  .require (host.launchCode.length = Field.launchCode.bytes) .failed
  store host enclave .launchCode ({ · with launchCode := host.launchCode })

def basicParameters : SetupJob Unit := do
  store host enclave .cmdLine ({ · with cmdLine := strncpy enclave.kernCmdline 1024 })
  store host enclave .magic ({ · with magic := 0x000FE110 })
  store host enclave .cpuId ({ · with cpuId := enclave.bootCpu.toUInt64 })
  store host enclave .apicId ({ · with apicId := host.cpuPresentToApicid enclave.bootCpu })
  store host enclave .cpuKhz ({ · with cpuKhz := host.cpuKhz })
  store host enclave .trampolineCodePa ({ · with trampolineCodePa := host.cpuInitRip })
  store host enclave .baseMemPaddr ({ · with baseMemPaddr := enclave.bootmemAddr })
  store host enclave .baseMemSize ({ · with baseMemSize := enclave.bootmemSize })

def consoleRing : SetupJob Unit := do
  let ringbuf := baseAddr host enclave + consoleOffset
  piscesConsInit ringbuf
  store host enclave .consoleRingAddr ({ · with consoleRingAddr := host.pa ringbuf })
  store host enclave .consoleRingSize ({ · with consoleRingSize := consoleSize })

def controlBuffer : SetupJob Unit := do
  let buffer := baseAddr host enclave + controlOffset
  store host enclave .controlBufAddr ({ · with controlBufAddr := host.pa buffer })
  store host enclave .controlBufSize ({ · with controlBufSize := 0x1000 })
  piscesCtrlInit host

def longcallBuffer : SetupJob Unit := do
  let buffer := baseAddr host enclave + longcallOffset
  store host enclave .longcallBufAddr ({ · with longcallBufAddr := host.pa buffer })
  store host enclave .longcallBufSize ({ · with longcallBufSize := 0x1000 })
  piscesLcallInit host enclave

def xpmemBuffer : SetupJob Unit := do
  let buffer := baseAddr host enclave + xpmemOffset
  store host enclave .xpmemBufAddr ({ · with xpmemBufAddr := host.pa buffer })
  store host enclave .xpmemBufSize ({ · with xpmemBufSize := 0x1000 })
  if host.usingXpmem then piscesXpmemInit host else pure ()

def kernelImage : SetupJob Unit := do
  .require (kernelOffset = 0x200000) .failed
  loadKernel host enclave (baseAddr host enclave + kernelOffset)

def initrdImage : SetupJob Unit := do
  let kernelSize ← .read (·.kernelSize)
  loadInitrd host enclave (baseAddr host enclave + initrdOffset kernelSize)

def setupBootParams : SetupJob Unit := do
  clearBootmem host enclave
  .require (baseAddr host enclave ≠ 0) .failed
  copyLaunchCode host enclave
  basicParameters host enclave
  consoleRing host enclave
  controlBuffer host enclave
  longcallBuffer host enclave
  xpmemBuffer host enclave
  kernelImage host enclave
  initrdImage host enclave

end Setup

/-- The byte lies in boot memory. -/
def Inside (host : Host) (enclave : Enclave) (address : UInt64) : Prop :=
  address - baseAddr host enclave < enclave.bootmemSize

def Write.Inside (host : Host) (enclave : Enclave) (write : Write) : Prop :=
  ∀ index < write.length, Params.Inside host enclave (write.address + .ofNat index)

@[simp] theorem consoleOffset_eq : consoleOffset = 4096 := by decide

@[simp] theorem controlOffset_eq : controlOffset = 69632 := by decide

@[simp] theorem longcallOffset_eq : longcallOffset = 73728 := by decide

@[simp] theorem xpmemOffset_eq : xpmemOffset = 77824 := by decide

@[simp] theorem kernelOffset_eq : kernelOffset = 0x200000 := by decide

theorem Host.va_pa (host : Host) (address : UInt64) : host.va (host.pa address) = address := by
  simp [va, pa]

theorem and_high_bits {value : Nat} (small : value < 0x10000000000000000) :
    value &&& 0xffffffffffe00000 = value / 0x200000 * 0x200000 := by
  have mask : 0xffffffffffe00000 = (2 ^ 43 - 1) * 2 ^ 21 := by decide
  have granule : 0x200000 = 2 ^ 21 := by decide
  rw [mask, granule]
  apply Nat.eq_of_testBit_eq
  intro index
  rw [Nat.testBit_and, Nat.testBit_mul_two_pow, Nat.testBit_mul_two_pow, Nat.testBit_div_two_pow,
    Nat.testBit_two_pow_sub_one]
  by_cases low : 21 ≤ index
  · by_cases high : index < 64
    · have inner : index - 21 < 43 := by omega
      simp [low, inner, Nat.sub_add_cancel low]
    · have ceiling : 2 ^ 64 ≤ 2 ^ index := Nat.pow_le_pow_right Nat.zero_lt_two (Nat.le_of_not_lt high)
      have beyond : value.testBit index = false := Nat.testBit_lt_two_pow (Nat.lt_of_lt_of_le small ceiling)
      simp [beyond, Nat.sub_add_cancel low]
  · simp [low]

theorem toNat_align_granule (value : UInt64) (small : value.toNat < 0xffffffffffe00000) :
    (align value 0x200000).toNat = (value.toNat + 0x1fffff) / 0x200000 * 0x200000 := by
  have mask : (~~~((0x200000 : UInt64) - 1)).toNat = 0xffffffffffe00000 := by decide
  have sum : (value + (0x200000 - 1)).toNat = value.toNat + 0x1fffff := by
    have low : ((0x200000 : UInt64) - 1).toNat = 0x1fffff := by decide
    rw [UInt64.toNat_add, low, Nat.mod_eq_of_lt (by omega)]
  rw [align, UInt64.toNat_and, mask, sum]
  exact and_high_bits (by omega)

section Containment

variable (host : Host) (enclave : Enclave)

theorem inside_offset (offset : Nat) :
    Inside host enclave (baseAddr host enclave + .ofNat offset) ↔
      offset % 0x10000000000000000 < enclave.bootmemSize.toNat := by
  rw [Inside, UInt64.add_comm, UInt64.add_sub_cancel, UInt64.lt_iff_toNat_lt, UInt64.toNat_ofNat']

/-- A range of bytes lies inside when its end does, also where it would wrap. -/
theorem range_inside_iff (offset length : Nat) (small : offset < 0x10000000000000000) :
    (∀ index < length, Inside host enclave (baseAddr host enclave + .ofNat (offset + index))) ↔
      length = 0 ∨ offset + length ≤ enclave.bootmemSize.toNat := by
  have sizeBound := enclave.bootmemSize.toNat_lt
  simp only [Nat.reducePow] at sizeBound
  simp only [inside_offset]
  constructor
  · intro inside
    by_cases empty : length = 0
    · exact .inl empty
    · right
      by_cases wraps : offset + length ≤ 0x10000000000000000
      · have last := inside (length - 1) (by omega)
        omega
      · have top := inside (0xffffffffffffffff - offset) (by omega)
        omega
  · intro fits index bound
    omega

theorem write_inside_iff (offset : UInt64) (length : Nat) :
    Write.Inside host enclave ⟨baseAddr host enclave + offset, length⟩ ↔
      length = 0 ∨ offset.toNat + length ≤ enclave.bootmemSize.toNat := by
  simpa only [Write.Inside, UInt64.ofNat_add, UInt64.ofNat_toNat, UInt64.add_assoc] using
    range_inside_iff host enclave offset.toNat length offset.toNat_lt

/-- How much of the file the loop loads. -/
def File.loaded (file : File) : Nat :=
  if file.size.toNat < 0x8000000000000000 then min file.size.toNat file.readable else 0

/-- The loop reads the whole file. -/
def File.Loads (file : File) : Prop :=
  file.size.toNat < 0x8000000000000000 ∧ file.size.toNat ≤ file.readable

/-- The loop writes the loaded bytes one after the other and no others. -/
theorem loadLoop_spec (good : UInt64 → Prop) (file : File) (target : UInt64)
    (small : file.size.toNat < 0x8000000000000000)
    (bytesRead : Nat) (withinSize : bytesRead ≤ file.size.toNat) (withinFile : bytesRead ≤ file.readable) :
    ((∀ write ∈ (loadLoop file target bytesRead).1,
        ∀ index < write.length, good (write.address + .ofNat index)) ↔
      ∀ index, bytesRead ≤ index → index < min file.size.toNat file.readable → good (target + .ofNat index)) ∧
    ((loadLoop file target bytesRead).2 = true ↔ file.size.toNat ≤ file.readable) := by
  fun_induction loadLoop file target bytesRead with
  | case1 bytesRead more refused =>
      have ended : ¬ bytesRead < file.readable := by
        intro readable
        have room : file.size.toNat - bytesRead < 0x8000000000000000 := by omega
        simp [fileRead, readable, room] at refused
      constructor
      · simp only [List.not_mem_nil, false_implies, implies_true, true_iff]
        omega
      · simp only [Bool.false_eq_true, false_iff]
        omega
  | case2 bytesRead more ret given rest ih =>
      have bounds := fileRead_bounds (by omega) given
      obtain ⟨restInside, restEnds⟩ := ih (by omega) (by omega)
      refine ⟨?_, restEnds⟩
      rw [List.forall_mem_cons, restInside]
      constructor
      · intro ⟨first, later⟩ index reached below
        by_cases here : index < bytesRead + ret
        · have byte := first (index - bytesRead) (show index - bytesRead < ret by omega)
          rwa [UInt64.add_assoc, ← UInt64.ofNat_add, Nat.add_sub_cancel' reached] at byte
        · exact later index (by omega) below
      · intro all
        constructor
        · intro index (bound : index < ret)
          rw [UInt64.add_assoc, ← UInt64.ofNat_add]
          exact all (bytesRead + index) (by omega) (by omega)
        · intro index reached below
          exact all index (by omega) below
  | case3 bytesRead finished =>
      constructor
      · simp only [List.not_mem_nil, false_implies, implies_true, true_iff]
        omega
      · simp only [true_iff]
        omega

variable {host enclave}

/-- `vfs_read` refuses the first read of a file whose size is negative. -/
theorem loadLoop_refused (file : File) (target : UInt64) (large : 0x8000000000000000 ≤ file.size.toNat) :
    loadLoop file target 0 = ([], false) := by
  have positive : 0 < file.size.toNat := by omega
  have refused : fileRead file (file.size.toNat - 0) 0 = none := by simp [fileRead, Nat.not_lt.mpr large]
  rw [loadLoop, dif_pos positive]
  split
  next => rfl
  next ret given => cases refused.symm.trans given

theorem loadFile_emits (file : File) (offset : UInt64) (params : BootParams) :
    (loadFile file (baseAddr host enclave + offset)).Emits (Write.Inside host enclave) params ↔
      file.loaded = 0 ∨ offset.toNat + file.loaded ≤ enclave.bootmemSize.toNat := by
  have unwrapped := range_inside_iff host enclave offset.toNat file.loaded offset.toNat_lt
  simp only [UInt64.ofNat_add, UInt64.ofNat_toNat, ← UInt64.add_assoc] at unwrapped
  rw [← unwrapped]
  by_cases small : file.size.toNat < 0x8000000000000000
  · have loop := (loadLoop_spec (Inside host enclave) file (baseAddr host enclave + offset) small 0
      (Nat.zero_le _) (Nat.zero_le _)).1
    simpa [Job.Emits, Write.Inside, loadFile, File.loaded, small] using loop
  · simp [Job.Emits, loadFile, File.loaded, small, loadLoop_refused file _ (Nat.le_of_not_lt small)]

theorem loadFile_answers (file : File) (target : UInt64) (params : BootParams) :
    (loadFile file target).Answers params () ↔ file.Loads := by
  by_cases small : file.size.toNat < 0x8000000000000000
  · have loop := (loadLoop_spec (fun _ => True) file target small 0 (Nat.zero_le _) (Nat.zero_le _)).2
    by_cases whole : (loadLoop file target 0).2 = true
    · simp [Job.Answers, loadFile, File.Loads, small, whole, loop.mp whole]
    · simpa [Job.Answers, loadFile, File.Loads, small, whole] using mt loop.mpr whole
  · simp [Job.Answers, loadFile, File.Loads, small, loadLoop_refused file target (Nat.le_of_not_lt small)]

@[simp] theorem loadFile_state (file : File) (target : UInt64) (params : BootParams) :
    (loadFile file target params).state = params := rfl

end Containment

section Blocks

variable {host : Host} {enclave : Enclave} (params : BootParams)

theorem store_emits (field : Field) (update : BootParams → BootParams) :
    (store host enclave field update).Emits (Write.Inside host enclave) params ↔
      field.offset + field.bytes ≤ enclave.bootmemSize.toNat := by
  have bound := field.ends_inside
  have nonempty : field.bytes ≠ 0 := by cases field <;> decide
  have small : field.offset % 0x10000000000000000 = field.offset := Nat.mod_eq_of_lt (by omega)
  rw [store, Job.emits_emit, write_inside_iff, UInt64.toNat_ofNat', small]
  simp only [nonempty, false_or]

theorem store_inside (field : Field) (update : BootParams → BootParams)
    (room : 1288 ≤ enclave.bootmemSize.toNat) :
    (store host enclave field update).Emits (Write.Inside host enclave) params :=
  (store_emits params field update).mpr (Nat.le_trans field.ends_inside room)

@[simp] theorem store_answers (field : Field) (update : BootParams → BootParams) (answer : Unit) :
    (store host enclave field update).Answers params answer ↔ True :=
  Job.answers_emit params _ update answer

@[simp] theorem store_state (field : Field) (update : BootParams → BootParams) :
    (store host enclave field update params).state = update params := rfl

theorem store_then_state (field : Field) (update : BootParams → BootParams) (next : SetupJob Unit) :
    ((store host enclave field update >>= fun _ => next) params).state = (next (update params)).state := rfl

theorem clearBootmem_inside : (clearBootmem host enclave).Emits (Write.Inside host enclave) params := by
  have start : baseAddr host enclave = baseAddr host enclave + 0 := by simp
  rw [clearBootmem, Job.emits_emit, start, write_inside_iff]
  simp

theorem basicParameters_inside (room : 1288 ≤ enclave.bootmemSize.toNat) :
    (basicParameters host enclave).Emits (Write.Inside host enclave) params := by
  simp only [basicParameters, Job.emits_then, store_inside _ _ _ room, implies_true, and_self]

theorem basicParameters_answers : (basicParameters host enclave).Answers params () := by
  simp only [basicParameters, Job.answers_then, store_answers, and_self]

theorem consoleRing_emits :
    (consoleRing host enclave).Emits (Write.Inside host enclave) params ↔
      4104 ≤ enclave.bootmemSize.toNat := by
  have lock : Write.Inside host enclave ⟨baseAddr host enclave + consoleOffset, 8⟩ ↔
      4104 ≤ enclave.bootmemSize.toNat := by
    rw [write_inside_iff, consoleOffset_eq]
    simp
  simp only [consoleRing, piscesConsInit, Job.emits_then, Job.emits_emit, lock]
  constructor
  · intro all
    exact all.1
  · intro room
    have params_inside : 1288 ≤ enclave.bootmemSize.toNat := by omega
    simp only [room, store_inside _ _ _ params_inside, implies_true, and_self]

theorem consoleRing_answers : (consoleRing host enclave).Answers params () := by
  simp only [consoleRing, piscesConsInit, Job.answers_then, Job.answers_emit, store_answers, and_self]

theorem consoleRing_state : (consoleRing host enclave params).state =
    { params with
      consoleRingAddr := host.pa (baseAddr host enclave + consoleOffset), consoleRingSize := consoleSize } := by
  rw [consoleRing, piscesConsInit, Job.state_then _ _ ((Job.answers_emit ..).mpr trivial), Job.state_emit,
    store_then_state, store_state]
  rfl

theorem xbufClientInit_emits (offset : UInt64) (allocated : Bool) (small : offset.toNat < 0x100000) :
    (xbufClientInit (baseAddr host enclave + offset) allocated).Emits (Write.Inside host enclave) params ↔
      (allocated = true → offset.toNat + 24 ≤ enclave.bootmemSize.toNat) := by
  have cpu : (offset + 16).toNat = offset.toNat + 16 := by
    rw [UInt64.toNat_add, Nat.mod_eq_of_lt] <;> simp
    omega
  have vector : (offset + 20).toNat = offset.toNat + 20 := by
    rw [UInt64.toNat_add, Nat.mod_eq_of_lt] <;> simp
    omega
  cases allocated with
  | false => simp [xbufClientInit]
  | true =>
      simp only [xbufClientInit, if_true, Job.emits_then, Job.emits_emit, Job.answers_emit, Job.emits_pure,
        UInt64.add_assoc, write_inside_iff, cpu, vector, true_implies, and_true]
      omega

theorem xbufClientInit_answers (xbuf : UInt64) (allocated answer : Bool) :
    (xbufClientInit xbuf allocated).Answers params answer ↔ allocated = answer := by
  cases allocated <;> simp [xbufClientInit, Job.answers_then]

theorem xbufClientInit_keeps (xbuf : UInt64) (allocated : Bool) : (xbufClientInit xbuf allocated).Keeps := by
  intro params
  cases allocated <;> rfl

theorem piscesCtrlInit_emits (good : Write → Prop) :
    (piscesCtrlInit host).Emits good params ↔
      (xbufClientInit (host.va params.controlBufAddr) host.ctrlAllocated).Emits good params := by
  simp [piscesCtrlInit, Job.emits_bind]

theorem piscesCtrlInit_keeps : (piscesCtrlInit host).Keeps :=
  Job.keeps_bind (Job.keeps_read _) fun _ =>
    Job.keeps_bind (xbufClientInit_keeps _ _) fun _ => Job.keeps_pure _

theorem controlBuffer_emits (room : 1288 ≤ enclave.bootmemSize.toNat) :
    (controlBuffer host enclave).Emits (Write.Inside host enclave) params ↔
      (host.ctrlAllocated = true → 69656 ≤ enclave.bootmemSize.toNat) := by
  simp only [controlBuffer, Job.emits_then, store_inside _ _ _ room, store_answers, store_state,
    piscesCtrlInit_emits, Host.va_pa, true_implies, true_and]
  rw [xbufClientInit_emits _ _ _ (by simp)]
  simp

theorem controlBuffer_answers : (controlBuffer host enclave).Answers params () := by
  simp [controlBuffer, piscesCtrlInit, Job.answers_bind, xbufClientInit_answers]

theorem controlBuffer_state : (controlBuffer host enclave params).state =
    { params with controlBufAddr := host.pa (baseAddr host enclave + controlOffset), controlBufSize := 0x1000 } := by
  rw [controlBuffer, store_then_state, store_then_state, piscesCtrlInit_keeps]

/-- The long-call page is taken for a fresh one and its descriptor allocated. -/
def Host.OpensLongcall (host : Host) (enclave : Enclave) : Prop :=
  longcallReady host enclave = false ∧ host.lcallAllocated = true

def Host.ServesLongcall (host : Host) (enclave : Enclave) : Prop :=
  host.OpensLongcall enclave ∧ host.lcallVector.isSome = true ∧ host.kthreadCreated = true

theorem piscesLcallInit_emits (page : params.longcallBufAddr = host.pa (baseAddr host enclave + longcallOffset)) :
    (piscesLcallInit host enclave).Emits (Write.Inside host enclave) params ↔
      (host.OpensLongcall enclave → 73760 ≤ enclave.bootmemSize.toNat) := by
  have inside : ∀ offset : UInt64, ∀ length, offset.toNat + length ≤ 32 → 73760 ≤ enclave.bootmemSize.toNat →
      Write.Inside host enclave ⟨baseAddr host enclave + longcallOffset + offset, length⟩ := by
    intro offset length within room
    rw [UInt64.add_assoc, write_inside_iff, longcallOffset_eq, UInt64.toNat_add, Nat.mod_eq_of_lt]
    all_goals simp
    all_goals omega
  have header : Write.Inside host enclave ⟨baseAddr host enclave + longcallOffset, 32⟩ ↔
      73760 ≤ enclave.bootmemSize.toNat := by
    rw [write_inside_iff, longcallOffset_eq]
    simp
  have flags : 73760 ≤ enclave.bootmemSize.toNat →
      Write.Inside host enclave ⟨baseAddr host enclave + longcallOffset, 8⟩ := by
    simpa using inside 0 8 (by simp)
  simp only [piscesLcallInit, xbufServerInit, Job.emits_read_bind, Job.emits_then, page, Host.va_pa,
    Job.emits_require, Job.answers_require, Job.emits_emit, Job.answers_emit, Job.answers_then, header,
    Host.OpensLongcall, true_and, and_true, true_implies]
  constructor
  · intro all opens
    exact (all.1 opens.1 opens.2).1
  · intro room
    constructor
    · intro fresh allocated
      have enough := room ⟨fresh, allocated⟩
      exact ⟨enough, fun _ => ⟨inside 8 4 (by simp) enough, inside 12 4 (by simp) enough,
        inside 24 4 (by simp) enough⟩⟩
    · intro served _
      exact flags (room ⟨served.1, served.2.1⟩)

theorem piscesLcallInit_answers :
    (piscesLcallInit host enclave).Answers params () ↔ host.ServesLongcall enclave := by
  simp only [piscesLcallInit, xbufServerInit, Job.answers_read_bind, Job.answers_then, Job.answers_require,
    Job.answers_emit, Host.ServesLongcall, Host.OpensLongcall, and_true, true_and, and_assoc]

theorem piscesLcallInit_keeps : (piscesLcallInit host enclave).Keeps := by
  refine Job.keeps_bind (Job.keeps_read _) fun _ => Job.keeps_bind ?server fun _ =>
    Job.keeps_bind (Job.keeps_require _ _) fun _ => Job.keeps_emit _
  exact Job.keeps_bind (Job.keeps_require _ _) fun _ => Job.keeps_bind (Job.keeps_require _ _) fun _ =>
    Job.keeps_bind (Job.keeps_emit _) fun _ => Job.keeps_bind (Job.keeps_require _ _) fun _ =>
    Job.keeps_bind (Job.keeps_emit _) fun _ => Job.keeps_bind (Job.keeps_emit _) fun _ => Job.keeps_emit _

theorem longcallBuffer_emits (room : 1288 ≤ enclave.bootmemSize.toNat) :
    (longcallBuffer host enclave).Emits (Write.Inside host enclave) params ↔
      (host.OpensLongcall enclave → 73760 ≤ enclave.bootmemSize.toNat) := by
  simp only [longcallBuffer, Job.emits_then, store_inside _ _ _ room, store_answers, store_state, true_implies,
    true_and]
  exact piscesLcallInit_emits _ rfl

theorem longcallBuffer_answers :
    (longcallBuffer host enclave).Answers params () ↔ host.ServesLongcall enclave := by
  simp only [longcallBuffer, Job.answers_then, store_answers, piscesLcallInit_answers, true_and]

theorem longcallBuffer_state : (longcallBuffer host enclave params).state =
    { params with
      longcallBufAddr := host.pa (baseAddr host enclave + longcallOffset), longcallBufSize := 0x1000 } := by
  rw [longcallBuffer, store_then_state, store_then_state, piscesLcallInit_keeps]

/-- XPMEM is not built in, or its channel comes up. -/
def Host.JoinsXpmem (host : Host) : Prop :=
  host.usingXpmem = true → host.xpmemAllocated = true ∧ 0 < host.xpmemLink

theorem piscesXpmemInit_emits (good : Write → Prop) :
    (piscesXpmemInit host).Emits good params ↔
      (xbufClientInit (host.va params.xpmemBufAddr) host.xpmemAllocated).Emits good params := by
  simp [piscesXpmemInit, Job.emits_bind]

theorem piscesXpmemInit_answers :
    (piscesXpmemInit host).Answers params () ↔ host.xpmemAllocated = true ∧ 0 < host.xpmemLink := by
  simp [piscesXpmemInit, Job.answers_bind, xbufClientInit_answers]

theorem piscesXpmemInit_keeps : (piscesXpmemInit host).Keeps :=
  Job.keeps_bind (Job.keeps_read _) fun _ => Job.keeps_bind (xbufClientInit_keeps _ _) fun _ =>
    Job.keeps_bind (Job.keeps_require _ _) fun _ => Job.keeps_require _ _

theorem xpmemBuffer_emits (room : 1288 ≤ enclave.bootmemSize.toNat) :
    (xpmemBuffer host enclave).Emits (Write.Inside host enclave) params ↔
      (host.usingXpmem = true → host.xpmemAllocated = true → 77848 ≤ enclave.bootmemSize.toNat) := by
  simp only [xpmemBuffer, Job.emits_then, store_inside _ _ _ room, store_answers, store_state, true_implies,
    true_and]
  cases host.usingXpmem with
  | false => simp
  | true =>
      simp only [if_true, piscesXpmemInit_emits, Host.va_pa]
      rw [xbufClientInit_emits _ _ _ (by simp)]
      simp

theorem xpmemBuffer_answers : (xpmemBuffer host enclave).Answers params () ↔ host.JoinsXpmem := by
  simp only [xpmemBuffer, Job.answers_then, store_answers, true_and, Host.JoinsXpmem]
  cases host.usingXpmem with
  | false => simp
  | true => simp [piscesXpmemInit_answers]

theorem xpmemBuffer_state : (xpmemBuffer host enclave params).state =
    { params with xpmemBufAddr := host.pa (baseAddr host enclave + xpmemOffset), xpmemBufSize := 0x1000 } := by
  rw [xpmemBuffer, store_then_state, store_then_state]
  cases host.usingXpmem with
  | false => rfl
  | true => exact piscesXpmemInit_keeps _

theorem kernelImage_emits (room : 1288 ≤ enclave.bootmemSize.toNat) :
    (kernelImage host enclave).Emits (Write.Inside host enclave) params ↔
      ∀ file, enclave.kernFile = some file →
        file.loaded = 0 ∨ 0x200000 + file.loaded ≤ enclave.bootmemSize.toNat := by
  simp only [kernelImage, loadKernel, Job.emits_then, Job.emits_require, Job.answers_require, kernelOffset_eq,
    true_and, true_implies]
  cases enclave.kernFile with
  | none => simp
  | some file =>
      simp only [Job.emits_then, store_inside _ _ _ room, store_answers, store_state, loadFile_emits, true_and,
        true_implies, Option.some.injEq, forall_eq']
      simp

theorem kernelImage_answers :
    (kernelImage host enclave).Answers params () ↔ ∃ file, enclave.kernFile = some file ∧ file.Loads := by
  simp only [kernelImage, loadKernel, Job.answers_then, Job.answers_require, kernelOffset_eq, true_and]
  cases enclave.kernFile with
  | none => simp
  | some file => simp [Job.answers_then, loadFile_answers]

theorem kernelImage_state {file : File} (kernel : enclave.kernFile = some file) :
    (kernelImage host enclave params).state =
      { params with kernelAddr := host.pa (baseAddr host enclave + kernelOffset), kernelSize := file.size } := by
  have passes : (Job.require (kernelOffset = 0x200000) .failed : SetupJob Unit).Answers params () := by
    rw [Job.answers_require, kernelOffset_eq]
  rw [kernelImage, Job.state_then _ _ passes, Job.state_require, loadKernel, kernel]
  rw [store_then_state, store_then_state, loadFile_state]

theorem initrdImage_emits (room : 1288 ≤ enclave.bootmemSize.toNat) :
    (initrdImage host enclave).Emits (Write.Inside host enclave) params ↔
      ∀ file, enclave.initFile = some file →
        file.loaded = 0 ∨
          (initrdOffset params.kernelSize).toNat + file.loaded ≤ enclave.bootmemSize.toNat := by
  simp only [initrdImage, loadInitrd, Job.emits_read_bind]
  cases enclave.initFile with
  | none => simp
  | some file =>
      simp only [Job.emits_then, store_inside _ _ _ room, store_answers, store_state, loadFile_emits, true_and,
        true_implies, Option.some.injEq, forall_eq']

theorem initrdImage_answers :
    (initrdImage host enclave).Answers params () ↔ ∃ file, enclave.initFile = some file ∧ file.Loads := by
  simp only [initrdImage, loadInitrd, Job.answers_read_bind]
  cases enclave.initFile with
  | none => simp
  | some file => simp [Job.answers_then, loadFile_answers]

theorem initrdImage_state {file : File} (initrd : enclave.initFile = some file) :
    (initrdImage host enclave params).state =
      { params with
        initrdAddr := host.pa (baseAddr host enclave + initrdOffset params.kernelSize),
        initrdSize := file.size } := by
  rw [initrdImage, Job.state_read_bind, loadInitrd, initrd]
  rw [store_then_state, store_then_state, loadFile_state]

end Blocks

/-- Where the initrd goes behind a kernel of this size -/
def initrdStart (kernelSize : Nat) : Nat :=
  (kernelSize + 0xbfffff) / 0x200000 * 0x200000

theorem toNat_initrdOffset (kernelSize : UInt64) (small : kernelSize.toNat < 0x8000000000000000) :
    (initrdOffset kernelSize).toNat = initrdStart kernelSize.toNat := by
  have sum : (kernelOffset + kernelSize + 4 * 0x200000).toNat = kernelSize.toNat + 0xa00000 := by
    have pad : ((4 : UInt64) * 0x200000).toNat = 0x800000 := by decide
    have start : (0x200000 : UInt64).toNat = 0x200000 := by decide
    rw [kernelOffset_eq, UInt64.toNat_add, UInt64.toNat_add, pad, start]
    omega
  have aligned := toNat_align_granule (kernelOffset + kernelSize + 4 * 0x200000) (by omega)
  rw [sum, Nat.add_assoc] at aligned
  exact aligned

section Image

variable (host : Host) (enclave : Enclave)

/-- The set-up passes its two checks before the first region. -/
def Host.Configured : Prop :=
  baseAddr host enclave ≠ 0 ∧ host.launchCode.length = 64

/-- The set-up comes to load the kernel. -/
def Host.ChannelsReady : Prop :=
  host.Configured enclave ∧ host.ServesLongcall enclave ∧ host.JoinsXpmem

/-- Boot memory is large enough for what this set-up writes. -/
structure Fits : Prop where
  console : host.Configured enclave → 4104 ≤ enclave.bootmemSize.toNat
  control : host.Configured enclave → host.ctrlAllocated = true → 69656 ≤ enclave.bootmemSize.toNat
  longcall : host.Configured enclave → host.OpensLongcall enclave → 73760 ≤ enclave.bootmemSize.toNat
  xpmem : host.Configured enclave → host.ServesLongcall enclave →
    host.usingXpmem = true → host.xpmemAllocated = true → 77848 ≤ enclave.bootmemSize.toNat
  kernel : host.ChannelsReady enclave → ∀ kernel, enclave.kernFile = some kernel →
    kernel.loaded = 0 ∨ 0x200000 + kernel.loaded ≤ enclave.bootmemSize.toNat
  initrd : host.ChannelsReady enclave → ∀ kernel, enclave.kernFile = some kernel → kernel.Loads →
    ∀ initrd, enclave.initFile = some initrd →
      initrd.loaded = 0 ∨ initrdStart kernel.size.toNat + initrd.loaded ≤ enclave.bootmemSize.toNat

/-- Both images are there and load. -/
def Enclave.Loads : Prop :=
  ∃ kernel initrd, enclave.kernFile = some kernel ∧ kernel.Loads ∧ enclave.initFile = some initrd ∧ initrd.Loads

variable {host enclave} (found : BootParams)

theorem copyLaunchCode_answers :
    (copyLaunchCode host enclave).Answers found () ↔ host.launchCode.length = 64 := by
  simp only [copyLaunchCode, Job.answers_then, Job.answers_require, store_answers, and_true]
  rfl

theorem setupBootParams_answers :
    (setupBootParams host enclave).Answers found () ↔ host.ChannelsReady enclave ∧ enclave.Loads := by
  simp only [setupBootParams, clearBootmem, Job.answers_then, Job.answers_emit, Job.answers_require,
    copyLaunchCode_answers, basicParameters_answers, consoleRing_answers, controlBuffer_answers,
    longcallBuffer_answers, xpmemBuffer_answers, kernelImage_answers, initrdImage_answers, true_and,
    Host.ChannelsReady, Host.Configured, Enclave.Loads]
  constructor
  · rintro ⟨mapped, code, serves, joins, ⟨kernel, isKernel, kernelLoads⟩, initrd, isInitrd, initrdLoads⟩
    exact ⟨⟨⟨mapped, code⟩, serves, joins⟩, kernel, initrd, isKernel, kernelLoads, isInitrd, initrdLoads⟩
  · rintro ⟨⟨⟨mapped, code⟩, serves, joins⟩, kernel, initrd, isKernel, kernelLoads, isInitrd, initrdLoads⟩
    exact ⟨mapped, code, serves, joins, ⟨kernel, isKernel, kernelLoads⟩, initrd, isInitrd, initrdLoads⟩

theorem copyLaunchCode_inside (room : host.launchCode.length = 64 → 1288 ≤ enclave.bootmemSize.toNat) :
    (copyLaunchCode host enclave).Emits (Write.Inside host enclave) found := by
  rw [copyLaunchCode, Job.emits_then, Job.answers_require]
  exact ⟨(Job.emits_require ..).mpr trivial, fun code => store_inside _ _ _ (room code)⟩

theorem images_emits (room : 1288 ≤ enclave.bootmemSize.toNat) :
    (kernelImage host enclave >>= fun _ => initrdImage host enclave).Emits (Write.Inside host enclave) found ↔
      (∀ kernel, enclave.kernFile = some kernel →
        kernel.loaded = 0 ∨ 0x200000 + kernel.loaded ≤ enclave.bootmemSize.toNat) ∧
      (∀ kernel, enclave.kernFile = some kernel → kernel.Loads → ∀ initrd, enclave.initFile = some initrd →
        initrd.loaded = 0 ∨ initrdStart kernel.size.toNat + initrd.loaded ≤ enclave.bootmemSize.toNat) := by
  rw [Job.emits_then, kernelImage_emits _ room, kernelImage_answers]
  refine and_congr_right fun _ => ?_
  constructor
  · intro inside kernel isKernel loads
    have second := inside ⟨kernel, isKernel, loads⟩
    rw [kernelImage_state _ isKernel, initrdImage_emits _ room] at second
    rwa [← toNat_initrdOffset kernel.size loads.1]
  · rintro fits ⟨kernel, isKernel, loads⟩
    rw [kernelImage_state _ isKernel, initrdImage_emits _ room]
    rw [toNat_initrdOffset kernel.size loads.1]
    exact fits kernel isKernel loads

theorem channels_emits (room : 1288 ≤ enclave.bootmemSize.toNat) :
    (do controlBuffer host enclave
        longcallBuffer host enclave
        xpmemBuffer host enclave
        kernelImage host enclave
        initrdImage host enclave : SetupJob Unit).Emits (Write.Inside host enclave) found ↔
      (host.ctrlAllocated = true → 69656 ≤ enclave.bootmemSize.toNat) ∧
      (host.OpensLongcall enclave → 73760 ≤ enclave.bootmemSize.toNat) ∧
      (host.ServesLongcall enclave →
        (host.usingXpmem = true → host.xpmemAllocated = true → 77848 ≤ enclave.bootmemSize.toNat) ∧
        (host.JoinsXpmem →
          (∀ kernel, enclave.kernFile = some kernel →
            kernel.loaded = 0 ∨ 0x200000 + kernel.loaded ≤ enclave.bootmemSize.toNat) ∧
          (∀ kernel, enclave.kernFile = some kernel → kernel.Loads → ∀ initrd, enclave.initFile = some initrd →
            initrd.loaded = 0 ∨
              initrdStart kernel.size.toNat + initrd.loaded ≤ enclave.bootmemSize.toNat))) := by
  rw [Job.emits_then, controlBuffer_emits _ room, Job.emits_then, longcallBuffer_emits _ room,
    longcallBuffer_answers, Job.emits_then, xpmemBuffer_emits _ room, xpmemBuffer_answers, images_emits _ room]
  simp only [controlBuffer_answers, true_implies]

/-- The console lock is the first write that boot memory can be too small for:
the parameter block lies in front of it. -/
theorem setupBootParams_emits :
    (setupBootParams host enclave).Emits (Write.Inside host enclave) found ↔ Fits host enclave := by
  rw [setupBootParams, Job.emits_then, Job.emits_then, Job.emits_then, Job.emits_then, Job.emits_then,
    Job.answers_require, copyLaunchCode_answers, consoleRing_emits]
  constructor
  · intro all
    have behind : host.Configured enclave → 4104 ≤ enclave.bootmemSize.toNat ∧ _ := fun configured =>
      (((all.2 (Job.answers_emit ..|>.mpr trivial)).2 configured.1).2 configured.2).2 (basicParameters_answers _)
    have console := fun configured => (behind configured).1
    have channels := fun configured =>
      (channels_emits _ (show 1288 ≤ enclave.bootmemSize.toNat by have := console configured; omega)).mp
        ((behind configured).2 (consoleRing_answers _))
    exact {
      console := console
      control := fun configured => (channels configured).1
      longcall := fun configured => (channels configured).2.1
      xpmem := fun configured serves => ((channels configured).2.2 serves).1
      kernel := fun ready => (((channels ready.1).2.2 ready.2.1).2 ready.2.2).1
      initrd := fun ready => (((channels ready.1).2.2 ready.2.1).2 ready.2.2).2 }
  · intro fits
    refine ⟨clearBootmem_inside _, fun _ => ⟨(Job.emits_require ..).mpr trivial, fun mapped => ?_⟩⟩
    by_cases code : host.launchCode.length = 64
    · have configured : host.Configured enclave := ⟨mapped, code⟩
      have console := fits.console configured
      have room : 1288 ≤ enclave.bootmemSize.toNat := by omega
      refine ⟨copyLaunchCode_inside _ fun _ => room,
        fun _ => ⟨basicParameters_inside _ room, fun _ => ⟨console, fun _ => ?_⟩⟩⟩
      refine (channels_emits _ room).mpr ⟨fits.control configured, fits.longcall configured, fun serves => ?_⟩
      exact ⟨fits.xpmem configured serves, fun joins =>
        ⟨fits.kernel ⟨configured, serves, joins⟩, fits.initrd ⟨configured, serves, joins⟩⟩⟩
    · exact ⟨copyLaunchCode_inside _ fun given => absurd given code, fun given => absurd given code⟩

/-- What a successful set-up has recorded -/
structure BootParams.Records (params : BootParams) (host : Host) (enclave : Enclave) (kernel initrd : File) :
    Prop where
  consoleRingAddr : params.consoleRingAddr = host.pa (baseAddr host enclave + consoleOffset)
  consoleRingSize : params.consoleRingSize = consoleSize
  controlBufAddr : params.controlBufAddr = host.pa (baseAddr host enclave + controlOffset)
  controlBufSize : params.controlBufSize = 0x1000
  longcallBufAddr : params.longcallBufAddr = host.pa (baseAddr host enclave + longcallOffset)
  longcallBufSize : params.longcallBufSize = 0x1000
  xpmemBufAddr : params.xpmemBufAddr = host.pa (baseAddr host enclave + xpmemOffset)
  xpmemBufSize : params.xpmemBufSize = 0x1000
  kernelAddr : params.kernelAddr = host.pa (baseAddr host enclave + kernelOffset)
  kernelSize : params.kernelSize = kernel.size
  initrdAddr : params.initrdAddr = host.pa (baseAddr host enclave + initrdOffset kernel.size)
  initrdSize : params.initrdSize = initrd.size

theorem setupBootParams_records {kernel initrd : File} (ready : host.ChannelsReady enclave)
    (isKernel : enclave.kernFile = some kernel) (kernelLoads : kernel.Loads)
    (isInitrd : enclave.initFile = some initrd) :
    (setupBootParams host enclave found).state.Records host enclave kernel initrd := by
  obtain ⟨⟨mapped, code⟩, serves, joins⟩ := ready
  have cleared : (clearBootmem host enclave).Answers found () := (Job.answers_emit ..).mpr trivial
  rw [setupBootParams, Job.state_then _ _ cleared, Job.state_then _ _ ((Job.answers_require ..).mpr mapped),
    Job.state_then _ _ ((copyLaunchCode_answers _).mpr code), Job.state_then _ _ (basicParameters_answers _),
    Job.state_then _ _ (consoleRing_answers _), Job.state_then _ _ (controlBuffer_answers _),
    Job.state_then _ _ ((longcallBuffer_answers _).mpr serves),
    Job.state_then _ _ ((xpmemBuffer_answers _).mpr joins),
    Job.state_then _ _ ((kernelImage_answers _).mpr ⟨kernel, isKernel, kernelLoads⟩)]
  -- Each state is named before the next, which would otherwise copy it once per field.
  generalize (basicParameters host enclave _).state = basic
  have console := @consoleRing_state host enclave basic
  generalize (consoleRing host enclave basic).state = afterConsole at console
  have control := @controlBuffer_state host enclave afterConsole
  generalize (controlBuffer host enclave afterConsole).state = afterControl at control
  have longcall := @longcallBuffer_state host enclave afterControl
  generalize (longcallBuffer host enclave afterControl).state = afterLongcall at longcall
  have xpmem := @xpmemBuffer_state host enclave afterLongcall
  generalize (xpmemBuffer host enclave afterLongcall).state = afterXpmem at xpmem
  have kernelState := @kernelImage_state host enclave afterXpmem _ isKernel
  generalize (kernelImage host enclave afterXpmem).state = afterKernel at kernelState
  have initrdState := @initrdImage_state host enclave afterKernel _ isInitrd
  generalize (initrdImage host enclave afterKernel).state = final at initrdState
  constructor <;> simp only [initrdState, kernelState, xpmem, longcall, control, console]

end Image

structure Region where
  address : UInt64
  length : UInt64

/-- The regions in boot memory that the parameter block records, the kernel with
the pad for its BSS -/
def BootParams.regions (params : BootParams) (enclave : Enclave) : List Region :=
  [⟨enclave.bootmemAddr, .ofNat sizeofBootParams⟩,
    ⟨params.consoleRingAddr, params.consoleRingSize⟩,
    ⟨params.controlBufAddr, params.controlBufSize⟩,
    ⟨params.longcallBufAddr, params.longcallBufSize⟩,
    ⟨params.xpmemBufAddr, params.xpmemBufSize⟩,
    ⟨params.kernelAddr, params.kernelSize + 4 * 0x200000⟩,
    ⟨params.initrdAddr, params.initrdSize⟩]

/-- Seen from the start of boot memory, `earlier` ends before `later` begins. -/
def Region.Before (enclave : Enclave) (earlier later : Region) : Prop :=
  (earlier.address - enclave.bootmemAddr).toNat + earlier.length.toNat ≤
    (later.address - enclave.bootmemAddr).toNat

structure BootParams.Aligned (params : BootParams) : Prop where
  console : params.consoleRingAddr.toNat % 0x1000 = 0
  control : params.controlBufAddr.toNat % 0x1000 = 0
  longcall : params.longcallBufAddr.toNat % 0x1000 = 0
  xpmem : params.xpmemBufAddr.toNat % 0x1000 = 0
  kernel : params.kernelAddr.toNat % 0x200000 = 0
  initrd : params.initrdAddr.toNat % 0x200000 = 0

/-- Every byte the set-up writes lies in boot memory, and when it succeeds the
recorded regions follow one another and are aligned. -/
def ImageContained (host : Host) (enclave : Enclave) (found : BootParams) : Prop :=
  (setupBootParams host enclave).Emits (Write.Inside host enclave) found ∧
    ((setupBootParams host enclave).Answers found () →
      ((setupBootParams host enclave found).state.regions enclave).Pairwise (Region.Before enclave) ∧
        (setupBootParams host enclave found).state.Aligned)

section Layout

variable {host : Host} {enclave : Enclave}

theorem pa_offset (offset : UInt64) :
    host.pa (baseAddr host enclave + offset) = enclave.bootmemAddr + offset := by
  simp only [Host.pa, baseAddr, Host.va]
  rw [UInt64.add_assoc, UInt64.add_comm host.pageOffset, ← UInt64.add_assoc, UInt64.add_sub_cancel]

theorem relative_offset (offset : UInt64) : enclave.bootmemAddr + offset - enclave.bootmemAddr = offset := by
  rw [UInt64.add_comm, UInt64.add_sub_cancel]

theorem regions_ordered {kernel initrd : File} {params : BootParams}
    (records : params.Records host enclave kernel initrd) (small : kernel.size.toNat < 0x8000000000000000) :
    (params.regions enclave).Pairwise (Region.Before enclave) := by
  have start := toNat_initrdOffset kernel.size small
  have block : (UInt64.ofNat sizeofBootParams).toNat = 1288 := by decide
  have padded : (kernel.size + 4 * 0x200000).toNat = kernel.size.toNat + 0x800000 := by
    have pad : ((4 : UInt64) * 0x200000).toNat = 0x800000 := by decide
    rw [UInt64.toNat_add, pad, Nat.mod_eq_of_lt (by omega)]
  unfold initrdStart at start
  simp only [BootParams.regions, records.consoleRingAddr, records.consoleRingSize, records.controlBufAddr,
    records.controlBufSize, records.longcallBufAddr, records.longcallBufSize, records.xpmemBufAddr,
    records.xpmemBufSize, records.kernelAddr, records.kernelSize, records.initrdAddr, records.initrdSize,
    pa_offset, List.pairwise_cons, List.forall_mem_cons, List.not_mem_nil, false_implies, implies_true,
    List.Pairwise.nil, and_true, Region.Before, relative_offset, consoleOffset_eq, controlOffset_eq,
    longcallOffset_eq, xpmemOffset_eq, kernelOffset_eq, consoleSize, UInt64.sub_self, block, padded, start,
    UInt64.reduceToNat]
  omega

theorem aligned_iff {kernel initrd : File} {params : BootParams}
    (records : params.Records host enclave kernel initrd) (small : kernel.size.toNat < 0x8000000000000000) :
    params.Aligned ↔ enclave.bootmemAddr.toNat % 0x200000 = 0 := by
  have start := toNat_initrdOffset kernel.size small
  unfold initrdStart at start
  have placed : ∀ offset : UInt64, (host.pa (baseAddr host enclave + offset)).toNat =
      (enclave.bootmemAddr.toNat + offset.toNat) % 0x10000000000000000 := by
    intro offset
    rw [pa_offset, UInt64.toNat_add]
  constructor
  · intro aligned
    have kernelAligned := aligned.kernel
    rw [records.kernelAddr, placed, kernelOffset_eq] at kernelAligned
    simp only [UInt64.reduceToNat] at kernelAligned
    omega
  · intro base
    constructor
    all_goals simp only [records.consoleRingAddr, records.controlBufAddr, records.longcallBufAddr,
      records.xpmemBufAddr, records.kernelAddr, records.initrdAddr, placed, consoleOffset_eq, controlOffset_eq,
      longcallOffset_eq, xpmemOffset_eq, kernelOffset_eq, UInt64.reduceToNat, start]
    all_goals omega

/-- The image is contained exactly when boot memory is large enough for what the
run writes and, should it succeed, starts at a multiple of 2MB. -/
theorem image_contained_iff_fits (host : Host) (enclave : Enclave) (found : BootParams) :
    ImageContained host enclave found ↔
      Fits host enclave ∧
        (host.ChannelsReady enclave → enclave.Loads → enclave.bootmemAddr.toNat % 0x200000 = 0) := by
  rw [ImageContained, setupBootParams_emits, setupBootParams_answers]
  refine and_congr_right fun _ => ?_
  constructor
  · intro laid ready loads
    obtain ⟨kernel, initrd, isKernel, kernelLoads, isInitrd, -⟩ := id loads
    have records := setupBootParams_records found ready isKernel kernelLoads isInitrd
    exact (aligned_iff records kernelLoads.1).mp (laid ⟨ready, loads⟩).2
  · rintro base ⟨ready, loads⟩
    obtain ⟨kernel, initrd, isKernel, kernelLoads, isInitrd, -⟩ := id loads
    have records := setupBootParams_records found ready isKernel kernelLoads isInitrd
    exact ⟨regions_ordered records kernelLoads.1, (aligned_iff records kernelLoads.1).mpr (base ready loads)⟩

end Layout

/-- A regular file of this size, read in one go -/
def wholeFile (size : UInt64) : File where
  size := size
  readable := size.toNat
  chunk length offset := min length (size.toNat - offset)
  chunk_bounded := by
    intro length offset positive below
    omega

/-- A host on which every allocation succeeds -/
def readyHost : Host where
  pageOffset := 0xffff880000000000
  launchCode := List.replicate 64 0
  cpuPresentToApicid := fun cpu => cpu.toUInt64
  cpuKhz := 2400000
  cpuInitRip := 0x1000
  usingXpmem := false
  ctrlAllocated := true
  staleReady := false
  lcallAllocated := true
  lcallVector := some 0xf0
  kthreadCreated := true
  xpmemAllocated := false
  xpmemLink := 0

/-- One block of 128MB, a kernel of 16MB and an initrd of 112MB -/
def crowdedEnclave : Enclave where
  bootmemAddr := 0x100000000
  bootmemSize := 0x8000000
  bootCpu := 1
  kernFile := some (wholeFile 0x1000000)
  initFile := some (wholeFile 0x7000000)
  kernCmdline := []

theorem readyHost_channelsReady : readyHost.ChannelsReady crowdedEnclave := by
  refine ⟨⟨?mapped, ?code⟩, ⟨⟨?fresh, rfl⟩, rfl, rfl⟩, ?joins⟩
  case mapped => decide
  case code => decide
  case fresh => decide
  case joins =>
    intro built
    cases built

/-- Nothing compares the images with the size of boot memory. -/
theorem initrd_overruns_bootmem : ¬ ∃ found, ImageContained readyHost crowdedEnclave found := by
  rintro ⟨found, contained⟩
  have fits := (setupBootParams_emits found).mp contained.1
  have loads : (wholeFile 0x1000000).Loads := by constructor <;> decide
  have initrd := fits.initrd readyHost_channelsReady _ rfl loads _ rfl
  revert initrd
  decide

end Pisces.Boot.Params
