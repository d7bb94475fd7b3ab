import Pisces.Boot.Params
import Pisces.ByteMemory
import Pisces.Simulation

/-! # What the boot image holds

`setup_boot_params` over memory itself: each write with its bytes, and each read
of the parameter block, of a channel page or of an image from where the code
reads it.
-/

namespace Pisces.Boot.Contents

open Params (Field Host Enclave File BootParams Write Stop baseAddr fileRead fileRead_bounds strncpy)
open Packed (le)

abbrev MemoryJob := Job Write ByteMemory Stop

/-- The bytes of the two images on disk -/
structure Images where
  kernel : Nat → UInt8
  initrd : Nat → UInt8

section Setup

variable (host : Host) (enclave : Enclave) (images : Images)

def put (address : UInt64) (count : Nat) (data : Nat → UInt8) : MemoryJob Unit :=
  .emit ⟨address, count⟩ (·.put address count data)

/-- A number of `width` bytes is stored. -/
def putNumber (address : UInt64) (width number : Nat) : MemoryJob Unit :=
  put address width ((le width number).getD · 0)

def setField (field : Field) (data : List UInt8) : MemoryJob Unit :=
  put (baseAddr host enclave + .ofNat field.offset) field.bytes (data.getD · 0)

def setWord (field : Field) (number : UInt64) : MemoryJob Unit :=
  setField host enclave field (le 8 number.toNat)

def getWord (field : Field) (memory : ByteMemory) : UInt64 :=
  memory.word (baseAddr host enclave + .ofNat field.offset)

/-- The loop of `load_kernel` and `load_initrd`, which looks up the size in the
parameter block each time round -/
def loadLoop (file : File) (contents : Nat → UInt8) (sizeField : Field) (target : UInt64) (bytesRead : Nat)
    (memory : ByteMemory) : Outcome Write ByteMemory Stop Unit :=
  let size := (getWord host enclave sizeField memory).toNat
  if _more : bytesRead < size then
    match _given : fileRead file (size - bytesRead) bytesRead with
    | none => ⟨[], memory, .error .failed⟩
    | some ret =>
        let address := target + .ofNat bytesRead
        let rest := loadLoop file contents sizeField target (bytesRead + ret)
          (memory.put address ret fun index => contents (bytesRead + index))
        { rest with events := ⟨address, ret⟩ :: rest.events }
  else ⟨[], memory, .ok ()⟩
termination_by file.readable - bytesRead
decreasing_by
  have bounds := fileRead_bounds (by omega) _given
  omega

def loadKernel (target : UInt64) : MemoryJob Unit :=
  match enclave.kernFile with
  | none => .stop .failed
  | some file => do
      setWord host enclave .kernelAddr (host.pa target)
      setWord host enclave .kernelSize file.size
      loadLoop host enclave file images.kernel .kernelSize target 0

def loadInitrd (target : UInt64) : MemoryJob Unit :=
  match enclave.initFile with
  | none => .stop .failed
  | some file => do
      setWord host enclave .initrdAddr (host.pa target)
      setWord host enclave .initrdSize file.size
      loadLoop host enclave file images.initrd .initrdSize target 0

/-- `pisces_xbuf_client_init` without a vector and a CPU -/
def xbufClientInit (xbuf : UInt64) (allocated : Bool) : MemoryJob Bool :=
  if allocated then do
    putNumber (xbuf + 16) 4 0
    putNumber (xbuf + 20) 4 0
    return true
  else return false

/-- The ready bit of the page -/
def ready (xbuf : UInt64) (memory : ByteMemory) : Bool := memory.word xbuf &&& 1 ≠ 0

/-- `pisces_xbuf_server_init` -/
def xbufServerInit (xbuf totalBytes : UInt64) : MemoryJob Unit := do
  let busy ← .read (ready xbuf)
  .require (busy = false) .failed
  .require (host.lcallAllocated = true) .fault
  put xbuf 32 fun _ => 0
  .require (host.lcallVector.isSome = true) .failed
  putNumber (xbuf + 8) 4 (host.cpuPresentToApicid 0).toNat
  putNumber (xbuf + 12) 4 (host.lcallVector.getD 0).toNat
  putNumber (xbuf + 24) 4 (totalBytes.toUInt32 - 32).toNat

/-- `pisces_xbuf_enable`, whose answer is not looked at -/
def xbufEnable (xbuf : UInt64) : MemoryJob Unit := do
  let busy ← .read (ready xbuf)
  if busy then pure () else putNumber xbuf 8 1

/-- The lock of the ring is initialised. -/
def piscesConsInit (ringbuf : UInt64) : MemoryJob Unit :=
  putNumber ringbuf 8 0

def piscesCtrlInit : MemoryJob Unit := do
  let controlBufAddr ← .read (getWord host enclave .controlBufAddr)
  let _ ← xbufClientInit (host.va controlBufAddr) host.ctrlAllocated

def piscesLcallInit : MemoryJob Unit := do
  let longcallBufAddr ← .read (getWord host enclave .longcallBufAddr)
  let longcallBufSize ← .read (getWord host enclave .longcallBufSize)
  xbufServerInit host (host.va longcallBufAddr) longcallBufSize
  .require (host.kthreadCreated = true) .fault
  xbufEnable (host.va longcallBufAddr)

def piscesXpmemInit : MemoryJob Unit := do
  let xpmemBufAddr ← .read (getWord host enclave .xpmemBufAddr)
  let desc ← xbufClientInit (host.va xpmemBufAddr) host.xpmemAllocated
  .require (desc = true) .failed
  .require (0 < host.xpmemLink) .failed

def clearBootmem : MemoryJob Unit :=
  put (baseAddr host enclave) enclave.bootmemSize.toNat fun _ => 0

def copyLaunchCode : MemoryJob Unit := do
  .require (host.launchCode.length = Field.launchCode.bytes) .failed
  setField host enclave .launchCode host.launchCode

def basicParameters : MemoryJob Unit := do
  setField host enclave .cmdLine (strncpy enclave.kernCmdline 1024)
  setWord host enclave .magic 0x000FE110
  setWord host enclave .cpuId enclave.bootCpu.toUInt64
  setWord host enclave .apicId (host.cpuPresentToApicid enclave.bootCpu)
  setWord host enclave .cpuKhz host.cpuKhz
  setWord host enclave .trampolineCodePa host.cpuInitRip
  setWord host enclave .baseMemPaddr enclave.bootmemAddr
  setWord host enclave .baseMemSize enclave.bootmemSize

def consoleRing : MemoryJob Unit := do
  let ringbuf := baseAddr host enclave + Params.consoleOffset
  piscesConsInit ringbuf
  setWord host enclave .consoleRingAddr (host.pa ringbuf)
  setWord host enclave .consoleRingSize Params.consoleSize

def controlBuffer : MemoryJob Unit := do
  setWord host enclave .controlBufAddr (host.pa (baseAddr host enclave + Params.controlOffset))
  setWord host enclave .controlBufSize 0x1000
  piscesCtrlInit host enclave

def longcallBuffer : MemoryJob Unit := do
  setWord host enclave .longcallBufAddr (host.pa (baseAddr host enclave + Params.longcallOffset))
  setWord host enclave .longcallBufSize 0x1000
  piscesLcallInit host enclave

def xpmemBuffer : MemoryJob Unit := do
  setWord host enclave .xpmemBufAddr (host.pa (baseAddr host enclave + Params.xpmemOffset))
  setWord host enclave .xpmemBufSize 0x1000
  if host.usingXpmem then piscesXpmemInit host enclave else pure ()

def kernelImage : MemoryJob Unit := do
  .require (Params.kernelOffset = 0x200000) .failed
  loadKernel host enclave images (baseAddr host enclave + Params.kernelOffset)

def initrdImage : MemoryJob Unit := do
  let kernelSize ← .read (getWord host enclave .kernelSize)
  loadInitrd host enclave images (baseAddr host enclave + Params.initrdOffset kernelSize)

def setupBootParams : MemoryJob Unit := do
  clearBootmem host enclave
  .require (baseAddr host enclave ≠ 0) .failed
  copyLaunchCode host enclave
  basicParameters host enclave
  consoleRing host enclave
  controlBuffer host enclave
  longcallBuffer host enclave
  xpmemBuffer host enclave
  kernelImage host enclave images
  initrdImage host enclave images

end Setup

/-- A field as it lies in memory; the code leaves five of them cleared. -/
def encode (params : BootParams) : Field → List UInt8
  | .launchCode => params.launchCode
  | .initDbgBuf => List.replicate 16 0
  | .magic => le 8 params.magic.toNat
  | .cpuId => le 8 params.cpuId.toNat
  | .apicId => le 8 params.apicId.toNat
  | .cpuKhz => le 8 params.cpuKhz.toNat
  | .trampolineCodePa => le 8 params.trampolineCodePa.toNat
  | .cmdLine => params.cmdLine
  | .kernelAddr => le 8 params.kernelAddr.toNat
  | .kernelSize => le 8 params.kernelSize.toNat
  | .initrdAddr => le 8 params.initrdAddr.toNat
  | .initrdSize => le 8 params.initrdSize.toNat
  | .consoleRingAddr => le 8 params.consoleRingAddr.toNat
  | .consoleRingSize => le 8 params.consoleRingSize.toNat
  | .controlBufAddr => le 8 params.controlBufAddr.toNat
  | .controlBufSize => le 8 params.controlBufSize.toNat
  | .longcallBufAddr => le 8 params.longcallBufAddr.toNat
  | .longcallBufSize => le 8 params.longcallBufSize.toNat
  | .xpmemBufAddr => le 8 params.xpmemBufAddr.toNat
  | .xpmemBufSize => le 8 params.xpmemBufSize.toNat
  | .baseMemPaddr => le 8 params.baseMemPaddr.toNat
  | .baseMemSize => le 8 params.baseMemSize.toNat
  | .flags | .bootParamsSize | .domainXcallMasterApicid | .domainXcallVector => le 8 0

/-- The fields that get a number -/
def isWord : Field → Bool
  | .launchCode | .initDbgBuf | .cmdLine => false
  | .flags | .bootParamsSize | .domainXcallMasterApicid | .domainXcallVector => false
  | _ => true

def record (field : Field) (number : UInt64) (params : BootParams) : BootParams :=
  match field with
  | .magic => { params with magic := number }
  | .cpuId => { params with cpuId := number }
  | .apicId => { params with apicId := number }
  | .cpuKhz => { params with cpuKhz := number }
  | .trampolineCodePa => { params with trampolineCodePa := number }
  | .kernelAddr => { params with kernelAddr := number }
  | .kernelSize => { params with kernelSize := number }
  | .initrdAddr => { params with initrdAddr := number }
  | .initrdSize => { params with initrdSize := number }
  | .consoleRingAddr => { params with consoleRingAddr := number }
  | .consoleRingSize => { params with consoleRingSize := number }
  | .controlBufAddr => { params with controlBufAddr := number }
  | .controlBufSize => { params with controlBufSize := number }
  | .longcallBufAddr => { params with longcallBufAddr := number }
  | .longcallBufSize => { params with longcallBufSize := number }
  | .xpmemBufAddr => { params with xpmemBufAddr := number }
  | .xpmemBufSize => { params with xpmemBufSize := number }
  | .baseMemPaddr => { params with baseMemPaddr := number }
  | .baseMemSize => { params with baseMemSize := number }
  | _ => params

theorem encode_record {field : Field} (word : isWord field = true) (number : UInt64) (params : BootParams) :
    encode (record field number params) field = le 8 number.toNat ∧
      (Field.layout.filter (· ≠ field)).map (encode (record field number params)) =
        (Field.layout.filter (· ≠ field)).map (encode params) := by
  cases field
  all_goals first | exact ⟨rfl, rfl⟩ | cases word

/-- The parameter block after `memset` -/
def cleared : BootParams where
  launchCode := List.replicate 64 0
  magic := 0
  cpuId := 0
  apicId := 0
  cpuKhz := 0
  trampolineCodePa := 0
  cmdLine := List.replicate 1024 0
  kernelAddr := 0
  kernelSize := 0
  initrdAddr := 0
  initrdSize := 0
  consoleRingAddr := 0
  consoleRingSize := 0
  controlBufAddr := 0
  controlBufSize := 0
  longcallBufAddr := 0
  longcallBufSize := 0
  xpmemBufAddr := 0
  xpmemBufSize := 0
  baseMemPaddr := 0
  baseMemSize := 0

theorem getD_replicate_zero (count index : Nat) : (List.replicate count (0 : UInt8)).getD index 0 = 0 := by
  rw [List.getD_eq_getElem?_getD, List.getElem?_replicate]
  split <;> rfl

theorem le_congr {number other : UInt64} (same : number = other) : le 8 number.toNat = le 8 other.toNat := by
  rw [same]

theorem encode_cleared (field : Field) (index : Nat) : (encode cleared field).getD index 0 = 0 := by
  cases field <;> simp only [encode, cleared, UInt64.toNat_zero, Nat.cast_zero, Packed.le_zero, getD_replicate_zero]

theorem mem_layout (field : Field) : field ∈ Field.layout := by
  cases field <;> decide

theorem fields_apart {field other : Field} (distinct : other ≠ field) :
    other.offset + other.bytes ≤ field.offset ∨ field.offset + field.bytes ≤ other.offset := by
  have laid : Field.layout.Pairwise fun first second =>
      first.offset + first.bytes ≤ second.offset ∨ second.offset + second.bytes ≤ first.offset := by decide
  have swapped : Std.Symm fun first second : Field =>
      first.offset + first.bytes ≤ second.offset ∨ second.offset + second.bytes ≤ first.offset :=
    ⟨fun _ _ => Or.symm⟩
  exact laid.forall (mem_layout other) (mem_layout field) distinct

section Relation

variable {host : Host} {enclave : Enclave} {rest : Nat → UInt8} {fact : BootParams → Prop}

/-- The parameter block is what was recorded, and behind it memory holds `rest`. -/
structure Agrees (host : Host) (enclave : Enclave) (rest : Nat → UInt8) (fact : BootParams → Prop)
    (memory : ByteMemory) (params : BootParams) : Prop where
  fields : ∀ field : Field, ∀ index < field.bytes,
    memory (baseAddr host enclave + .ofNat (field.offset + index)) = (encode params field).getD index 0
  rest : ∀ offset, 1288 ≤ offset → offset < 0x10000000000000000 →
    memory (baseAddr host enclave + .ofNat offset) = rest offset
  fact : fact params

theorem Agrees.getWord_eq {memory : ByteMemory} {params : BootParams}
    (agrees : Agrees host enclave rest fact memory params)
    {field : Field} {number : UInt64} (wide : field.bytes = 8) (holds : encode params field = le 8 number.toNat) :
    getWord host enclave field memory = number := by
  apply ByteMemory.word_eq
  intro index bound
  rw [UInt64.add_assoc, ← UInt64.ofNat_add, agrees.fields field index (by omega), holds]

theorem Agrees.word_behind {memory : ByteMemory} {params : BootParams}
    (agrees : Agrees host enclave rest fact memory params)
    {offset : Nat} {number : UInt64} (behind : 1288 ≤ offset) (small : offset < 0x8000000000000000)
    (holds : ∀ index < 8, rest (offset + index) = (le 8 number.toNat).getD index 0) :
    memory.word (baseAddr host enclave + .ofNat offset) = number := by
  apply ByteMemory.word_eq
  intro index bound
  rw [UInt64.add_assoc, ← UInt64.ofNat_add, agrees.rest _ (by omega) (by omega), holds index bound]

theorem Agrees.forget {memory : ByteMemory} {params : BootParams} (agrees : Agrees host enclave rest fact memory params) :
    Agrees host enclave rest (fun _ => True) memory params :=
  ⟨agrees.fields, agrees.rest, trivial⟩

theorem refines_forget {before : ByteMemory → BootParams → Prop} {low : MemoryJob Unit} {high : Params.SetupJob Unit}
    (refines : Job.Refines before (Agrees host enclave rest fact) low high) :
    Job.Refines before (Agrees host enclave rest fun _ => True) low high :=
  refines.weaken (fun _ _ related => related) fun _ _ agrees => agrees.forget

/-- Behind the parameter block, what `memset` leaves -/
def blank (host : Host) (enclave : Enclave) (original : ByteMemory) (offset : Nat) : UInt8 :=
  if offset < enclave.bootmemSize.toNat then 0 else original (baseAddr host enclave + .ofNat offset)

theorem refines_setField {field : Field} {data : List UInt8} {update : BootParams → BootParams}
    {fact after : BootParams → Prop} (stored : ∀ params, encode (update params) field = data)
    (others : ∀ params, (Field.layout.filter (· ≠ field)).map (encode (update params)) =
      (Field.layout.filter (· ≠ field)).map (encode params))
    (kept : ∀ params, fact params → after (update params)) :
    Job.Refines (Agrees host enclave rest fact) (Agrees host enclave rest after)
      (setField host enclave field data) (Params.store host enclave field update) := by
  have ends := field.ends_inside
  apply Job.refines_emit
  intro memory params agrees
  constructor
  case fields =>
    intro other index bound
    have inside := other.ends_inside
    rw [ByteMemory.put_base _ _ (by omega) (by omega)]
    by_cases same : other = field
    · subst same
      rw [ByteMemory.overlay_inside _ _ bound, stored]
    · have apart := fields_apart same
      have member : other ∈ Field.layout.filter (· ≠ field) := by simp [mem_layout, same]
      have unchanged := List.map_inj_left.mp (others params) other member
      rw [ByteMemory.overlay_outside _ _ (by omega), agrees.fields other index bound, unchanged]
  case rest =>
    intro offset behind bound
    rw [ByteMemory.put_base _ _ (by omega) bound, ByteMemory.overlay_outside _ _ (by omega),
      agrees.rest offset behind bound]
  case fact => exact kept params agrees.fact

theorem refines_setWord {field : Field} {number : UInt64} {fact after : BootParams → Prop}
    (word : isWord field = true)
    (kept : ∀ params, fact params → after (record field number params)) :
    Job.Refines (Agrees host enclave rest fact) (Agrees host enclave rest after)
      (setWord host enclave field number) (Params.store host enclave field (record field number)) :=
  refines_setField (fun params => (encode_record word number params).1)
    (fun params => (encode_record word number params).2) kept

theorem refines_word {field : Field} {number : UInt64} (word : isWord field = true) :
    Job.Refines (Agrees host enclave rest fun _ => True) (Agrees host enclave rest fun _ => True)
      (setWord host enclave field number) (Params.store host enclave field (record field number)) :=
  refines_setWord word fun _ _ => trivial

theorem refines_put {start count : Nat} {data : Nat → UInt8} (behind : 1288 ≤ start)
    (fits : start + count ≤ 0x10000000000000000) :
    Job.Refines (Agrees host enclave rest fact) (Agrees host enclave (ByteMemory.overlay start count data rest) fact)
      (put (baseAddr host enclave + .ofNat start) count data)
      (.emit ⟨baseAddr host enclave + .ofNat start, count⟩ id) := by
  apply Job.refines_emit
  intro memory params agrees
  constructor
  case fields =>
    intro field index bound
    have ends := field.ends_inside
    rw [ByteMemory.put_base _ _ fits (by omega), ByteMemory.overlay_outside _ _ (by omega),
      agrees.fields field index bound, id]
  case rest =>
    intro offset past bound
    rw [ByteMemory.put_base _ _ fits bound]
    by_cases inside : start ≤ offset ∧ offset < start + count
    · rw [ByteMemory.overlay, ByteMemory.overlay, if_pos inside, if_pos inside]
    · rw [ByteMemory.overlay, ByteMemory.overlay, if_neg inside, if_neg inside, agrees.rest offset past bound]
  case fact => exact agrees.fact

/-- Nothing but zeros is written where memory holds zeros. -/
theorem refines_putZero {start width : Nat} (behind : 1288 ≤ start) (fits : start + width ≤ 0x10000000000000000)
    (zero : ∀ index < width, rest (start + index) = 0) :
    Job.Refines (Agrees host enclave rest fact) (Agrees host enclave rest fact)
      (putNumber (baseAddr host enclave + .ofNat start) width 0)
      (.emit ⟨baseAddr host enclave + .ofNat start, width⟩ id) := by
  have zeros : ∀ index < width, (le width (0 : Nat)).getD index 0 = rest (start + index) := by
    intro index bound
    rw [Nat.cast_zero, Packed.le_zero, getD_replicate_zero, zero index bound]
  have written := @refines_put host enclave rest fact start width ((le width (0 : Nat)).getD · 0) behind fits
  rwa [ByteMemory.overlay_same zeros] at written

theorem offset_add (base : UInt64) (offset more : Nat) :
    base + .ofNat offset + .ofNat more = base + .ofNat (offset + more) := by
  rw [UInt64.add_assoc, ← UInt64.ofNat_add]

theorem refines_clearBootmem (original : ByteMemory) (room : 1288 ≤ enclave.bootmemSize.toNat) :
    Job.Refines (fun memory params => memory = original ∧ params = cleared)
      (Agrees host enclave (blank host enclave original) fun _ => True)
      (clearBootmem host enclave) (Params.clearBootmem host enclave) := by
  have size := enclave.bootmemSize.toNat_lt
  simp only [Nat.reducePow] at size
  apply Job.refines_emit
  rintro memory params ⟨rfl, rfl⟩
  have shown : ∀ offset < 0x10000000000000000,
      memory.put (baseAddr host enclave) enclave.bootmemSize.toNat (fun _ => 0)
          (baseAddr host enclave + .ofNat offset) =
        blank host enclave memory offset := by
    intro offset bound
    have start : baseAddr host enclave = baseAddr host enclave + .ofNat 0 := (UInt64.add_zero _).symm
    conv => lhs; arg 2; rw [start]
    rw [ByteMemory.put_base _ _ (by omega) bound]
    simp only [ByteMemory.overlay, blank, Nat.zero_le, true_and, Nat.zero_add]
  constructor
  case fields =>
    intro field index bound
    have ends := field.ends_inside
    rw [shown _ (by omega), blank, if_pos (by omega), id, encode_cleared]
  case rest => exact fun offset _ bound => shown offset bound
  case fact => trivial

theorem refines_copyLaunchCode :
    Job.Refines (Agrees host enclave rest fun _ => True) (Agrees host enclave rest fun _ => True)
      (copyLaunchCode host enclave) (Params.copyLaunchCode host enclave) := by
  refine Job.refines_bind (Job.refines_require _ Iff.rfl) fun _ => ?_
  exact @refines_setField host enclave rest .launchCode host.launchCode
    (fun params => { params with launchCode := host.launchCode }) (fun _ => True) (fun _ => True)
    (fun _ => rfl) (fun _ => rfl) fun _ _ => trivial

theorem refines_basicParameters :
    Job.Refines (Agrees host enclave rest fun _ => True) (Agrees host enclave rest fun _ => True)
      (basicParameters host enclave) (Params.basicParameters host enclave) := by
  have line := @refines_setField host enclave rest .cmdLine (strncpy enclave.kernCmdline 1024)
    (fun params => { params with cmdLine := strncpy enclave.kernCmdline 1024 }) (fun _ => True) (fun _ => True)
    (fun _ => rfl) (fun _ => rfl) fun _ _ => trivial
  refine Job.refines_bind line fun _ => ?_
  refine Job.refines_bind (refines_word rfl) fun _ => ?_
  refine Job.refines_bind (refines_word rfl) fun _ => ?_
  refine Job.refines_bind (refines_word rfl) fun _ => ?_
  refine Job.refines_bind (refines_word rfl) fun _ => ?_
  refine Job.refines_bind (refines_word rfl) fun _ => ?_
  refine Job.refines_bind (refines_word rfl) fun _ => ?_
  exact refines_word rfl

theorem refines_consoleRing (zero : ∀ index < 8, rest (4096 + index) = 0) :
    Job.Refines (Agrees host enclave rest fun _ => True) (Agrees host enclave rest fun _ => True)
      (consoleRing host enclave) (Params.consoleRing host enclave) := by
  have ring : baseAddr host enclave + Params.consoleOffset = baseAddr host enclave + .ofNat 4096 :=
    congrArg _ Params.consoleOffset_eq
  simp only [consoleRing, Params.consoleRing, ring]
  refine Job.refines_bind (refines_putZero (by decide) (by decide) zero) fun _ => ?_
  refine Job.refines_bind (refines_word rfl) fun _ => ?_
  exact refines_word rfl

theorem refines_xbufClientInit {offset : Nat} (behind : 1288 ≤ offset) (small : offset < 0x8000000000000000)
    (zero : ∀ index < 32, rest (offset + index) = 0) (allocated : Bool) :
    Job.Refines (Agrees host enclave rest fact) (Agrees host enclave rest fact)
      (xbufClientInit (baseAddr host enclave + .ofNat offset) allocated)
      (Params.xbufClientInit (baseAddr host enclave + .ofNat offset) allocated) := by
  have cpu : baseAddr host enclave + .ofNat offset + 16 = baseAddr host enclave + .ofNat (offset + 16) :=
    offset_add _ offset 16
  have vector : baseAddr host enclave + .ofNat offset + 20 = baseAddr host enclave + .ofNat (offset + 20) :=
    offset_add _ offset 20
  have tail : ∀ start, start + 4 ≤ 32 → ∀ index < 4, rest (offset + start + index) = 0 := by
    intro start inside index bound
    rw [Nat.add_assoc, zero _ (by omega)]
  cases allocated with
  | false => exact Job.refines_pure false
  | true =>
      simp only [xbufClientInit, Params.xbufClientInit, cpu, vector, if_true]
      refine Job.refines_bind (refines_putZero (by omega) (by omega) (tail 16 (by decide))) fun _ => ?_
      refine Job.refines_bind (refines_putZero (by omega) (by omega) (tail 20 (by decide))) fun _ => ?_
      exact Job.refines_pure true

theorem refines_controlBuffer (zero : ∀ index < 32, rest (69632 + index) = 0) :
    Job.Refines (Agrees host enclave rest fun _ => True) (Agrees host enclave rest fun _ => True)
      (controlBuffer host enclave) (Params.controlBuffer host enclave) := by
  let place := host.pa (baseAddr host enclave + .ofNat 69632)
  have page : baseAddr host enclave + Params.controlOffset = baseAddr host enclave + .ofNat 69632 :=
    congrArg _ Params.controlOffset_eq
  have named := @refines_setWord host enclave rest .controlBufAddr place (fun _ => True) (·.controlBufAddr = place)
    rfl fun _ _ => rfl
  have sized := @refines_setWord host enclave rest .controlBufSize 0x1000 (·.controlBufAddr = place)
    (·.controlBufAddr = place) rfl fun _ given => given
  simp only [controlBuffer, Params.controlBuffer, page]
  refine Job.refines_bind named fun _ => Job.refines_bind sized fun _ => ?_
  refine Job.refines_read_bind (fun _ _ agrees => ⟨agrees.getWord_eq rfl (le_congr agrees.fact), agrees.fact⟩) ?_
  rw [Params.Host.va_pa]
  refine Job.refines_bind (refines_xbufClientInit (by decide) (by decide) zero host.ctrlAllocated) fun _ => ?_
  exact refines_forget (Job.refines_pure ())

/-- The long-call page, with a header of 32 bytes -/
def page (header : List UInt8) (rest : Nat → UInt8) : Nat → UInt8 :=
  ByteMemory.overlay 73728 32 (header.getD · 0) rest

theorem refines_pagePut {inner width number : Nat} {header : List UInt8} (full : header.length = 32)
    (within : inner + width ≤ 32) :
    Job.Refines (Agrees host enclave (page header rest) fact)
      (Agrees host enclave (page (Packed.overwrite header inner (le width number)) rest) fact)
      (putNumber (baseAddr host enclave + .ofNat (73728 + inner)) width number)
      (.emit ⟨baseAddr host enclave + .ofNat (73728 + inner), width⟩ id) := by
  have written := @refines_put host enclave (page header rest) fact (73728 + inner)
    (le width number).length ((le width number).getD · 0) (by omega) (by rw [Packed.le_length]; omega)
  rw [page, ← full, ByteMemory.overlay_overwrite rest (by rw [Packed.le_length]; omega), Packed.le_length,
    full] at written
  exact written

/-- The long-call page once it is enabled: the flags, the APIC and the vector of
the host, no CPU and no vector of the enclave, the size, and no data -/
def lcallHeader (host : Host) : List UInt8 :=
  le 8 1 ++ le 4 (host.cpuPresentToApicid 0).toNat ++ le 4 (host.lcallVector.getD 0).toNat ++ le 4 0 ++ le 4 0 ++
    le 4 4064 ++ le 4 0

theorem lcallHeader_written (apic vector : Int) :
    Packed.overwrite (Packed.overwrite (Packed.overwrite (Packed.overwrite (List.replicate 32 0) 8 (le 4 apic)) 12
      (le 4 vector)) 24 (le 4 4064)) 0 (le 8 1) =
      le 8 1 ++ le 4 apic ++ le 4 vector ++ le 4 0 ++ le 4 0 ++ le 4 4064 ++ le 4 0 := by
  rfl

theorem not_ready {memory : ByteMemory} {params : BootParams} {header : List UInt8}
    (agrees : Agrees host enclave (page header rest) fact memory params) (clear : header.take 8 = List.replicate 8 0) :
    ready (baseAddr host enclave + .ofNat 73728) memory = false := by
  have zero : memory.word (baseAddr host enclave + .ofNat 73728) = 0 := by
    apply agrees.word_behind (by decide) (by decide)
    intro index bound
    rw [page, ByteMemory.overlay_inside _ _ (by omega), UInt64.toNat_zero, Nat.cast_zero, Packed.le_zero, ← clear]
    simp only [List.getD_eq_getElem?_getD, List.getElem?_take, bound, if_true]
  rw [ready, zero]
  decide

theorem refines_xbufServerInit (room : 81920 ≤ enclave.bootmemSize.toNat)
    (zero : ∀ index < 32, rest (73728 + index) = 0) :
    Job.Refines (Agrees host enclave rest fact)
      (Agrees host enclave (page (Packed.overwrite (Packed.overwrite (Packed.overwrite (List.replicate 32 0) 8
        (le 4 (host.cpuPresentToApicid 0).toNat)) 12 (le 4 (host.lcallVector.getD 0).toNat)) 24 (le 4 4064)) rest) fact)
      (xbufServerInit host (baseAddr host enclave + .ofNat 73728) 0x1000)
      (Params.xbufServerInit host enclave (baseAddr host enclave + .ofNat 73728)) := by
  have blank : page (List.replicate 32 0) rest = rest := by
    apply ByteMemory.overlay_same
    intro index bound
    rw [getD_replicate_zero, zero index bound]
  have apic : baseAddr host enclave + .ofNat 73728 + 8 = baseAddr host enclave + .ofNat (73728 + 8) :=
    offset_add _ 73728 8
  have vector : baseAddr host enclave + .ofNat 73728 + 12 = baseAddr host enclave + .ofNat (73728 + 12) :=
    offset_add _ 73728 12
  have total : baseAddr host enclave + .ofNat 73728 + 24 = baseAddr host enclave + .ofNat (73728 + 24) :=
    offset_add _ 73728 24
  have fresh : Params.longcallReady host enclave = false := by
    have cleared : Params.longcallOffset < enclave.bootmemSize := by
      rw [UInt64.lt_iff_toNat_lt, Params.longcallOffset_eq]
      exact Nat.lt_of_lt_of_le (by decide) room
    rw [Params.longcallReady, if_pos cleared]
  simp only [xbufServerInit, Params.xbufServerInit, apic, vector, total]
  have known : ∀ memory params, Agrees host enclave rest fact memory params →
      ready (baseAddr host enclave + .ofNat 73728) memory = false := by
    intro memory params agrees
    rw [← blank] at agrees
    exact not_ready agrees rfl
  have wiped := @refines_put host enclave rest fact 73728 32 (fun _ => 0) (by decide) (by decide)
  rw [ByteMemory.overlay_same fun index bound => (zero index bound).symm] at wiped
  have length : ((0x1000 : UInt64).toUInt32 - 32).toNat = 4064 := by decide
  rw [length]
  refine Job.refines_read_known known (Job.refines_bind (Job.refines_require _ (by simp only [fresh])) fun _ => ?_)
  refine Job.refines_bind (Job.refines_require _ Iff.rfl) fun _ => Job.refines_bind wiped fun _ => ?_
  refine Job.refines_bind (Job.refines_require _ Iff.rfl) fun _ => ?_
  nth_rewrite 1 [← blank]
  refine Job.refines_bind (refines_pagePut rfl (by decide)) fun _ => ?_
  refine Job.refines_bind (refines_pagePut rfl (by decide)) fun _ => ?_
  exact refines_pagePut rfl (by decide)

theorem refines_xbufEnable {header : List UInt8} (full : header.length = 32)
    (clear : header.take 8 = List.replicate 8 0) :
    Job.Refines (Agrees host enclave (page header rest) fact)
      (Agrees host enclave (page (Packed.overwrite header 0 (le 8 1)) rest) fact)
      (xbufEnable (baseAddr host enclave + .ofNat 73728)) (.emit ⟨baseAddr host enclave + .ofNat 73728, 8⟩ id) := by
  refine Job.refines_read_known (fun _ _ agrees => not_ready agrees clear) ?_
  exact @refines_pagePut host enclave rest fact 0 8 1 header full (by decide)

theorem refines_longcallBuffer (room : 81920 ≤ enclave.bootmemSize.toNat)
    (zero : ∀ index < 32, rest (73728 + index) = 0) :
    Job.Refines (Agrees host enclave rest fun _ => True)
      (Agrees host enclave (page (lcallHeader host) rest) fun _ => True)
      (longcallBuffer host enclave) (Params.longcallBuffer host enclave) := by
  let place := host.pa (baseAddr host enclave + .ofNat 73728)
  have buffer : baseAddr host enclave + Params.longcallOffset = baseAddr host enclave + .ofNat 73728 :=
    congrArg _ Params.longcallOffset_eq
  have named := @refines_setWord host enclave rest .longcallBufAddr place (fun _ => True) (·.longcallBufAddr = place)
    rfl fun _ _ => rfl
  have sized := @refines_setWord host enclave rest .longcallBufSize 0x1000 (·.longcallBufAddr = place)
    (fun params => params.longcallBufAddr = place ∧ params.longcallBufSize = 0x1000) rfl fun _ given => ⟨given, rfl⟩
  simp only [longcallBuffer, Params.longcallBuffer, piscesLcallInit, Params.piscesLcallInit, buffer]
  refine Job.refines_bind named fun _ => Job.refines_bind sized fun _ => ?_
  refine Job.refines_read_bind
    (fun _ _ agrees => ⟨agrees.getWord_eq rfl (le_congr agrees.fact.1), agrees.fact.1⟩) ?_
  refine Job.refines_read_known (fun _ _ agrees => agrees.getWord_eq rfl (le_congr agrees.fact.2)) ?_
  rw [Params.Host.va_pa]
  refine Job.refines_bind (refines_xbufServerInit room zero) fun _ => ?_
  refine Job.refines_bind (Job.refines_require _ Iff.rfl) fun _ => ?_
  rw [lcallHeader, ← lcallHeader_written]
  exact refines_forget (refines_xbufEnable rfl rfl)

theorem refines_xpmemBuffer (zero : ∀ index < 32, rest (77824 + index) = 0) :
    Job.Refines (Agrees host enclave rest fun _ => True) (Agrees host enclave rest fun _ => True)
      (xpmemBuffer host enclave) (Params.xpmemBuffer host enclave) := by
  let place := host.pa (baseAddr host enclave + .ofNat 77824)
  have page : baseAddr host enclave + Params.xpmemOffset = baseAddr host enclave + .ofNat 77824 :=
    congrArg _ Params.xpmemOffset_eq
  have named := @refines_setWord host enclave rest .xpmemBufAddr place (fun _ => True) (·.xpmemBufAddr = place)
    rfl fun _ _ => rfl
  have sized := @refines_setWord host enclave rest .xpmemBufSize 0x1000 (·.xpmemBufAddr = place)
    (·.xpmemBufAddr = place) rfl fun _ given => given
  simp only [xpmemBuffer, Params.xpmemBuffer, page]
  refine Job.refines_bind named fun _ => Job.refines_bind sized fun _ => ?_
  apply refines_forget
  split
  · refine Job.refines_read_bind (fun _ _ agrees => ⟨agrees.getWord_eq rfl (le_congr agrees.fact), agrees.fact⟩) ?_
    rw [Params.Host.va_pa]
    refine Job.refines_bind (refines_xbufClientInit (by decide) (by decide) zero host.xpmemAllocated) fun _ => ?_
    exact Job.refines_bind (Job.refines_require _ Iff.rfl) fun _ => Job.refines_require _ Iff.rfl
  · exact Job.refines_pure ()

section Loop

variable {file : File} {contents : Nat → UInt8} {sizeField : Field} {target : UInt64} {bytesRead : Nat}
  {memory : ByteMemory}

theorem loadLoop_done (finished : ¬ bytesRead < (getWord host enclave sizeField memory).toNat) :
    loadLoop host enclave file contents sizeField target bytesRead memory = ⟨[], memory, .ok ()⟩ := by
  rw [loadLoop]
  exact dif_neg finished

theorem loadLoop_fails (more : bytesRead < (getWord host enclave sizeField memory).toNat)
    (refused : fileRead file ((getWord host enclave sizeField memory).toNat - bytesRead) bytesRead = none) :
    loadLoop host enclave file contents sizeField target bytesRead memory = ⟨[], memory, .error .failed⟩ := by
  rw [loadLoop]
  simp only [more, dif_pos]
  split
  next => rfl
  next ret given => cases refused.symm.trans given

theorem loadLoop_reads {ret : Nat} (more : bytesRead < (getWord host enclave sizeField memory).toNat)
    (given : fileRead file ((getWord host enclave sizeField memory).toNat - bytesRead) bytesRead = some ret) :
    loadLoop host enclave file contents sizeField target bytesRead memory =
      let rest := loadLoop host enclave file contents sizeField target (bytesRead + ret)
        (memory.put (target + .ofNat bytesRead) ret fun index => contents (bytesRead + index))
      { rest with events := ⟨target + .ofNat bytesRead, ret⟩ :: rest.events } := by
  rw [loadLoop]
  simp only [more, dif_pos]
  split
  next refused => cases refused.symm.trans given
  next found other =>
    cases other.symm.trans given
    rfl

theorem loadLoop_runs {start : Nat} (behind : 1288 ≤ start) (fits : start + file.size.toNat ≤ 0x10000000000000000)
    (wide : sizeField.bytes = 8) (sized : ∀ params, fact params → encode params sizeField = le 8 file.size.toNat)
    (within : bytesRead ≤ file.size.toNat) (params : BootParams) :
    let expected := Params.loadLoop file (baseAddr host enclave + .ofNat start) bytesRead
    ∀ memory, Agrees host enclave (ByteMemory.overlay start bytesRead contents rest) fact memory params →
      let run := loadLoop host enclave file contents sizeField (baseAddr host enclave + .ofNat start) bytesRead memory
      run.events = expected.1 ∧ run.answer = (if expected.2 then .ok () else .error .failed) ∧
        (expected.2 = true →
          Agrees host enclave (ByteMemory.overlay start file.size.toNat contents rest) fact run.state params) := by
  intro expected
  subst expected
  fun_induction Params.loadLoop file (baseAddr host enclave + .ofNat start) bytesRead with
  | case1 bytesRead more refused =>
      intro memory agrees
      have size := agrees.getWord_eq wide (sized params agrees.fact)
      rw [loadLoop_fails (by rwa [size]) (by rwa [size])]
      exact ⟨rfl, rfl, fun goes => by cases goes⟩
  | case2 bytesRead more ret given later ih =>
      intro memory agrees
      have size := agrees.getWord_eq wide (sized params agrees.fact)
      have bounds := fileRead_bounds (by omega) given
      have written := (@refines_put host enclave (ByteMemory.overlay start bytesRead contents rest) fact
        (start + bytesRead) ret (fun index => contents (bytesRead + index)) (by omega) (by omega)
        memory params agrees).2.2 () rfl
      rw [ByteMemory.overlay_extend, ← offset_add] at written
      obtain ⟨events, answer, left⟩ := ih (by omega) _ written
      rw [loadLoop_reads (by rwa [size]) (by rwa [size])]
      exact ⟨congrArg (_ :: ·) events, answer, left⟩
  | case3 bytesRead finished =>
      intro memory agrees
      have size := agrees.getWord_eq wide (sized params agrees.fact)
      have whole : bytesRead = file.size.toNat := by omega
      rw [loadLoop_done (by rwa [size])]
      exact ⟨rfl, rfl, fun _ => whole ▸ agrees⟩

/-- A file that is too large is refused by both. -/
theorem refines_loadFile {start : Nat} (behind : 1288 ≤ start)
    (fits : file.size.toNat < 0x8000000000000000 → start + file.size.toNat ≤ 0x10000000000000000)
    (wide : sizeField.bytes = 8) (sized : ∀ params, fact params → encode params sizeField = le 8 file.size.toNat) :
    Job.Refines (Agrees host enclave rest fact)
      (fun memory params => file.size.toNat < 0x8000000000000000 ∧
        Agrees host enclave (ByteMemory.overlay start file.size.toNat contents rest) fact memory params)
      (loadLoop host enclave file contents sizeField (baseAddr host enclave + .ofNat start) 0)
      (Params.loadFile file (baseAddr host enclave + .ofNat start)) := by
  intro memory params agrees
  by_cases small : file.size.toNat < 0x8000000000000000
  · have nothing : ByteMemory.overlay start 0 contents rest = rest := ByteMemory.overlay_same (by omega)
    rw [← nothing] at agrees
    obtain ⟨events, answer, left⟩ := loadLoop_runs behind (fits small) wide sized (Nat.zero_le _) params memory agrees
    refine ⟨events, answer, fun _ goes => ⟨small, left ?_⟩⟩
    by_contra stopped
    simp only [Job.Answers, Params.loadFile, stopped, if_false] at goes
    cases goes
  · have size := agrees.getWord_eq wide (sized params agrees.fact)
    have refused := Params.loadLoop_refused file (baseAddr host enclave + .ofNat start) (Nat.le_of_not_lt small)
    have unread : fileRead file (file.size.toNat - 0) 0 = none := by
      simp [fileRead, Nat.not_lt.mpr (Nat.le_of_not_lt small)]
    have stops : ∀ answer, ¬ (Params.loadFile file (baseAddr host enclave + .ofNat start)).Answers params answer :=
      fun _ goes => small ((Params.loadFile_answers file _ params).mp goes).1
    rw [loadLoop_fails (by rw [size]; omega) (by rwa [size])]
    refine ⟨?_, ?_, fun answer goes => absurd goes (stops answer)⟩
    · rw [Params.loadFile, refused]
    · rw [Params.loadFile, refused]
      rfl

end Loop

section Images

variable {images : Images}

/-- The kernel is in memory, and its size in the parameter block. -/
def HoldsKernel (host : Host) (enclave : Enclave) (images : Images) (rest : Nat → UInt8) (memory : ByteMemory)
    (params : BootParams) : Prop :=
  ∃ kernel, enclave.kernFile = some kernel ∧ kernel.size.toNat < 0x8000000000000000 ∧
    Agrees host enclave (ByteMemory.overlay 0x200000 kernel.size.toNat images.kernel rest) (·.kernelSize = kernel.size)
      memory params

def HoldsInitrd (host : Host) (enclave : Enclave) (images : Images) (rest : Nat → UInt8) (memory : ByteMemory)
    (params : BootParams) : Prop :=
  ∃ kernel initrd, enclave.kernFile = some kernel ∧ enclave.initFile = some initrd ∧
    Agrees host enclave (ByteMemory.overlay (Params.initrdStart kernel.size.toNat) initrd.size.toNat images.initrd
      (ByteMemory.overlay 0x200000 kernel.size.toNat images.kernel rest)) (fun _ => True) memory params

theorem refines_kernelImage :
    Job.Refines (Agrees host enclave rest fun _ => True) (HoldsKernel host enclave images rest)
      (kernelImage host enclave images) (Params.kernelImage host enclave) := by
  refine Job.refines_bind (Job.refines_require _ Iff.rfl) fun _ => ?_
  have target : baseAddr host enclave + Params.kernelOffset = baseAddr host enclave + .ofNat 0x200000 :=
    congrArg _ Params.kernelOffset_eq
  rw [loadKernel, Params.loadKernel, target]
  cases isKernel : enclave.kernFile with
  | none => exact Job.refines_stop _
  | some kernel =>
      have sized := @refines_setWord host enclave rest .kernelSize kernel.size (fun _ => True)
        (·.kernelSize = kernel.size) rfl fun _ _ => rfl
      refine Job.refines_bind (refines_word rfl) fun _ => Job.refines_bind sized fun _ => ?_
      have loaded := @refines_loadFile host enclave rest (·.kernelSize = kernel.size) kernel images.kernel .kernelSize
        0x200000 (by decide) (by omega) rfl fun _ given => le_congr given
      exact loaded.weaken (fun _ _ agrees => agrees) fun _ _ holds => ⟨kernel, isKernel, holds⟩

theorem refines_initrdImage {kernel : File} (isKernel : enclave.kernFile = some kernel)
    (small : kernel.size.toNat < 0x8000000000000000)
    (unwrapped : ∀ initrd, enclave.initFile = some initrd → initrd.size.toNat < 0x8000000000000000 →
      Params.initrdStart kernel.size.toNat + initrd.size.toNat ≤ 0x10000000000000000) :
    Job.Refines
      (Agrees host enclave (ByteMemory.overlay 0x200000 kernel.size.toNat images.kernel rest)
        (·.kernelSize = kernel.size))
      (HoldsInitrd host enclave images rest) (initrdImage host enclave images) (Params.initrdImage host enclave) := by
  have target : baseAddr host enclave + Params.initrdOffset kernel.size =
      baseAddr host enclave + .ofNat (Params.initrdStart kernel.size.toNat) := by
    rw [← Params.toNat_initrdOffset kernel.size small, UInt64.ofNat_toNat]
  have behind : 1288 ≤ Params.initrdStart kernel.size.toNat := by
    rw [Params.initrdStart]
    omega
  refine Job.refines_read_bind (fun _ _ agrees => ⟨agrees.getWord_eq rfl (le_congr agrees.fact), agrees.fact⟩) ?_
  rw [loadInitrd, Params.loadInitrd, target]
  cases isInitrd : enclave.initFile with
  | none => exact Job.refines_stop _
  | some initrd =>
      let behindKernel := ByteMemory.overlay 0x200000 kernel.size.toNat images.kernel rest
      have placed := @refines_setWord host enclave behindKernel .initrdAddr
        (host.pa (baseAddr host enclave + .ofNat (Params.initrdStart kernel.size.toNat))) (·.kernelSize = kernel.size)
        (fun _ => True) rfl fun _ _ => trivial
      have sized := @refines_setWord host enclave behindKernel .initrdSize initrd.size (fun _ => True)
        (·.initrdSize = initrd.size) rfl fun _ _ => rfl
      have loaded := @refines_loadFile host enclave behindKernel (·.initrdSize = initrd.size) initrd images.initrd
        .initrdSize _ behind (unwrapped initrd isInitrd) rfl fun _ given => le_congr given
      refine Job.refines_bind placed fun _ => Job.refines_bind sized fun _ => ?_
      exact loaded.weaken (fun _ _ agrees => agrees)
        fun _ _ holds => ⟨kernel, initrd, isKernel, isInitrd, holds.2.forget⟩

/-- The initrd does not reach past the last address. -/
def Unwrapped (enclave : Enclave) : Prop :=
  ∀ kernel initrd, enclave.kernFile = some kernel → enclave.initFile = some initrd →
    kernel.size.toNat < 0x8000000000000000 → initrd.size.toNat < 0x8000000000000000 →
    Params.initrdStart kernel.size.toNat + initrd.size.toNat ≤ 0x10000000000000000

theorem refines_setupBootParams (original : ByteMemory) (room : 81920 ≤ enclave.bootmemSize.toNat)
    (unwrapped : Unwrapped enclave) :
    Job.Refines (fun memory params => memory = original ∧ params = cleared)
      (HoldsInitrd host enclave images (page (lcallHeader host) (blank host enclave original)))
      (setupBootParams host enclave images) (Params.setupBootParams host enclave) := by
  have zero : ∀ offset < 81920, blank host enclave original offset = 0 := by
    intro offset bound
    rw [blank, if_pos (by omega)]
  have behindPage : ∀ index < 32, page (lcallHeader host) (blank host enclave original) (77824 + index) = 0 := by
    intro index bound
    rw [page, ByteMemory.overlay_outside _ _ (by omega), zero _ (by omega)]
  refine Job.refines_bind (refines_clearBootmem original (by omega)) fun _ => ?_
  refine Job.refines_bind (Job.refines_require _ Iff.rfl) fun _ => ?_
  refine Job.refines_bind refines_copyLaunchCode fun _ => ?_
  refine Job.refines_bind refines_basicParameters fun _ => ?_
  refine Job.refines_bind (refines_consoleRing fun index bound => zero _ (by omega)) fun _ => ?_
  refine Job.refines_bind (refines_controlBuffer fun index bound => zero _ (by omega)) fun _ => ?_
  refine Job.refines_bind (refines_longcallBuffer room fun index bound => zero _ (by omega)) fun _ => ?_
  refine Job.refines_bind (refines_xpmemBuffer behindPage) fun _ => ?_
  refine Job.refines_bind refines_kernelImage fun _ => ?_
  intro memory params ⟨kernel, isKernel, small, agrees⟩
  exact refines_initrdImage isKernel small (fun initrd isInitrd => unwrapped kernel initrd isKernel isInitrd small)
    memory params agrees

end Images

end Relation

/-- The byte is one of the `size` bytes from `start` on. -/
def Within (place start : UInt64) (size : Nat) : Prop := (place - start).toNat < size

instance (place start : UInt64) (size : Nat) : Decidable (Within place start size) :=
  inferInstanceAs (Decidable (_ < _))

theorem within_base {base : UInt64} {start size offset : Nat} (fits : start + size ≤ 0x10000000000000000)
    (bound : offset < 0x10000000000000000) :
    Within (base + .ofNat offset) (base + .ofNat start) size ↔ start ≤ offset ∧ offset < start + size := by
  rw [Within, ByteMemory.toNat_sub_base base (by omega) bound]
  split <;> omega

theorem within_start {base : UInt64} {size offset : Nat} (fits : size ≤ 0x10000000000000000)
    (bound : offset < 0x10000000000000000) : Within (base + .ofNat offset) base size ↔ offset < size := by
  have start : base + .ofNat 0 = base := UInt64.add_zero base
  have range := @within_base base 0 size offset (by omega) bound
  rw [start] at range
  rw [range]
  omega

/-- What a successful set-up leaves in memory: every byte of the address space -/
structure Image (host : Host) (enclave : Enclave) (images : Images) (original memory : ByteMemory) (params : BootParams) :
    Prop where
  fields : ∀ field : Field, ∀ index < field.bytes,
    memory (baseAddr host enclave + .ofNat (field.offset + index)) = (encode params field).getD index 0
  longcall : ∀ index < 32, memory (host.va params.longcallBufAddr + .ofNat index) = (lcallHeader host).getD index 0
  kernel : ∀ index < params.kernelSize.toNat, memory (host.va params.kernelAddr + .ofNat index) = images.kernel index
  initrd : ∀ index < params.initrdSize.toNat, memory (host.va params.initrdAddr + .ofNat index) = images.initrd index
  others : ∀ place, ¬ Within place (baseAddr host enclave) 1288 → ¬ Within place (host.va params.longcallBufAddr) 32 →
    ¬ Within place (host.va params.kernelAddr) params.kernelSize.toNat →
    ¬ Within place (host.va params.initrdAddr) params.initrdSize.toNat →
    memory place = if Within place (baseAddr host enclave) enclave.bootmemSize.toNat then 0 else original place

theorem initrdStart_behind (kernelSize : Nat) : 0x200000 + kernelSize ≤ Params.initrdStart kernelSize := by
  rw [Params.initrdStart]
  omega

theorem Agrees.image {host : Host} {enclave : Enclave} {images : Images} {original memory : ByteMemory}
    {params : BootParams}
    {kernel initrd : File} (records : params.Records host enclave kernel initrd)
    (fits : Params.initrdStart kernel.size.toNat + initrd.size.toNat ≤ 0x10000000000000000)
    (agrees : Agrees host enclave
      (ByteMemory.overlay (Params.initrdStart kernel.size.toNat) initrd.size.toNat images.initrd
      (ByteMemory.overlay 0x200000 kernel.size.toNat images.kernel
        (page (lcallHeader host) (blank host enclave original))))
      (fun _ => True) memory params)
    (small : kernel.size.toNat < 0x8000000000000000) : Image host enclave images original memory params := by
  have apart := initrdStart_behind kernel.size.toNat
  have longcallPlace : host.va params.longcallBufAddr = baseAddr host enclave + .ofNat 73728 := by
    rw [records.longcallBufAddr, Params.Host.va_pa, Params.longcallOffset_eq]
    rfl
  have kernelPlace : host.va params.kernelAddr = baseAddr host enclave + .ofNat 0x200000 := by
    rw [records.kernelAddr, Params.Host.va_pa, Params.kernelOffset_eq]
    rfl
  have initrdPlace : host.va params.initrdAddr =
      baseAddr host enclave + .ofNat (Params.initrdStart kernel.size.toNat) := by
    rw [records.initrdAddr, Params.Host.va_pa, ← Params.toNat_initrdOffset kernel.size small, UInt64.ofNat_toNat]
  constructor
  case fields => exact agrees.fields
  case longcall =>
    intro index bound
    rw [longcallPlace, offset_add, agrees.rest _ (by omega) (by omega), ByteMemory.overlay_outside _ _ (by omega),
      ByteMemory.overlay_outside _ _ (by omega), page, ByteMemory.overlay_inside _ _ bound]
  case kernel =>
    intro index bound
    rw [records.kernelSize] at bound
    rw [kernelPlace, offset_add, agrees.rest _ (by omega) (by omega), ByteMemory.overlay_outside _ _ (by omega),
      ByteMemory.overlay_inside _ _ bound]
  case initrd =>
    intro index bound
    rw [records.initrdSize] at bound
    rw [initrdPlace, offset_add, agrees.rest _ (by omega) (by omega), ByteMemory.overlay_inside _ _ bound]
  case others =>
    intro place params_apart longcall_apart kernel_apart initrd_apart
    have offset_bound := (place - baseAddr host enclave).toNat_lt
    have shown : place = baseAddr host enclave + .ofNat (place - baseAddr host enclave).toNat := by
      rw [UInt64.ofNat_toNat, UInt64.add_comm, UInt64.sub_add_cancel]
    have size_bound := enclave.bootmemSize.toNat_lt
    simp only [Nat.reducePow] at offset_bound size_bound
    generalize (place - baseAddr host enclave).toNat = offset at offset_bound shown
    subst shown
    rw [within_start (by decide) offset_bound] at params_apart
    rw [longcallPlace, within_base (by decide) offset_bound] at longcall_apart
    rw [kernelPlace, records.kernelSize, within_base (by omega) offset_bound] at kernel_apart
    rw [initrdPlace, records.initrdSize, within_base fits offset_bound] at initrd_apart
    simp only [within_start (Nat.le_of_lt size_bound) offset_bound]
    rw [agrees.rest offset (by omega) offset_bound, ByteMemory.overlay_outside _ _ (by omega),
      ByteMemory.overlay_outside _ _ (by omega), page, ByteMemory.overlay_outside _ _ (by omega), blank]

/-- The parameter block that the enclave is given names the two images and the
long-call page, and what it names is there: the set-up answers and writes as on
the record of the parameters, and when it succeeds the whole memory is known. -/
theorem boot_image_complete (host : Host) (enclave : Enclave) (images : Images) (original : ByteMemory)
    (room : 81920 ≤ enclave.bootmemSize.toNat) (unwrapped : Unwrapped enclave) :
    let run := setupBootParams host enclave images original
    let recorded := Params.setupBootParams host enclave cleared
    run.events = recorded.events ∧
      (run.answer = .ok () ↔ host.ChannelsReady enclave ∧ enclave.Loads) ∧
      (run.answer = .ok () → Image host enclave images original run.state recorded.state) := by
  intro run recorded
  obtain ⟨events, answer, left⟩ :=
    @refines_setupBootParams host enclave images original room unwrapped original cleared ⟨rfl, rfl⟩
  have same : run.answer = .ok () ↔ (Params.setupBootParams host enclave).Answers cleared () := by
    rw [Job.Answers, ← answer]
  refine ⟨events, same.trans (Params.setupBootParams_answers cleared), fun goes => ?_⟩
  obtain ⟨ready, kernel, initrd, isKernel, kernelLoads, isInitrd, initrdLoads⟩ :=
    (Params.setupBootParams_answers cleared).mp (same.mp goes)
  obtain ⟨kernel', initrd', isKernel', isInitrd', agrees⟩ := left () (same.mp goes)
  cases isKernel.symm.trans isKernel'
  cases isInitrd.symm.trans isInitrd'
  exact agrees.image (Params.setupBootParams_records cleared ready isKernel kernelLoads isInitrd)
    (unwrapped kernel initrd isKernel isInitrd kernelLoads.1 initrdLoads.1) kernelLoads.1

/-- A kernel that counts up and an initrd of one byte repeated -/
def plainImages : Images where
  kernel index := .ofNat index
  initrd _ := 0x69

theorem boot_image_complete_crowded : Image Params.readyHost Params.crowdedEnclave plainImages (fun _ => 0xCC)
    (setupBootParams Params.readyHost Params.crowdedEnclave plainImages fun _ => 0xCC).state
    (Params.setupBootParams Params.readyHost Params.crowdedEnclave cleared).state := by
  have unwrapped : Unwrapped Params.crowdedEnclave := by
    intro kernel initrd isKernel isInitrd _ _
    cases isKernel
    cases isInitrd
    decide
  have loads : Params.crowdedEnclave.Loads :=
    ⟨_, _, rfl, ⟨by decide, by decide⟩, rfl, ⟨by decide, by decide⟩⟩
  obtain ⟨-, answers, image⟩ :=
    boot_image_complete Params.readyHost Params.crowdedEnclave plainImages (fun _ => 0xCC) (by decide) unwrapped
  exact image (answers.mpr ⟨Params.readyHost_channelsReady, loads⟩)

end Pisces.Boot.Contents
