import Pisces.Boot.Params
import Pisces.Boot.Tables
import Pisces.Packed

/-! # From the boot image to the kernel

`boot_enclave` fills in the launch code and has a CPU started at the beginning of
boot memory, in the tables of the trampoline.  Three instructions later the CPU
is to be in the kernel, with the page number of the parameter block in `esi`.
-/

namespace Pisces.Boot.Launch

open PageTable Tables Params

/-! ## The processor -/

/-- Memory as one CPU reads it -/
structure Machine where
  translate : Word → Option Word
  memory : Word → UInt8

structure Cpu where
  rip : Word
  rax : Word
  rsi : Word
  deriving DecidableEq

namespace Machine

/-- The bytes from a virtual address on; `none` is a page fault. -/
def load (machine : Machine) (va : Word) : Nat → Option (List UInt8)
  | 0 => some []
  | length + 1 =>
      (machine.translate va).bind fun pa => (machine.load (va + 1#64) length).map fun rest => machine.memory pa :: rest

def number (machine : Machine) (va : Word) (length : Nat) : Option Nat :=
  (machine.load va length).map Packed.value

/-- The `disp32` of an operand -/
def displacement (machine : Machine) (va : Word) : Option Word :=
  (machine.number va 4).map fun value => (BitVec.ofNat 32 value).signExtend 64

/-- One instruction in 64-bit mode: `mov disp32(%rip), %rax`, `mov disp32(%rip), %esi`
or `jmp *%rax`. No other one is decoded, and `hlt` is not passed. -/
def step (machine : Machine) (cpu : Cpu) : Option Cpu :=
  if machine.load cpu.rip 3 = some [0x48, 0x8b, 0x05] then
    (machine.displacement (cpu.rip + 3#64)).bind fun distance =>
      (machine.number (cpu.rip + 7#64 + distance) 8).map fun value =>
        { cpu with rip := cpu.rip + 7#64, rax := BitVec.ofNat 64 value }
  else if machine.load cpu.rip 2 = some [0x8b, 0x35] then
    (machine.displacement (cpu.rip + 2#64)).bind fun distance =>
      (machine.number (cpu.rip + 6#64 + distance) 4).map fun value =>
        { cpu with rip := cpu.rip + 6#64, rsi := BitVec.ofNat 64 value }
  else if machine.load cpu.rip 2 = some [0xff, 0xe0] then
    some { cpu with rip := cpu.rax }
  else none

def run (machine : Machine) : Nat → Cpu → Option Cpu
  | 0, cpu => some cpu
  | steps + 1, cpu => (machine.step cpu).bind (machine.run steps)

end Machine

/-! ## The launch code -/

/-- `launch_code.S` as assembled, up to `launch_code_esi` -/
def launchCodeAsm : List UInt8 :=
  [0x48, 0x8b, 0x05, 0x31, 0, 0, 0, 0x8b, 0x35, 0x23, 0, 0, 0, 0xff, 0xe0, 0xf4] ++ List.replicate 32 0

/-- From `launch_code_start` to `launch_code_end` -/
def launchCode : List UInt8 :=
  launchCodeAsm ++ List.replicate 16 0

/-- What `set_enclave_launch_args` makes of the launch code in the parameter block -/
def setEnclaveLaunchArgs (code : List UInt8) (targetAddr esi : Word) : List UInt8 :=
  code.take 48 ++ Packed.le 8 esi.toNat ++ Packed.le 8 targetAddr.toNat

/-- Memory after a block of bytes has been written -/
def place (memory : Word → UInt8) (address : Word) (bytes : List UInt8) : Word → UInt8 :=
  fun other => bytes.getD (other - address).toNat (memory other)

/-- What the CPU that `boot_enclave` starts finds, when the tables can be built. The PGD of
Linux's trampoline is then a copy of the first one of them. -/
def bootEnclave (data : TrampolineData) (tables : Memory) (memory : Word → UInt8) (enclave : Enclave)
    (params : BootParams) : Option Machine :=
  let bootmem := enclave.bootmemAddr.toBitVec
  let code := setEnclaveLaunchArgs params.launchCode params.kernelAddr.toBitVec (bootmem >>> 12)
  (setupTables data tables bootmem enclave.bootmemSize.toBitVec).map fun after =>
    { translate := walk after (frameAddr data.pml), memory := place memory bootmem code }

/-! ## Reading the launch code -/

variable {machine : Machine} {base : Word} {bytes : List UInt8}

/-- The CPU reads these bytes from `base` on. -/
def Machine.Holds (machine : Machine) (base : Word) (bytes : List UInt8) : Prop :=
  ∀ index (inside : index < bytes.length),
    ∃ pa, machine.translate (base + .ofNat 64 index) = some pa ∧ machine.memory pa = bytes[index]

theorem Machine.Holds.load (holds : machine.Holds base bytes) (start length : Nat)
    (inside : start + length ≤ bytes.length) :
    machine.load (base + .ofNat 64 start) length = some (Packed.slice bytes start length) := by
  induction length generalizing start with
  | zero => simp [Machine.load, Packed.slice]
  | succ length ih =>
      have here : start < bytes.length := by omega
      obtain ⟨pa, translates, byte⟩ := holds start here
      have next : base + BitVec.ofNat 64 start + 1#64 = base + BitVec.ofNat 64 (start + 1) := by
        rw [BitVec.add_assoc, BitVec.ofNat_add]
      have rest := ih (start + 1) (by omega)
      rw [Machine.load, translates, Option.bind_some, next, rest, Option.map_some, byte, Packed.slice, Packed.slice,
        List.drop_eq_getElem_cons here, List.take_succ_cons]

theorem Machine.Holds.displacement (holds : machine.Holds base bytes) (start : Nat) (inside : start + 4 ≤ bytes.length) :
    machine.displacement (base + .ofNat 64 start) =
      some ((BitVec.ofNat 32 (Packed.value (Packed.slice bytes start 4))).signExtend 64) := by
  rw [Machine.displacement, Machine.number, holds.load start 4 inside]
  rfl

theorem Machine.Holds.number (holds : machine.Holds base bytes) (start length : Nat)
    (inside : start + length ≤ bytes.length) :
    machine.number (base + .ofNat 64 start) length = some (Packed.value (Packed.slice bytes start length)) := by
  rw [Machine.number, holds.load start length inside]
  rfl

section Code

variable {target esi : Word}

theorem setEnclaveLaunchArgs_length : (setEnclaveLaunchArgs launchCode target esi).length = 64 := by
  simp [setEnclaveLaunchArgs, launchCode, launchCodeAsm]

theorem targetAddr_slice : Packed.slice (setEnclaveLaunchArgs launchCode target esi) 56 8 = Packed.le 8 target.toNat := by
  have split : setEnclaveLaunchArgs launchCode target esi =
      (launchCode.take 48 ++ Packed.le 8 esi.toNat) ++ Packed.le 8 target.toNat ++ [] := by
    rw [List.append_nil]
    rfl
  exact Packed.slice_eq split (by simp [launchCode, launchCodeAsm]) (Packed.le_length ..)

theorem esi_slice : Packed.slice (setEnclaveLaunchArgs launchCode target esi) 48 4 = Packed.le 4 esi.toNat := by
  have low : Packed.le 8 esi.toNat =
      Packed.le 4 esi.toNat ++ Packed.le 4 ((esi.toNat : Int) / 256 / 256 / 256 / 256) := rfl
  have split : setEnclaveLaunchArgs launchCode target esi =
      launchCode.take 48 ++ Packed.le 4 esi.toNat ++
        (Packed.le 4 ((esi.toNat : Int) / 256 / 256 / 256 / 256) ++ Packed.le 8 target.toNat) := by
    rw [setEnclaveLaunchArgs, low]
    simp only [List.append_assoc]
  exact Packed.slice_eq split (by simp [launchCode, launchCodeAsm]) (Packed.le_length ..)

theorem loadTarget (holds : machine.Holds base (setEnclaveLaunchArgs launchCode target esi)) (rax rsi : Word) :
    machine.step ⟨base, rax, rsi⟩ = some ⟨base + 7#64, target, rsi⟩ := by
  have all := @setEnclaveLaunchArgs_length target esi
  have opcode := holds.load 0 3 (by omega)
  have distance := holds.displacement 3 (by omega)
  have operand := holds.number 56 8 (by omega)
  have code : Packed.slice (setEnclaveLaunchArgs launchCode target esi) 0 3 = [0x48, 0x8b, 0x05] := rfl
  have ahead : (BitVec.ofNat 32 (Packed.value
      (Packed.slice (setEnclaveLaunchArgs launchCode target esi) 3 4))).signExtend 64 =
      0x31#64 := rfl
  rw [code, BitVec.add_zero] at opcode
  rw [ahead] at distance
  rw [targetAddr_slice, Packed.value_le target.isLt] at operand
  have address : base + 7#64 + 0x31#64 = base + BitVec.ofNat 64 56 := BitVec.add_assoc ..
  simp only [Machine.step]
  rw [if_pos opcode, distance, Option.bind_some, address, operand, Option.map_some, BitVec.ofNat_toNat,
    BitVec.setWidth_eq]

theorem loadEsi (holds : machine.Holds base (setEnclaveLaunchArgs launchCode target esi)) (rax rsi : Word) :
    machine.step ⟨base + 7#64, rax, rsi⟩ =
      some ⟨base + 13#64, rax, BitVec.ofNat 64 (Packed.value (Packed.le 4 esi.toNat))⟩ := by
  have all := @setEnclaveLaunchArgs_length target esi
  have other := holds.load 7 3 (by omega)
  have opcode := holds.load 7 2 (by omega)
  have distance := holds.displacement 9 (by omega)
  have operand := holds.number 48 4 (by omega)
  have otherCode : Packed.slice (setEnclaveLaunchArgs launchCode target esi) 7 3 = [0x8b, 0x35, 0x23] := rfl
  have code : Packed.slice (setEnclaveLaunchArgs launchCode target esi) 7 2 = [0x8b, 0x35] := rfl
  have ahead : (BitVec.ofNat 32 (Packed.value
      (Packed.slice (setEnclaveLaunchArgs launchCode target esi) 9 4))).signExtend 64 =
      0x23#64 := rfl
  rw [otherCode] at other
  rw [code] at opcode
  rw [ahead] at distance
  rw [esi_slice] at operand
  have notFirst : machine.load (base + 7#64) 3 ≠ some [0x48, 0x8b, 0x05] := by
    rw [other]
    decide
  have displaced : base + 7#64 + 2#64 = base + BitVec.ofNat 64 9 := BitVec.add_assoc ..
  have next : base + 7#64 + 6#64 = base + 13#64 := BitVec.add_assoc ..
  have address : base + 13#64 + 0x23#64 = base + BitVec.ofNat 64 48 := BitVec.add_assoc ..
  simp only [Machine.step]
  rw [if_neg notFirst, if_pos opcode, displaced, distance, Option.bind_some, next, address, operand, Option.map_some]

theorem jumpTarget (holds : machine.Holds base (setEnclaveLaunchArgs launchCode target esi)) (rax rsi : Word) :
    machine.step ⟨base + 13#64, rax, rsi⟩ = some ⟨rax, rax, rsi⟩ := by
  have all := @setEnclaveLaunchArgs_length target esi
  have other := holds.load 13 3 (by omega)
  have opcode := holds.load 13 2 (by omega)
  have otherCode : Packed.slice (setEnclaveLaunchArgs launchCode target esi) 13 3 = [0xff, 0xe0, 0xf4] := rfl
  have code : Packed.slice (setEnclaveLaunchArgs launchCode target esi) 13 2 = [0xff, 0xe0] := rfl
  rw [otherCode] at other
  rw [code] at opcode
  have notFirst : machine.load (base + 13#64) 3 ≠ some [0x48, 0x8b, 0x05] := by
    rw [other]
    decide
  have notSecond : machine.load (base + 13#64) 2 ≠ some [0x8b, 0x35] := by
    rw [opcode]
    decide
  simp only [Machine.step]
  rw [if_neg notFirst, if_neg notSecond, if_pos opcode]

theorem launch_runs (holds : machine.Holds base (setEnclaveLaunchArgs launchCode target esi)) (rax rsi : Word) :
    machine.run 3 ⟨base, rax, rsi⟩ =
      some ⟨target, target, BitVec.ofNat 64 (Packed.value (Packed.le 4 esi.toNat))⟩ := by
  rw [Machine.run, loadTarget holds, Option.bind_some, Machine.run, loadEsi holds, Option.bind_some, Machine.run,
    jumpTarget holds, Option.bind_some, Machine.run]

end Code

theorem fetch_fault {rip rax rsi : Word} (fault : machine.translate rip = none) :
    machine.step ⟨rip, rax, rsi⟩ = none := by
  have nothing : ∀ length, machine.load rip (length + 1) = none := by
    intro length
    rw [Machine.load, fault, Option.bind_none]
  simp [Machine.step, nothing]

/-! ## What is set up -/

section SetUp

variable {host : Host} {enclave : Enclave} {found : BootParams}

theorem copyLaunchCode_launchCode (code : host.launchCode.length = 64) :
    (copyLaunchCode host enclave found).state.launchCode = host.launchCode := by
  have passes :
      (Job.require (host.launchCode.length = Field.launchCode.bytes) .failed : SetupJob Unit).Answers found () :=
    (Job.answers_require ..).mpr code
  rw [copyLaunchCode, Job.state_then _ _ passes, store_state]

theorem basicParameters_launchCode : (basicParameters host enclave found).state.launchCode = found.launchCode := by
  simp only [basicParameters, store_then_state, store_state]

theorem setupBootParams_launchCode (answers : (setupBootParams host enclave).Answers found ()) :
    (setupBootParams host enclave found).state.launchCode = host.launchCode := by
  obtain ⟨⟨⟨mapped, code⟩, serves, joins⟩, kernel, initrd, isKernel, kernelLoads, isInitrd, -⟩ :=
    (setupBootParams_answers found).mp answers
  have cleared : (clearBootmem host enclave).Answers found () := (Job.answers_emit ..).mpr trivial
  rw [setupBootParams, Job.state_then _ _ cleared, Job.state_then _ _ ((Job.answers_require ..).mpr mapped),
    Job.state_then _ _ ((copyLaunchCode_answers _).mpr code), Job.state_then _ _ (basicParameters_answers _),
    Job.state_then _ _ (consoleRing_answers _), Job.state_then _ _ (controlBuffer_answers _),
    Job.state_then _ _ ((longcallBuffer_answers _).mpr serves),
    Job.state_then _ _ ((xpmemBuffer_answers _).mpr joins),
    Job.state_then _ _ ((kernelImage_answers _).mpr ⟨kernel, isKernel, kernelLoads⟩)]
  -- Each state is named before the next, which would otherwise copy it once per field.
  have copied := @copyLaunchCode_launchCode host enclave
    (Job.require (baseAddr host enclave ≠ 0) .failed (clearBootmem host enclave found).state :
      Outcome Write BootParams Stop Unit).state code
  generalize (copyLaunchCode host enclave _).state = afterCopy at copied
  have basic := @basicParameters_launchCode host enclave afterCopy
  generalize (basicParameters host enclave afterCopy).state = afterBasic at basic
  have console := @consoleRing_state host enclave afterBasic
  generalize (consoleRing host enclave afterBasic).state = afterConsole at console
  have control := @controlBuffer_state host enclave afterConsole
  generalize (controlBuffer host enclave afterConsole).state = afterControl at control
  have longcall := @longcallBuffer_state host enclave afterControl
  generalize (longcallBuffer host enclave afterControl).state = afterLongcall at longcall
  have xpmem := @xpmemBuffer_state host enclave afterLongcall
  generalize (xpmemBuffer host enclave afterLongcall).state = afterXpmem at xpmem
  have kernelState := @kernelImage_state host enclave afterXpmem _ isKernel
  generalize (kernelImage host enclave afterXpmem).state = afterKernel at kernelState
  rw [initrdImage_state afterKernel isInitrd]
  simp only [kernelState, xpmem, longcall, control, console, basic, copied]

/-- Addresses below those of the kernel are mapped to themselves or not at all. -/
theorem setupTables_low (data : TrampolineData) (tables : Memory) {bootmemAddr bootmemSize : Word}
    (aligned : bootmemAddr.toNat % 0x200000 = 0) (granular : bootmemSize.toNat % 0x200000 = 0)
    (low : bootmemAddr.toNat + bootmemSize.toNat ≤ 0x800000000000) :
    ∃ after, setupTables data tables bootmemAddr bootmemSize = some after ∧ ∀ va : Word, va.toNat < kernVaBase.toNat →
      walk after (frameAddr data.pml) va =
        if va.toNat < 0x200000 ∨ bootmemAddr.toNat ≤ va.toNat ∧
          va.toNat < bootmemAddr.toNat + min bootmemSize.toNat (0x40000000 - bootmemAddr.toNat % 0x40000000)
        then some va else none := by
  obtain ⟨after, role, built, shaped, mapped⟩ := @setupTables_lookup data tables bootmemAddr bootmemSize granular
  refine ⟨after, built, fun va below => ?_⟩
  have notKernel : ¬ (kernVaBase.toNat ≤ va.toNat ∧ va.toNat - kernVaBase.toNat < min bootmemSize.toNat 0x40000000) := by
    omega
  rw [shaped.walk_eq, mapped]
  by_cases legal : canonical va = true
  case neg =>
    have gap := mt (canonical_iff va).mpr legal
    rw [if_neg legal, if_neg (by omega)]
  rw [if_pos legal]
  simp only [first_page_iff legal, identity_iff legal aligned granular low, kernel_iff legal granular (by omega)]
  rw [if_neg notKernel, Option.or_none]
  by_cases first : va.toNat < 0x200000
  · simp only [first, if_true, true_or, Option.some_or, Option.map_some, Option.some.injEq]
    apply BitVec.eq_of_toNat_eq
    rw [BitVec.zero_add, offset21_toNat]
    exact Nat.mod_eq_of_lt first
  · simp only [first, if_false, false_or, Option.none_or]
    by_cases identity : bootmemAddr.toNat ≤ va.toNat ∧
        va.toNat < bootmemAddr.toNat + min bootmemSize.toNat (0x40000000 - bootmemAddr.toNat % 0x40000000)
    · have page := identity_page aligned granular identity
      rw [if_pos identity, if_pos identity, Option.map_some, ofNat_page page, Option.some.injEq]
      exact page_plus_offset va (by omega) (by omega) (by omega)
    · rw [if_neg identity, if_neg identity, Option.map_none]

theorem place_bytes (memory : Word → UInt8) (base : Word) {bytes : List UInt8} (short : bytes.length ≤ 64) {index : Nat}
    (inside : index < bytes.length) : place memory base bytes (base + .ofNat 64 index) = bytes[index] := by
  have distance : (base + BitVec.ofNat 64 index - base).toNat = index := by
    rw [BitVec.add_comm, BitVec.add_sub_cancel, BitVec.toNat_ofNat]
    exact Nat.mod_eq_of_lt (by omega)
  rw [place, distance]
  simp [inside]

theorem value_le_lt (number : Nat) : Packed.value (Packed.le 4 number) < 0x100000000 := by
  have byte : ∀ byte : UInt8, byte.toNat < 256 := fun byte => byte.toNat_lt
  simp only [Packed.le, Packed.value]
  have first := byte (UInt8.ofNat ((number : Int) % 256).toNat)
  have second := byte (UInt8.ofNat ((number : Int) / 256 % 256).toNat)
  have third := byte (UInt8.ofNat ((number : Int) / 256 / 256 % 256).toNat)
  have fourth := byte (UInt8.ofNat ((number : Int) / 256 / 256 / 256 % 256).toNat)
  omega

/-- The page number in `esi` leads back to the parameter block when 32 bits hold it. -/
theorem esi_leads_iff {bootmem : Word} (aligned : bootmem.toNat % 0x200000 = 0) :
    BitVec.ofNat 64 (Packed.value (Packed.le 4 (bootmem >>> 12).toNat)) <<< 12 = bootmem ↔
      bootmem.toNat < 0x100000000000 := by
  have page : (bootmem >>> 12).toNat = bootmem.toNat / 4096 := by
    rw [BitVec.toNat_ushiftRight, Nat.shiftRight_eq_div_pow]
  have small := value_le_lt (bootmem >>> 12).toNat
  rw [← BitVec.toNat_inj, BitVec.toNat_shiftLeft, BitVec.toNat_ofNat, Nat.shiftLeft_eq]
  constructor
  · intro same
    omega
  · intro low
    rw [page, Packed.value_le (by omega)]
    omega

/-- Where bytes in memory are mapped to their own addresses, the CPU reads them. -/
theorem place_held {memory : Word → UInt8} {translate : Word → Option Word} {base : Word} {bytes : List UInt8}
    (short : bytes.length ≤ 64) (low : base.toNat < 0x800000000000)
    (mapped : ∀ va : Word, base.toNat ≤ va.toNat → va.toNat < base.toNat + 64 → translate va = some va) :
    (Machine.mk translate (place memory base bytes)).Holds base bytes := by
  intro index inside
  have address : (base + BitVec.ofNat 64 index).toNat = base.toNat + index := by
    rw [BitVec.toNat_add, BitVec.toNat_ofNat, Nat.mod_eq_of_lt (by omega), Nat.mod_eq_of_lt (by omega)]
  have itself : translate (base + BitVec.ofNat 64 index) = some (base + BitVec.ofNat 64 index) := by
    refine mapped _ ?_ ?_
    · omega
    · omega
  refine ⟨base + BitVec.ofNat 64 index, itself, ?_⟩
  exact place_bytes memory base short inside

/-- The CPU reaches the kernel, and from there the parameter block can be found, exactly
when boot memory has 4MB before the next multiple of 1GB and starts below 16TB. -/
theorem kernel_reached_iff (data : TrampolineData) (tables : Memory) (memory : Word → UInt8)
    (assembled : host.launchCode = launchCode) (answers : (setupBootParams host enclave).Answers found ())
    (aligned : enclave.bootmemAddr.toNat % 0x200000 = 0) (granular : enclave.bootmemSize.toNat % 0x200000 = 0)
    (low : enclave.bootmemAddr.toNat + enclave.bootmemSize.toNat ≤ 0x800000000000) :
    ∃ machine, bootEnclave data tables memory enclave (setupBootParams host enclave found).state = some machine ∧
      ∀ rax rsi,
        (∃ cpu, machine.run 3 ⟨enclave.bootmemAddr.toBitVec, rax, rsi⟩ = some cpu ∧
          machine.translate cpu.rip = some (setupBootParams host enclave found).state.kernelAddr.toBitVec ∧
          cpu.rsi <<< 12 = enclave.bootmemAddr.toBitVec) ↔
        0x400000 ≤ enclave.bootmemSize.toNat ∧ enclave.bootmemAddr.toNat % 0x40000000 + 0x400000 ≤ 0x40000000 ∧
          enclave.bootmemAddr.toNat < 0x100000000000 := by
  obtain ⟨ready, kernel, initrd, isKernel, kernelLoads, isInitrd, -⟩ := (setupBootParams_answers found).mp answers
  have kernelAddr : (setupBootParams host enclave found).state.kernelAddr.toNat =
      enclave.bootmemAddr.toNat + 0x200000 := by
    rw [(setupBootParams_records found ready isKernel kernelLoads isInitrd).kernelAddr, pa_offset, kernelOffset_eq,
      UInt64.toNat_add]
    simp only [UInt64.reduceToNat]
    omega
  have code := setupBootParams_launchCode answers
  rw [assembled] at code
  generalize (setupBootParams host enclave found).state = params at kernelAddr code
  obtain ⟨after, built, walks⟩ := setupTables_low data tables aligned granular low
  refine ⟨_, by rw [bootEnclave, built, code]; rfl, fun rax rsi => ?_⟩
  have kernelBase : kernVaBase.toNat = 0xffffffff80000000 := by decide
  have start : enclave.bootmemAddr.toBitVec.toNat = enclave.bootmemAddr.toNat := UInt64.toNat_toBitVec ..
  have size : enclave.bootmemSize.toBitVec.toNat = enclave.bootmemSize.toNat := UInt64.toNat_toBitVec ..
  have target : params.kernelAddr.toBitVec.toNat = enclave.bootmemAddr.toNat + 0x200000 := kernelAddr
  have kernelWalk := walks params.kernelAddr.toBitVec (by omega)
  have esi := @esi_leads_iff enclave.bootmemAddr.toBitVec aligned
  rw [start] at esi
  by_cases mapped : enclave.bootmemAddr.toNat < 0x200000 ∨ 0 < enclave.bootmemSize.toNat
  · have itself : ∀ va : Word, enclave.bootmemAddr.toBitVec.toNat ≤ va.toNat →
        va.toNat < enclave.bootmemAddr.toBitVec.toNat + 64 → walk after (frameAddr data.pml) va = some va := by
      intro va above below
      rw [walks va (by omega), if_pos (by omega)]
    have held := @place_held memory (walk after (frameAddr data.pml)) enclave.bootmemAddr.toBitVec _
      (le_of_eq (@setEnclaveLaunchArgs_length params.kernelAddr.toBitVec (enclave.bootmemAddr.toBitVec >>> 12)))
        (by omega) itself
    have runs := launch_runs held rax rsi
    rw [runs]
    constructor
    · rintro ⟨cpu, reached, translated, leads⟩
      obtain rfl := Option.some.inj reached
      have below := esi.mp leads
      have fetched : walk after (frameAddr data.pml) params.kernelAddr.toBitVec =
          some params.kernelAddr.toBitVec := translated
      rw [kernelWalk] at fetched
      have inside := (Option.ite_none_right_eq_some.mp fetched).1
      omega
    · rintro ⟨large, room, below⟩
      refine ⟨_, rfl, ?_, esi.mpr below⟩
      exact kernelWalk.trans (if_pos (by omega))
  · have fault : walk after (frameAddr data.pml) enclave.bootmemAddr.toBitVec = none := by
      rw [walks _ (by omega), if_neg (by omega)]
    rw [Machine.run, fetch_fault fault]
    constructor
    · rintro ⟨cpu, reached, -⟩
      cases reached
    · rintro ⟨large, -⟩
      omega

end SetUp

/-- A host with the assembled launch code -/
def launchingHost : Host :=
  { readyHost with launchCode := launchCode }

def noParams : BootParams where
  launchCode := []
  magic := 0
  cpuId := 0
  apicId := 0
  cpuKhz := 0
  trampolineCodePa := 0
  cmdLine := []
  kernelAddr := 0
  kernelSize := 0
  initrdAddr := 0
  initrdSize := 0
  consoleRingAddr := 0
  consoleRingSize := 0
  controlBufAddr := 0
  controlBufSize := 0
  longcallBufAddr := 0
  longcallBufSize := 0
  xpmemBufAddr := 0
  xpmemBufSize := 0
  baseMemPaddr := 0
  baseMemSize := 0

theorem crowded_answers : (setupBootParams launchingHost crowdedEnclave).Answers noParams () := by
  refine (setupBootParams_answers _).mpr ⟨⟨⟨by decide, rfl⟩, ⟨⟨by decide, rfl⟩, rfl, rfl⟩, ?_⟩, ?_⟩
  · intro built
    cases built
  refine ⟨wholeFile 0x1000000, wholeFile 0x7000000, rfl, ?_, rfl, ?_⟩
  · constructor <;> decide
  · constructor <;> decide

theorem kernel_reached_crowded : ∃ machine,
    bootEnclave lowPages (fun _ _ => 0)
      (fun _ => 0) crowdedEnclave (setupBootParams launchingHost crowdedEnclave noParams).state =
        some machine ∧
      ∃ cpu, machine.run 3 ⟨0x100000000#64, 0, 0⟩ = some cpu ∧ cpu.rsi <<< 12 = 0x100000000#64 := by
  obtain ⟨machine, boots, reaches⟩ := @kernel_reached_iff launchingHost crowdedEnclave noParams lowPages (fun _ _ => 0)
    (fun _ => 0) rfl crowded_answers (by decide) (by decide) (by decide)
  obtain ⟨cpu, runs, -, leads⟩ := (reaches 0 0).mpr (by decide)
  exact ⟨machine, boots, cpu, runs, leads⟩

end Pisces.Boot.Launch
