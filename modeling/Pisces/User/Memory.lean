import Mathlib.Data.Finset.Option
import Mathlib.Data.List.ReduceOption
import Mathlib.Order.Interval.Finset.Nat
import Pisces.User.Library
import Pisces.User.Teardown

/-! # Blocks of memory

The calls of `linux_usr` that move memory blocks between Linux and enclaves, and
`pisces_teardown`, on top of the record kept by the kernel module.
-/

namespace Pisces.User.Memory

open Enclave Transition Teardown

/-- The memory blocks of the host, which Linux numbers with an `int`, and the number
of its CPUs. -/
structure Machine where
  nrCpuIds : Nat
  size : BlockSize
  small : size.exponent < 32
  present : Finset Nat
  numbered : ∀ block ∈ present, block < 0x80000000

structure State where
  online : Finset Nat
  records : Nat → Record
  /-- Blocks that were taken from Linux and that no enclave has -/
  loose : Finset Nat
  /-- Blocks that were given back to Linux although an enclave has them -/
  spilled : Finset Nat

namespace State

def take (state : State) (blocks : Finset Nat) : State :=
  { state with online := state.online \ blocks, loose := state.loose ∪ blocks }

def putBack (state : State) (blocks : Finset Nat) : State :=
  { state with online := state.online ∪ blocks, loose := state.loose \ blocks }

def spill (state : State) (blocks : Finset Nat) : State :=
  { state with spilled := state.spilled ∪ blocks }

/-- The blocks are on the record of an enclave. -/
def hold (state : State) (id : Nat) (record : Record) (blocks : Finset Nat) : State :=
  { state with records := Function.update state.records id record, loose := state.loose \ blocks }

@[simp] theorem hold_self (state : State) (id : Nat) (record : Record) (blocks : Finset Nat) :
    (state.hold id record blocks).records id = record := by
  simp [hold]

theorem hold_other {id other : Nat} (differs : other ≠ id) (state : State) (record : Record) (blocks : Finset Nat) :
    (state.hold id record blocks).records other = state.records other := by
  simp [hold, differs]

end State

/-- `pet_offline_blocks` and `pet_offline_mem_node`: what they got hold of among what they tried -/
def petOfflineBlocks (online : Finset Nat) : List Nat → List Nat
  | [] => []
  | block :: rest =>
      if block ∈ online then block :: petOfflineBlocks (online.erase block) rest
      else petOfflineBlocks online rest

/-- The blocks of `pet_offline_contig_blocks` -/
def contigBlocks (first count : Nat) : Finset Nat := Finset.Ico first (first + count)

namespace Machine

variable (machine : Machine)

/-- A block as a `struct memory_range`, or what `calloc` left of one that was not offlined -/
def range : Option Nat → Ctrl.MemoryRange
  | some block => ⟨UInt64.ofNat (block * machine.size.bytes), UInt64.ofNat (machine.size.bytes / 4096)⟩
  | none => ⟨0, 0⟩

/-- What the kernel module records of a range -/
def entry (block : Option Nat) : MemBlock :=
  ⟨(machine.range block).baseAddr, (machine.range block).pages.toUInt32⟩

/-- `pet_online_block` for each block of a list -/
def petOnlineBlocks (online : Finset Nat) (blocks : List Int) : Finset Nat :=
  online ∪ machine.present.filter fun block => (block : Int) ∈ blocks

/-- The blocks on a record -/
def recorded (record : Record) : Finset Nat :=
  machine.present.filter fun block => machine.entry (some block) ∈ record.memdescList

/-- `struct enclave_boot_env` for some blocks in a row -/
def bootMem (first count : Nat) : BootMem where
  baseAddr := UInt64.ofNat (first * machine.size.bytes)
  blockSize := UInt64.ofNat machine.size.bytes
  numBlocks := UInt32.ofNat count

end Machine

/-- How far a control command gets, and whether its argument is copied -/
structure MemReply extends Reply where
  copied : Bool

def MemReply.recorded (reply : MemReply) : Bool := reply.connected && reply.copied

/-- How far `pisces_teardown` gets behind the lists of CPUs and memory: the devices
are listed, the enclave is shut down and freed, and the devices' addresses parse. -/
structure TeardownReply where
  listed : Bool
  stopped : Bool
  freed : Bool
  parsed : Bool

inductive Call where
  /-- `pisces_launch`: the blocks that petlib picks or the one asked for, and
  whether they and the CPU are taken from Linux -/
  | launch (id first count : Nat) (memory cpu : Bool) (cpuId : UInt32) (reply : LaunchReply)
  | addMem (id numBlocks : Nat) (tried : List Nat) (replies : Nat → MemReply)
  | addMemNode (id numaNumBlocks : Nat) (tried : List Nat) (replies : Nat → MemReply)
  | addMemExplicit (id block : Nat) (works : Bool) (reply : MemReply)
  | teardown (id : Nat) (reply : TeardownReply)
  /-- Any other change of a record -/
  | other (id : Nat) (record : Record)

variable (machine : Machine)

/-- `PISCES_CMD_ADD_MEM` -/
def sendAddMem (state : State) (id : Nat) (block : Option Nat) (reply : MemReply) : Int × (Nat → Record) :=
  sendCtrlCmd state.records id (.addMem reply.copied (machine.range block)) reply.toReply

/-- The loop of `pisces_add_mem` and `pisces_add_mem_node`; an error is only printed. -/
def giveBlocks (id : Nat) (replies : Nat → MemReply) : Nat → List (Option Nat) → State → State
  | _, [], state => state
  | i, block :: rest, state =>
      let records := (sendAddMem machine state id block (replies i)).2
      giveBlocks id replies (i + 1) rest
        { state with
          records := records
          loose := if (replies i).recorded then state.loose \ block.toFinset else state.loose }

/-- The end of `pisces_add_mem_explicit`, from the command on -/
def giveBlock (id block : Nat) (reply : MemReply) (state : State) : State :=
  let records := (sendAddMem machine state id (some block) reply).2
  let sent := { state with
    records := records
    loose := if reply.recorded then state.loose \ {block} else state.loose }
  if (sendAddMem machine state id (some block) reply).1 = 0 then sent
  else (sent.spill (if reply.recorded then {block} else ∅)).putBack {block}

/-- The end of `pisces_launch`, from `PISCES_ENCLAVE_LAUNCH` on -/
def launchOn (state : State) (id first count : Nat) (cpuId : UInt32) (reply : LaunchReply) : State :=
  let blocks := contigBlocks first count
  if reply.opened && reply.copied then
    let state := state.hold id (launchRecord (state.records id) (machine.bootMem first count) cpuId) blocks
    if reply.launched then state else (state.spill blocks).putBack blocks
  else state.putBack blocks

/-- The end of `pisces_teardown`; the devices come first in the list. -/
def onlineAll (state : State) (id : Nat) (reply : TeardownReply) (onlined : Onlined) : State :=
  let blocks := machine.recorded (state.records id)
  let state :=
    if reply.freed then
      { state with records := Function.update state.records id Record.empty, loose := state.loose ∪ blocks }
    else state.spill (if reply.parsed then blocks else ∅)
  if reply.parsed then
    { state with
      online := machine.petOnlineBlocks state.online onlined.blocks
      loose := state.loose \ blocks }
  else state

/-- `pisces_teardown`, for files that it understands -/
def tearDown (state : State) (id : Nat) (reply : TeardownReply) : State :=
  (piscesTeardown machine.size (procCpuShow machine.nrCpuIds (state.records id)) (procMemShow (state.records id))).elim
    state fun onlined => if reply.listed && reply.stopped then onlineAll machine state id reply onlined else state

def step (state : State) : Call → Option State
  | .launch id first count memory cpu cpuId reply =>
      let blocks := contigBlocks first count
      if memory && decide (blocks ⊆ state.online) then
        if cpu then some (launchOn machine (state.take blocks) id first count cpuId reply)
        else some ((state.take blocks).putBack blocks)
      else some state
  | .addMem id numBlocks tried replies =>
      let blocks := petOfflineBlocks state.online (tried.take numBlocks)
      let taken := state.take blocks.toFinset
      if blocks.length ≠ numBlocks then some (taken.putBack blocks.toFinset)
      else some (giveBlocks machine id replies 0 (blocks.map some) taken)
  | .addMemNode id numaNumBlocks tried replies =>
      -- the result of `pet_offline_mem_node` is not looked at
      let blocks := petOfflineBlocks state.online (tried.take numaNumBlocks)
      let array := blocks.map some ++ List.replicate (numaNumBlocks - blocks.length) none
      some (giveBlocks machine id replies 0 array (state.take blocks.toFinset))
  | .addMemExplicit id block works reply =>
      if works && decide (block ∈ state.online) then some (giveBlock machine id block reply (state.take {block}))
      else some state
  | .teardown id reply =>
      some (tearDown machine state id reply)
  | .other id record =>
      if record.memdescList = (state.records id).memdescList ∧ record.memdescNum = (state.records id).memdescNum then
        some { state with records := Function.update state.records id record }
      else none

/-- Linux has every block at first, or some of them. -/
def system : System State Call where
  initial state := state.records = (fun _ => Record.empty) ∧ state.online ⊆ machine.present ∧ state.spilled = ∅ ∧
    state.loose = machine.present \ state.online
  step := step machine

/-- The number of entries of a record that is torn down fits its counter. -/
def Counted (state : State) : Call → Prop
  | .teardown id _ => (state.records id).memdescList.length < 0x100000000
  | _ => True

inductive Owner where
  | linux
  | enclave (id : Nat)
  | nobody
  deriving DecidableEq

/-- Every block has one owner, unless it was given back to Linux while an enclave had it. -/
structure Owned (state : State) (owner : Nat → Owner) : Prop where
  inside : state.online ⊆ machine.present
  counted : ∀ id, (state.records id).memdescNum = UInt32.ofNat (state.records id).memdescList.length
  whole : ∀ id, ∀ entry ∈ (state.records id).memdescList,
    entry = machine.entry none ∨ ∃ block ∈ machine.present, entry = machine.entry (some block)
  online : ∀ block ∈ machine.present, block ∉ state.spilled → (block ∈ state.online ↔ owner block = .linux)
  recorded : ∀ block ∈ machine.present, block ∉ state.spilled → ∀ id,
    (state.records id).memdescList.count (machine.entry (some block)) = if owner block = .enclave id then 1 else 0
  loose : ∀ block ∈ machine.present, block ∉ state.spilled → (block ∈ state.loose ↔ owner block = .nobody)

variable {machine : Machine} {state : State} {owner : Nat → Owner} {id block : Nat} {record middle : Record}
  {blocks : Finset Nat} {added more : List MemBlock}

/-! ## Blocks and entries -/

theorem Machine.size_bounds (machine : Machine) : 4096 ≤ machine.size.bytes ∧ machine.size.bytes ≤ 0x80000000 := by
  have pages := machine.size.pages
  have small := machine.small
  have lower : 2 ^ 12 ≤ 2 ^ machine.size.exponent := Nat.pow_le_pow_right (by decide) pages
  have upper : 2 ^ machine.size.exponent ≤ 2 ^ 31 := Nat.pow_le_pow_right (by decide) (by omega)
  exact ⟨lower, upper⟩

theorem Machine.entry_base (present : block ∈ machine.present) :
    (machine.entry (some block)).baseAddr.toNat = block * machine.size.bytes := by
  obtain ⟨-, upper⟩ := machine.size_bounds
  have bound : block * machine.size.bytes ≤ 0x80000000 * 0x80000000 :=
    Nat.mul_le_mul (machine.numbered block present).le upper
  exact UInt64.toNat_ofNat_of_lt' (by simp only [UInt64.size]; omega)

theorem Machine.entry_size (machine : Machine) (block : Nat) :
    (machine.entry (some block)).pages.toNat = machine.size.bytes / 4096 := by
  obtain ⟨-, upper⟩ := machine.size_bounds
  have small : machine.size.bytes / 4096 ≤ 0x80000000 / 4096 := Nat.div_le_div_right upper
  have pages : (UInt64.ofNat (machine.size.bytes / 4096)).toNat = machine.size.bytes / 4096 :=
    UInt64.toNat_ofNat_of_lt' (by simp only [UInt64.size]; omega)
  rw [Machine.entry, UInt64.toNat_toUInt32, Machine.range, pages]
  omega

theorem Machine.entry_pages (machine : Machine) (block : Nat) : (machine.entry (some block)).pages ≠ 0 := by
  obtain ⟨lower, -⟩ := machine.size_bounds
  have filled : 0 < machine.size.bytes / 4096 := Nat.div_pos lower (by decide)
  intro empty
  have size := machine.entry_size block
  rw [empty] at size
  exact filled.ne size

theorem Machine.entry_injective {other : Nat} (present : block ∈ machine.present) (also : other ∈ machine.present)
    (same : machine.entry (some block) = machine.entry (some other)) : block = other := by
  have bases := congrArg (fun entry : MemBlock => entry.baseAddr.toNat) same
  simp only [Machine.entry_base present, Machine.entry_base also] at bases
  exact Nat.eq_of_mul_eq_mul_right machine.size.bytes_pos bases

/-! ## Entries that are added to a record -/

structure Grown (old new : Record) (added : List MemBlock) : Prop where
  perm : new.memdescList.Perm (added ++ old.memdescList)
  counted : new.memdescNum = UInt32.ofNat new.memdescList.length

theorem grown_addMem (counted : record.memdescNum = UInt32.ofNat record.memdescList.length) (baseAddr : UInt64)
    (pages : UInt32) : Grown record (enclaveAddMem record baseAddr pages) [⟨baseAddr, pages⟩] := by
  let bare : Record := { record with pciState := Record.empty.pciState }
  have wellFormed : bare.WellFormed := by
    refine ⟨counted, ?_, ?_, ?_⟩ <;> simp [bare, Record.empty, Pci.State.entries]
  exact ⟨enclaveAddMem_perm wellFormed baseAddr pages, (wellFormed.addMem baseAddr pages).counted⟩

theorem Grown.trans (first : Grown record middle added) {last : Record} (second : Grown middle last more) :
    Grown record last (more ++ added) where
  perm := by
    rw [List.append_assoc]
    exact second.perm.trans (first.perm.append_left more)
  counted := second.counted

theorem grown_launch (counted : record.memdescNum = UInt32.ofNat record.memdescList.length) (bootMem : BootMem)
    (cpuId : UInt32) : Grown record (launchRecord record bootMem cpuId)
      ((List.range bootMem.numBlocks.toNat).map fun i =>
        ⟨bootMem.baseAddr + UInt64.ofNat i * bootMem.blockSize, (bootMem.blockSize / 4096).toUInt32⟩) := by
  have blocks : ∀ (indices : List Nat) (start : Record),
      start.memdescNum = UInt32.ofNat start.memdescList.length → Grown start (indices.foldl (fun record i =>
        enclaveAddMem record (bootMem.baseAddr + UInt64.ofNat i * bootMem.blockSize)
          (bootMem.blockSize / 4096).toUInt32) start) (indices.map fun i =>
        ⟨bootMem.baseAddr + UInt64.ofNat i * bootMem.blockSize, (bootMem.blockSize / 4096).toUInt32⟩) := by
    intro indices
    induction indices with
    | nil => exact fun start counted => ⟨List.Perm.refl _, counted⟩
    | cons index rest ih =>
        intro start counted
        have first := grown_addMem counted (bootMem.baseAddr + UInt64.ofNat index * bootMem.blockSize)
          (bootMem.blockSize / 4096).toUInt32
        have later := ih _ first.counted
        refine ⟨(first.trans later).perm.trans ?_, later.counted⟩
        rw [List.map_cons, ← List.singleton_append]
        exact List.perm_append_comm.append_right _
  have sameList : (enclaveAddCpu record cpuId).2.memdescList = record.memdescList ∧
      (enclaveAddCpu record cpuId).2.memdescNum = record.memdescNum := by
    unfold enclaveAddCpu
    split <;> exact ⟨rfl, rfl⟩
  have grown := blocks (List.range bootMem.numBlocks.toNat) (enclaveAddCpu record cpuId).2 (by
    rw [sameList.1, sameList.2, counted])
  exact ⟨sameList.1 ▸ grown.perm, grown.counted⟩

/-! ## Blocks that change hands -/

/-- The owners after some blocks have come to a new one -/
def moved (owner : Nat → Owner) (blocks : Finset Nat) (new : Owner) (block : Nat) : Owner :=
  if block ∈ blocks then new else owner block

namespace Owned

variable (owned : Owned machine state owner)

include owned

theorem take (online : blocks ⊆ state.online) :
    Owned machine (state.take blocks) (moved owner blocks .nobody) where
  inside := Finset.sdiff_subset.trans owned.inside
  counted := owned.counted
  whole := owned.whole
  online := by
    intro block present unspilled
    by_cases member : block ∈ blocks
    · simp [State.take, moved, member]
    · simpa [State.take, moved, member] using owned.online block present unspilled
  recorded := by
    intro block present unspilled id
    have before := owned.recorded block present unspilled id
    by_cases member : block ∈ blocks
    · have linux := (owned.online block present unspilled).mp (online member)
      simpa [State.take, moved, member, linux] using before
    · simpa [State.take, moved, member] using before
  loose := by
    intro block present unspilled
    by_cases member : block ∈ blocks
    · simp [State.take, moved, member]
    · simpa [State.take, moved, member] using owned.loose block present unspilled

theorem putBack (present : blocks ⊆ machine.present)
    (loose : ∀ block ∈ blocks, block ∉ state.spilled → block ∈ state.loose) :
    Owned machine (state.putBack blocks) (moved owner blocks .linux) where
  inside := Finset.union_subset owned.inside present
  counted := owned.counted
  whole := owned.whole
  online := by
    intro block present unspilled
    by_cases member : block ∈ blocks
    · simp [State.putBack, moved, member]
    · simpa [State.putBack, moved, member] using owned.online block present unspilled
  recorded := by
    intro block present unspilled id
    have before := owned.recorded block present unspilled id
    by_cases member : block ∈ blocks
    · have nobody := (owned.loose block present unspilled).mp (loose block member unspilled)
      simpa [State.putBack, moved, member, nobody] using before
    · simpa [State.putBack, moved, member] using before
  loose := by
    intro block present unspilled
    by_cases member : block ∈ blocks
    · simp [State.putBack, moved, member]
    · simpa [State.putBack, moved, member] using owned.loose block present unspilled

theorem spill (blocks : Finset Nat) : Owned machine (state.spill blocks) owner where
  inside := owned.inside
  counted := owned.counted
  whole := owned.whole
  online block present unspilled :=
    owned.online block present fun member => unspilled (Finset.mem_union_left _ member)
  recorded block present unspilled :=
    owned.recorded block present fun member => unspilled (Finset.mem_union_left _ member)
  loose block present unspilled :=
    owned.loose block present fun member => unspilled (Finset.mem_union_left _ member)

theorem hold (grown : Grown (state.records id) record added)
    (loose : ∀ block ∈ blocks, block ∉ state.spilled → block ∈ state.loose)
    (whole : ∀ entry ∈ added, entry = machine.entry none ∨ ∃ block ∈ machine.present, entry = machine.entry (some block))
    (counts : ∀ block ∈ machine.present,
      added.count (machine.entry (some block)) = if block ∈ blocks then 1 else 0) :
    Owned machine (state.hold id record blocks) (moved owner blocks (.enclave id)) where
  inside := owned.inside
  counted := by
    intro other
    by_cases same : other = id
    · subst same
      simpa using grown.counted
    · simpa [State.hold_other same] using owned.counted other
  whole := by
    intro other entry listed
    by_cases same : other = id
    · subst same
      rw [State.hold_self, grown.perm.mem_iff, List.mem_append] at listed
      exact listed.elim (whole entry) (owned.whole other entry)
    · rw [State.hold_other same] at listed
      exact owned.whole other entry listed
  online := by
    intro block present unspilled
    have before := owned.online block present unspilled
    by_cases member : block ∈ blocks
    · have nobody := (owned.loose block present unspilled).mp (loose block member unspilled)
      simpa [State.hold, moved, member, nobody] using before
    · simpa [State.hold, moved, member] using before
  recorded := by
    intro block present unspilled other
    have before := owned.recorded block present unspilled other
    have new := counts block present
    by_cases same : other = id
    · subst same
      rw [State.hold_self, grown.perm.count_eq, List.count_append, new, before]
      by_cases member : block ∈ blocks
      · have nobody := (owned.loose block present unspilled).mp (loose block member unspilled)
        simp [moved, member, nobody]
      · simp [moved, member]
    · rw [State.hold_other same, before]
      by_cases member : block ∈ blocks
      · have nobody := (owned.loose block present unspilled).mp (loose block member unspilled)
        simp [moved, member, nobody, Ne.symm same]
      · simp [moved, member]
  loose := by
    intro block present unspilled
    by_cases member : block ∈ blocks
    · simp [State.hold, moved, member]
    · simpa [State.hold, moved, member] using owned.loose block present unspilled

end Owned

/-! ## Adding blocks -/

variable {reply : MemReply} {blockOption : Option Nat}

theorem sendAddMem_recorded (counted : (state.records id).memdescNum = UInt32.ofNat (state.records id).memdescList.length)
    (recorded : reply.recorded = true) : ∃ record,
      (sendAddMem machine state id blockOption reply).2 = Function.update state.records id record ∧
        Grown (state.records id) record [machine.entry blockOption] := by
  obtain ⟨connected, copied⟩ := Bool.and_eq_true_iff.mp recorded
  have grown := grown_addMem counted (machine.entry blockOption).baseAddr (machine.entry blockOption).pages
  -- what the enclave calls for meanwhile concerns its devices only
  refine ⟨reply.answer.record (enclaveAddMem (state.records id) (machine.entry blockOption).baseAddr
    (machine.entry blockOption).pages), ?_, ⟨grown.perm, grown.counted⟩⟩
  simp only [sendAddMem, sendCtrlCmd, connected, copied, if_true, Ctrl.ctrlIoctl, Ctrl.ctrlAddMem]
  rfl

theorem sendAddMem_unrecorded (unrecorded : reply.recorded = false) :
    (sendAddMem machine state id blockOption reply).2 = state.records ∧
      (sendAddMem machine state id blockOption reply).1 ≠ 0 := by
  cases connected : reply.connected with
  | false => simp [sendAddMem, sendCtrlCmd, connected]
  | true =>
      have copied : reply.copied = false := by simpa [MemReply.recorded, connected] using unrecorded
      simp [sendAddMem, sendCtrlCmd, connected, copied, Ctrl.ctrlIoctl]

theorem count_entry (inside : ∀ block ∈ blockOption, block ∈ machine.present) (present : block ∈ machine.present) :
    [machine.entry blockOption].count (machine.entry (some block)) = if block ∈ blockOption.toFinset then 1 else 0 := by
  cases blockOption with
  | none =>
      have differs : machine.entry none ≠ machine.entry (some block) :=
        fun same => machine.entry_pages block (congrArg MemBlock.pages same).symm
      simp [differs]
  | some other =>
      by_cases same : other = block
      · simp [same]
      · have differs : machine.entry (some other) ≠ machine.entry (some block) :=
          fun equal => same (machine.entry_injective (inside other rfl) present equal)
        simp [differs, Ne.symm same]

theorem whole_entry (inside : ∀ block ∈ blockOption, block ∈ machine.present) :
    ∀ entry ∈ [machine.entry blockOption],
      entry = machine.entry none ∨ ∃ block ∈ machine.present, entry = machine.entry (some block) := by
  intro entry member
  obtain rfl := List.mem_singleton.mp member
  cases blockOption with
  | none => exact Or.inl rfl
  | some block => exact Or.inr ⟨block, inside block rfl, rfl⟩

/-- A block that the kernel module has put on record -/
theorem Owned.holdBlock (owned : Owned machine state owner) (inside : ∀ block ∈ blockOption, block ∈ machine.present)
    (grown : Grown (state.records id) record [machine.entry blockOption])
    (loose : ∀ block ∈ blockOption, block ∉ state.spilled → block ∈ state.loose) :
    Owned machine (state.hold id record blockOption.toFinset) (moved owner blockOption.toFinset (.enclave id)) :=
  owned.hold grown (fun block member => loose block (Option.mem_toFinset.mp member)) (whole_entry inside)
    fun _ present => count_entry inside present

theorem Owned.giveBlocks (replies : Nat → MemReply) {array : List (Option Nat)} {i : Nat}
    (owned : Owned machine state owner) (distinct : array.reduceOption.Nodup)
    (inside : ∀ block, some block ∈ array → block ∈ machine.present)
    (loose : ∀ block, some block ∈ array → block ∉ state.spilled → block ∈ state.loose) :
    ∃ after, Owned machine (giveBlocks machine id replies i array state) after := by
  induction array generalizing i state owner with
  | nil => exact ⟨owner, owned⟩
  | cons first rest ih =>
      have restDistinct : rest.reduceOption.Nodup := distinct.sublist ((List.sublist_cons_self ..).filterMap _)
      have restInside : ∀ block, some block ∈ rest → block ∈ machine.present :=
        fun block member => inside block (List.mem_cons_of_mem _ member)
      rw [Memory.giveBlocks]
      cases recorded : (replies i).recorded with
      | false =>
          obtain ⟨same, -⟩ := @sendAddMem_unrecorded machine state id (replies i) first recorded
          rw [same]
          exact ih owned restDistinct restInside fun block member => loose block (List.mem_cons_of_mem _ member)
      | true =>
          obtain ⟨record, sent, grown⟩ :=
            @sendAddMem_recorded machine state id (replies i) first (owned.counted id) recorded
          rw [sent]
          have held := owned.holdBlock (fun block member => inside block (member ▸ List.mem_cons_self ..)) grown
            (fun block member => loose block (member ▸ List.mem_cons_self ..))
          refine ih held restDistinct restInside ?_
          intro block member unspilled
          refine Finset.mem_sdiff.mpr ⟨loose block (List.mem_cons_of_mem _ member) unspilled, ?_⟩
          intro taken
          cases Option.mem_toFinset.mp taken
          rw [List.reduceOption_cons_of_some] at distinct
          exact (List.nodup_cons.mp distinct).1 (List.reduceOption_mem_iff.mpr member)

theorem petOfflineBlocks_spec (online : Finset Nat) (tried : List Nat) :
    (petOfflineBlocks online tried).Nodup ∧ ∀ block ∈ petOfflineBlocks online tried, block ∈ online := by
  induction tried generalizing online with
  | nil => simp [petOfflineBlocks]
  | cons first rest ih =>
      rw [petOfflineBlocks]
      split
      · next present =>
          obtain ⟨nodup, subset⟩ := ih (online.erase first)
          refine ⟨List.nodup_cons.mpr ⟨fun member => Finset.notMem_erase _ _ (subset _ member), nodup⟩, ?_⟩
          intro block member
          rcases List.mem_cons.mp member with rfl | later
          · exact present
          · exact Finset.mem_of_mem_erase (subset block later)
      · exact ih online

theorem loose_take {blocks : Finset Nat} (member : block ∈ blocks) : block ∈ (state.take blocks).loose :=
  Finset.mem_union_right _ member

/-- The array that the loops go through: what was taken, and entries that are still zero -/
theorem Owned.giveTaken (owned : Owned machine state owner) (replies : Nat → MemReply) (tried : List Nat) (zeros : Nat) :
    ∃ after, Owned machine (Memory.giveBlocks machine id replies 0
      ((petOfflineBlocks state.online tried).map some ++ List.replicate zeros none)
      (state.take (petOfflineBlocks state.online tried).toFinset)) after := by
  obtain ⟨nodup, online⟩ := petOfflineBlocks_spec state.online tried
  have subset : (petOfflineBlocks state.online tried).toFinset ⊆ state.online :=
    fun block member => online block (List.mem_toFinset.mp member)
  have taken := owned.take subset
  have listed : ∀ block, some block ∈ (petOfflineBlocks state.online tried).map some ++ List.replicate zeros none →
      block ∈ petOfflineBlocks state.online tried := by
    intro block member
    simpa using member
  refine taken.giveBlocks replies ?_ (fun block member => owned.inside (online block (listed block member)))
    fun block member _ => loose_take (List.mem_toFinset.mpr (listed block member))
  simpa [List.reduceOption] using nodup

theorem step_addMemExplicit {works : Bool} {after : State} (owned : Owned machine state owner)
    (stepped : step machine state (.addMemExplicit id block works reply) = some after) :
    ∃ owner, Owned machine after owner := by
  simp only [step] at stepped
  split at stepped
  · next allowed =>
      have online : block ∈ state.online := by simpa using (Bool.and_eq_true_iff.mp allowed).2
      have taken := owned.take (Finset.singleton_subset_iff.mpr online)
      have present := owned.inside online
      have inside : ∀ other ∈ some block, other ∈ machine.present := by simpa using present
      have loose : ∀ other ∈ some block, other ∉ (state.take {block}).spilled → other ∈ (state.take {block}).loose := by
        rintro other same -
        exact loose_take (Finset.mem_singleton.mpr (Option.some.inj same).symm)
      obtain rfl := Option.some.inj stepped
      rw [giveBlock]
      cases recorded : reply.recorded with
      | true =>
          obtain ⟨record, sent, grown⟩ :=
            @sendAddMem_recorded machine (state.take {block}) id reply (some block) (taken.counted id) recorded
          have held := taken.holdBlock inside grown loose
          simp only [sent, if_true]
          split
          · exact ⟨_, held⟩
          · refine ⟨_, (held.spill {block}).putBack (Finset.singleton_subset_iff.mpr present) ?_⟩
            exact fun other member unspilled => absurd (Finset.mem_union_right _ member) unspilled
      | false =>
          obtain ⟨same, failed⟩ := @sendAddMem_unrecorded machine (state.take {block}) id reply (some block) recorded
          simp only [same, if_neg failed]
          refine ⟨_, (taken.spill ∅).putBack (Finset.singleton_subset_iff.mpr present) ?_⟩
          exact fun other member _ => loose_take member
  · obtain rfl := Option.some.inj stepped
    exact ⟨owner, owned⟩

/-! ## Launching -/

theorem contigBlocks_count {first count : Nat} (inside : contigBlocks first count ⊆ machine.present) :
    count ≤ 0x80000000 := by
  by_contra large
  have last : first + (count - 1) ∈ contigBlocks first count := Finset.mem_Ico.mpr (by omega)
  have bound := machine.numbered _ (inside last)
  omega

/-- What the launch puts on record are the blocks. -/
theorem bootMem_entries {first count : Nat} (inside : contigBlocks first count ⊆ machine.present) :
    ((List.range (machine.bootMem first count).numBlocks.toNat).map fun i =>
      (⟨(machine.bootMem first count).baseAddr + UInt64.ofNat i * (machine.bootMem first count).blockSize,
        ((machine.bootMem first count).blockSize / 4096).toUInt32⟩ : MemBlock)) =
      (List.range count).map fun i => machine.entry (some (first + i)) := by
  have few := contigBlocks_count inside
  obtain ⟨-, upper⟩ := machine.size_bounds
  have number : (machine.bootMem first count).numBlocks.toNat = count :=
    UInt32.toNat_ofNat_of_lt' (by simp only [UInt32.size]; omega)
  have pages : UInt64.ofNat machine.size.bytes / 4096 = UInt64.ofNat (machine.size.bytes / 4096) := by
    apply UInt64.toNat_inj.mp
    rw [UInt64.toNat_div, UInt64.toNat_ofNat_of_lt' (by simp only [UInt64.size]; omega),
      UInt64.toNat_ofNat_of_lt' (by simp only [UInt64.size]; omega)]
    rfl
  rw [number]
  refine List.map_congr_left fun i _ => ?_
  simp only [Machine.entry, Machine.range, Machine.bootMem, pages, ← UInt64.ofNat_mul, ← UInt64.ofNat_add,
    ← Nat.add_mul]

theorem count_launched {first count : Nat} (inside : contigBlocks first count ⊆ machine.present)
    (present : block ∈ machine.present) :
    ((List.range count).map fun i => machine.entry (some (first + i))).count (machine.entry (some block)) =
      if block ∈ contigBlocks first count then 1 else 0 := by
  have within (i : Nat) (member : i ∈ List.range count) : first + i ∈ machine.present :=
    inside (Finset.mem_Ico.mpr (by have bound := List.mem_range.mp member; omega))
  have nodup : ((List.range count).map fun i => machine.entry (some (first + i))).Nodup := by
    refine List.Nodup.map_on ?_ List.nodup_range
    intro i member j also same
    have equal := machine.entry_injective (within i member) (within j also) same
    omega
  rw [List.Nodup.count nodup]
  congr 1
  rw [List.mem_map, contigBlocks, Finset.mem_Ico, eq_iff_iff]
  constructor
  · rintro ⟨i, member, same⟩
    have equal := machine.entry_injective (within i member) present same
    have bound := List.mem_range.mp member
    omega
  · intro ⟨lower, upper⟩
    exact ⟨block - first, List.mem_range.mpr (by omega), by rw [Nat.add_sub_cancel' lower]⟩

theorem Owned.launchOn {first count : Nat} {cpuId : UInt32} {reply : LaunchReply}
    (owned : Owned machine state owner) (inside : contigBlocks first count ⊆ machine.present)
    (loose : ∀ block ∈ contigBlocks first count, block ∈ state.loose) :
    ∃ after, Owned machine (Memory.launchOn machine state id first count cpuId reply) after := by
  rw [Memory.launchOn]
  split
  · have grown := grown_launch (owned.counted id) (machine.bootMem first count) cpuId
    rw [bootMem_entries inside] at grown
    have held := owned.hold grown (fun block member _ => loose block member) (by
      intro entry member
      obtain ⟨i, listed, rfl⟩ := List.mem_map.mp member
      have bound := List.mem_range.mp listed
      exact Or.inr ⟨first + i, inside (Finset.mem_Ico.mpr (by omega)), rfl⟩)
      fun block present => count_launched inside present
    split
    · exact ⟨_, held⟩
    · refine ⟨_, (held.spill _).putBack inside ?_⟩
      exact fun block member unspilled => absurd (Finset.mem_union_right _ member) unspilled
  · exact ⟨_, owned.putBack inside fun block member _ => loose block member⟩

/-! ## Tearing down -/

theorem pages_bytes (machine : Machine) : machine.size.bytes / 4096 * 4096 = machine.size.bytes :=
  Nat.div_mul_cancel (Nat.pow_dvd_pow 2 machine.size.pages : 2 ^ 12 ∣ machine.size.bytes)

theorem onlineBlocks_entry (present : block ∈ machine.present) :
    onlineBlocks machine.size (entryOf (machine.entry (some block))) = [(block : Int)] := by
  obtain ⟨-, upper⟩ := machine.size_bounds
  have positive := machine.size.bytes_pos
  have number := machine.numbered block present
  have bytes : (machine.entry (some block)).pages.toNat * 4096 = machine.size.bytes := by
    rw [Machine.entry_size, pages_bytes]
  have one : machine.size.bytes % 0x100000000 / machine.size.bytes = 1 := by
    rw [Nat.mod_eq_of_lt (by omega), Nat.div_self positive]
  rw [onlineBlocks_eq (by rw [Machine.entry_base present]; exact Dvd.intro_left _ rfl) (by rw [bytes]) ?_]
  · simp [bytes, one, coveredBy, Machine.entry_base present, Nat.div_self positive, Nat.mul_div_cancel _ positive]
  · intro _
    rw [bytes, Machine.entry_base present, ← Nat.succ_mul, Nat.mul_div_cancel _ positive]
    exact number

theorem entry_none (machine : Machine) : machine.entry none = ⟨0, 0⟩ := rfl

theorem onlineBlocks_zero (machine : Machine) : onlineBlocks machine.size (entryOf (machine.entry none)) = [] := by
  rw [onlineBlocks_eq (by simp [entry_none]) (by simp [entry_none]) (fun filled => absurd rfl filled)]
  simp [coveredBy, entry_none]

/-- A record without its CPUs, which the list of memory does not show -/
def bare (record : Record) : Record :=
  { record with assignedCpus := ∅, numCpus := 0 }

theorem Owned.consistent (owned : Owned machine state owner) (id : Nat)
    (few : (state.records id).memdescList.length < 0x100000000) :
    Consistent machine.size (bare (state.records id)) where
  memory := by
    rw [bare, owned.counted id]
    exact UInt32.toNat_ofNat_of_lt' few
  cpus := rfl
  base := by
    intro entry listed
    rcases owned.whole id entry listed with rfl | ⟨block, present, rfl⟩
    · simp [entry_none]
    · rw [Machine.entry_base present]
      exact Dvd.intro_left _ rfl
  size := by
    intro entry listed
    rcases owned.whole id entry listed with rfl | ⟨block, present, rfl⟩
    · simp [entry_none]
    · rw [Machine.entry_size, pages_bytes]

/-- If `pisces_teardown` comes to an end, it has found the blocks on the record. -/
theorem Owned.onlined (owned : Owned machine state owner) {id : Nat} {onlined : Onlined}
    (few : (state.records id).memdescList.length < 0x100000000)
    (found : piscesTeardown machine.size (procCpuShow machine.nrCpuIds (state.records id))
      (procMemShow (state.records id)) = some onlined) (present : block ∈ machine.present) :
    (block : Int) ∈ onlined.blocks ↔ machine.entry (some block) ∈ (state.records id).memdescList := by
  have consistent := owned.consistent id few
  have listed : onlined.blocks =
      ((state.records id).memdescList.map entryOf).reverse.flatMap (onlineBlocks machine.size) := by
    rw [piscesTeardown] at found
    cases cpus : readFile cpuHdrStr 30 parseCpu (procCpuShow machine.nrCpuIds (state.records id)) with
    | none =>
        rw [cpus] at found
        cases found
    | some cpus' =>
        by_cases small : (state.records id).memdescList.length < 0x80000000
        · have memory : readFile memHdrStr 126 parseMem (procMemShow (state.records id)) =
              some ((state.records id).memdescList.map entryOf) :=
                @readMemory _ (bare (state.records id)) consistent small
          rw [cpus, memory] at found
          obtain rfl := Option.some.inj found
          rfl
        · have memory : readFile memHdrStr 126 parseMem (procMemShow (state.records id)) = none :=
            @readMemory_large _ (bare (state.records id)) consistent (Nat.le_of_not_lt small)
          rw [cpus, memory] at found
          cases found
  rw [listed, (onlined_perm _).mem_iff, List.mem_flatMap]
  constructor
  · rintro ⟨entry, member, covers⟩
    rcases owned.whole id entry member with rfl | ⟨other, also, rfl⟩
    · rw [onlineBlocks_zero] at covers
      cases covers
    · rw [onlineBlocks_entry also, List.mem_singleton] at covers
      exact Int.ofNat.inj covers ▸ member
  · intro member
    exact ⟨_, member, by rw [onlineBlocks_entry present]; exact List.mem_singleton_self _⟩

theorem mem_recorded : block ∈ machine.recorded record ↔
    block ∈ machine.present ∧ machine.entry (some block) ∈ record.memdescList := by
  simp [Machine.recorded]

theorem recorded_present (record : Record) : machine.recorded record ⊆ machine.present :=
  Finset.filter_subset _ _

theorem Owned.recorded_iff (owned : Owned machine state owner) (present : block ∈ machine.present)
    (unspilled : block ∉ state.spilled) (id : Nat) :
    block ∈ machine.recorded (state.records id) ↔ owner block = .enclave id := by
  have count := owned.recorded block present unspilled id
  rw [mem_recorded, ← List.count_pos_iff, count]
  split <;> simp_all

/-- The enclave is gone, and nobody has its blocks. -/
theorem Owned.free (owned : Owned machine state owner) (id : Nat) :
    Owned machine { state with
      records := Function.update state.records id Record.empty
      loose := state.loose ∪ machine.recorded (state.records id) }
      (moved owner (machine.recorded (state.records id)) .nobody) where
  inside := owned.inside
  counted := by
    intro other
    by_cases same : other = id
    · subst same
      simp [Record.empty]
    · simpa [same] using owned.counted other
  whole := by
    intro other entry listed
    by_cases same : other = id
    · subst same
      simp [Record.empty] at listed
    · exact owned.whole other entry (by simpa [same] using listed)
  online := by
    intro block present unspilled
    have before := owned.online block present unspilled
    by_cases member : block ∈ machine.recorded (state.records id)
    · have had := (owned.recorded_iff present unspilled id).mp member
      simpa [moved, member, had] using before
    · simpa [moved, member] using before
  recorded := by
    intro block present unspilled other
    have before := owned.recorded block present unspilled other
    have had := owned.recorded_iff present unspilled id
    by_cases same : other = id
    · subst same
      by_cases member : block ∈ machine.recorded (state.records other)
      · simp [Record.empty, moved, member]
      · have not := mt had.mpr member
        simp [Record.empty, moved, member, not]
    · by_cases member : block ∈ machine.recorded (state.records id)
      · simpa [moved, member, same, had.mp member, Ne.symm same] using before
      · simpa [moved, member, same] using before
  loose := by
    intro block present unspilled
    by_cases member : block ∈ machine.recorded (state.records id)
    · simp [moved, member]
    · simpa [moved, member] using owned.loose block present unspilled

theorem Owned.onlineAll (owned : Owned machine state owner) {id : Nat} {onlined : Onlined} (reply : TeardownReply)
    (listed : ∀ block ∈ machine.present,
      (block : Int) ∈ onlined.blocks ↔ machine.entry (some block) ∈ (state.records id).memdescList) :
    ∃ after, Owned machine (Memory.onlineAll machine state id reply onlined) after := by
  have onlines (online : Finset Nat) :
      machine.petOnlineBlocks online onlined.blocks = online ∪ machine.recorded (state.records id) := by
    rw [Machine.petOnlineBlocks, Machine.recorded, Finset.filter_congr listed]
  have inside := @recorded_present machine (state.records id)
  simp only [Memory.onlineAll, onlines]
  cases freed : reply.freed with
  | true =>
      have gone := owned.free id
      cases parsed : reply.parsed with
      | true => exact ⟨_, gone.putBack inside fun block member _ => Finset.mem_union_right _ member⟩
      | false => exact ⟨_, gone⟩
  | false =>
      cases parsed : reply.parsed with
      | true =>
          refine ⟨_, (owned.spill (machine.recorded (state.records id))).putBack inside ?_⟩
          exact fun block member unspilled => absurd (Finset.mem_union_right _ member) unspilled
      | false => exact ⟨_, owned.spill ∅⟩

/-! ## Runs -/

theorem Owned.other (owned : Owned machine state owner) (id : Nat)
    (same : record.memdescList = (state.records id).memdescList ∧ record.memdescNum = (state.records id).memdescNum) :
    Owned machine { state with records := Function.update state.records id record } owner := by
  have memory (number : Nat) : (Function.update state.records id record number).memdescList =
      (state.records number).memdescList ∧
      (Function.update state.records id record number).memdescNum = (state.records number).memdescNum := by
    by_cases equal : number = id
    · subst equal
      simpa using same
    · simp [equal]
  exact {
    inside := owned.inside
    counted := fun number => by rw [(memory number).1, (memory number).2, owned.counted]
    whole := fun number entry listed => owned.whole number entry ((memory number).1 ▸ listed)
    online := owned.online
    recorded := fun block present unspilled number => by rw [(memory number).1, owned.recorded block present unspilled]
    loose := owned.loose }

theorem Owned.step {call : Call} {after : State} (owned : Owned machine state owner) (counted : Counted state call)
    (stepped : step machine state call = some after) : ∃ owner, Owned machine after owner := by
  cases call with
  | launch id first count memory cpu cpuId reply =>
      simp only [Memory.step] at stepped
      split at stepped
      · next allowed =>
          have online : contigBlocks first count ⊆ state.online := by simpa using (Bool.and_eq_true_iff.mp allowed).2
          have taken := owned.take online
          have inside := online.trans owned.inside
          split at stepped
          · obtain rfl := Option.some.inj stepped
            exact taken.launchOn inside fun block member => loose_take member
          · obtain rfl := Option.some.inj stepped
            exact ⟨_, taken.putBack inside fun block member _ => loose_take member⟩
      · obtain rfl := Option.some.inj stepped
        exact ⟨owner, owned⟩
  | addMem id numBlocks tried replies =>
      simp only [Memory.step] at stepped
      split at stepped
      · obtain rfl := Option.some.inj stepped
        have online := (petOfflineBlocks_spec state.online (tried.take numBlocks)).2
        have subset : (petOfflineBlocks state.online (tried.take numBlocks)).toFinset ⊆ state.online :=
          fun block member => online block (List.mem_toFinset.mp member)
        exact ⟨_, (owned.take subset).putBack (subset.trans owned.inside) fun block member _ => loose_take member⟩
      · obtain rfl := Option.some.inj stepped
        simpa using owned.giveTaken replies (tried.take numBlocks) 0
  | addMemNode id numaNumBlocks tried replies =>
      obtain rfl := Option.some.inj stepped
      exact owned.giveTaken replies (tried.take numaNumBlocks) _
  | addMemExplicit id block works reply => exact step_addMemExplicit owned stepped
  | teardown id reply =>
      simp only [Memory.step, Option.some.injEq] at stepped
      rw [← stepped, tearDown]
      cases found : piscesTeardown machine.size (procCpuShow machine.nrCpuIds (state.records id))
          (procMemShow (state.records id)) with
      | none => exact ⟨owner, owned⟩
      | some onlined =>
          rw [Option.elim_some]
          split
          · exact owned.onlineAll reply fun block present => owned.onlined counted found present
          · exact ⟨owner, owned⟩
  | other id record =>
      simp only [Memory.step] at stepped
      split at stepped
      · next same =>
          obtain rfl := Option.some.inj stepped
          exact ⟨owner, owned.other id same⟩
      · cases stepped

theorem owned_initial (initial : (system machine).initial state) :
    Owned machine state fun block => if block ∈ state.online then .linux else .nobody := by
  obtain ⟨records, inside, spilled, loose⟩ := initial
  constructor
  · exact inside
  · intro id
    simp [records, Record.empty]
  · intro id entry listed
    simp [records, Record.empty] at listed
  · intro block present _
    by_cases online : block ∈ state.online <;> simp [online]
  · intro block present _ id
    by_cases online : block ∈ state.online <;> simp [records, Record.empty, online]
  · intro block present _
    by_cases online : block ∈ state.online <;> simp [loose, online, present]

theorem owned_of_reachable (reached : (system machine).Reachable Counted state) : ∃ owner, Owned machine state owner := by
  have kept : ∀ {state : State} {call : Call} {next : State}, (∃ owner, Owned machine state owner) →
      Counted state call → (system machine).step state call = some next → ∃ owner, Owned machine next owner :=
    fun ⟨_, owned⟩ counted stepped => owned.step counted stepped
  exact reached.invariant (fun initial => ⟨_, owned_initial initial⟩) kept

/-- In every run of launches, additions of memory and teardowns, a memory block is
in use by Linux, on record for one enclave and there once, or loose, unless it was
given back to Linux while an enclave had it; and a teardown gives back the blocks
on the enclave's record and no others. -/
theorem blocks_owned (machine : Machine) (state : State) (reached : (system machine).Reachable Counted state) :
    (∃ owner, Owned machine state owner) ∧
      ∀ id onlined, (state.records id).memdescList.length < 0x100000000 →
        piscesTeardown machine.size (procCpuShow machine.nrCpuIds (state.records id))
          (procMemShow (state.records id)) = some onlined →
        machine.petOnlineBlocks state.online onlined.blocks = state.online ∪ machine.recorded (state.records id) := by
  obtain ⟨owner, owned⟩ := owned_of_reachable reached
  refine ⟨⟨owner, owned⟩, ?_⟩
  intro id onlined few found
  rw [Machine.petOnlineBlocks, Machine.recorded,
    Finset.filter_congr fun block present => owned.onlined few found present]

theorem megabytes_pages : 12 ≤ 27 := by decide

theorem megabytes_word : 27 < 64 := by decide

theorem megabytes_small : 27 < 32 := by decide

/-- Three blocks of 128 MB -/
def threeBlocks : Machine where
  nrCpuIds := 4
  size := ⟨27, megabytes_pages, megabytes_word⟩
  small := megabytes_small
  present := {0, 1, 2}
  numbered := by
    intro block member
    simp only [Finset.mem_insert, Finset.mem_singleton] at member
    omega

def threeOnline : State :=
  { online := {0, 1, 2}, records := fun _ => Record.empty, loose := ∅, spilled := ∅ }

/-- Block 1 goes to enclave 7. -/
def addOne : Call :=
  .addMemExplicit 7 1 true { connected := true, answer := ⟨[], some 0⟩, copied := true }

def oneAdded : State :=
  (step threeBlocks threeOnline addOne).getD threeOnline

theorem blocks_owned_added : (system threeBlocks).Reachable Counted oneAdded ∧ 1 ∉ oneAdded.online ∧
    ∃ owner, Owned threeBlocks oneAdded owner ∧ owner 1 = .enclave 7 := by
  have initial : (system threeBlocks).initial threeOnline := ⟨rfl, subset_rfl, rfl, rfl⟩
  have stepped : (system threeBlocks).step threeOnline addOne = some oneAdded := rfl
  have counted : Counted threeOnline addOne := trivial
  have reached : (system threeBlocks).Reachable Counted oneAdded := ⟨_, initial, .single counted stepped⟩
  obtain ⟨owner, owned⟩ := (blocks_owned threeBlocks oneAdded reached).1
  refine ⟨reached, by decide, owner, owned, ?_⟩
  have count := owned.recorded 1 (by decide) (by decide) 7
  by_contra other
  rw [if_neg other] at count
  exact absurd count (by decide)

end Pisces.User.Memory
