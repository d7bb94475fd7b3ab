import Mathlib.Data.Set.Basic
import Pisces.Fs.Transfer
import Pisces.Lcall.Dispatch

/-! # What a long call is read from

The bytes of a received message that the `switch` and its handlers read.  No
handler looks at the length, so the bytes beyond the message are read as well.
-/

namespace Pisces.Dispatch

def field (offset length : Nat) : Set Nat := {index | offset ≤ index ∧ index < offset + length}

/-- A string that is read to its terminator -/
def stringAt (message : Message) (offset : Nat) : Set Nat :=
  {index | offset ≤ index ∧ ∀ earlier, offset ≤ earlier → earlier < index → message earlier ≠ 0}

/-- `strncmp` of a device's name and the message's stops at the first difference
and at a terminator. -/
def strncmpReads (message : Message) (name : List UInt8) : Set Nat :=
  {index | ∃ count < 128, index = 12 + count ∧
    ∀ earlier < count, name.getD earlier 0 = message (12 + earlier) ∧ message (12 + earlier) ≠ 0}

/-- `find_dev_by_name` compares the devices up to the first of that name. -/
def findReads (pci : Pci.State) (message : Message) : Set Nat :=
  {index | ∃ left device right, pci.devList = left ++ device :: right ∧
    (∀ other ∈ left, other.named message.name = false) ∧ index ∈ strncmpReads message device.name}

/-- `outerLoop`: the number of the descriptors, the size of each that is reached,
and its address when something is transferred -/
def outerReads (direction : Fs.Direction) (vfs : Fs.Vfs) (file length : UInt64) (i : Nat) (lcall : Fs.TransferLcall)
    (progress : Fs.Progress) : Set Nat :=
  field 36 4 ∪
    if more : i < lcall.numDescs.toNat then
      field (40 + 12 * i) 4 ∪
        if progress.total ≥ length then ∅
        else
          let turn := Fs.innerLoop direction vfs file i 0 (lcall.size i) 0 lcall progress
          (if lcall.size i = 0 then ∅ else field (44 + 12 * i) 8) ∪
            if turn.1 = 0 then ∅ else outerReads direction vfs file length (i + 1) turn.2.1 turn.2.2
    else ∅
termination_by 0x100000000 - i
decreasing_by
  have bound : lcall.numDescs.toNat < 0x100000000 := lcall.numDescs.toNat_lt
  omega

/-- The fixed part of a transfer, and its descriptors if the file is open -/
def transferReads (direction : Fs.Direction) (vfs : Fs.Vfs) (fs : Fs.State) (lcall : Fs.TransferLcall) : Set Nat :=
  field 12 24 ∪
    if Fs.search fs lcall.fileHandle then
      outerReads direction vfs lcall.fileHandle lcall.length 0 lcall ⟨lcall.offset, 0, []⟩
    else ∅

/-- A handler that looks a device up, and prints the name if it has to give up -/
def lookupReads (pci : Pci.State) (message : Message) (accepted : Bool) (fields : Set Nat) : Set Nat :=
  findReads pci message ∪ if accepted then fields else stringAt message 12

/-- Whether INTX_DISABLE or INTX_ENABLE finds INTx as it asks for, and prints the name -/
def alreadyDone (pci : Pci.State) (message : Message) : Bool :=
  (Pci.findDevByName pci message.name).any fun device =>
    (message.u32At 140 == 4 && device.intxDisabled) || (message.u32At 140 == 5 && !device.intxDisabled)

/-- The bytes that a dispatch reads; `xpmemCmd` is the size of `struct xpmem_cmd_ex`. -/
def reads (config : Config) (xpmemCmd : Nat) (services : Services) (state : State) (message : Message) : Set Nat :=
  field 0 8 ∪
    match config.case message.lcall with
    | .vfsRead => transferReads .read services.vfs state.fs message
    | .vfsWrite => transferReads .write services.vfs state.fs message
    | .vfsOpen => field 12 4 ∪ stringAt message 16
    | .vfsClose => field 12 8
    | .vfsSize => field 12 8
    | .xpmemCmdEx => if services.xpmemLinkData then field 12 xpmemCmd else ∅
    | .iommuMap => lookupReads state.pci message (Pci.assignedAs state.pci message.name) (field 140 24)
    | .iommuUnmap => lookupReads state.pci message (Pci.assignedAs state.pci message.name) (field 140 24)
    | .pciAttach =>
        lookupReads state.pci message (Pci.removableAs state.pci message.name)
          (if services.iommuAttach = 0 ∧ Pci.probedAs state.pci message.name then field 140 4 else ∅)
    | .pciDetach => lookupReads state.pci message (Pci.assignedAs state.pci message.name) ∅
    | .pciAckIrq => lookupReads state.pci message (Pci.findDevByName state.pci message.name).isSome ∅
    | .pciCmd =>
        field 140 4 ∪ lookupReads state.pci message (Pci.findDevByName state.pci message.name).isSome
          (if alreadyDone state.pci message then stringAt message 12 else ∅)
    | .unimplemented => ∅

def Within (size : Nat) (indices : Set Nat) : Prop := ∀ index ∈ indices, index < size

/-- Whatever the kernel answers meanwhile, a message of this size is read inside. -/
def Inside (config : Config) (xpmemCmd : Nat) (state : State) (message : Message) (size : Nat) : Prop :=
  ∀ services, Within size (reads config xpmemCmd services state message)

def Terminated (message : Message) (size offset : Nat) : Prop :=
  ∃ index, offset ≤ index ∧ index < size ∧ message index = 0

/-- The loop can get to a descriptor: something is asked for and no earlier one is empty. -/
def Reaches (lcall : Fs.TransferLcall) (index : Nat) : Prop :=
  ∀ earlier < index, lcall.length ≠ 0 ∧ (lcall.descs[earlier]?).any (·.size != 0) = true

/-- The descriptors that the loop can get to are inside the message. -/
def DescsFit (lcall : Fs.TransferLcall) (size : Nat) : Prop :=
  ∀ index desc, lcall.descs[index]? = some desc → Reaches lcall index →
    44 + 12 * index ≤ size ∧ (lcall.length ≠ 0 → desc.size ≠ 0 → 52 + 12 * index ≤ size)

def TransferFits (fs : Fs.State) (lcall : Fs.TransferLcall) (size : Nat) : Prop :=
  36 ≤ size ∧ (Fs.search fs lcall.fileHandle = true → 40 ≤ size ∧ DescsFit lcall size)

/-- A lookup that succeeds needs the name as far as it is compared, and the fields behind it. -/
def LookupFits (message : Message) (size : Nat) (accepted : Bool) (fields : Prop) : Prop :=
  if accepted then (140 ≤ size ∨ Terminated message size 12) ∧ fields else Terminated message size 12

/-- The message is as long as its request needs. -/
def Fits (config : Config) (xpmemCmd : Nat) (state : State) (message : Message) (size : Nat) : Prop :=
  8 ≤ size ∧
    match config.case message.lcall with
    | .vfsRead => TransferFits state.fs message size
    | .vfsWrite => TransferFits state.fs message size
    | .vfsOpen => 16 ≤ size ∧ Terminated message size 16
    | .vfsClose => 20 ≤ size
    | .vfsSize => 20 ≤ size
    | .xpmemCmdEx => xpmemCmd = 0 ∨ 12 + xpmemCmd ≤ size
    | .iommuMap => LookupFits message size (Pci.assignedAs state.pci message.name) (164 ≤ size)
    | .iommuUnmap => LookupFits message size (Pci.assignedAs state.pci message.name) (164 ≤ size)
    | .pciAttach =>
        LookupFits message size (Pci.removableAs state.pci message.name)
          (Pci.probedAs state.pci message.name = true → 144 ≤ size)
    | .pciDetach => LookupFits message size (Pci.assignedAs state.pci message.name) True
    | .pciAckIrq => LookupFits message size (Pci.findDevByName state.pci message.name).isSome True
    | .pciCmd =>
        144 ≤ size ∧ LookupFits message size (Pci.findDevByName state.pci message.name).isSome
          (alreadyDone state.pci message = true → Terminated message size 12)
    | .unimplemented => True

/-- A read of an open file does not change what is still read of its own message. -/
def Uncovered (config : Config) (state : State) (message : Message) : Prop :=
  config.case message.lcall = .vfsRead → Fs.search state.fs (Fs.TransferLcall.fileHandle message) = true →
    Fs.TransferLcall.Apart message

section Within

variable {message : Message} {size : Nat} {pci : Pci.State}

@[simp] theorem within_empty : Within size ∅ ↔ True := by
  simp [Within]

@[simp] theorem within_union {left right : Set Nat} :
    Within size (left ∪ right) ↔ Within size left ∧ Within size right := by
  simp [Within, or_imp, forall_and]

theorem within_field {offset length : Nat} (filled : 0 < length) :
    Within size (field offset length) ↔ offset + length ≤ size := by
  constructor
  · intro inside
    have last := inside (offset + length - 1) ⟨by omega, by omega⟩
    omega
  · intro bound index member
    exact Nat.lt_of_lt_of_le member.2 bound

theorem within_stringAt {offset : Nat} : Within size (stringAt message offset) ↔ Terminated message size offset := by
  constructor
  · intro inside
    by_contra unterminated
    -- Without a terminator inside, the reading goes on to the first byte outside.
    have outside := inside (max offset size) ⟨Nat.le_max_left _ _, fun earlier lower upper zero =>
      unterminated ⟨earlier, lower, by omega, zero⟩⟩
    omega
  · rintro ⟨terminator, lower, upper, zero⟩ index ⟨-, nonzero⟩
    by_contra outside
    exact nonzero terminator lower (by omega) zero

theorem findReads_subset : findReads pci message ⊆ stringAt message 12 := by
  rintro index ⟨left, device, right, -, -, count, -, rfl, same⟩
  refine ⟨Nat.le_add_right _ _, fun earlier lower upper => ?_⟩
  have position : 12 + (earlier - 12) = earlier := by omega
  rw [← position]
  exact (same (earlier - 12) (by omega)).2

theorem cString_getElem? {name : List UInt8} {index : Nat} {byte : UInt8}
    (found : (Pci.cString name)[index]? = some byte) : name.getD index 0 = byte := by
  obtain ⟨rest, whole⟩ : Pci.cString name <+: name := (List.takeWhile_prefix _).trans (List.take_prefix _ _)
  have inside := (List.getElem?_eq_some_iff.mp found).1
  have same : name[index]? = (Pci.cString name)[index]? := by
    rw [← List.getElem?_append_left inside, whole]
  rw [List.getD_eq_getElem?_getD, same, found]
  rfl

theorem name_getElem? {count index : Nat} (short : count < 128)
    (nonzero : ∀ earlier < count, message (12 + earlier) ≠ 0) (before : index < count) :
    (Pci.cString message.name)[index]? = some (message (12 + index)) := by
  have first : message.name.take count = (List.range count).map fun index => message (12 + index) := by
    rw [Message.name, ← List.map_take, List.take_range, Nat.min_eq_left (Nat.le_of_lt short)]
  have all : ∀ byte ∈ message.name.take count, decide (byte ≠ 0) = true := by
    rw [first]
    intro byte listed
    obtain ⟨earlier, inRange, rfl⟩ := List.mem_map.mp listed
    simpa using nonzero earlier (List.mem_range.mp inRange)
  have whole : message.name.take 128 = message.name.take count ++ message.name.drop count := by
    rw [List.take_append_drop]
    exact List.take_of_length_le (by simp [Message.name])
  rw [Pci.cString, whole, List.takeWhile_append_of_pos all, List.getElem?_append_left (by simp [first, before]), first]
  simp [before]

/-- A device that is found is compared to the end of its name. -/
theorem within_findReads {device : Pci.Device} (found : Pci.findDevByName pci message.name = some device) :
    Within size (findReads pci message) ↔ 140 ≤ size ∨ Terminated message size 12 := by
  obtain ⟨named, left, right, split, others⟩ := List.find?_eq_some_iff_append.mp found
  constructor
  · intro inside
    by_contra neither
    rw [not_or] at neither
    obtain ⟨short, unterminated⟩ := neither
    have nonzero : ∀ earlier < size - 12, message (12 + earlier) ≠ 0 := by
      intro earlier before zero
      exact unterminated ⟨12 + earlier, by omega, by omega, zero⟩
    have outside := inside (12 + (size - 12)) ⟨left, device, right, split, by simpa using others,
      size - 12, by omega, rfl, ?_⟩
    · omega
    · intro earlier before
      have bytes := name_getElem? (by omega) nonzero before
      rw [← beq_iff_eq.mp named] at bytes
      exact ⟨cString_getElem? bytes, nonzero earlier before⟩
  · intro bound index member
    rcases bound with long | terminated
    · obtain ⟨left, device, right, -, -, count, short, rfl, -⟩ := member
      omega
    · exact within_stringAt.mpr terminated index (findReads_subset member)

theorem within_lookupReads {accepted : Bool} {fields : Set Nat}
    (sound : accepted = true → (Pci.findDevByName pci message.name).isSome = true) :
    Within size (lookupReads pci message accepted fields) ↔
      LookupFits message size accepted (Within size fields) := by
  rw [lookupReads, within_union, LookupFits]
  cases accepted with
  | true =>
      obtain ⟨device, found⟩ := Option.isSome_iff_exists.mp (sound rfl)
      simp only [if_true, within_findReads found]
  | false =>
      simp only [Bool.false_eq_true, if_false, within_stringAt]
      constructor
      · exact And.right
      · intro terminated
        exact ⟨fun index member => within_stringAt.mpr terminated index (findReads_subset member), terminated⟩

end Within

section Transfers

variable {direction : Fs.Direction} {lcall later : Fs.TransferLcall} {size : Nat} {length : UInt64}

/-- What `outerReads` reads of the descriptors of a message that stays as it was -/
def descReads (vfs : Fs.Vfs) (file length : UInt64) : Nat → List Fs.BufDesc → Fs.Progress → Set Nat
  | _, [], _ => ∅
  | index, desc :: rest, progress =>
      field (40 + 12 * index) 4 ∪
        if progress.total ≥ length then ∅
        else
          (if desc.size = 0 then ∅ else field (44 + 12 * index) 8) ∪
            if (Fs.descLoop vfs file desc.physAddr 0 desc.size 0 progress).1 = 0 then ∅
            else descReads vfs file length (index + 1) rest
              (Fs.descLoop vfs file desc.physAddr 0 desc.size 0 progress).2

theorem within_outerReads (vfs : Fs.Vfs) (file : UInt64) (apart : direction = .read → lcall.Apart) (i : Nat)
    (progress : Fs.Progress) (kept : lcall.Kept (40 + 12 * i) later) :
    Within size (outerReads direction vfs file length i later progress) ↔
      40 ≤ size ∧ Within size (descReads vfs file length i (lcall.descs.drop i) progress) := by
  have count : Within size (field 36 4) ↔ 40 ≤ size := within_field (by decide)
  fun_induction outerReads direction vfs file length i later progress with
  | case1 i later progress ih =>
      rw [within_union, count]
      refine and_congr_right fun long => ?_
      by_cases more : i < later.numDescs.toNat
      · have inside := more
        rw [kept.numDescs] at inside
        obtain ⟨last, next, further⟩ := Fs.turn_steady vfs file apart inside progress kept
        have rest := ih more (further.mono (by omega))
        have size := kept.size inside (Nat.le_refl _)
        rw [dif_pos more, lcall.descs_drop inside, descReads, within_union, within_union]
        refine and_congr_right fun _ => ?_
        by_cases enough : progress.total ≥ length
        · rw [if_pos enough, if_pos enough]
        · rw [if_neg enough, if_neg enough, within_union, within_union]
          refine and_congr (by rw [size]) ?_
          rw [last]
          split
          · rfl
          · rw [← next]
            exact rest.trans (and_iff_right long)
      · have none := more
        rw [kept.numDescs] at none
        rw [dif_neg more, List.drop_of_length_le (by simpa [Fs.TransferLcall.descs] using none)]
        rfl

/-- The condition on the descriptors, from one of them on -/
def DescsFitFrom (length : UInt64) (size start : Nat) (descs : List Fs.BufDesc) : Prop :=
  ∀ index desc, descs[index]? = some desc →
    (∀ earlier < index, length ≠ 0 ∧ (descs[earlier]?).any (·.size != 0) = true) →
      44 + 12 * (start + index) ≤ size ∧ (length ≠ 0 → desc.size ≠ 0 → 52 + 12 * (start + index) ≤ size)

theorem descsFitFrom_cons {start : Nat} {desc : Fs.BufDesc} {rest : List Fs.BufDesc} :
    DescsFitFrom length size start (desc :: rest) ↔
      44 + 12 * start ≤ size ∧ (length ≠ 0 → desc.size ≠ 0 → 52 + 12 * start ≤ size) ∧
        (length ≠ 0 → desc.size ≠ 0 → DescsFitFrom length size (start + 1) rest) := by
  constructor
  · intro fits
    obtain ⟨here, address⟩ := fits 0 desc rfl fun earlier before => absurd before (Nat.not_lt_zero _)
    refine ⟨here, address, fun asked filled index later found reached => ?_⟩
    have next := fits (index + 1) later found fun earlier before => by
      cases earlier with
      | zero => exact ⟨asked, by simpa using filled⟩
      | succ earlier => exact reached earlier (by omega)
    rwa [Nat.add_right_comm, Nat.add_assoc start index 1]
  · rintro ⟨here, address, others⟩ index found listed reached
    cases index with
    | zero =>
        obtain rfl := Option.some.inj listed
        exact ⟨here, address⟩
    | succ index =>
        obtain ⟨asked, filled⟩ := reached 0 (Nat.succ_pos _)
        have later := others asked (by simpa using filled) index found listed fun earlier before =>
          reached (earlier + 1) (by omega)
        rwa [Nat.add_right_comm, Nat.add_assoc start index 1] at later

theorem descLoop_empty (vfs : Fs.Vfs) (file physAddr : UInt64) (progress : Fs.Progress) :
    (Fs.descLoop vfs file physAddr 0 0 0 progress).1 = 0 := by
  rw [Fs.descLoop]
  rfl

theorem within_descReads (vfs : Fs.Vfs) (file : UInt64) {start : Nat} {descs : List Fs.BufDesc}
    (fits : DescsFitFrom length size start descs) (progress : Fs.Progress) :
    Within size (descReads vfs file length start descs progress) := by
  induction descs generalizing start progress with
  | nil => exact within_empty.mpr trivial
  | cons desc rest ih =>
      obtain ⟨here, address, others⟩ := descsFitFrom_cons.mp fits
      rw [descReads, within_union, within_field (by decide)]
      refine ⟨by omega, ?_⟩
      split
      · exact within_empty.mpr trivial
      · rename_i unfinished
        have asked : length ≠ 0 := by
          rintro rfl
          exact unfinished (UInt64.zero_le ..)
        rw [within_union]
        constructor
        · split
          · exact within_empty.mpr trivial
          · rename_i filled
            rw [within_field (by decide)]
            have bound := address asked filled
            omega
        · split
          · exact within_empty.mpr trivial
          · rename_i more
            refine ih (others asked fun empty => more ?_) _
            rw [empty]
            exact descLoop_empty ..

/-- A file system that fails every transfer, so that the loop goes on to the end -/
def refusing : Fs.Vfs where
  filpOpen _ _ := 0
  getattr _ := (0, 0)
  transfer _ _ _ _ _ := -1
  contents _ _ _ := 0
  bounded _ _ _ _ _ := by omega

theorem descLoop_refusing {left : UInt32} (filled : left ≠ 0) (file physAddr : UInt64) (progress : Fs.Progress) :
    (Fs.descLoop refusing file physAddr 0 left 0 progress).1 = -1 ∧
      (Fs.descLoop refusing file physAddr 0 left 0 progress).2.total = progress.total := by
  rw [Fs.descLoop, if_neg filled]
  exact ⟨rfl, rfl⟩

theorem descsFit_of_refusing (file : UInt64) {start : Nat} {descs : List Fs.BufDesc} {progress : Fs.Progress}
    (nothing : progress.total = 0) (inside : Within size (descReads refusing file length start descs progress)) :
    DescsFitFrom length size start descs := by
  induction descs generalizing start progress with
  | nil => exact fun index desc found => by cases found
  | cons desc rest ih =>
      rw [descReads, within_union, within_field (by decide)] at inside
      obtain ⟨here, later⟩ := inside
      have unfinished : length ≠ 0 → ¬ progress.total ≥ length := by
        intro asked done
        rw [nothing] at done
        exact asked (UInt64.le_zero_iff.mp done)
      refine descsFitFrom_cons.mpr ⟨by omega, fun asked filled => ?_, fun asked filled => ?_⟩
      · rw [if_neg (unfinished asked), within_union, if_neg filled, within_field (by decide)] at later
        omega
      · obtain ⟨failed, total⟩ := descLoop_refusing filled file desc.physAddr progress
        have more : ¬ (Fs.descLoop refusing file desc.physAddr 0 desc.size 0 progress).1 = 0 := by
          rw [failed]
          decide
        rw [if_neg (unfinished asked), within_union, if_neg filled, if_neg more] at later
        exact ih (total.trans nothing) later.2

theorem innerLoop_refusing (file : UInt64) (i : Nat) (left : UInt32) (lcall : Fs.TransferLcall) (progress : Fs.Progress) :
    Fs.innerLoop .read refusing file i 0 left 0 lcall progress =
      Fs.innerLoop .write refusing file i 0 left 0 lcall progress := by
  rw [Fs.innerLoop, Fs.innerLoop]
  split
  · rfl
  · rfl

/-- A transfer that moves nothing does the same in both directions. -/
theorem outerReads_refusing (file : UInt64) (i : Nat) (lcall : Fs.TransferLcall) (progress : Fs.Progress) :
    outerReads .read refusing file length i lcall progress = outerReads .write refusing file length i lcall progress := by
  fun_induction outerReads .read refusing file length i lcall progress with
  | case1 i lcall progress ih =>
      rw [outerReads.eq_def .write]
      split
      · rename_i more
        have later := ih more
        simp only [innerLoop_refusing] at later ⊢
        rw [later]
      · rfl

theorem within_transferReads_refusing {fs : Fs.State} (direction : Fs.Direction)
    (inside : Within size (transferReads direction refusing fs lcall)) : TransferFits fs lcall size := by
  rw [transferReads, within_union, within_field (by decide)] at inside
  refine ⟨inside.1, fun opened => ?_⟩
  have written : Within size (outerReads .write refusing lcall.fileHandle lcall.length 0 lcall
      ⟨lcall.offset, 0, []⟩) := by
    have transferred := inside.2
    rw [if_pos opened] at transferred
    cases direction with
    | read => rwa [outerReads_refusing] at transferred
    | write => exact transferred
  rw [within_outerReads refusing _ (by simp) 0 _ (.refl lcall _)] at written
  refine ⟨written.1, ?_⟩
  simpa only [DescsFit, DescsFitFrom, Reaches, Nat.zero_add, List.drop_zero] using descsFit_of_refusing _ rfl written.2

theorem within_transferReads {fs : Fs.State} (fits : TransferFits fs lcall size)
    (apart : direction = .read → Fs.search fs lcall.fileHandle = true → lcall.Apart) (vfs : Fs.Vfs) :
    Within size (transferReads direction vfs fs lcall) := by
  obtain ⟨fixed, descs⟩ := fits
  rw [transferReads, within_union, within_field (by decide)]
  refine ⟨fixed, ?_⟩
  split
  · rename_i opened
    obtain ⟨count, fits⟩ := descs opened
    rw [within_outerReads vfs _ (fun read => apart read opened) 0 _ (.refl lcall _)]
    refine ⟨count, within_descReads _ _ ?_ _⟩
    simpa only [DescsFit, DescsFitFrom, Reaches, Nat.zero_add, List.drop_zero] using fits
  · exact within_empty.mpr trivial

end Transfers

/-- A kernel in which nothing but the file system can fail -/
def serving (vfs : Fs.Vfs) : Services := ⟨vfs, Fs.plenty, 0, fun _ => 0, fun _ => 0, true⟩

instance : Nonempty Services := ⟨serving refusing⟩

theorem found_of_assigned {pci : Pci.State} {name : List UInt8} (assigned : Pci.assignedAs pci name = true) :
    (Pci.findDevByName pci name).isSome = true := by
  obtain ⟨device, found, -⟩ := (Option.any_eq_true _ _).mp assigned
  simp [found]

theorem found_of_removable {pci : Pci.State} {name : List UInt8} (removable : Pci.removableAs pci name = true) :
    (Pci.findDevByName pci name).isSome = true := by
  obtain ⟨device, found, -⟩ := (Option.any_eq_true _ _).mp removable
  simp [found]

theorem transfer_inside_iff {direction : Fs.Direction} {fs : Fs.State} {lcall : Fs.TransferLcall} {size : Nat} :
    ((∀ services : Services, 8 ≤ size ∧ Within size (transferReads direction services.vfs fs lcall)) →
      8 ≤ size ∧ TransferFits fs lcall size) ∧
      (8 ≤ size ∧ TransferFits fs lcall size →
        (direction = .read → Fs.search fs lcall.fileHandle = true → lcall.Apart) →
          ∀ services : Services, 8 ≤ size ∧ Within size (transferReads direction services.vfs fs lcall)) := by
  constructor
  · intro inside
    obtain ⟨header, refused⟩ := inside (serving refusing)
    exact ⟨header, within_transferReads_refusing direction refused⟩
  · rintro ⟨header, fits⟩ apart services
    exact ⟨header, within_transferReads fits apart services.vfs⟩

theorem xpmem_inside_iff {xpmemCmd size : Nat} :
    (∀ services : Services, 8 ≤ size ∧ Within size (if services.xpmemLinkData then field 12 xpmemCmd else ∅)) ↔
      8 ≤ size ∧ (xpmemCmd = 0 ∨ 12 + xpmemCmd ≤ size) := by
  have command : Within size (field 12 xpmemCmd) ↔ xpmemCmd = 0 ∨ 12 + xpmemCmd ≤ size := by
    rcases Nat.eq_zero_or_pos xpmemCmd with rfl | filled
    · simp [Within, field]
    · rw [within_field filled]
      simp [Nat.ne_of_gt filled]
  constructor
  · intro inside
    obtain ⟨long, rest⟩ := inside (serving refusing)
    exact ⟨long, command.mp rest⟩
  · rintro ⟨long, fits⟩ services
    refine ⟨long, ?_⟩
    split
    · exact command.mpr fits
    · exact within_empty.mpr trivial

theorem LookupFits.mono {message : Message} {size : Nat} {accepted : Bool} {fields fewer : Prop}
    (fits : LookupFits message size accepted fields) (weaker : fields → fewer) :
    LookupFits message size accepted fewer := by
  cases accepted with
  | true => exact ⟨fits.1, weaker fits.2⟩
  | false => exact fits

theorem attach_inside_iff {pci : Pci.State} {message : Message} {size : Nat} :
    (∀ services : Services, 8 ≤ size ∧ Within size (lookupReads pci message (Pci.removableAs pci message.name)
      (if services.iommuAttach = 0 ∧ Pci.probedAs pci message.name then field 140 4 else ∅))) ↔
      8 ≤ size ∧ LookupFits message size (Pci.removableAs pci message.name)
        (Pci.probedAs pci message.name = true → 144 ≤ size) := by
  have vector : Within size (field 140 4) ↔ 144 ≤ size := within_field (by decide)
  simp only [within_lookupReads found_of_removable]
  constructor
  · intro inside
    obtain ⟨long, attached⟩ := inside (serving refusing)
    refine ⟨long, attached.mono fun behind probed => ?_⟩
    rwa [if_pos ⟨rfl, probed⟩, vector] at behind
  · rintro ⟨long, fits⟩ services
    refine ⟨long, fits.mono fun behind => ?_⟩
    split
    · rename_i accepted
      exact vector.mpr (behind accepted.2)
    · exact within_empty.mpr trivial

theorem within_printed {pci : Pci.State} {message : Message} {size : Nat} :
    Within size (if alreadyDone pci message then stringAt message 12 else ∅) ↔
      (alreadyDone pci message = true → Terminated message size 12) := by
  split
  · rename_i done
    simp [within_stringAt, done]
  · rename_i undone
    simp [undone]

/-- Dispatching a message other than a read stays inside it exactly when the
message is as long as its request needs. -/
theorem inside_iff_of_not_read {config : Config} {state : State} {message : Message}
    (other : config.case message.lcall ≠ .vfsRead) (xpmemCmd size : Nat) :
    Inside config xpmemCmd state message size ↔ Fits config xpmemCmd state message size := by
  have header : Within size (field 0 8) ↔ 8 ≤ size := within_field (by decide)
  simp only [Inside, reads, Fits, within_union, header]
  cases found : config.case message.lcall with
  | vfsRead => exact absurd found other
  | vfsWrite => exact ⟨transfer_inside_iff.1, fun fits => transfer_inside_iff.2 fits (by simp)⟩
  | vfsOpen =>
      have mode : Within size (field 12 4) ↔ 16 ≤ size := within_field (by decide)
      simp only [within_union, mode, within_stringAt, forall_const]
  | vfsClose | vfsSize =>
      have handle : Within size (field 12 8) ↔ 20 ≤ size := within_field (by decide)
      simp only [handle, forall_const]
  | xpmemCmdEx => exact xpmem_inside_iff
  | iommuMap | iommuUnmap =>
      have region : Within size (field 140 24) ↔ 164 ≤ size := within_field (by decide)
      simp only [within_lookupReads found_of_assigned, region, forall_const]
  | pciAttach => exact attach_inside_iff
  | pciDetach => simp only [within_lookupReads found_of_assigned, within_empty, forall_const]
  | pciAckIrq => simp only [within_lookupReads id, within_empty, forall_const]
  | pciCmd =>
      have command : Within size (field 140 4) ↔ 144 ≤ size := within_field (by decide)
      simp only [within_union, command, within_lookupReads id, within_printed, forall_const]
  | unimplemented => simp only [within_empty, forall_const]

/-- Dispatching a message stays inside it only when the message is as long as
its request needs, and then always, unless a read changes its own message. -/
theorem inside_iff_fits (config : Config) (xpmemCmd : Nat) (state : State) (message : Message) (size : Nat) :
    (Inside config xpmemCmd state message size → Fits config xpmemCmd state message size) ∧
      (Uncovered config state message →
        (Inside config xpmemCmd state message size ↔ Fits config xpmemCmd state message size)) := by
  by_cases read : config.case message.lcall = .vfsRead
  · have header : Within size (field 0 8) ↔ 8 ≤ size := within_field (by decide)
    simp only [Inside, reads, Fits, within_union, header, read, Uncovered, forall_const]
    exact ⟨transfer_inside_iff.1, fun apart =>
      ⟨transfer_inside_iff.1, fun fits => transfer_inside_iff.2 fits fun _ => apart⟩⟩
  · have same := @inside_iff_of_not_read config state message read xpmemCmd size
    exact ⟨same.mp, fun _ => same⟩

/-- A close request that consists of its header -/
def closeMessage : Message :=
  .of [0x13, 0x27, 0, 0, 0, 0, 0, 0, 0, 0, 0, 0]

/-- The handle is read behind the end of a message of 12 bytes. -/
theorem close_not_inside : ¬ ∀ config xpmemCmd state message size, 1 ≤ size →
    Inside config xpmemCmd state message size := by
  intro always
  obtain ⟨fs, -⟩ : ∃ fs, Fs.initEnclaveFs = some fs := ⟨_, rfl⟩
  have inside := always ⟨true, true⟩ 1 ⟨fs, ⟨[], 0⟩⟩ closeMessage 12 (by decide) (serving refusing)
  have found : (Config.mk true true).case closeMessage.lcall = .vfsClose := by decide +kernel
  have read : 12 ∈ reads ⟨true, true⟩ 1 (serving refusing) ⟨fs, ⟨[], 0⟩⟩ closeMessage := by
    rw [reads, found]
    exact .inr ⟨Nat.le_refl _, by decide⟩
  exact absurd (inside 12 read) (by decide)

end Pisces.Dispatch
