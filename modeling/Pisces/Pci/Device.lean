import Mathlib.Data.List.Nodup
import Mathlib.Data.List.TakeWhile

/-! # The PCI devices of an enclave

`enclave_pci_add_dev`, `enclave_pci_remove_dev` and what the attach and detach
long calls do to the device list.
-/

namespace Pisces.Pci

/-- The part of a `char[128]` that `strncmp` and `strncpy` with bound 128 see;
`strncpy` fills the rest with zeroes. -/
def cString (name : List UInt8) : List UInt8 :=
  (name.take 128).takeWhile (· ≠ 0)

/-- `struct pisces_pci_spec` -/
structure Spec where
  name : List UInt8
  bus : UInt32
  dev : UInt32
  func : UInt32
  deriving DecidableEq

/-- `struct pisces_pci_dev` -/
structure Device where
  name : List UInt8
  bus : UInt32
  devfn : UInt32
  ready : Bool
  assigned : Bool
  iommuEnabled : Bool
  deviceIpiVector : UInt32
  intxDisabled : Bool
  /-- `dev` is set.  It is NULL while `enclave_pci_add_dev` has listed the device
  and still looks for it. -/
  dev : Bool := true
  deriving DecidableEq

/-- `struct enclave_pci_state` -/
structure State where
  devList : List Device
  devCnt : UInt32
  deriving DecidableEq

/-- What the kernel answers while a device is initialised. -/
structure Hardware where
  /-- `pci_get_bus_and_slot` finds the device. -/
  found : Bool
  /-- The header type is `PCI_HEADER_TYPE_NORMAL`. -/
  normalHeader : Bool
  iommuPresent : Bool
  enableDevice : Bool
  requestRegions : Int
  domainAlloc : Bool
  deriving DecidableEq

/-- `PCI_DEVFN` -/
def devfn (slot func : UInt32) : UInt32 :=
  ((slot &&& 0x1f) <<< 3) ||| (func &&& 0x07)

/-- `PCI_SLOT` -/
def pciSlot (devfn : UInt32) : UInt32 := (devfn >>> 3) &&& 0x1f

/-- `PCI_FUNC` -/
def pciFunc (devfn : UInt32) : UInt32 := devfn &&& 0x07

def Device.named (device : Device) (name : List UInt8) : Bool :=
  cString device.name == cString name

def findDevByName (state : State) (name : List UInt8) : Option Device :=
  state.devList.find? (·.named name)

/-- `__init_pci_dev`: -EBUSY, the error of `pci_request_regions`, or -ENOMEM. -/
def initPciDev (hardware : Hardware) : Int :=
  if !hardware.enableDevice then -16
  else if hardware.requestRegions ≠ 0 then hardware.requestRegions
  else if !hardware.domainAlloc then -12
  else 0

/-- The checks of `enclave_pci_add_dev` after the device is on the list:
-EINVAL, -EPERM, -ENODEV or the result of `__init_pci_dev`. -/
def probe (hardware : Hardware) : Int :=
  if !hardware.found then -22
  else if !hardware.normalHeader then -1
  else if !hardware.iommuPresent then -19
  else initPciDev hardware

/-- `enclave_pci_add_dev`: a device whose initialisation fails is taken off the
list but stays counted. -/
def enclavePciAddDev (state : State) (spec : Spec) (hardware : Hardware) : Int × State :=
  match findDevByName state spec.name with
  | some _ => (-1, state)
  | none =>
      if probe hardware = 0 then
        (0, { devList :=
                { name := cString spec.name, bus := spec.bus, devfn := devfn spec.dev spec.func,
                  ready := true, assigned := false, iommuEnabled := true, deviceIpiVector := 0,
                  intxDisabled := true } :: state.devList
              devCnt := state.devCnt + 1 })
      else
        (probe hardware, { state with devCnt := state.devCnt + 1 })

/-- The condition of `__unregister_device`. -/
def Device.removable (device : Device) : Bool :=
  !device.assigned && device.ready

/-- `enclave_pci_remove_dev`: the device is counted off by `__unregister_device`
and once more at the end. -/
def enclavePciRemoveDev (state : State) (spec : Spec) : Int × State :=
  match findDevByName state spec.name with
  | none => (-1, state)
  | some device =>
      if device.removable then
        (0, { devList := state.devList.eraseP (·.named spec.name), devCnt := state.devCnt - 2 })
      else
        (-1, state)

/-- `reset_enclave_pci`: a device that cannot be initialised again stays listed. -/
def resetEnclavePci (state : State) (hardware : Nat → Hardware) : State :=
  { state with
    devList := state.devList.mapIdx fun i device =>
      if initPciDev (hardware i) = 0 then { device with iommuEnabled := true, ready := true }
      else { device with ready := false } }

def modifyDev (name : List UInt8) (update : Device → Device) : List Device → List Device
  | [] => []
  | device :: rest =>
      if device.named name then update device :: rest else device :: modifyDev name update rest

/-- Updates the device that `find_dev_by_name` returns. -/
def State.modify (state : State) (name : List UInt8) (update : Device → Device) : State :=
  { state with devList := modifyDev name update state.devList }

/-- The long calls about a device, with the answer of the kernel. -/
inductive Lcall where
  | attach (name : List UInt8) (ipiVector : UInt32) (iommuAttach : Int)
  | detach (name : List UInt8)
  | ackIrq (name : List UInt8)
  | cmd (name : List UInt8) (cmd : UInt32)
  deriving DecidableEq

/-- `enclave_pci_attach`: the responses sent, and the devices.  A failing
`iommu_attach_device` leaves the device assigned and sends nothing; a failing
`request_threaded_irq` is only reported.  As in the handlers below, no response
comes from behind a NULL `dev`. -/
def enclavePciAttach (state : State) (name : List UInt8) (ipiVector : UInt32) (iommuAttach : Int) :
    List Int × State :=
  match findDevByName state name with
  | none => ([-1], state)
  | some device =>
      if device.removable then
        if iommuAttach ≠ 0 || !device.dev then
          ([], state.modify name ({ · with assigned := true }))
        else
          ([0], state.modify name ({ · with
            assigned := true, deviceIpiVector := ipiVector, intxDisabled := false }))
      else
        ([-1], state)

/-- `enclave_pci_detach` -/
def enclavePciDetach (state : State) (name : List UInt8) : List Int × State :=
  match findDevByName state name with
  | none => ([-1], state)
  | some device =>
      if device.assigned then
        if device.dev then ([0], state.modify name ({ · with assigned := false, deviceIpiVector := 0 }))
        else ([], state)
      else
        ([-1], state)

/-- `enclave_pci_ack_irq` -/
def enclavePciAckIrq (state : State) (name : List UInt8) : List Int × State :=
  match findDevByName state name with
  | none => ([-1], state)
  | some device => if device.dev then ([0], state) else ([], state)

/-- `enclave_pci_cmd`; only `HOST_PCI_CMD_INTX_DISABLE` and
`HOST_PCI_CMD_INTX_ENABLE` are known to the host. -/
def enclavePciCmd (state : State) (name : List UInt8) (cmd : UInt32) : List Int × State :=
  match findDevByName state name with
  | none => ([-1], state)
  | some device =>
      -- a command that finds INTx as it asks for leaves `dev` alone
      if cmd = 4 then
        if device.intxDisabled || device.dev then ([0], state.modify name ({ · with intxDisabled := true }))
        else ([], state)
      else if cmd = 5 then
        if !device.intxDisabled || device.dev then ([0], state.modify name ({ · with intxDisabled := false }))
        else ([], state)
      else
        ([-1], state)

def handle (state : State) : Lcall → List Int × State
  | .attach name ipiVector iommuAttach => enclavePciAttach state name ipiVector iommuAttach
  | .detach name => enclavePciDetach state name
  | .ackIrq name => enclavePciAckIrq state name
  | .cmd name cmd => enclavePciCmd state name cmd

/-- The device list after the long-call thread has handled some calls. -/
def handleAll (state : State) (lcalls : List Lcall) : State :=
  lcalls.foldl (fun state lcall => (handle state lcall).2) state

/-- What the host's record says about a device; the rest is for the long-call
handlers to change. -/
def Device.entry (device : Device) : List UInt8 × UInt32 × UInt32 × Bool :=
  (device.name, device.bus, device.devfn, device.ready)

def State.entries (state : State) : List (List UInt8 × UInt32 × UInt32 × Bool) :=
  state.devList.map (·.entry)

/-- Every device is initialised and listed under a name of its own. -/
structure WellFormed (state : State) : Prop where
  ready : ∀ entry ∈ state.entries, entry.2.2.2 = true
  named : ∀ entry ∈ state.entries, cString entry.1 = entry.1
  distinct : (state.entries.map (·.1)).Nodup

/-- Whether a device is listed, and can be removed, under a name. -/
def removableAs (state : State) (name : List UInt8) : Bool :=
  (findDevByName state name).any (·.removable)

/-- Whether a device that is listed under a name has its `dev`. -/
def probedAs (state : State) (name : List UInt8) : Bool :=
  (findDevByName state name).all (·.dev)

variable {state : State} {spec : Spec} {hardware : Hardware} {name : List UInt8}

theorem cString_idem (name : List UInt8) : cString (cString name) = cString name := by
  have short : (cString name).length ≤ 128 := by
    calc
      (cString name).length ≤ (name.take 128).length := (List.takeWhile_sublist _).length_le
      _ ≤ 128 := List.length_take_le _ _
  calc
    cString (cString name) = ((cString name).take 128).takeWhile (· ≠ 0) := rfl
    _ = (cString name).takeWhile (· ≠ 0) := by rw [List.take_of_length_le short]
    _ = cString name := List.takeWhile_idem

theorem devfn_toNat (slot func : UInt32) :
    (devfn slot func).toNat = slot.toNat % 32 * 8 + func.toNat % 8 := by
  have low : (slot &&& 0x1f).toNat = slot.toNat % 32 := Nat.and_two_pow_sub_one_eq_mod slot.toNat 5
  have small : (func &&& 0x07).toNat = func.toNat % 8 := Nat.and_two_pow_sub_one_eq_mod func.toNat 3
  have three : (3 : UInt32).toNat % 32 = 3 := by decide
  have shifted : ((slot &&& 0x1f) <<< 3).toNat = (slot.toNat % 32) <<< 3 := by
    rw [UInt32.toNat_shiftLeft, low, three, Nat.shiftLeft_eq]
    exact Nat.mod_eq_of_lt (by omega)
  rw [devfn, UInt32.toNat_or, shifted, small, ← Nat.shiftLeft_add_eq_or_of_lt (by omega), Nat.shiftLeft_eq]

theorem pciSlot_devfn (slot func : UInt32) : (pciSlot (devfn slot func)).toNat = slot.toNat % 32 := by
  have three : (3 : UInt32).toNat % 32 = 3 := by decide
  have shifted : (devfn slot func >>> 3).toNat = (devfn slot func).toNat / 8 := by
    rw [UInt32.toNat_shiftRight, three, Nat.shiftRight_eq_div_pow]
  have masked : (pciSlot (devfn slot func)).toNat = (devfn slot func >>> 3).toNat % 32 :=
    Nat.and_two_pow_sub_one_eq_mod _ 5
  rw [masked, shifted, devfn_toNat]
  omega

theorem pciFunc_devfn (slot func : UInt32) : (pciFunc (devfn slot func)).toNat = func.toNat % 8 := by
  have masked : (pciFunc (devfn slot func)).toNat = (devfn slot func).toNat % 8 :=
    Nat.and_two_pow_sub_one_eq_mod _ 3
  rw [masked, devfn_toNat]
  omega

theorem modify_entries {update : Device → Device} (kept : ∀ device, (update device).entry = device.entry) :
    (state.modify name update).entries = state.entries := by
  have entries : ∀ devices : List Device,
      (modifyDev name update devices).map (·.entry) = devices.map (·.entry) := by
    intro devices
    induction devices with
    | nil => rfl
    | cons device rest ih =>
        simp only [modifyDev]
        split
        · simp [kept]
        · simp [ih]
  exact entries state.devList

/-- No long call changes the host's record of the devices. -/
@[simp] theorem handle_entries (lcall : Lcall) : (handle state lcall).2.entries = state.entries := by
  cases lcall with
  | attach name ipiVector iommuAttach =>
      simp only [handle, enclavePciAttach]
      split
      · rfl
      · split
        · split
          · apply modify_entries
            intro device
            rfl
          · apply modify_entries
            intro device
            rfl
        · rfl
  | detach name =>
      simp only [handle, enclavePciDetach]
      split
      · rfl
      · split
        · split
          · apply modify_entries
            intro device
            rfl
          · rfl
        · rfl
  | ackIrq name =>
      simp only [handle, enclavePciAckIrq]
      split
      · rfl
      · split <;> rfl
  | cmd name cmd =>
      simp only [handle, enclavePciCmd]
      split
      · rfl
      · split
        · split
          · apply modify_entries
            intro device
            rfl
          · rfl
        · split
          · split
            · apply modify_entries
              intro device
              rfl
            · rfl
          · rfl

@[simp] theorem handleAll_entries (lcalls : List Lcall) : (handleAll state lcalls).entries = state.entries := by
  induction lcalls generalizing state with
  | nil => rfl
  | cons lcall rest ih =>
      rw [handleAll, List.foldl_cons]
      exact ih.trans (handle_entries lcall)

theorem WellFormed.of_entries {after : State} (same : after.entries = state.entries)
    (wellFormed : WellFormed state) : WellFormed after := by
  constructor
  · rw [same]
    exact wellFormed.ready
  · rw [same]
    exact wellFormed.named
  · rw [same]
    exact wellFormed.distinct

theorem findDevByName_isSome (wellFormed : WellFormed state) (name : List UInt8) :
    (findDevByName state name).isSome = true ↔ cString name ∈ state.entries.map (·.1) := by
  have own : ∀ device ∈ state.devList, cString device.name = device.name :=
    fun device member => wellFormed.named device.entry (List.mem_map_of_mem member)
  simp only [findDevByName, List.find?_isSome, State.entries, List.map_map, List.mem_map, Device.named,
    beq_iff_eq]
  constructor
  · rintro ⟨device, member, named⟩
    exact ⟨device, member, (own device member).symm.trans named⟩
  · rintro ⟨device, member, same⟩
    exact ⟨device, member, (own device member).trans same⟩

/-- Whether `enclave_pci_add_dev` succeeds. -/
def addable (state : State) (spec : Spec) (hardware : Hardware) : Bool :=
  (findDevByName state spec.name).isNone && probe hardware == 0

theorem enclavePciAddDev_refused (refused : addable state spec hardware = false) :
    (enclavePciAddDev state spec hardware).1 ≠ 0 ∧
      (enclavePciAddDev state spec hardware).2.entries = state.entries := by
  unfold enclavePciAddDev
  cases found : findDevByName state spec.name with
  | some device => simp
  | none =>
      have failed : probe hardware ≠ 0 := by simpa [addable, found] using refused
      simp only [if_neg failed]
      exact ⟨failed, rfl⟩

theorem enclavePciAddDev_added (added : addable state spec hardware = true) :
    (enclavePciAddDev state spec hardware).1 = 0 ∧
      (enclavePciAddDev state spec hardware).2.entries =
        (cString spec.name, spec.bus, devfn spec.dev spec.func, true) :: state.entries := by
  simp only [addable, Bool.and_eq_true, Option.isNone_iff_eq_none, beq_iff_eq] at added
  simp [enclavePciAddDev, added, State.entries, Device.entry]

theorem WellFormed.add (wellFormed : WellFormed state) (added : addable state spec hardware = true) :
    WellFormed (enclavePciAddDev state spec hardware).2 := by
  have entries := (enclavePciAddDev_added added).2
  have absent : cString spec.name ∉ state.entries.map (·.1) := by
    intro listed
    have found := (findDevByName_isSome wellFormed _).mpr listed
    have notFound := (Bool.and_eq_true_iff.mp added).1
    simp_all
  constructor
  · rw [entries]
    intro entry member
    rcases List.mem_cons.mp member with rfl | older
    · rfl
    · exact wellFormed.ready entry older
  · rw [entries]
    intro entry member
    rcases List.mem_cons.mp member with rfl | older
    · exact cString_idem spec.name
    · exact wellFormed.named entry older
  · rw [entries, List.map_cons, List.nodup_cons]
    exact ⟨absent, wellFormed.distinct⟩

theorem enclavePciRemoveDev_refused (refused : removableAs state spec.name = false) :
    enclavePciRemoveDev state spec = (-1, state) := by
  unfold enclavePciRemoveDev
  cases found : findDevByName state spec.name with
  | none => rfl
  | some device =>
      have assigned : device.removable = false := by simpa [removableAs, found] using refused
      simp [assigned]

theorem enclavePciRemoveDev_removed (removable : removableAs state spec.name = true) :
    (enclavePciRemoveDev state spec).1 = 0 ∧ (enclavePciRemoveDev state spec).2.entries =
      state.entries.eraseP (fun entry => cString entry.1 == cString spec.name) := by
  obtain ⟨device, found, removable⟩ := (Option.any_eq_true _ _).mp removable
  simp only [enclavePciRemoveDev, found, removable, if_true, State.entries, true_and]
  rw [List.eraseP_map]
  rfl

theorem WellFormed.remove (wellFormed : WellFormed state) :
    WellFormed (enclavePciRemoveDev state spec).2 := by
  cases removable : removableAs state spec.name with
  | false =>
      rw [enclavePciRemoveDev_refused removable]
      exact wellFormed
  | true =>
      have sublist : (enclavePciRemoveDev state spec).2.entries.Sublist state.entries := by
        rw [(enclavePciRemoveDev_removed removable).2]
        exact List.eraseP_sublist
      constructor
      · intro entry member
        exact wellFormed.ready entry (sublist.subset member)
      · intro entry member
        exact wellFormed.named entry (sublist.subset member)
      · exact (sublist.map (·.1)).nodup wellFormed.distinct

theorem eraseP_name (target : List UInt8) {names : List (List UInt8)}
    (named : ∀ name ∈ names, cString name = name) :
    names.eraseP (fun name => cString name == target) = names.erase target := by
  induction names with
  | nil => rfl
  | cons name rest ih =>
      have own := named name (List.mem_cons_self ..)
      have others := ih (fun other member => named other (List.mem_cons_of_mem _ member))
      rw [List.eraseP_cons, List.erase_cons, own, others]
      cases name == target <;> rfl

theorem removed_names (wellFormed : WellFormed state) (removable : removableAs state spec.name = true)
    (other : List UInt8) : other ∈ (enclavePciRemoveDev state spec).2.entries.map (·.1) ↔
      other ≠ cString spec.name ∧ other ∈ state.entries.map (·.1) := by
  have named : ∀ name ∈ state.entries.map (·.1), cString name = name := by
    intro name member
    obtain ⟨entry, listed, rfl⟩ := List.mem_map.mp member
    exact wellFormed.named entry listed
  have names : (enclavePciRemoveDev state spec).2.entries.map (·.1) =
      (state.entries.map (·.1)).erase (cString spec.name) := by
    rw [(enclavePciRemoveDev_removed removable).2, ← eraseP_name _ named, List.eraseP_map]
    rfl
  rw [names, wellFormed.distinct.mem_erase_iff]

end Pisces.Pci
