import Pisces.Pci.Device
import Pisces.Transition

/-! # PCI devices and what the kernel holds for them

The operations of `enclave_pci.c` on devices together with their IOMMU domains,
the functions of the machine attached to these, and the registered INTx
handlers.  Forgetting what the kernel holds gives back the device list.
-/

namespace Pisces.Pci.Wiring

open Transition

/-- A function of the machine, by bus and devfn -/
abbrev Address := UInt32 × UInt32

/-- IOMMU domains are numbered as they are allocated. -/
structure Domains where
  allocated : Nat
  attachment : Address → Option Nat

namespace Domains

/-- `iommu_domain_free`: nothing is attached to a domain that is gone. -/
def free (domains : Domains) (domain : Option Nat) : Domains :=
  { domains with
    attachment := fun address =>
      if domains.attachment address = domain then none else domains.attachment address }

/-- `iommu_attach_device` when it succeeds -/
def attach (domains : Domains) (domain : Option Nat) (address : Address) : Domains :=
  { domains with attachment := Function.update domains.attachment address domain }

/-- `iommu_detach_device` -/
def detach (domains : Domains) (domain : Option Nat) (address : Address) : Domains :=
  if domains.attachment address = domain then
    { domains with attachment := Function.update domains.attachment address none }
  else domains

end Domains

structure Wired where
  device : Device
  /-- `iommu_domain`; a pointer to a freed domain keeps its number. -/
  iommuDomain : Option Nat
  /-- `_host_pci_intx_irq_handler` is registered with this device. -/
  handler : Bool
  deriving DecidableEq

namespace Wired

def address (wired : Wired) : Address := (wired.device.bus, wired.device.devfn)

/-- `request_threaded_irq`; the line is not shared, so a second request fails. -/
def requestIrq (wired : Wired) (result : Int) : Wired :=
  { wired with handler := wired.handler || result == 0 }

/-- `__init_pci_dev`, on a device just set up or reset -/
def init (wired : Wired) (hardware : Hardware) (domains : Domains) : Wired × Domains :=
  if !hardware.enableDevice || hardware.requestRegions ≠ 0 then (wired, domains)
  else if !hardware.domainAlloc then ({ wired with iommuDomain := none }, domains)
  else
    ({ wired with
        device := { wired.device with iommuEnabled := true, ready := true }
        iommuDomain := some domains.allocated },
      { domains with allocated := domains.allocated + 1 })

/-- `__deinit_pci_dev` -/
def deinit (wired : Wired) (domains : Domains) : Wired × Domains :=
  ({ wired with device := { wired.device with ready := false } }, domains.free wired.iommuDomain)

end Wired

structure State where
  devList : List Wired
  devCnt : UInt32
  domains : Domains
  /-- Calls of `iommu_map` on a domain that the device is not attached to -/
  strayMaps : Nat
  /-- Calls of `free_irq` without a registered handler -/
  strayFrees : Nat
  /-- Devices freed while their handler was registered -/
  freedRegistered : Nat
  /-- A freed device is on the list. -/
  dangling : Bool

def findDevByName (state : State) (name : List UInt8) : Option Wired :=
  state.devList.find? (·.device.named name)

def modifyDev (name : List UInt8) (update : Wired → Wired) : List Wired → List Wired
  | [] => []
  | wired :: rest =>
      if wired.device.named name then update wired :: rest else wired :: modifyDev name update rest

def State.modify (state : State) (name : List UInt8) (update : Wired → Wired) : State :=
  { state with devList := modifyDev name update state.devList }

/-- A device as `enclave_pci_add_dev` sets it up before `__init_pci_dev` -/
def setUp (spec : Spec) : Wired where
  device :=
    { name := cString spec.name, bus := spec.bus, devfn := devfn spec.dev spec.func, ready := false
      assigned := false, iommuEnabled := false, deviceIpiVector := 0, intxDisabled := true }
  iommuDomain := none
  handler := false

def enclavePciAddDev (state : State) (spec : Spec) (hardware : Hardware) : State :=
  match findDevByName state spec.name with
  | some _ => state
  | none =>
      let (wired, domains) := (setUp spec).init hardware state.domains
      if probe hardware = 0 then
        { state with devList := wired :: state.devList, devCnt := state.devCnt + 1, domains := domains }
      else
        -- only `list_del` on the way out
        { state with devCnt := state.devCnt + 1 }

/-- What `kfree` of a device leaves behind -/
def State.kfree (state : State) (wired : Wired) : State :=
  { state with
    domains := (wired.deinit state.domains).2
    freedRegistered := state.freedRegistered + if wired.handler then 1 else 0 }

def enclavePciRemoveDev (state : State) (spec : Spec) : State :=
  match findDevByName state spec.name with
  | none => state
  | some wired =>
      if wired.device.removable then
        { state.kfree wired with
          devList := state.devList.eraseP (·.device.named spec.name), devCnt := state.devCnt - 2 }
      else state

def enclavePciAttach (state : State) (name : List UInt8) (ipiVector : UInt32) (iommuAttach irq : Int) : State :=
  match findDevByName state name with
  | none => state
  | some wired =>
      if wired.device.removable then
        if iommuAttach ≠ 0 then
          state.modify name fun wired => { wired with device := { wired.device with assigned := true } }
        else
          { state.modify name fun wired =>
              { wired.requestIrq irq with
                device := { wired.device with
                  assigned := true, deviceIpiVector := ipiVector, intxDisabled := false } } with
            domains := state.domains.attach wired.iommuDomain wired.address }
      else state

def enclavePciDetach (state : State) (name : List UInt8) : State :=
  match findDevByName state name with
  | none => state
  | some wired =>
      if wired.device.assigned then
        { state.modify name fun wired =>
            { wired with device := { wired.device with assigned := false, deviceIpiVector := 0 } } with
          domains := state.domains.detach wired.iommuDomain wired.address }
      else state

/-- `enclave_pci_iommu_map` once the device is looked up -/
def enclavePciIommuMap (state : State) (name : List UInt8) : State :=
  match findDevByName state name with
  | none => state
  | some wired =>
      if wired.device.assigned && state.domains.attachment wired.address ≠ wired.iommuDomain then
        { state with strayMaps := state.strayMaps + 1 }
      else state

def enclavePciCmd (state : State) (name : List UInt8) (cmd : UInt32) (irq : Int) : State :=
  match findDevByName state name with
  | none => state
  | some wired =>
      if cmd = 4 then
        if wired.device.intxDisabled then state
        else
          { state.modify name fun wired =>
              { wired with handler := false, device := { wired.device with intxDisabled := true } } with
            strayFrees := state.strayFrees + if wired.handler then 0 else 1 }
      else if cmd = 5 then
        if wired.device.intxDisabled then
          state.modify name fun wired =>
            { wired.requestIrq irq with device := { wired.device with intxDisabled := false } }
        else state
      else state

/-- The loop of `reset_enclave_pci` -/
def resetList (hardware : Nat → Hardware) : List Wired → Nat → Domains → List Wired × Domains
  | [], _, domains => ([], domains)
  | wired :: rest, position, domains =>
      let (stopped, domains) := wired.deinit domains
      let (restarted, domains) := stopped.init (hardware position) domains
      let (later, domains) := resetList hardware rest (position + 1) domains
      (restarted :: later, domains)

def resetEnclavePci (state : State) (hardware : Nat → Hardware) : State :=
  let (devList, domains) := resetList hardware state.devList 0 state.domains
  { state with devList := devList, domains := domains }

/-- The loop of `deinit_enclave_pci`: a device that `__unregister_device` leaves
on the list is freed all the same. -/
def deinitList : List Wired → State → State
  | [], state => { state with devList := [] }
  | wired :: rest, state =>
      if wired.device.removable then
        deinitList rest { state.kfree wired with devCnt := state.devCnt - 2 }
      else
        { state.kfree wired with devList := wired :: rest, devCnt := state.devCnt - 1, dangling := true }

def deinitEnclavePci (state : State) : State := deinitList state.devList state

/-- The operations with what the kernel answers; `remove` is also what
`ctrl_add_pci` does with a device that the enclave rejects. -/
inductive Operation where
  | add (spec : Spec) (hardware : Hardware)
  | remove (spec : Spec)
  | attach (name : List UInt8) (ipiVector : UInt32) (iommuAttach irq : Int)
  | detach (name : List UInt8)
  | iommuMap (name : List UInt8)
  | iommuUnmap (name : List UInt8)
  | ackIrq (name : List UInt8)
  | cmd (name : List UInt8) (cmd : UInt32) (irq : Int)
  | reset (hardware : Nat → Hardware)
  | deinit

def step (state : State) : Operation → State
  | .add spec hardware => enclavePciAddDev state spec hardware
  | .remove spec => enclavePciRemoveDev state spec
  | .attach name ipiVector iommuAttach irq => enclavePciAttach state name ipiVector iommuAttach irq
  | .detach name => enclavePciDetach state name
  | .iommuMap name => enclavePciIommuMap state name
  | .iommuUnmap _ => state
  | .ackIrq _ => state
  | .cmd name cmd irq => enclavePciCmd state name cmd irq
  | .reset hardware => resetEnclavePci state hardware
  | .deinit => deinitEnclavePci state

/-- `init_enclave_pci` -/
def initEnclavePci : State where
  devList := []
  devCnt := 0
  domains := ⟨0, fun _ => none⟩
  strayMaps := 0
  strayFrees := 0
  freedRegistered := 0
  dangling := false

def system : System State Operation where
  initial state := state = initEnclavePci
  step state operation := some (step state operation)

section Found

variable {state : State} {name : List UInt8} {wired : Wired}

theorem found_split (found : findDevByName state name = some wired) : ∃ left right,
    state.devList = left ++ wired :: right ∧
      (∀ update, (state.modify name update).devList = left ++ update wired :: right) ∧
      state.devList.eraseP (·.device.named name) = left ++ right := by
  obtain ⟨named, left, right, split, others⟩ := List.find?_eq_some_iff_append.mp found
  have absent : ∀ other ∈ left, other.device.named name = false := by simpa using others
  refine ⟨left, right, split, fun update => ?_, ?_⟩
  · simp only [State.modify, split]
    clear found split others
    induction left with
    | nil => simp [modifyDev, named]
    | cons first rest ih =>
        have skipped := absent first (List.mem_cons_self ..)
        have later := ih fun other member => absent other (List.mem_cons_of_mem _ member)
        simp [modifyDev, skipped, later]
  · rw [split, List.eraseP_append_right _ (by simpa using absent)]
    simp [named]

theorem found_mem (found : findDevByName state name = some wired) : wired ∈ state.devList :=
  List.mem_of_find?_eq_some found

end Found

/-- The devices as the host's record has them -/
def State.forget (state : State) : Pci.State where
  devList := state.devList.map (·.device)
  devCnt := state.devCnt

section Forget

variable {state : State}

theorem forget_find (name : List UInt8) :
    Pci.findDevByName state.forget name = (findDevByName state name).map (·.device) := by
  rw [Pci.findDevByName, findDevByName, State.forget, List.find?_map]
  rfl

theorem forget_modify {name : List UInt8} {update : Wired → Wired} {change : Device → Device}
    (changes : ∀ wired, (update wired).device = change wired.device) :
    (modifyDev name update state.devList).map (·.device) =
      Pci.modifyDev name change (state.devList.map (·.device)) := by
  induction state.devList with
  | nil => rfl
  | cons wired rest ih =>
      rw [modifyDev, List.map_cons, Pci.modifyDev]
      split
      · rw [List.map_cons, changes]
      · rw [List.map_cons, ih]

theorem forget_add (spec : Spec) (hardware : Hardware) :
    (enclavePciAddDev state spec hardware).forget = (Pci.enclavePciAddDev state.forget spec hardware).2 := by
  rw [enclavePciAddDev, Pci.enclavePciAddDev, forget_find]
  cases findDevByName state spec.name with
  | some wired => rfl
  | none =>
      by_cases succeeded : probe hardware = 0
      · have initialised : hardware.enableDevice = true ∧ hardware.requestRegions = 0 ∧
            hardware.domainAlloc = true := by
          simp only [probe, initPciDev] at succeeded
          grind
        simp [succeeded, Wired.init, initialised, State.forget, setUp]
      · simp [succeeded, State.forget]

theorem forget_remove (spec : Spec) :
    (enclavePciRemoveDev state spec).forget = (Pci.enclavePciRemoveDev state.forget spec).2 := by
  rw [enclavePciRemoveDev, Pci.enclavePciRemoveDev, forget_find]
  cases findDevByName state spec.name with
  | none => rfl
  | some wired =>
      by_cases removable : wired.device.removable = true
      · simp only [removable, if_true, Option.map_some, State.forget, List.eraseP_map]
        rfl
      · simp [removable]

theorem forget_attach {name : List UInt8} (probed : Pci.probedAs state.forget name = true) (ipiVector : UInt32)
    (iommuAttach irq : Int) :
    (enclavePciAttach state name ipiVector iommuAttach irq).forget =
      (Pci.enclavePciAttach state.forget name ipiVector iommuAttach).2 := by
  rw [Pci.probedAs, forget_find] at probed
  rw [enclavePciAttach, Pci.enclavePciAttach, forget_find]
  cases found : findDevByName state name with
  | none => rfl
  | some wired =>
      have dev : wired.device.dev = true := by simpa [found] using probed
      by_cases removable : wired.device.removable = true
      · simp only [removable, if_true, Option.map_some, dev, Bool.not_true, Bool.or_false, decide_eq_true_eq]
        split
        · exact congrArg (Pci.State.mk · state.devCnt) (forget_modify fun _ => rfl)
        · exact congrArg (Pci.State.mk · state.devCnt) (forget_modify fun _ => rfl)
      · simp [removable]

theorem forget_detach {name : List UInt8} (probed : Pci.probedAs state.forget name = true) :
    (enclavePciDetach state name).forget = (Pci.enclavePciDetach state.forget name).2 := by
  rw [Pci.probedAs, forget_find] at probed
  rw [enclavePciDetach, Pci.enclavePciDetach, forget_find]
  cases found : findDevByName state name with
  | none => rfl
  | some wired =>
      have dev : wired.device.dev = true := by simpa [found] using probed
      by_cases assigned : wired.device.assigned = true
      · simp only [assigned, if_true, Option.map_some, dev]
        exact congrArg (Pci.State.mk · state.devCnt) (forget_modify fun _ => rfl)
      · simp [assigned]

theorem modifyDev_same {name : List UInt8} {change : Device → Device} {devices : List Device}
    (same : ∀ device, devices.find? (·.named name) = some device → change device = device) :
    Pci.modifyDev name change devices = devices := by
  induction devices with
  | nil => rfl
  | cons device rest ih =>
      rw [Pci.modifyDev]
      by_cases named : device.named name = true
      · rw [if_pos named, same device (by simp [named])]
      · rw [if_neg named, ih fun other found => same other (by simpa [named] using found)]

theorem forget_cmd {name : List UInt8} (probed : Pci.probedAs state.forget name = true) (cmd : UInt32) (irq : Int) :
    (enclavePciCmd state name cmd irq).forget = (Pci.enclavePciCmd state.forget name cmd).2 := by
  have find := @forget_find state name
  rw [Pci.probedAs, find] at probed
  rw [enclavePciCmd, Pci.enclavePciCmd, find]
  cases found : findDevByName state name with
  | none => rfl
  | some wired =>
      have dev : wired.device.dev = true := by simpa [found] using probed
      rw [found] at find
      simp only [Option.map_some, dev, Bool.or_true, if_true]
      have unchanged : ∀ disabled, wired.device.intxDisabled = disabled →
          Pci.modifyDev name ({ · with intxDisabled := disabled }) state.forget.devList = state.forget.devList := by
        intro disabled same
        apply modifyDev_same
        intro device first
        obtain rfl := Option.some.inj (find.symm.trans first)
        rw [← same]
      split
      · cases disabled : wired.device.intxDisabled with
        | true => exact congrArg (Pci.State.mk · state.devCnt) (unchanged true disabled).symm
        | false => exact congrArg (Pci.State.mk · state.devCnt) (forget_modify fun _ => rfl)
      · split
        · cases disabled : wired.device.intxDisabled with
          | true => exact congrArg (Pci.State.mk · state.devCnt) (forget_modify fun _ => rfl)
          | false => exact congrArg (Pci.State.mk · state.devCnt) (unchanged false disabled).symm
        · rfl

theorem init_device (wired : Wired) (hardware : Hardware) (domains : Domains) :
    (wired.init hardware domains).1.device =
      if initPciDev hardware = 0 then { wired.device with iommuEnabled := true, ready := true } else wired.device := by
  simp only [Wired.init, initPciDev]
  grind

theorem forget_resetList (hardware : Nat → Hardware) (wires : List Wired) (position : Nat) (domains : Domains) :
    (resetList hardware wires position domains).1.map (·.device) =
      (wires.map (·.device)).mapIdx fun i device =>
        if initPciDev (hardware (position + i)) = 0 then { device with iommuEnabled := true, ready := true }
        else { device with ready := false } := by
  induction wires generalizing position domains with
  | nil => rfl
  | cons wired rest ih =>
      simp only [resetList, List.map_cons, List.mapIdx_cons, init_device, ih, Nat.add_zero, Nat.add_assoc,
        Nat.add_comm 1]
      rfl

theorem forget_reset (hardware : Nat → Hardware) :
    (resetEnclavePci state hardware).forget = Pci.resetEnclavePci state.forget hardware := by
  have devices := forget_resetList hardware state.devList 0 state.domains
  simp only [Nat.zero_add] at devices
  exact congrArg (Pci.State.mk · state.devCnt) devices

end Forget

end Pisces.Pci.Wiring
