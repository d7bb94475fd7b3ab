import Pisces.Ledger
import Pisces.Pci.Device
import Pisces.Transition

/-! # The resources of PCI devices, and their end

The references, enables, region reservations and IOMMU domains that
`enclave_pci.c` takes for its devices, and the tear-down of the device list.  A
device structure is known by the number of its allocation.
-/

namespace Pisces.Pci.Resources

open Ledger Transition

inductive Kind where
  /-- `pci_get_bus_and_slot` and `pci_dev_put` -/
  | reference
  /-- `pci_enable_device` and `pci_disable_device` -/
  | enabled
  /-- `pci_request_regions` and `pci_release_regions` -/
  | regions
  /-- `iommu_domain_alloc` and `iommu_domain_free` -/
  | domain
  deriving DecidableEq

structure Handle where
  kind : Kind
  owner : Nat
  deriving DecidableEq

/-- What happens to a device structure on its way out -/
inductive Life where
  | unlinked (id : Nat)
  | deinitialised (id : Nat)
  | freed (id : Nat)
  deriving DecidableEq

def Life.device : Life → Nat
  | .unlinked id => id
  | .deinitialised id => id
  | .freed id => id

structure Listed where
  id : Nat
  device : Device
  deriving DecidableEq

structure State where
  devList : List Listed
  next : Nat
  log : List (Event Handle)
  lives : List Life

def findDevByName (state : State) (name : List UInt8) : Option Listed :=
  state.devList.find? (·.device.named name)

/-- `__init_pci_dev` with its ladder -/
def initPciDev (hardware : Hardware) (id : Nat) (log : List (Event Handle)) : Int × List (Event Handle) :=
  if !hardware.enableDevice then (-16, log)
  else
    let log := .acquire ⟨.enabled, id⟩ :: log
    if hardware.requestRegions ≠ 0 then (hardware.requestRegions, .release (some ⟨.enabled, id⟩) :: log)
    else
      let log := .acquire ⟨.regions, id⟩ :: log
      if !hardware.domainAlloc then
        (-12, .release (some ⟨.enabled, id⟩) :: .release (some ⟨.regions, id⟩) :: log)
      else (0, .acquire ⟨.domain, id⟩ :: log)

/-- `__deinit_pci_dev` -/
def deinitPciDev (id : Nat) (log : List (Event Handle)) : List (Event Handle) :=
  .release (some ⟨.enabled, id⟩) :: .release (some ⟨.regions, id⟩) :: .release (some ⟨.domain, id⟩) :: log

/-- A device that `enclave_pci_add_dev` has initialised -/
def added (spec : Spec) : Device where
  name := cString spec.name
  bus := spec.bus
  devfn := devfn spec.dev spec.func
  ready := true
  assigned := false
  iommuEnabled := true
  deviceIpiVector := 0
  intxDisabled := true

/-- The exit `out_del_list` of `enclave_pci_add_dev`, for a device on the list -/
def State.outDelList (state : State) (log : List (Event Handle)) : State :=
  { state with next := state.next + 1, log := log, lives := .freed state.next :: .unlinked state.next :: state.lives }

/-- The exit `out_put` -/
def State.outPut (state : State) (log : List (Event Handle)) : State :=
  state.outDelList (.release (some ⟨.reference, state.next⟩) :: log)

def enclavePciAddDev (state : State) (spec : Spec) (hardware : Hardware) : State :=
  match findDevByName state spec.name with
  | some _ => { state with next := state.next + 1, lives := .freed state.next :: state.lives }
  | none =>
      if !hardware.found then state.outDelList state.log
      else
        let log := .acquire ⟨.reference, state.next⟩ :: state.log
        if !hardware.normalHeader || !hardware.iommuPresent then state.outPut log
        else
          let (ret, log) := initPciDev hardware state.next log
          if ret ≠ 0 then state.outPut log
          else
            { state with
              devList := ⟨state.next, added spec⟩ :: state.devList, next := state.next + 1, log := log }

/-- `__deinit_pci_dev` and `kfree` of a device that is off the list -/
def State.discard (state : State) (id : Nat) : State :=
  { state with
    log := deinitPciDev id state.log, lives := .freed id :: .deinitialised id :: .unlinked id :: state.lives }

def enclavePciRemoveDev (state : State) (spec : Spec) : State :=
  match findDevByName state spec.name with
  | none => state
  | some listed =>
      if listed.device.removable then
        { state.discard listed.id with devList := state.devList.eraseP (·.device.named spec.name) }
      else state

/-- The loop of `reset_enclave_pci` -/
def resetList (hardware : Nat → Hardware) : List Listed → Nat → List (Event Handle) → List Listed × List (Event Handle)
  | [], _, log => ([], log)
  | listed :: rest, position, log =>
      let (ret, log) := initPciDev (hardware position) listed.id (deinitPciDev listed.id log)
      let (later, log) := resetList hardware rest (position + 1) log
      ({ listed with
          device :=
            if ret = 0 then { listed.device with iommuEnabled := true, ready := true }
            else { listed.device with ready := false } } :: later, log)

def resetEnclavePci (state : State) (hardware : Nat → Hardware) : State :=
  let (devList, log) := resetList hardware state.devList 0 state.log
  { state with devList := devList, log := log }

/-- A turn of the loop of `deinit_enclave_pci`.  A device that
`__unregister_device` leaves on the list is freed there, and its memory is
`reused` by others. -/
def deinitTurn (state : State) (reused : Device) : State :=
  match state.devList with
  | [] => state
  | listed :: rest =>
      if listed.device.removable then { state.discard listed.id with devList := rest }
      else
        { state with
          devList := { listed with device := reused } :: rest
          log := deinitPciDev listed.id state.log
          lives := .freed listed.id :: .deinitialised listed.id :: state.lives }

/-- `deinit_enclave_pci`, with what the memory of a device that was freed on the
list holds at each later turn; `none` without an end -/
def deinitEnclavePci : (Nat → Device) → Nat → State → Option State
  | _, 0, _ => none
  | reused, fuel + 1, state =>
      if state.devList.isEmpty then some state
      else deinitEnclavePci (fun turn => reused (turn + 1)) fuel (deinitTurn state (reused 0))

/-- The devices as the long-call handlers see them -/
def State.forget (state : State) : Pci.State := ⟨state.devList.map (·.device), 0⟩

/-- A long call changes devices in place. -/
def handle (state : State) (lcall : Lcall) : State :=
  { state with
    devList := List.zipWith (fun listed device => { listed with device := device }) state.devList
      (Pci.handle state.forget lcall).2.devList }

inductive Operation where
  | add (spec : Spec) (hardware : Hardware)
  | remove (spec : Spec)
  | reset (hardware : Nat → Hardware)
  | lcall (lcall : Lcall)
  | deinitTurn (reused : Device)

def step (state : State) : Operation → State
  | .add spec hardware => enclavePciAddDev state spec hardware
  | .remove spec => enclavePciRemoveDev state spec
  | .reset hardware => resetEnclavePci state hardware
  | .lcall lcall => handle state lcall
  | .deinitTurn reused => Resources.deinitTurn state reused

def initEnclavePci : State := ⟨[], 0, [], []⟩

def system : System State Operation where
  initial state := state = initEnclavePci
  step state operation := some (step state operation)

/-! ## The devices on the list -/

/-- What matters of a listed device: its structure and whether it is initialised -/
def tags (devList : List Listed) : List (Nat × Bool) := devList.map fun listed => (listed.id, listed.device.ready)

/-- Structures on the list are distinct and were allocated; those that were freed
were allocated too. -/
structure Placed (devList : List Listed) (next : Nat) : Prop where
  bound : ∀ listed ∈ devList, listed.id < next
  distinct : (devList.map (·.id)).Nodup

section Placed

variable {devList : List Listed} {next : Nat} {state : State}

theorem Placed.of_ids {other : List Listed} (placed : Placed devList next)
    (same : other.map (·.id) = devList.map (·.id)) :
    Placed other next := by
  constructor
  · intro listed member
    have known : listed.id ∈ devList.map (·.id) := same ▸ List.mem_map_of_mem member
    obtain ⟨older, isListed, equal⟩ := List.mem_map.mp known
    exact equal ▸ placed.bound older isListed
  · rw [same]
    exact placed.distinct

theorem Placed.sublist {other : List Listed} (placed : Placed devList next) (fewer : other.Sublist devList) :
    Placed other next :=
  ⟨fun listed member => placed.bound listed (fewer.subset member), (fewer.map _).nodup placed.distinct⟩

theorem Placed.later (placed : Placed devList next) : Placed devList (next + 1) :=
  ⟨fun listed member => Nat.lt_succ_of_lt (placed.bound listed member), placed.distinct⟩

theorem Placed.cons (placed : Placed devList next) (device : Device) : Placed (⟨next, device⟩ :: devList) (next + 1) := by
  constructor
  · intro listed member
    rcases List.mem_cons.mp member with rfl | older
    · exact Nat.lt_succ_self next
    · exact Nat.lt_succ_of_lt (placed.bound listed older)
  · rw [List.map_cons, List.nodup_cons]
    refine ⟨fun member => ?_, placed.distinct⟩
    obtain ⟨listed, isListed, same⟩ := List.mem_map.mp member
    exact Nat.ne_of_lt (placed.bound listed isListed) same

theorem resetList_ids (hardware : Nat → Hardware) (devList : List Listed) (position : Nat) (log : List (Event Handle)) :
    (resetList hardware devList position log).1.map (·.id) = devList.map (·.id) := by
  induction devList generalizing position log with
  | nil => rfl
  | cons listed rest ih => simp only [resetList, List.map_cons, ih]

theorem zipWith_tags {devices : List Device}
    (ready : devices.map (·.ready) = devList.map fun listed => listed.device.ready) :
    tags (List.zipWith (fun listed device => { listed with device := device }) devList devices) = tags devList := by
  induction devList generalizing devices with
  | nil => rfl
  | cons listed rest ih =>
      cases devices with
      | nil => cases ready
      | cons device devices =>
          obtain ⟨first, others⟩ := List.cons.inj ready
          have same : device.ready = listed.device.ready := first
          have later := ih others
          simp only [tags, List.zipWith_cons_cons, List.map_cons] at later ⊢
          rw [later, same]

theorem handle_tags (state : State) (lcall : Lcall) : tags (handle state lcall).devList = tags state.devList := by
  have entries := congrArg (List.map fun entry => entry.2.2.2) (@handle_entries state.forget lcall)
  simp only [State.entries, List.map_map, Function.comp_def, State.forget, Device.entry] at entries
  exact zipWith_tags entries

theorem tags_ids (devList : List Listed) : (tags devList).map (·.1) = devList.map (·.id) := by
  simp only [tags, List.map_map, Function.comp_def]

theorem Placed.step (placed : Placed state.devList state.next) (operation : Operation) :
    Placed (Resources.step state operation).devList (Resources.step state operation).next := by
  cases operation with
  | add spec hardware =>
      simp only [Resources.step, enclavePciAddDev]
      split
      · exact placed.later
      · split
        · exact placed.later
        · split
          · exact placed.later
          · split
            · exact placed.later
            · exact placed.cons _
  | remove spec =>
      simp only [Resources.step, enclavePciRemoveDev]
      split
      · exact placed
      · split
        · exact placed.sublist List.eraseP_sublist
        · exact placed
  | reset hardware => exact placed.of_ids (resetList_ids hardware state.devList 0 state.log)
  | lcall lcall =>
      refine placed.of_ids ?_
      rw [← tags_ids, ← tags_ids, Resources.step, handle_tags]
  | deinitTurn reused =>
      simp only [Resources.step, deinitTurn]
      split
      · exact placed
      · rename_i listed rest split
        rw [split] at placed
        split
        · exact placed.sublist (List.sublist_cons_self ..)
        · exact placed.of_ids rfl

theorem reachable_placed {allowed : State → Operation → Prop} (reached : system.Reachable allowed state) :
    Placed state.devList state.next := by
  refine @System.Reachable.invariant _ _ _ _ _ (fun state => Placed state.devList state.next) reached ?_ ?_
  · rintro start rfl
    exact ⟨fun _ member => absurd member List.not_mem_nil, List.nodup_nil⟩
  · intro state operation next placed _ stepped
    cases stepped
    exact placed.step operation

end Placed

/-! ## The end of the list -/

section Deinit

variable {reused : Nat → Device} {state after : State}

theorem discard_lives (id : Nat) (life : Life) :
    (state.discard id).lives.count life = state.lives.count life + if id = life.device then 1 else 0 := by
  by_cases same : id = life.device
  · subst same
    cases life <;> simp [State.discard, Life.device]
  · rw [if_neg same]
    cases life <;> simpa [State.discard, Life.device, List.count_cons] using same

/-- A turn takes off a device that `__unregister_device` accepts, and this is the
whole life that the device still had. -/
theorem deinitTurn_removed {listed : Listed} {rest : List Listed} (first : state.devList = listed :: rest)
    (removable : listed.device.removable = true) (memory : Device) (life : Life) :
    (deinitTurn state memory).devList = rest ∧ (deinitTurn state memory).lives.count life =
      state.lives.count life + if listed.id = life.device then 1 else 0 := by
  have turn : deinitTurn state memory = { state.discard listed.id with devList := rest } := by
    rw [deinitTurn, first]
    exact if_pos removable
  rw [turn]
  exact ⟨rfl, discard_lives listed.id life⟩

/-- A device that `__unregister_device` refuses is freed and stays. -/
theorem deinitTurn_refused {listed : Listed} {rest : List Listed} (first : state.devList = listed :: rest)
    (refused : listed.device.removable = false) (memory : Device) :
    (deinitTurn state memory).devList = { listed with device := memory } :: rest ∧
      (deinitTurn state memory).lives = .freed listed.id :: .deinitialised listed.id :: state.lives := by
  have other : ¬ listed.device.removable = true := by simp [refused]
  have turn : deinitTurn state memory = { state with
      devList := { listed with device := memory } :: rest
      log := deinitPciDev listed.id state.log
      lives := .freed listed.id :: .deinitialised listed.id :: state.lives } := by
    rw [deinitTurn, first]
    exact if_neg other
  rw [turn]
  exact ⟨rfl, rfl⟩

theorem deinitTurn_freed {listed : Listed} {rest : List Listed} (first : state.devList = listed :: rest)
    (memory : Device) (id : Nat) : (deinitTurn state memory).lives.count (.freed id) =
      state.lives.count (.freed id) + if listed.id = id then 1 else 0 := by
  cases removable : listed.device.removable with
  | true => exact (deinitTurn_removed first removable memory (.freed id)).2
  | false =>
      rw [(deinitTurn_refused first removable memory).2]
      simp [List.count_cons]

theorem deinitEnclavePci_cons {listed : Listed} {rest : List Listed} (first : state.devList = listed :: rest)
    (fuel : Nat) :
    deinitEnclavePci reused (fuel + 1) state =
      deinitEnclavePci (fun turn => reused (turn + 1)) fuel (deinitTurn state (reused 0)) := by
  rw [deinitEnclavePci, first]
  rfl

theorem deinitEnclavePci_freed_le {fuel : Nat} (ended : deinitEnclavePci reused fuel state = some after) (id : Nat) :
    state.lives.count (.freed id) ≤ after.lives.count (.freed id) := by
  induction fuel generalizing reused state with
  | zero => cases ended
  | succ fuel ih =>
      cases split : state.devList with
      | nil =>
          rw [deinitEnclavePci, split] at ended
          cases ended
          exact Nat.le_refl _
      | cons listed rest =>
          rw [deinitEnclavePci_cons split] at ended
          have later := ih ended
          rw [deinitTurn_freed split] at later
          exact Nat.le_trans (Nat.le_add_right _ _) later

theorem deinitEnclavePci_removable (removable : ∀ listed ∈ state.devList, listed.device.removable = true) :
    ∃ after, deinitEnclavePci reused (state.devList.length + 1) state = some after ∧ after.devList = [] ∧
      ∀ life, after.lives.count life = state.lives.count life + (state.devList.map (·.id)).count life.device := by
  generalize devices : state.devList = devList at removable ⊢
  induction devList generalizing reused state with
  | nil =>
      refine ⟨state, ?_, devices, fun life => rfl⟩
      rw [deinitEnclavePci, devices]
      rfl
  | cons listed rest ih =>
      have turn := deinitTurn_removed devices (removable listed (List.mem_cons_self ..)) (reused 0)
      obtain ⟨after, ended, empty, counts⟩ :=
        @ih (fun turn => reused (turn + 1)) (deinitTurn state (reused 0)) (turn (.freed 0)).1
          fun other member => removable other (List.mem_cons_of_mem _ member)
      refine ⟨after, ?_, empty, ?_⟩
      · rw [List.length_cons, deinitEnclavePci_cons devices]
        exact ended
      · intro life
        rw [counts, (turn life).2, List.map_cons, List.count_cons]
        simp only [beq_iff_eq]
        omega

/-- A device that `__unregister_device` refuses is freed again, if the loop ends. -/
theorem deinitEnclavePci_refused {fuel : Nat} (ended : deinitEnclavePci reused fuel state = some after)
    {listed : Listed} (member : listed ∈ state.devList) (refused : listed.device.removable = false) :
    ∃ other ∈ state.devList, state.lives.count (.freed other.id) + 2 ≤ after.lives.count (.freed other.id) := by
  induction fuel generalizing reused state with
  | zero => cases ended
  | succ fuel ih =>
      cases split : state.devList with
      | nil => rw [split] at member; cases member
      | cons first rest =>
          rw [deinitEnclavePci_cons split] at ended
          rw [split] at member
          cases removable : first.device.removable with
          | true =>
              have turn := deinitTurn_removed split removable (reused 0)
              have later : listed ∈ (deinitTurn state (reused 0)).devList := by
                rw [(turn (.freed 0)).1]
                refine (List.mem_cons.mp member).resolve_left fun same => ?_
                rw [same, removable] at refused
                cases refused
              obtain ⟨other, isListed, twice⟩ := ih ended later
              rw [(turn (.freed 0)).1] at isListed
              rw [(turn _).2] at twice
              exact ⟨other, List.mem_cons_of_mem _ isListed, by omega⟩
          | false =>
              refine ⟨first, List.mem_cons_self .., ?_⟩
              have turn := deinitTurn_refused split removable (reused 0)
              -- The freed device is the first of the list at the next turn too.
              cases fuel with
              | zero => cases ended
              | succ fuel =>
                  rw [deinitEnclavePci_cons turn.1] at ended
                  have later := deinitEnclavePci_freed_le ended first.id
                  rw [deinitTurn_freed turn.1, deinitTurn_freed split] at later
                  simp only [if_true] at later
                  omega

/-- `deinit_enclave_pci` ends with an empty list, and every device on the list
goes through the steps of its end once. -/
def TearsDown (reused : Nat → Device) (state : State) : Prop :=
  ∃ fuel after, deinitEnclavePci reused fuel state = some after ∧ after.devList = [] ∧
    ∀ listed ∈ state.devList, ∀ life : Life, life.device = listed.id →
      after.lives.count life = state.lives.count life + 1

theorem TearsDown.removable (tornDown : TearsDown reused state) :
    ∀ listed ∈ state.devList, listed.device.removable = true := by
  obtain ⟨fuel, after, ended, -, once⟩ := tornDown
  intro listed member
  by_contra refused
  obtain ⟨other, isListed, twice⟩ := deinitEnclavePci_refused ended member ((Bool.not_eq_true _).mp refused)
  have counted := once other isListed (.freed other.id) rfl
  omega

/-- The tear-down works when every device is initialised and none is assigned. -/
theorem tearsDown_iff {allowed : State → Operation → Prop} (reached : system.Reachable allowed state)
    (reused : Nat → Device) :
    TearsDown reused state ↔ ∀ listed ∈ state.devList, listed.device.ready = true ∧ listed.device.assigned = false := by
  have distinct := (reachable_placed reached).distinct
  have condition : ∀ device : Device, device.removable = true ↔ device.ready = true ∧ device.assigned = false := by
    intro device
    simp [Device.removable, and_comm]
  simp only [← condition]
  constructor
  · exact TearsDown.removable
  · intro removable
    obtain ⟨after, ended, empty, counts⟩ := @deinitEnclavePci_removable reused state removable
    refine ⟨_, after, ended, empty, ?_⟩
    intro listed member life own
    have isListed : listed.id ∈ state.devList.map (·.id) := List.mem_map_of_mem member
    rw [counts, own, distinct.count, if_pos isListed]

def nic : Spec := ⟨[110, 105, 99], 3, 0, 0⟩

def working : Hardware := ⟨true, true, true, true, 0, true⟩

/-- A host with one device that works -/
def oneDevice : State := step initEnclavePci (.add nic working)

theorem oneDevice_reached : system.Reachable (fun _ _ => True) oneDevice :=
  ⟨initEnclavePci, rfl, .single trivial rfl⟩

theorem oneDevice_tornDown : TearsDown (fun _ => added nic) oneDevice :=
  (tearsDown_iff oneDevice_reached _).mpr (by decide)

/-- An enclave that ends with its device attached -/
theorem attached_not_tornDown : ¬ ∀ reused state, system.Reachable (fun _ _ => True) state → TearsDown reused state := by
  intro tearsDown
  have attached := oneDevice_reached.extend
      (.single trivial (rfl : system.step oneDevice (.lcall (.attach nic.name 48 0)) = _))
  have removable := (tearsDown (fun _ => added nic) _ attached).removable
  revert removable
  decide

end Deinit

end Pisces.Pci.Resources
