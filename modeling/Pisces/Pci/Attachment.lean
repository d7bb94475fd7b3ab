import Pisces.Pci.Count

/-! # Assigned devices and their IOMMU domains

`assigned` is set before `iommu_attach_device` and outlives the domain in a
reset; it agrees with the IOMMU in runs in which neither happens to a device.
-/

namespace Pisces.Pci.Wiring

open Transition

/-- The device is attached to its current domain. -/
def Wired.attached (wired : Wired) (domains : Domains) : Prop :=
  ∃ domain, wired.iommuDomain = some domain ∧ domains.attachment wired.address = some domain

/-- No attach of a free device fails or takes a function from another device, and
no device is assigned, or fails to start, in a reset. -/
def Attachable (state : State) : Operation → Prop
  | .attach name _ iommuAttach _ =>
      (findDevByName state name).any (·.device.removable) = true →
        iommuAttach = 0 ∧ ∀ wired ∈ findDevByName state name, ∀ other ∈ state.devList,
          other.address = wired.address → other.device.assigned = false
  | .reset hardware =>
      (∀ wired ∈ state.devList, wired.device.assigned = false) ∧
        ∀ position < state.devList.length, initPciDev (hardware position) = 0
  | .deinit => ∀ wired ∈ state.devList, wired.device.removable = true
  | _ => True

instance (state : State) : (operation : Operation) → Decidable (Attachable state operation)
  | .attach .. => inferInstanceAs (Decidable (_ → _))
  | .reset _ => inferInstanceAs (Decidable (_ ∧ _))
  | .deinit => inferInstanceAs (Decidable (∀ _ ∈ _, _))
  | .add .. => .isTrue trivial
  | .remove _ => .isTrue trivial
  | .detach _ => .isTrue trivial
  | .iommuMap _ => .isTrue trivial
  | .iommuUnmap _ => .isTrue trivial
  | .ackIrq _ => .isTrue trivial
  | .cmd .. => .isTrue trivial

/-- Every listed device is initialised, has a domain of its own, and is attached
to it when it is assigned. -/
structure Wires (devList : List Wired) (domains : Domains) : Prop where
  ready : ∀ wired ∈ devList, wired.device.ready = true
  domain : ∀ wired ∈ devList, ∃ domain < domains.allocated, wired.iommuDomain = some domain
  distinct : (devList.map (·.iommuDomain)).Nodup
  below : ∀ address domain, domains.attachment address = some domain → domain < domains.allocated
  assigned : ∀ wired ∈ devList,
    wired.device.assigned = true ↔ domains.attachment wired.address = wired.iommuDomain

section Wires

variable {left right devList : List Wired} {wired after other : Wired} {domains later : Domains}

theorem Wires.attached_iff (wires : Wires devList domains) (listed : wired ∈ devList) :
    wired.device.assigned = true ↔ wired.attached domains := by
  obtain ⟨domain, -, own⟩ := wires.domain wired listed
  rw [wires.assigned wired listed, Wired.attached, own]
  constructor
  · intro attached
    exact ⟨domain, rfl, attached⟩
  · rintro ⟨current, same, attached⟩
    exact attached.trans same.symm

theorem Wires.other_domain (wires : Wires (left ++ wired :: right) domains) (listed : other ∈ left ++ right) :
    other.iommuDomain ≠ wired.iommuDomain := by
  have distinct := wires.distinct
  rw [List.map_append, List.map_cons, List.nodup_middle, ← List.map_append] at distinct
  intro same
  exact (List.nodup_cons.mp distinct).1 (same ▸ List.mem_map_of_mem listed)

theorem mem_middle_of_mem (listed : other ∈ left ++ right) : other ∈ left ++ wired :: right := by
  rw [List.mem_append, List.mem_cons]
  exact (List.mem_append.mp listed).imp_right .inr

theorem Wires.remove (wires : Wires (left ++ wired :: right) domains) :
    Wires (left ++ right) (domains.free wired.iommuDomain) := by
  have listed : ∀ other ∈ left ++ right, other ∈ left ++ wired :: right := fun _ => mem_middle_of_mem
  constructor
  · exact fun other member => wires.ready other (listed other member)
  · exact fun other member => wires.domain other (listed other member)
  · have distinct := wires.distinct
    rw [List.map_append, List.map_cons, List.nodup_middle, ← List.map_append] at distinct
    exact (List.nodup_cons.mp distinct).2
  · intro address domain attached
    simp only [Domains.free] at attached
    split at attached
    · cases attached
    · exact wires.below address domain attached
  · intro other member
    have different := wires.other_domain member
    obtain ⟨domain, -, own⟩ := wires.domain other (listed other member)
    rw [wires.assigned other (listed other member)]
    simp only [Domains.free]
    split
    · rename_i freed
      rw [freed, own]
      exact iff_of_false (fun same => different (own.trans same.symm)) (by simp)
    · rfl

theorem Wires.replace (wires : Wires (left ++ wired :: right) domains)
    (same : after.iommuDomain = wired.iommuDomain) (ready : after.device.ready = true)
    (allocated : later.allocated = domains.allocated)
    (below : ∀ address domain, later.attachment address = some domain →
      domains.attachment address = some domain ∨ wired.iommuDomain = some domain)
    (own : after.device.assigned = true ↔ later.attachment after.address = after.iommuDomain)
    (others : ∀ other ∈ left ++ right,
      other.device.assigned = true ↔ later.attachment other.address = other.iommuDomain) :
    Wires (left ++ after :: right) later := by
  have listed : ∀ other ∈ left ++ after :: right, other = after ∨ other ∈ left ++ right := by
    intro other member
    rw [List.mem_append, List.mem_cons] at member
    rw [List.mem_append]
    tauto
  have kept : ∀ other ∈ left ++ right, other ∈ left ++ wired :: right := fun _ => mem_middle_of_mem
  have here : wired ∈ left ++ wired :: right := List.mem_append_right _ (List.mem_cons_self ..)
  constructor
  · intro other member
    rcases listed other member with rfl | elsewhere
    · exact ready
    · exact wires.ready other (kept other elsewhere)
  · intro other member
    rw [allocated]
    rcases listed other member with rfl | elsewhere
    · rw [same]
      exact wires.domain wired here
    · exact wires.domain other (kept other elsewhere)
  · have distinct := wires.distinct
    rwa [List.map_append, List.map_cons, ← same, ← List.map_cons, ← List.map_append] at distinct
  · intro address domain attached
    rw [allocated]
    rcases below address domain attached with before | current
    · exact wires.below address domain before
    · obtain ⟨number, bound, numbered⟩ := wires.domain wired here
      exact Option.some.inj (numbered.symm.trans current) ▸ bound
  · intro other member
    rcases listed other member with rfl | elsewhere
    · exact own
    · exact others other elsewhere

theorem Wires.attach (wires : Wires (left ++ wired :: right) domains)
    (domain : after.iommuDomain = wired.iommuDomain) (address : after.address = wired.address)
    (ready : after.device.ready = true) (assigned : after.device.assigned = true)
    (free : ∀ other ∈ left ++ right, other.address = wired.address → other.device.assigned = false) :
    Wires (left ++ after :: right) (domains.attach wired.iommuDomain wired.address) := by
  refine wires.replace domain ready rfl ?_ (iff_of_true assigned ?_) ?_
  · intro place number attached
    by_cases here : place = wired.address
    · subst here
      exact .inr (by simpa [Domains.attach] using attached)
    · exact .inl (by simpa [Domains.attach, here] using attached)
  · simp [Domains.attach, address, domain]
  · intro other elsewhere
    have different := wires.other_domain elsewhere
    by_cases here : other.address = wired.address
    · rw [free other elsewhere here, here]
      simp [Domains.attach, different.symm]
    · rw [wires.assigned other (mem_middle_of_mem elsewhere)]
      simp [Domains.attach, here]

theorem Wires.detach (wires : Wires (left ++ wired :: right) domains)
    (domain : after.iommuDomain = wired.iommuDomain) (address : after.address = wired.address)
    (ready : after.device.ready = true) (assigned : wired.device.assigned = true)
    (unassigned : after.device.assigned = false) :
    Wires (left ++ after :: right) (domains.detach wired.iommuDomain wired.address) := by
  have listed : wired ∈ left ++ wired :: right := List.mem_append_right _ (List.mem_cons_self ..)
  have attached := (wires.assigned wired listed).mp assigned
  obtain ⟨number, -, own⟩ := wires.domain wired listed
  have detached : domains.detach wired.iommuDomain wired.address =
      { domains with attachment := Function.update domains.attachment wired.address none } := if_pos attached
  rw [detached]
  refine wires.replace domain ready rfl ?_ (iff_of_false (by simp [unassigned]) ?_) ?_
  · intro place number attached
    by_cases here : place = wired.address
    · simp [here] at attached
    · exact .inl (by simpa [here] using attached)
  · simp [address, domain, own]
  · intro other elsewhere
    have different := wires.other_domain elsewhere
    obtain ⟨number, -, its⟩ := wires.domain other (mem_middle_of_mem elsewhere)
    rw [wires.assigned other (mem_middle_of_mem elsewhere)]
    by_cases here : other.address = wired.address
    · rw [here, attached]
      exact iff_of_false different.symm (by simp [its])
    · simp [here]

theorem init_started {hardware : Hardware} (started : initPciDev hardware = 0) (wired : Wired) :
    wired.init hardware domains =
      ({ wired with
          device := { wired.device with iommuEnabled := true, ready := true }
          iommuDomain := some domains.allocated },
        { domains with allocated := domains.allocated + 1 }) := by
  have works : hardware.enableDevice = true ∧ hardware.requestRegions = 0 ∧ hardware.domainAlloc = true := by
    simp only [initPciDev] at started
    grind
  simp [Wired.init, works]

theorem Wires.add {hardware : Hardware} (wires : Wires devList domains) (started : initPciDev hardware = 0)
    (unassigned : wired.device.assigned = false) :
    Wires ((wired.init hardware domains).1 :: devList) (wired.init hardware domains).2 := by
  rw [init_started started]
  have fresh : ∀ other ∈ devList, other.iommuDomain ≠ some domains.allocated := by
    intro other member same
    obtain ⟨domain, bound, own⟩ := wires.domain other member
    have equal := Option.some.inj (own.symm.trans same)
    omega
  constructor
  · intro other member
    rcases List.mem_cons.mp member with rfl | older
    · rfl
    · exact wires.ready other older
  · intro other member
    rcases List.mem_cons.mp member with rfl | older
    · exact ⟨domains.allocated, Nat.lt_succ_self _, rfl⟩
    · obtain ⟨domain, bound, own⟩ := wires.domain other older
      exact ⟨domain, Nat.lt_succ_of_lt bound, own⟩
  · rw [List.map_cons, List.nodup_cons]
    refine ⟨fun listed => ?_, wires.distinct⟩
    obtain ⟨other, member, same⟩ := List.mem_map.mp listed
    exact fresh other member same
  · exact fun address domain attached => Nat.lt_succ_of_lt (wires.below address domain attached)
  · intro other member
    rcases List.mem_cons.mp member with rfl | older
    · refine iff_of_false (by simp [unassigned]) fun attached => ?_
      exact Nat.lt_irrefl _ (wires.below _ _ attached)
    · exact wires.assigned other older

/-- A reset in which every device starts gives each a new domain. -/
theorem resetList_started {hardware : Nat → Hardware} (devList : List Wired) (position : Nat) (domains : Domains)
    (started : ∀ index < devList.length, initPciDev (hardware (position + index)) = 0) :
    let (restarted, later) := resetList hardware devList position domains
    later.allocated = domains.allocated + devList.length ∧
      (∀ address domain, later.attachment address = some domain → domains.attachment address = some domain) ∧
      restarted.map (·.iommuDomain) = (List.range' domains.allocated devList.length).map some ∧
      ∀ wired ∈ restarted, wired.device.ready = true ∧
        ∃ before ∈ devList, wired.device.assigned = before.device.assigned := by
  induction devList generalizing position domains with
  | nil => exact ⟨rfl, fun _ _ => id, rfl, fun _ listed => absurd listed List.not_mem_nil⟩
  | cons wired rest ih =>
      have first : initPciDev (hardware position) = 0 := started 0 (Nat.succ_pos _)
      have others : ∀ index < rest.length, initPciDev (hardware (position + 1 + index)) = 0 := by
        intro index bound
        rw [Nat.add_assoc, Nat.add_comm 1]
        exact started (index + 1) (Nat.succ_lt_succ bound)
      obtain ⟨allocated, attachment, domain, device⟩ := ih (position + 1)
        { domains.free wired.iommuDomain with allocated := domains.allocated + 1 } others
      simp only [resetList, Wired.deinit, init_started first]
      refine ⟨?_, ?_, ?_, ?_⟩
      · rw [List.length_cons, Nat.add_comm rest.length, ← Nat.add_assoc]
        exact allocated
      · intro address number attached
        have freed := attachment address number attached
        simp only [Domains.free] at freed
        split at freed
        · cases freed
        · exact freed
      · rw [List.map_cons, List.length_cons, List.range'_succ, List.map_cons]
        exact congrArg (some domains.allocated :: ·) domain
      · intro after listed
        rcases List.mem_cons.mp listed with rfl | older
        · exact ⟨rfl, wired, List.mem_cons_self .., rfl⟩
        · obtain ⟨ready, before, member, same⟩ := device after older
          exact ⟨ready, before, List.mem_cons_of_mem _ member, same⟩

theorem Wires.reset {hardware : Nat → Hardware} (wires : Wires devList domains)
    (unassigned : ∀ wired ∈ devList, wired.device.assigned = false)
    (started : ∀ position < devList.length, initPciDev (hardware position) = 0) :
    Wires (resetList hardware devList 0 domains).1 (resetList hardware devList 0 domains).2 ∧
      ∀ wired ∈ (resetList hardware devList 0 domains).1, wired.device.removable = true := by
  obtain ⟨allocated, attachment, numbers, device⟩ := resetList_started devList 0 domains (by simpa using started)
  have free : ∀ wired ∈ (resetList hardware devList 0 domains).1, wired.device.assigned = false := by
    intro wired listed
    obtain ⟨-, before, member, same⟩ := device wired listed
    exact same.trans (unassigned before member)
  have fresh : ∀ wired ∈ (resetList hardware devList 0 domains).1, ∃ domain,
      wired.iommuDomain = some domain ∧ domains.allocated ≤ domain ∧
        domain < domains.allocated + devList.length := by
    intro wired listed
    have member : wired.iommuDomain ∈ (List.range' domains.allocated devList.length).map some :=
      numbers ▸ List.mem_map_of_mem listed
    obtain ⟨domain, inRange, same⟩ := List.mem_map.mp member
    obtain ⟨lower, upper⟩ := List.mem_range'_1.mp inRange
    exact ⟨domain, same.symm, lower, upper⟩
  refine ⟨⟨fun wired listed => (device wired listed).1, ?_, ?_, ?_, ?_⟩, ?_⟩
  · intro wired listed
    obtain ⟨domain, same, -, upper⟩ := fresh wired listed
    exact ⟨domain, allocated ▸ upper, same⟩
  · rw [numbers]
    exact (List.nodup_range').map fun _ _ => Option.some.inj
  · intro address domain attached
    have bound := wires.below address domain (attachment address domain attached)
    omega
  · intro wired listed
    refine iff_of_false (by simp [free wired listed]) fun attached => ?_
    obtain ⟨domain, same, lower, -⟩ := fresh wired listed
    have bound := wires.below _ domain (attachment _ domain (attached.trans same))
    omega
  · intro wired listed
    simp [Device.removable, free wired listed, (device wired listed).1]

end Wires

section Steps

variable {state : State}

/-- The devices are wired and no mapping has gone astray. -/
structure Agrees (state : State) : Prop where
  wires : Wires state.devList state.domains
  maps : state.strayMaps = 0

theorem Agrees.add (agrees : Agrees state) (spec : Spec) (hardware : Hardware) :
    Agrees (enclavePciAddDev state spec hardware) := by
  rw [enclavePciAddDev]
  cases findDevByName state spec.name with
  | some wired => exact agrees
  | none =>
      by_cases succeeded : probe hardware = 0
      · have started : initPciDev hardware = 0 := by
          simp only [probe] at succeeded
          grind
        simp only [succeeded, if_true]
        exact ⟨agrees.wires.add started rfl, agrees.maps⟩
      · simp only [succeeded, if_false]
        exact ⟨agrees.wires, agrees.maps⟩

theorem Agrees.remove (agrees : Agrees state) (spec : Spec) : Agrees (enclavePciRemoveDev state spec) := by
  rw [enclavePciRemoveDev]
  cases found : findDevByName state spec.name with
  | none => exact agrees
  | some wired =>
      dsimp only
      split
      · obtain ⟨left, right, split, -, erased⟩ := found_split found
        refine ⟨?_, agrees.maps⟩
        rw [erased]
        exact (split ▸ agrees.wires).remove
      · exact agrees

theorem Agrees.attach (agrees : Agrees state) {name : List UInt8} {ipiVector : UInt32} {iommuAttach irq : Int}
    (attachable : Attachable state (.attach name ipiVector iommuAttach irq)) :
    Agrees (enclavePciAttach state name ipiVector iommuAttach irq) := by
  simp only [Attachable] at attachable
  rw [enclavePciAttach]
  cases found : findDevByName state name with
  | none => exact agrees
  | some wired =>
      by_cases removable : wired.device.removable = true
      · obtain ⟨succeeded, free⟩ := attachable (by simp [found, removable])
        obtain ⟨left, right, split, modified, -⟩ := found_split found
        have ready := (Bool.and_eq_true_iff.mp removable).2
        have wires : Wires (left ++ wired :: right) state.domains := split ▸ agrees.wires
        simp only [removable, if_true, succeeded, ne_eq, not_true_eq_false, if_false]
        refine ⟨?_, agrees.maps⟩
        rw [modified]
        exact wires.attach rfl rfl ready rfl fun other elsewhere =>
          free wired found other (split ▸ mem_middle_of_mem elsewhere)
      · simp only [removable]
        exact agrees

theorem Agrees.detach (agrees : Agrees state) (name : List UInt8) : Agrees (enclavePciDetach state name) := by
  rw [enclavePciDetach]
  cases found : findDevByName state name with
  | none => exact agrees
  | some wired =>
      by_cases assigned : wired.device.assigned = true
      · obtain ⟨left, right, split, modified, -⟩ := found_split found
        have wires : Wires (left ++ wired :: right) state.domains := split ▸ agrees.wires
        simp only [assigned, if_true]
        refine ⟨?_, agrees.maps⟩
        rw [modified]
        exact wires.detach rfl rfl (agrees.wires.ready wired (found_mem found)) assigned rfl
      · simp only [assigned]
        exact agrees

theorem Agrees.iommuMap (agrees : Agrees state) (name : List UInt8) :
    Agrees (enclavePciIommuMap state name) := by
  rw [enclavePciIommuMap]
  cases found : findDevByName state name with
  | none => exact agrees
  | some wired =>
      have attached := (agrees.wires.assigned wired (found_mem found)).mp
      have straight : ¬ (wired.device.assigned &&
          state.domains.attachment wired.address ≠ wired.iommuDomain) = true := by
        simpa using attached
      simp only [straight]
      exact agrees

theorem Agrees.cmd (agrees : Agrees state) (name : List UInt8) (cmd : UInt32) (irq : Int) :
    Agrees (enclavePciCmd state name cmd irq) := by
  rw [enclavePciCmd]
  cases found : findDevByName state name with
  | none => exact agrees
  | some wired =>
      obtain ⟨left, right, split, modified, -⟩ := found_split found
      have wires : Wires (left ++ wired :: right) state.domains := split ▸ agrees.wires
      have listed := found_mem found
      -- The handler and `intx_disabled` are no concern of the IOMMU.
      have unmoved : ∀ after : Wired, after.device.ready = wired.device.ready →
          after.device.assigned = wired.device.assigned → after.address = wired.address →
          after.iommuDomain = wired.iommuDomain → Wires (left ++ after :: right) state.domains := by
        intro after ready assigned address domain
        refine wires.replace domain (ready.trans (agrees.wires.ready wired listed)) rfl (fun _ _ => .inl) ?_ ?_
        · rw [assigned, address, domain]
          exact agrees.wires.assigned wired listed
        · exact fun other elsewhere => agrees.wires.assigned other (split ▸ mem_middle_of_mem elsewhere)
      dsimp only
      split
      · split
        · exact agrees
        · refine ⟨?_, agrees.maps⟩
          rw [modified]
          exact unmoved _ rfl rfl rfl rfl
      · split
        · split
          · refine ⟨?_, agrees.maps⟩
            rw [modified]
            exact unmoved _ rfl rfl rfl rfl
          · exact agrees
        · exact agrees

theorem deinitList_removable {devList : List Wired} (removable : ∀ wired ∈ devList, wired.device.removable = true) :
    (deinitList devList state).devList = [] ∧ (deinitList devList state).strayMaps = state.strayMaps ∧
      (deinitList devList state).domains.allocated = state.domains.allocated ∧
      ∀ address domain, (deinitList devList state).domains.attachment address = some domain →
        state.domains.attachment address = some domain := by
  induction devList generalizing state with
  | nil => exact ⟨rfl, rfl, rfl, fun _ _ => id⟩
  | cons wired rest ih =>
      rw [deinitList, if_pos (removable wired (List.mem_cons_self ..))]
      obtain ⟨empty, maps, allocated, attachment⟩ := @ih { state.kfree wired with devCnt := state.devCnt - 2 }
        (fun other member => removable other (List.mem_cons_of_mem _ member))
      refine ⟨empty, maps, allocated, fun address domain attached => ?_⟩
      have freed := attachment address domain attached
      simp only [State.kfree, Wired.deinit, Domains.free] at freed
      split at freed
      · cases freed
      · exact freed

theorem Agrees.deinit (agrees : Agrees state) (removable : ∀ wired ∈ state.devList, wired.device.removable = true) :
    Agrees (deinitEnclavePci state) := by
  obtain ⟨empty, maps, allocated, attachment⟩ := @deinitList_removable state state.devList removable
  rw [deinitEnclavePci]
  refine ⟨?_, maps.trans agrees.maps⟩
  rw [empty]
  refine ⟨by simp, by simp, by simp, ?_, by simp⟩
  intro address domain attached
  rw [allocated]
  exact agrees.wires.below address domain (attachment address domain attached)

theorem Agrees.step (agrees : Agrees state) {operation : Operation} (attachable : Attachable state operation) :
    Agrees (step state operation) := by
  cases operation with
  | add spec hardware => exact agrees.add spec hardware
  | remove spec => exact agrees.remove spec
  | attach name ipiVector iommuAttach irq => exact agrees.attach attachable
  | detach name => exact agrees.detach name
  | iommuMap name => exact agrees.iommuMap name
  | iommuUnmap name => exact agrees
  | ackIrq name => exact agrees
  | cmd name cmd irq => exact agrees.cmd name cmd irq
  | reset hardware => exact ⟨(agrees.wires.reset attachable.1 attachable.2).1, agrees.maps⟩
  | deinit => exact agrees.deinit attachable

end Steps

/-- What the flag is for: it tells what is attached, so mappings go to domains in
use, and a device that is not attached can be attached or removed, as every
device can after a reset. -/
structure FlagSound (state : State) : Prop where
  assigned : ∀ wired ∈ state.devList, wired.device.assigned = true ↔ wired.attached state.domains
  maps : state.strayMaps = 0
  again : ∀ wired ∈ state.devList, ¬ wired.attached state.domains → wired.device.removable = true
  restarts : ∀ hardware, Attachable state (.reset hardware) →
    ∀ wired ∈ (resetEnclavePci state hardware).devList, wired.device.removable = true

theorem initEnclavePci_agrees : Agrees initEnclavePci where
  wires := ⟨by simp [initEnclavePci], by simp [initEnclavePci], by simp [initEnclavePci], by simp [initEnclavePci],
    by simp [initEnclavePci]⟩
  maps := rfl

theorem reachable_agrees {state : State} (reached : system.Reachable Attachable state) : Agrees state :=
  reached.invariant (fun initial => initial ▸ initEnclavePci_agrees)
    (fun agrees attachable stepped => Option.some.inj stepped ▸ agrees.step attachable)

theorem reachable_flagSound {state : State} (reached : system.Reachable Attachable state) : FlagSound state := by
  have agrees := reachable_agrees reached
  constructor
  · exact fun wired listed => agrees.wires.attached_iff listed
  · exact agrees.maps
  · intro wired listed free
    have unassigned : ¬ wired.device.assigned = true := fun assigned =>
      free ((agrees.wires.attached_iff listed).mp assigned)
    simp [Device.removable, unassigned, agrees.wires.ready wired listed]
  · exact fun hardware attachable => (agrees.wires.reset attachable.1 attachable.2).2

/-- Attached again after a reset, the device is attached to its second domain. -/
theorem reattached_flagSound : ∃ state, system.Reachable Attachable state ∧
    state.devList.map (fun wired => (wired.device.assigned, wired.iommuDomain)) = [(true, some 1)] ∧
    FlagSound state := by
  have executed := Option.map_eq_some_iff.mp
    (show (system.run (fun state operation => decide (Attachable state operation)) initEnclavePci
      [.add nic working, .attach nic.name 32 0 0, .iommuMap nic.name, .detach nic.name, .reset fun _ => working,
        .attach nic.name 32 0 0]).map
        (·.devList.map fun wired => (wired.device.assigned, wired.iommuDomain)) = some [(true, some 1)] by decide)
  obtain ⟨state, executed, assigned⟩ := executed
  have reached : system.Reachable Attachable state := ⟨_, rfl, System.run_path of_decide_eq_true executed⟩
  exact ⟨state, reached, assigned, reachable_flagSound reached⟩

/-- A failed `iommu_attach_device` leaves the device assigned and attached to nothing. -/
theorem failed_attach_not_flagSound :
    ¬ ∀ state, system.Reachable (fun _ _ => True) state → FlagSound state := by
  intro always
  have executed := Option.map_eq_some_iff.mp
    (show (system.run (fun _ _ => true) initEnclavePci [.add nic working, .attach nic.name 32 (-16) 0]).map
      (fun state => state.devList.map fun wired =>
        (wired.device.assigned, state.domains.attachment wired.address)) = some [(true, none)] by decide)
  obtain ⟨state, executed, observed⟩ := executed
  have sound := always state ⟨_, rfl, System.run_path (fun _ => trivial) executed⟩
  obtain ⟨wired, listed⟩ : ∃ wired, state.devList = [wired] := by
    apply List.length_eq_one_iff.mp
    simpa using congrArg List.length observed
  rw [listed] at observed
  simp only [List.map_singleton, List.cons.injEq, Prod.mk.injEq, and_true] at observed
  obtain ⟨domain, -, attached⟩ := (sound.assigned wired (by simp [listed])).mp observed.1
  exact absurd (observed.2.symm.trans attached) (by simp)

end Pisces.Pci.Wiring
