import Pisces.Pci.Count

/-! # INTx handlers

`intx_disabled` against the handlers that the kernel has: an attach or an
INTX_ENABLE command sets the flag whatever `request_threaded_irq` says, and
neither detaching nor removing a device releases its handler.
-/

namespace Pisces.Pci.Wiring

open Transition

/-- The flag says whether the kernel has the handler. -/
def Wired.flagged (wired : Wired) : Prop :=
  wired.handler = true ↔ wired.device.intxDisabled = false

structure HandlerSound (state : State) : Prop where
  flagged : ∀ wired ∈ state.devList, wired.flagged
  frees : state.strayFrees = 0
  freed : state.freedRegistered = 0

/-- Every request that is made succeeds or finds the handler registered, and
devices leave with INTx disabled. -/
def Interruptible (state : State) : Operation → Prop
  | .attach name _ iommuAttach irq =>
      ∀ wired ∈ findDevByName state name, wired.device.removable = true → iommuAttach = 0 →
        wired.device.intxDisabled = true → irq = 0
  | .cmd name cmd irq =>
      cmd = 5 → ∀ wired ∈ findDevByName state name, wired.device.intxDisabled = true → irq = 0
  | .remove spec =>
      ∀ wired ∈ findDevByName state spec.name, wired.device.removable = true →
        wired.device.intxDisabled = true
  | .deinit =>
      ∀ wired ∈ state.devList, wired.device.removable = true ∧ wired.device.intxDisabled = true
  | _ => True

instance (state : State) : (operation : Operation) → Decidable (Interruptible state operation)
  | .attach .. => inferInstanceAs (Decidable (∀ _ ∈ _, _))
  | .cmd .. => inferInstanceAs (Decidable (_ → _))
  | .remove _ => inferInstanceAs (Decidable (∀ _ ∈ _, _))
  | .deinit => inferInstanceAs (Decidable (∀ _ ∈ _, _))
  | .add .. => .isTrue trivial
  | .detach _ => .isTrue trivial
  | .iommuMap _ => .isTrue trivial
  | .iommuUnmap _ => .isTrue trivial
  | .ackIrq _ => .isTrue trivial
  | .reset _ => .isTrue trivial

section Handlers

variable {state : State} {wired : Wired}

theorem Wired.flagged.request {irq : Int} {device : Device} (flagged : wired.flagged)
    (succeeds : wired.device.intxDisabled = true → irq = 0) (enabled : device.intxDisabled = false) :
    ({ wired.requestIrq irq with device := device } : Wired).flagged := by
  refine iff_of_true ?_ enabled
  cases disabled : wired.device.intxDisabled with
  | true => simp [Wired.requestIrq, succeeds disabled]
  | false => simp [Wired.requestIrq, flagged.mpr disabled]

theorem Wired.flagged.init {hardware : Hardware} {domains : Domains} (flagged : wired.flagged) :
    (wired.init hardware domains).1.flagged := by
  simp only [Wired.init]
  split
  · exact flagged
  · split <;> exact flagged

/-- A device leaves without a handler when INTx is disabled. -/
theorem HandlerSound.kfree (sound : HandlerSound state) (flagged : wired.flagged)
    (disabled : wired.device.intxDisabled = true) : (state.kfree wired).freedRegistered = 0 := by
  have unregistered : wired.handler = false := by
    by_contra registered
    have enabled := flagged.mp (by simpa using registered)
    exact absurd (disabled.symm.trans enabled) (by decide)
  simp [State.kfree, unregistered, sound.freed]

theorem HandlerSound.add (sound : HandlerSound state) (spec : Spec) (hardware : Hardware) :
    HandlerSound (enclavePciAddDev state spec hardware) := by
  rw [enclavePciAddDev]
  cases findDevByName state spec.name with
  | some wired => exact sound
  | none =>
      dsimp only
      split
      · refine ⟨fun wired listed => ?_, sound.frees, sound.freed⟩
        rcases List.mem_cons.mp listed with rfl | older
        · exact Wired.flagged.init (by simp [Wired.flagged, setUp])
        · exact sound.flagged wired older
      · exact ⟨sound.flagged, sound.frees, sound.freed⟩

theorem HandlerSound.remove (sound : HandlerSound state) {spec : Spec}
    (interruptible : Interruptible state (.remove spec)) : HandlerSound (enclavePciRemoveDev state spec) := by
  simp only [Interruptible] at interruptible
  rw [enclavePciRemoveDev]
  cases found : findDevByName state spec.name with
  | none => exact sound
  | some wired =>
      dsimp only
      split
      · rename_i removable
        have disabled := interruptible wired found removable
        refine ⟨fun other listed => sound.flagged other (List.mem_of_mem_eraseP listed), sound.frees, ?_⟩
        exact sound.kfree (sound.flagged wired (found_mem found)) disabled
      · exact sound

/-- The device that a name finds changes; the others keep their handlers. -/
theorem HandlerSound.modify (sound : HandlerSound state) {name : List UInt8} {update : Wired → Wired}
    (found : findDevByName state name = some wired) (flagged : (update wired).flagged) :
    ∀ other ∈ (state.modify name update).devList, other.flagged := by
  obtain ⟨left, right, split, modified, -⟩ := found_split found
  intro other listed
  rw [modified, List.mem_append, List.mem_cons] at listed
  rcases listed with before | rfl | behind
  · exact sound.flagged other (by simp [split, before])
  · exact flagged
  · exact sound.flagged other (by simp [split, behind])

theorem HandlerSound.attach (sound : HandlerSound state) {name : List UInt8} {ipiVector : UInt32}
    {iommuAttach irq : Int} (interruptible : Interruptible state (.attach name ipiVector iommuAttach irq)) :
    HandlerSound (enclavePciAttach state name ipiVector iommuAttach irq) := by
  simp only [Interruptible] at interruptible
  rw [enclavePciAttach]
  cases found : findDevByName state name with
  | none => exact sound
  | some wired =>
      have flagged := sound.flagged wired (found_mem found)
      dsimp only
      split
      · rename_i removable
        split
        · exact ⟨sound.modify found flagged, sound.frees, sound.freed⟩
        · rename_i succeeded
          have requested := interruptible wired found removable (by simpa using succeeded)
          exact ⟨sound.modify found (flagged.request requested rfl), sound.frees, sound.freed⟩
      · exact sound

theorem HandlerSound.detach (sound : HandlerSound state) (name : List UInt8) :
    HandlerSound (enclavePciDetach state name) := by
  rw [enclavePciDetach]
  cases found : findDevByName state name with
  | none => exact sound
  | some wired =>
      dsimp only
      split
      · exact ⟨sound.modify found (sound.flagged wired (found_mem found)), sound.frees, sound.freed⟩
      · exact sound

theorem HandlerSound.iommuMap (sound : HandlerSound state) (name : List UInt8) :
    HandlerSound (enclavePciIommuMap state name) := by
  rw [enclavePciIommuMap]
  cases findDevByName state name with
  | none => exact sound
  | some wired =>
      dsimp only
      split
      · exact ⟨sound.flagged, sound.frees, sound.freed⟩
      · exact sound

theorem HandlerSound.cmd (sound : HandlerSound state) {name : List UInt8} {cmd : UInt32} {irq : Int}
    (interruptible : Interruptible state (.cmd name cmd irq)) :
    HandlerSound (enclavePciCmd state name cmd irq) := by
  simp only [Interruptible] at interruptible
  rw [enclavePciCmd]
  cases found : findDevByName state name with
  | none => exact sound
  | some wired =>
      have flagged := sound.flagged wired (found_mem found)
      dsimp only
      split
      · split
        · exact sound
        · rename_i enabled
          -- `free_irq` is called on the handler that the flag promises.
          have registered : wired.handler = true := flagged.mpr (by simpa using enabled)
          refine ⟨sound.modify found (by simp [Wired.flagged]), ?_, sound.freed⟩
          simp [registered, sound.frees]
      · split
        · rename_i enable
          split
          · have requested := interruptible enable wired found
            exact ⟨sound.modify found (flagged.request requested rfl), sound.frees, sound.freed⟩
          · exact sound
        · exact sound

theorem resetList_flagged {hardware : Nat → Hardware} {devList : List Wired} (position : Nat) (domains : Domains)
    (flagged : ∀ wired ∈ devList, wired.flagged) :
    ∀ wired ∈ (resetList hardware devList position domains).1, wired.flagged := by
  induction devList generalizing position domains with
  | nil => exact fun _ listed => absurd listed List.not_mem_nil
  | cons wired rest ih =>
      intro after listed
      simp only [resetList] at listed
      rcases List.mem_cons.mp listed with rfl | older
      · exact Wired.flagged.init (flagged wired (List.mem_cons_self ..))
      · exact ih _ _ (fun other member => flagged other (List.mem_cons_of_mem _ member)) after older

theorem HandlerSound.deinitList {devList : List Wired} (sound : HandlerSound state)
    (flagged : ∀ wired ∈ devList, wired.flagged)
    (leaving : ∀ wired ∈ devList, wired.device.removable = true ∧ wired.device.intxDisabled = true) :
    HandlerSound (deinitList devList state) := by
  induction devList generalizing state with
  | nil => exact ⟨fun _ listed => absurd listed List.not_mem_nil, sound.frees, sound.freed⟩
  | cons wired rest ih =>
      obtain ⟨removable, disabled⟩ := leaving wired (List.mem_cons_self ..)
      rw [Wiring.deinitList, if_pos removable]
      have freed := sound.kfree (flagged wired (List.mem_cons_self ..)) disabled
      exact ih ⟨sound.flagged, sound.frees, freed⟩
        (fun other member => flagged other (List.mem_cons_of_mem _ member))
        (fun other member => leaving other (List.mem_cons_of_mem _ member))

theorem HandlerSound.step (sound : HandlerSound state) {operation : Operation}
    (interruptible : Interruptible state operation) : HandlerSound (step state operation) := by
  cases operation with
  | add spec hardware => exact sound.add spec hardware
  | remove spec => exact sound.remove interruptible
  | attach name ipiVector iommuAttach irq => exact sound.attach interruptible
  | detach name => exact sound.detach name
  | iommuMap name => exact sound.iommuMap name
  | iommuUnmap name => exact sound
  | ackIrq name => exact sound
  | cmd name cmd irq => exact sound.cmd interruptible
  | reset hardware => exact ⟨resetList_flagged 0 state.domains sound.flagged, sound.frees, sound.freed⟩
  | deinit => exact sound.deinitList sound.flagged interruptible

end Handlers

/-- In a run of such operations the handlers follow the flags. -/
theorem reachable_handlerSound {state : State} (reached : system.Reachable Interruptible state) :
    HandlerSound state :=
  reached.invariant (fun initial => initial ▸ ⟨by simp [initEnclavePci], rfl, rfl⟩)
    (fun sound interruptible stepped => Option.some.inj stepped ▸ sound.step interruptible)

/-- Attached, disabled, enabled again and detached, the device keeps its handler. -/
theorem enabled_handlerSound : ∃ state, system.Reachable Interruptible state ∧
    state.devList.map (fun wired => (wired.device.assigned, wired.handler)) = [(false, true)] ∧
    HandlerSound state := by
  have executed := Option.map_eq_some_iff.mp
    (show (system.run (fun state operation => decide (Interruptible state operation)) initEnclavePci
      [.add nic working, .attach nic.name 32 0 0, .cmd nic.name 4 0, .cmd nic.name 5 0, .detach nic.name]).map
        (·.devList.map fun wired => (wired.device.assigned, wired.handler)) = some [(false, true)] by decide)
  obtain ⟨state, executed, registered⟩ := executed
  have reached : system.Reachable Interruptible state := ⟨_, rfl, System.run_path of_decide_eq_true executed⟩
  exact ⟨state, reached, registered, reachable_handlerSound reached⟩

/-- A device that was attached, detached and removed is freed with its handler registered. -/
theorem removed_not_handlerSound :
    ¬ ∀ state, system.Reachable (fun _ _ => True) state → HandlerSound state := by
  intro always
  have executed := Option.map_eq_some_iff.mp
    (show (system.run (fun _ _ => true) initEnclavePci
      [.add nic working, .attach nic.name 32 0 0, .detach nic.name, .remove nic]).map
        (·.freedRegistered) = some 1 by decide)
  obtain ⟨state, executed, freed⟩ := executed
  have sound := always state ⟨_, rfl, System.run_path (fun _ => trivial) executed⟩
  exact absurd (freed.symm.trans sound.freed) (by decide)

end Pisces.Pci.Wiring
