import Pisces.Pci.Wiring

/-! # The device count

`dev_cnt` against the length of `dev_list`, and the number of device lines that
teardown takes from the header of the proc file.
-/

namespace Pisces.Pci.Wiring

open Transition

/-- What `proc_pci_show` prints: the count as an `int`, and a line for each device -/
structure PciFile where
  header : Int
  lines : List (List UInt8 × UInt32 × UInt32 × UInt32)
  deriving DecidableEq

def procPciShow (state : Pci.State) : PciFile where
  header := state.devCnt.toInt32.toInt
  lines := state.devList.map fun device =>
    (device.name, device.bus, pciSlot device.devfn, pciFunc device.devfn)

/-- `num_devs` of `pisces_teardown`, the `unsigned long` that it reads lines by -/
def numDevs (file : PciFile) : UInt64 := UInt64.ofInt file.header

structure Counted (state : State) : Prop where
  onList : state.dangling = false
  count : state.devCnt.toNat = state.devList.length
  header : (numDevs (procPciShow state.forget)).toNat = (procPciShow state.forget).lines.length

/-- Every add that lists a device succeeds, no device is removed, and the list is
empty when it is torn down. -/
def Countable (state : State) : Operation → Prop
  | .add spec hardware =>
      (findDevByName state spec.name).isSome = true ∨
        probe hardware = 0 ∧ state.devList.length + 1 < 0x80000000
  | .remove spec => (findDevByName state spec.name).any (·.device.removable) = false
  | .deinit => state.devList = []
  | _ => True

instance (state : State) : (operation : Operation) → Decidable (Countable state operation)
  | .add _ _ => inferInstanceAs (Decidable (_ ∨ _))
  | .remove _ => inferInstanceAs (Decidable (_ = _))
  | .deinit => inferInstanceAs (Decidable (_ = _))
  | .attach .. => .isTrue trivial
  | .detach _ => .isTrue trivial
  | .iommuMap _ => .isTrue trivial
  | .iommuUnmap _ => .isTrue trivial
  | .ackIrq _ => .isTrue trivial
  | .cmd .. => .isTrue trivial
  | .reset _ => .isTrue trivial

section Count

variable {state : State}

/-- The header is an `int`, so it holds only half of the counts. -/
theorem numDevs_eq_iff (count : UInt32) :
    (UInt64.ofInt count.toInt32.toInt).toNat = count.toNat ↔ count.toNat < 0x80000000 := by
  have printed : count.toInt32.toInt =
      if 2 * count.toNat < 4294967296 then (count.toNat : Int) else (count.toNat : Int) - 4294967296 :=
    BitVec.toInt_eq_toNat_cond count.toBitVec
  have read : (UInt64.ofInt count.toInt32.toInt).toNat =
      (count.toInt32.toInt % 18446744073709551616).toNat % 18446744073709551616 := UInt64.toNat_ofNat'
  have bound : count.toNat < 4294967296 := count.toNat_lt
  rw [read, printed]
  split <;> omega

theorem counted_iff : Counted state ↔ state.dangling = false ∧
    state.devCnt.toNat = state.devList.length ∧ state.devList.length < 0x80000000 := by
  have lines : (procPciShow state.forget).lines.length = state.devList.length := by
    simp [procPciShow, State.forget]
  have header := numDevs_eq_iff state.devCnt
  constructor
  · rintro ⟨onList, count, read⟩
    refine ⟨onList, count, ?_⟩
    rw [lines, ← count] at read
    exact count ▸ header.mp read
  · rintro ⟨onList, count, bound⟩
    refine ⟨onList, count, ?_⟩
    rw [lines, ← count]
    exact header.mpr (count ▸ bound)

theorem Counted.congr {after : State} (counted : Counted state) (onList : after.dangling = state.dangling)
    (count : after.devCnt = state.devCnt) (length : after.devList.length = state.devList.length) :
    Counted after := by
  rw [counted_iff, onList, count, length]
  exact counted_iff.mp counted

theorem modify_length (name : List UInt8) (update : Wired → Wired) (wires : List Wired) :
    (modifyDev name update wires).length = wires.length := by
  induction wires with
  | nil => rfl
  | cons wired rest ih =>
      rw [modifyDev]
      split
      · rfl
      · rw [List.length_cons, ih, List.length_cons]

theorem resetList_length (hardware : Nat → Hardware) (wires : List Wired) (position : Nat) (domains : Domains) :
    (resetList hardware wires position domains).1.length = wires.length := by
  induction wires generalizing position domains with
  | nil => rfl
  | cons wired rest ih =>
      simp only [resetList, List.length_cons]
      rw [ih]

/-- Torn down without a device left over, each device is counted off twice. -/
theorem deinitList_spec (wires : List Wired) (state : State) :
    (deinitList wires state).dangling = true ∨
      (deinitList wires state).devList = [] ∧
        (deinitList wires state).devCnt.toNat =
          (state.devCnt.toNat + (0x100000000 - 2 * wires.length % 0x100000000)) % 0x100000000 := by
  induction wires generalizing state with
  | nil => exact .inr ⟨rfl, by simp [deinitList, Nat.mod_eq_of_lt state.devCnt.toNat_lt]⟩
  | cons wired rest ih =>
      rw [deinitList]
      split
      · refine (ih _).imp_right fun ⟨empty, count⟩ => ⟨empty, ?_⟩
        have two : (2 : UInt32).toNat = 2 := rfl
        simp only [UInt32.toNat_sub, two] at count
        rw [count, List.length_cons]
        omega
      · exact .inl rfl

theorem add_counted_iff (counted : Counted state) (spec : Spec) (hardware : Hardware) :
    Counted (enclavePciAddDev state spec hardware) ↔ Countable state (.add spec hardware) := by
  obtain ⟨onList, count, bound⟩ := counted_iff.mp counted
  have next : (state.devCnt + 1).toNat = state.devList.length + 1 := by
    have one : (1 : UInt32).toNat = 1 := rfl
    rw [UInt32.toNat_add, count, one]
    omega
  rw [enclavePciAddDev]
  simp only [Countable]
  cases findDevByName state spec.name with
  | some wired => simpa using counted
  | none =>
      by_cases succeeded : probe hardware = 0
      · simp only [succeeded, if_true, counted_iff, onList, next, List.length_cons]
        simp
      · simp only [succeeded, if_false, counted_iff, onList, next]
        simp

theorem remove_counted_iff (counted : Counted state) (spec : Spec) :
    Counted (enclavePciRemoveDev state spec) ↔ Countable state (.remove spec) := by
  obtain ⟨onList, count, bound⟩ := counted_iff.mp counted
  rw [enclavePciRemoveDev]
  simp only [Countable]
  cases found : findDevByName state spec.name with
  | none => simpa using counted
  | some wired =>
      by_cases removable : wired.device.removable = true
      · obtain ⟨left, right, split, -, erased⟩ := found_split found
        have length : state.devList.length = (left ++ right).length + 1 := by
          rw [split]
          simp only [List.length_append, List.length_cons]
          omega
        have counted_off : (state.devCnt - 2).toNat = (state.devList.length + 0xfffffffe) % 0x100000000 := by
          have two : (2 : UInt32).toNat = 2 := rfl
          rw [UInt32.toNat_sub, count, two, Nat.add_comm]
        simp only [removable, if_true, counted_iff, erased, counted_off, Option.any_some]
        simp only [Bool.true_eq_false, iff_false]
        rintro ⟨-, same, -⟩
        omega
      · simpa [removable] using counted

theorem deinit_counted_iff (counted : Counted state) :
    Counted (deinitEnclavePci state) ↔ Countable state .deinit := by
  obtain ⟨onList, count, bound⟩ := counted_iff.mp counted
  simp only [Countable]
  constructor
  · intro after
    obtain ⟨notDangling, same, -⟩ := counted_iff.mp after
    rcases deinitList_spec state.devList state with dangling | ⟨empty, counted_off⟩
    · exact absurd (dangling.symm.trans notDangling) (by decide)
    · rw [deinitEnclavePci, empty, counted_off, count, List.length_nil] at same
      exact List.eq_nil_of_length_eq_zero (by omega)
  · intro empty
    have same : deinitEnclavePci state = { state with devList := [] } := by rw [deinitEnclavePci, empty, deinitList]
    rw [same]
    exact counted.congr rfl rfl (by rw [empty])

theorem Counted.attach (counted : Counted state) (name : List UInt8) (ipiVector : UInt32) (iommuAttach irq : Int) :
    Counted (enclavePciAttach state name ipiVector iommuAttach irq) := by
  rw [enclavePciAttach]
  cases findDevByName state name with
  | none => exact counted
  | some wired =>
      dsimp only
      split
      · split <;> exact counted.congr rfl rfl (modify_length _ _ _)
      · exact counted

theorem Counted.detach (counted : Counted state) (name : List UInt8) : Counted (enclavePciDetach state name) := by
  rw [enclavePciDetach]
  cases findDevByName state name with
  | none => exact counted
  | some wired =>
      dsimp only
      split
      · exact counted.congr rfl rfl (modify_length _ _ _)
      · exact counted

theorem Counted.iommuMap (counted : Counted state) (name : List UInt8) :
    Counted (enclavePciIommuMap state name) := by
  rw [enclavePciIommuMap]
  cases findDevByName state name with
  | none => exact counted
  | some wired =>
      dsimp only
      split
      · exact counted.congr rfl rfl rfl
      · exact counted

theorem Counted.cmd (counted : Counted state) (name : List UInt8) (cmd : UInt32) (irq : Int) :
    Counted (enclavePciCmd state name cmd irq) := by
  rw [enclavePciCmd]
  cases findDevByName state name with
  | none => exact counted
  | some wired =>
      dsimp only
      split
      · split
        · exact counted
        · exact counted.congr rfl rfl (modify_length _ _ _)
      · split
        · split
          · exact counted.congr rfl rfl (modify_length _ _ _)
          · exact counted
        · exact counted

/-- The steps that keep the count are exactly the countable ones. -/
theorem step_counted_iff (counted : Counted state) (operation : Operation) :
    Counted (step state operation) ↔ Countable state operation := by
  cases operation with
  | add spec hardware => exact add_counted_iff counted spec hardware
  | remove spec => exact remove_counted_iff counted spec
  | deinit => exact deinit_counted_iff counted
  | iommuUnmap name => exact iff_of_true counted trivial
  | ackIrq name => exact iff_of_true counted trivial
  | attach name ipiVector iommuAttach irq => exact iff_of_true (counted.attach name ipiVector iommuAttach irq) trivial
  | detach name => exact iff_of_true (counted.detach name) trivial
  | iommuMap name => exact iff_of_true (counted.iommuMap name) trivial
  | cmd name cmd irq => exact iff_of_true (counted.cmd name cmd irq) trivial
  | reset hardware =>
      exact iff_of_true (counted.congr rfl rfl (resetList_length hardware state.devList 0 state.domains)) trivial

end Count

theorem initEnclavePci_counted : Counted initEnclavePci := by
  rw [counted_iff]
  decide

/-- In a run of countable operations, the count is right after each one. -/
theorem reachable_counted {state : State} (reached : system.Reachable Countable state) : Counted state :=
  reached.invariant (fun initial => initial ▸ initEnclavePci_counted)
    (fun counted countable stepped => Option.some.inj stepped ▸ (step_counted_iff counted _).mpr countable)

def nic : Spec := ⟨[110, 105, 99], 3, 0, 0⟩

def working : Hardware := ⟨true, true, true, true, 0, true⟩

theorem reset_attached_counted : ∃ state, system.Reachable Countable state ∧
    state.devList.length = 1 ∧ Counted state := by
  have executed := Option.map_eq_some_iff.mp
    (show (system.run (fun state operation => decide (Countable state operation)) initEnclavePci
      [.add nic working, .attach nic.name 32 0 0, .detach nic.name, .reset fun _ => working]).map
        (·.devList.length) = some 1 by decide)
  obtain ⟨state, executed, length⟩ := executed
  have reached : system.Reachable Countable state := ⟨_, rfl, System.run_path of_decide_eq_true executed⟩
  exact ⟨state, reached, length, reachable_counted reached⟩

/-- An add that finds no function at the address leaves a count of one and no device. -/
theorem missing_not_counted : ¬ ∀ state, system.Reachable (fun _ _ => True) state → Counted state := by
  intro always
  have missing : system.Reachable (fun _ _ => True)
      (enclavePciAddDev initEnclavePci nic { working with found := false }) :=
    ⟨_, rfl, .snoc .refl trivial (show system.step _ (.add nic { working with found := false }) = _ from rfl)⟩
  exact absurd (always _ missing).count (by decide)

end Pisces.Pci.Wiring
