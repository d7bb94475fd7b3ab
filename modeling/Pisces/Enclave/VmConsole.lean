import Mathlib.Data.List.Count
import Mathlib.Data.List.Nodup
import Pisces.Transition

/-! # Connecting to the console of a VM

`v3_console_connect` and `console_release` with the IRQ functions they call.
What the kernel answers is an argument of each call.
-/

namespace Pisces.Enclave.VmConsole

open Transition

/-- `struct palacios_console`; `ringBuf` is the physical address of the ring. -/
structure Console where
  address : Nat
  enclave : Nat
  vmId : UInt32
  irq : Int
  ringBuf : Nat
  deriving DecidableEq

/-- The fields of `struct cons_ring_buf` that the host writes. -/
structure Ring where
  kickIpiVec : UInt16
  kickApic : UInt16
  deriving DecidableEq

structure State where
  /-- Console structures that are allocated -/
  consoles : List Console
  hwirqs : List Int
  /-- IRQs registered with `cons_kick`, and the console given as their data -/
  registered : List (Int × Nat)
  /-- Open `v3-cons` descriptors and their `private_data` -/
  descriptors : List (Int × Nat)
  rings : Nat → Ring
  /-- `PISCES_CMD_VM_CONS_DISCONNECT` messages, by enclave and VM -/
  disconnects : List (Nat × UInt32)

/-- What the functions of the kernel return to one `v3_console_connect`. -/
structure Outcome where
  kmalloc : Option Nat
  apicid : Int
  /-- `pisces_alloc_irq` -/
  allocIrq : Int
  requestIrq : Int
  /-- `irq_get_chip_data` and its vector -/
  chipData : Int → Option Nat
  getFd : Int

namespace State

def piscesFreeIrq (state : State) (irq : Int) : State :=
  { state with hwirqs := state.hwirqs.erase irq }

def piscesRequestIrq (state : State) (privData : Nat) (outcome : Outcome) : Int × State :=
  let irq := outcome.allocIrq
  if irq < 0 then (irq, state)
  else
    let allocated := { state with hwirqs := irq :: state.hwirqs }
    if outcome.requestIrq ≠ 0 then (-1, allocated.piscesFreeIrq irq)
    else (irq, { allocated with registered := (irq, privData) :: state.registered })

def piscesReleaseIrq (state : State) (irq : Int) (privData : Nat) : State :=
  { state with registered := state.registered.erase (irq, privData) }.piscesFreeIrq irq

def kfree (state : State) (cons : Nat) : State :=
  { state with consoles := state.consoles.eraseP (·.address = cons) }

def setRing (state : State) (pa : Nat) (ring : Ring) : State :=
  { state with rings := Function.update state.rings pa ring }

end State

def piscesIrqToVector : Option Nat → Int
  | none => -1
  | some vector => vector

/-- The result and the state after the call.  `IS_ERR` does not hold of the null
pointer of a failed `kmalloc`, which is then written to: `none`. -/
def v3ConsoleConnect (state : State) (enclave : Nat) (vmId : UInt32) (consBufPa : Nat) (outcome : Outcome) :
    Option (Int × State) :=
  match outcome.kmalloc with
  | none => none
  | some cons =>
      let ring := { state.rings consBufPa with kickApic := UInt16.ofInt outcome.apicid }
      let (irq, requested) := (state.setRing consBufPa ring).piscesRequestIrq cons outcome
      let console := { address := cons, enclave, vmId, irq, ringBuf := consBufPa }
      let connecting := { requested with consoles := console :: requested.consoles }
      if irq < 0 then some (-1, connecting.kfree cons)
      else
        let kickIpiVec := UInt16.ofInt (piscesIrqToVector (outcome.chipData irq))
        let kicked := connecting.setRing consBufPa { ring with kickIpiVec }
        -- the field is read back as an unsigned value
        if (kickIpiVec.toNat : Int) < 0 then some (-1, kicked.kfree cons)
        else if outcome.getFd < 0 then some (outcome.getFd, kicked)
        else some (outcome.getFd, { kicked with descriptors := (outcome.getFd, cons) :: kicked.descriptors })

/-- `console_release`; a failed send of the message is only printed. -/
def consoleRelease (state : State) (console : Console) : State :=
  let sent := { state with disconnects := (console.enclave, console.vmId) :: state.disconnects }
  (sent.piscesReleaseIrq console.irq console.address).kfree console.address

inductive Operation where
  | connect (enclave : Nat) (vmId : UInt32) (consBufPa : Nat) (outcome : Outcome)
  | release (fd : Int)

def step (state : State) : Operation → Option State
  | .connect enclave vmId consBufPa outcome =>
      (v3ConsoleConnect state enclave vmId consBufPa outcome).map Prod.snd
  | .release fd =>
      match state.descriptors.find? (·.1 = fd) with
      | none => none
      | some descriptor =>
          match state.consoles.find? (·.address = descriptor.2) with
          | none => none
          | some console =>
              some (consoleRelease { state with descriptors := state.descriptors.erase descriptor } console)

structure Initial (state : State) : Prop where
  consoles : state.consoles = []
  registered : state.registered = []
  descriptors : state.descriptors = []

def system : System State Operation where
  initial := Initial
  step := step

/-- `kmalloc` returns memory that is not in use. -/
def Allocates (state : State) : Operation → Bool
  | .connect _ _ _ outcome => state.consoles.all fun console => outcome.kmalloc ≠ some console.address
  | .release _ => true

namespace Outcome

/-- `pisces_request_irq` succeeds. -/
def granted (outcome : Outcome) : Bool :=
  0 ≤ outcome.allocIrq && outcome.requestIrq == 0

/-- The IRQ has a vector, and the vector fits the field of the ring. -/
def hasVector (outcome : Outcome) : Bool :=
  (outcome.chipData outcome.allocIrq).any (· < 0x10000)

end Outcome

/-- What a call is to leave behind: everything or nothing. -/
def AllOrNothing (before : State) (consBufPa : Nat) (chipData : Int → Option Nat) :
    Option (Int × State) → Prop
  | none => False
  | some (ret, after) =>
      (0 ≤ ret ∧ ∃ console vector,
        after.descriptors = (ret, console.address) :: before.descriptors ∧
        after.registered = (console.irq, console.address) :: before.registered ∧
        after.consoles = console :: before.consoles ∧
        chipData console.irq = some vector ∧ (after.rings consBufPa).kickIpiVec.toNat = vector) ∨
      (ret < 0 ∧ after.descriptors = before.descriptors ∧ after.registered = before.registered ∧
        after.hwirqs = before.hwirqs ∧ after.consoles = before.consoles)

/-- A connect that leaves its IRQ and its console behind. -/
def Operation.leaks : Operation → Bool
  | .connect _ _ _ outcome => outcome.granted && decide (outcome.getFd < 0)
  | .release _ => false

variable {state before after : State} {enclave consBufPa cons : Nat} {vmId : UInt32} {outcome : Outcome}

/-! ## One call -/

theorem piscesRequestIrq_granted (granted : outcome.granted = true) :
    state.piscesRequestIrq cons outcome =
      (outcome.allocIrq, { state with
        hwirqs := outcome.allocIrq :: state.hwirqs
        registered := (outcome.allocIrq, cons) :: state.registered }) := by
  simp only [Outcome.granted, Bool.and_eq_true, decide_eq_true_eq, beq_iff_eq] at granted
  simp [State.piscesRequestIrq, granted.2, Int.not_lt.mpr granted.1]

theorem piscesRequestIrq_refused (state : State) (cons : Nat) (refused : outcome.granted = false) :
    ∃ irq : Int, irq < 0 ∧ state.piscesRequestIrq cons outcome = (irq, state) := by
  unfold State.piscesRequestIrq
  by_cases negative : outcome.allocIrq < 0
  · exact ⟨_, negative, by simp [negative]⟩
  · refine ⟨-1, by decide, ?_⟩
    have failed : outcome.requestIrq ≠ 0 := by
      simpa [Outcome.granted, Int.not_lt.mp negative] using refused
    simp [negative, failed, State.piscesFreeIrq]

/-- Without an IRQ the call takes back what it allocated. -/
theorem v3ConsoleConnect_refused (allocated : outcome.kmalloc = some cons) (refused : outcome.granted = false) :
    v3ConsoleConnect state enclave vmId consBufPa outcome =
      some (-1, state.setRing consBufPa
        { state.rings consBufPa with kickApic := UInt16.ofInt outcome.apicid }) := by
  obtain ⟨irq, negative, requested⟩ := piscesRequestIrq_refused (state.setRing consBufPa
    { state.rings consBufPa with kickApic := UInt16.ofInt outcome.apicid }) cons refused
  simp [v3ConsoleConnect, allocated, requested, negative, State.kfree]

/-- What a granted IRQ leaves, whatever the vector and the descriptor are. -/
structure Granted (before : State) (enclave : Nat) (vmId : UInt32) (consBufPa cons : Nat) (outcome : Outcome)
    (after : State) : Prop where
  consoles : after.consoles =
    { address := cons, enclave, vmId, irq := outcome.allocIrq, ringBuf := consBufPa } :: before.consoles
  registered : after.registered = (outcome.allocIrq, cons) :: before.registered
  descriptors : after.descriptors =
    if outcome.getFd < 0 then before.descriptors else (outcome.getFd, cons) :: before.descriptors
  vector : (after.rings consBufPa).kickIpiVec =
    UInt16.ofInt (piscesIrqToVector (outcome.chipData outcome.allocIrq))

theorem v3ConsoleConnect_granted (state : State) (enclave : Nat) (vmId : UInt32) (consBufPa : Nat)
    (allocated : outcome.kmalloc = some cons) (granted : outcome.granted = true) :
    ∃ after, v3ConsoleConnect state enclave vmId consBufPa outcome = some (outcome.getFd, after) ∧
      Granted state enclave vmId consBufPa cons outcome after := by
  have nonnegative : ¬ outcome.allocIrq < 0 := by
    simp only [Outcome.granted, Bool.and_eq_true, decide_eq_true_eq] at granted
    exact Int.not_lt.mpr granted.1
  have unsigned (value : UInt16) : ¬ ((value.toNat : Int) < 0) := by omega
  simp only [v3ConsoleConnect, allocated, piscesRequestIrq_granted granted, nonnegative, unsigned, if_false]
  by_cases failed : outcome.getFd < 0
  · simp only [failed, if_true]
    exact ⟨_, rfl, rfl, rfl, by simp [failed, State.setRing], by simp [State.setRing]⟩
  · simp only [failed, if_false]
    exact ⟨_, rfl, rfl, rfl, by simp [failed, State.setRing], by simp [State.setRing]⟩

theorem piscesIrqToVector_stored (data : Option Nat) (vector : Nat) :
    (data = some vector ∧ (UInt16.ofInt (piscesIrqToVector data)).toNat = vector) ↔
      data = some vector ∧ vector < 0x10000 := by
  apply and_congr_right
  intro found
  subst found
  simp only [piscesIrqToVector, UInt16.ofInt, UInt16.toNat_ofNat']
  omega

/-- A granted IRQ is kept for a descriptor exactly if it has a vector and the
descriptor is made. -/
theorem Granted.allOrNothing (kept : Granted before enclave vmId consBufPa cons outcome after) :
    AllOrNothing before consBufPa outcome.chipData (some (outcome.getFd, after)) ↔
      outcome.hasVector = true ∧ 0 ≤ outcome.getFd := by
  constructor
  · rintro (⟨made, console, vector, -, -, consoles, found, stored⟩ | ⟨-, -, registered, -⟩)
    · rw [kept.consoles, List.cons.injEq] at consoles
      rw [← consoles.1] at found
      rw [kept.vector] at stored
      have fits := (piscesIrqToVector_stored _ _).mp ⟨found, stored⟩
      exact ⟨by simp [Outcome.hasVector, found, fits.2], made⟩
    · rw [kept.registered] at registered
      exact absurd registered (List.cons_ne_self _ _)
  · intro ⟨hasVector, made⟩
    obtain ⟨vector, found, fits⟩ : ∃ vector, outcome.chipData outcome.allocIrq = some vector ∧ vector < 0x10000 := by
      simpa [Outcome.hasVector, Option.any_eq_true] using hasVector
    refine .inl ⟨made, _, vector, ?_, kept.registered, kept.consoles, found, ?_⟩
    · rw [kept.descriptors, if_neg (Int.not_lt.mpr made)]
    · rw [kept.vector]
      exact ((piscesIrqToVector_stored _ _).mpr ⟨found, fits⟩).2

theorem v3ConsoleConnect_allOrNothing (outcome : Outcome) :
    AllOrNothing state consBufPa outcome.chipData (v3ConsoleConnect state enclave vmId consBufPa outcome) ↔
      outcome.kmalloc.isSome = true ∧
        (outcome.granted = false ∨ (outcome.hasVector = true ∧ 0 ≤ outcome.getFd)) := by
  cases allocated : outcome.kmalloc with
  | none => simp [v3ConsoleConnect, allocated, AllOrNothing]
  | some cons =>
      cases granted : outcome.granted with
      | false => simp [v3ConsoleConnect_refused allocated granted, AllOrNothing, State.setRing]
      | true =>
          obtain ⟨after, connected, kept⟩ := v3ConsoleConnect_granted state enclave vmId consBufPa allocated granted
          rw [connected, kept.allOrNothing]
          simp

/-! ## Sequences of connects and releases -/

/-- Every open descriptor has a console, and the IRQ of that console is
registered for it alone. -/
structure Backed (state : State) : Prop where
  addresses : (state.consoles.map (·.address)).Nodup
  distinct : (state.descriptors.map Prod.snd).Nodup
  console : ∀ descriptor ∈ state.descriptors, ∃ console ∈ state.consoles,
    console.address = descriptor.2 ∧ (console.irq, descriptor.2) ∈ state.registered

theorem Initial.backed (initial : Initial state) : Backed state where
  addresses := by simp [initial.consoles]
  distinct := by simp [initial.descriptors]
  console := by simp [initial.descriptors]

theorem Backed.refused {ring : Ring} (backed : Backed state) : Backed (state.setRing consBufPa ring) :=
  ⟨backed.addresses, backed.distinct, backed.console⟩

theorem Backed.granted (backed : Backed before) (new : ∀ console ∈ before.consoles, console.address ≠ cons)
    (kept : Granted before enclave vmId consBufPa cons outcome after) : Backed after := by
  have unused : cons ∉ before.descriptors.map Prod.snd := by
    intro used
    obtain ⟨descriptor, open_, same⟩ := List.mem_map.mp used
    obtain ⟨console, allocated, address, -⟩ := backed.console descriptor open_
    exact new console allocated (address.trans same)
  have older : ∀ descriptor ∈ before.descriptors, ∃ console ∈ after.consoles,
      console.address = descriptor.2 ∧ (console.irq, descriptor.2) ∈ after.registered := by
    intro descriptor open_
    obtain ⟨console, allocated, address, registered⟩ := backed.console descriptor open_
    rw [kept.consoles, kept.registered]
    exact ⟨console, List.mem_cons_of_mem _ allocated, address, List.mem_cons_of_mem _ registered⟩
  refine ⟨?_, ?_, ?_⟩
  · rw [kept.consoles, List.map_cons, List.nodup_cons]
    refine ⟨fun used => ?_, backed.addresses⟩
    obtain ⟨console, allocated, same⟩ := List.mem_map.mp used
    exact new console allocated same
  · rw [kept.descriptors]
    split
    · exact backed.distinct
    · exact List.nodup_cons.mpr ⟨unused, backed.distinct⟩
  · rw [kept.descriptors]
    split
    · exact older
    · intro descriptor open_
      rcases List.mem_cons.mp open_ with rfl | open_
      · rw [kept.consoles, kept.registered]
        exact ⟨_, List.mem_cons_self, rfl, List.mem_cons_self⟩
      · exact older descriptor open_

/-- What the release of a descriptor finds and does -/
structure Released (before : State) (descriptor : Int × Nat) (console : Console) (after : State) : Prop where
  opened : descriptor ∈ before.descriptors
  address : console.address = descriptor.2
  registered : (console.irq, console.address) ∈ before.registered
  descriptors : after.descriptors = before.descriptors.erase descriptor
  consoles : after.consoles = before.consoles.eraseP (·.address = console.address)
  unregistered : after.registered = before.registered.erase (console.irq, console.address)

/-- A release finds the console of its descriptor, and takes back the IRQ that
is registered for it. -/
theorem Backed.released (backed : Backed state) {fd : Int} (stepped : step state (.release fd) = some after) :
    ∃ descriptor console, Released state descriptor console after := by
  cases found : state.descriptors.find? (·.1 = fd) with
  | none => simp [step, found] at stepped
  | some descriptor =>
      have member := List.mem_of_find?_eq_some found
      cases owner : state.consoles.find? (·.address = descriptor.2) with
      | none => simp [step, found, owner] at stepped
      | some console =>
          simp only [step, found, owner, Option.some.injEq] at stepped
          subst stepped
          have address : console.address = descriptor.2 := by simpa using List.find?_some owner
          obtain ⟨other, allocated, same, registered⟩ := backed.console descriptor member
          have unique : other = console :=
            List.inj_on_of_nodup_map backed.addresses allocated (List.mem_of_find?_eq_some owner)
              (same.trans address.symm)
          subst unique
          exact ⟨descriptor, other, member, address, address ▸ registered, rfl, rfl, rfl⟩

/-- The descriptors that stay open belong to other consoles. -/
theorem Backed.apart (backed : Backed state) {descriptor left : Int × Nat} (member : descriptor ∈ state.descriptors)
    (stays : left ∈ state.descriptors.erase descriptor) : left.2 ≠ descriptor.2 := by
  intro equal
  have nodup : state.descriptors.Nodup := backed.distinct.of_map
  obtain ⟨differs, stays⟩ := nodup.mem_erase_iff.mp stays
  exact differs (List.inj_on_of_nodup_map backed.distinct stays member equal)

theorem Released.backed {descriptor : Int × Nat} {console : Console}
    (released : Released before descriptor console after) (backed : Backed before) : Backed after := by
  refine ⟨?_, ?_, ?_⟩
  · rw [released.consoles]
    exact backed.addresses.sublist ((List.eraseP_sublist ..).map _)
  · rw [released.descriptors]
    exact backed.distinct.sublist (List.erase_sublist.map _)
  · intro left stays
    rw [released.descriptors] at stays
    have differs := backed.apart released.opened stays
    rw [← released.address] at differs
    obtain ⟨other, allocated, address, registered⟩ := backed.console left (List.mem_of_mem_erase stays)
    rw [released.consoles, released.unregistered]
    refine ⟨other, ?_, address, ?_⟩
    · refine (List.mem_eraseP_of_neg ?_).mpr allocated
      simpa [address] using differs
    · refine (List.mem_erase_of_ne ?_).mpr registered
      intro equal
      exact differs (Prod.mk.inj equal).2

theorem Backed.release (backed : Backed state) {fd : Int} (stepped : step state (.release fd) = some after) :
    Backed after ∧ after.registered.length + 1 = state.registered.length ∧
      after.descriptors.length + 1 = state.descriptors.length := by
  obtain ⟨descriptor, console, released⟩ := backed.released stepped
  have registered := List.length_pos_of_mem released.registered
  have descriptors := List.length_pos_of_mem released.opened
  refine ⟨released.backed backed, ?_, ?_⟩
  · rw [released.unregistered, List.length_erase_of_mem released.registered]
    omega
  · rw [released.descriptors, List.length_erase_of_mem released.opened]
    omega

theorem Backed.connect (backed : Backed state)
    (allocates : Allocates state (.connect enclave vmId consBufPa outcome) = true)
    (stepped : step state (.connect enclave vmId consBufPa outcome) = some after) :
    Backed after ∧ after.registered.length + state.descriptors.length =
      state.registered.length + after.descriptors.length +
        if (Operation.connect enclave vmId consBufPa outcome).leaks then 1 else 0 := by
  cases allocated : outcome.kmalloc with
  | none => simp [step, v3ConsoleConnect, allocated] at stepped
  | some cons =>
      cases granted : outcome.granted with
      | false =>
          simp only [step, v3ConsoleConnect_refused allocated granted, Option.map_some, Option.some.injEq] at stepped
          subst stepped
          exact ⟨backed.refused, by simp [State.setRing, Operation.leaks, granted]⟩
      | true =>
          obtain ⟨next, connected, kept⟩ := v3ConsoleConnect_granted state enclave vmId consBufPa allocated granted
          simp only [step, connected, Option.map_some, Option.some.injEq] at stepped
          subst stepped
          have new : ∀ console ∈ state.consoles, console.address ≠ cons := by
            intro console member same
            simp only [Allocates, List.all_eq_true, decide_eq_true_eq] at allocates
            exact allocates console member (by rw [allocated, same])
          refine ⟨backed.granted new kept, ?_⟩
          rw [kept.registered, kept.descriptors]
          by_cases failed : outcome.getFd < 0
          · simp [Operation.leaks, granted, failed]
            omega
          · simp [Operation.leaks, granted, failed]
            omega

/-- Registered IRQs exceed the open descriptors by the leaking connects. -/
theorem run_registered {schedule : List Operation} (backed : Backed before)
    (executed : system.run Allocates before schedule = some after) :
    after.registered.length + before.descriptors.length =
      before.registered.length + after.descriptors.length + schedule.countP Operation.leaks := by
  induction schedule generalizing before with
  | nil =>
      cases executed
      simp only [List.countP_nil]
      omega
  | cons operation rest ih =>
      simp only [System.run] at executed
      split at executed
      · rename_i allocates
        cases stepped : step before operation with
        | none => simp [system, stepped] at executed
        | some middle =>
            simp only [system, stepped] at executed
            cases operation with
            | connect enclave vmId consBufPa outcome =>
                obtain ⟨backed, counted⟩ := backed.connect allocates stepped
                have later := ih backed executed
                rw [List.countP_cons]
                omega
            | release fd =>
                obtain ⟨backed, registered, closed⟩ := backed.release stepped
                have later := ih backed executed
                rw [List.countP_cons_of_neg (by simp [Operation.leaks])]
                omega
      · cases executed

/-- A connect is all or nothing exactly if the console is allocated and either
no IRQ is granted or the IRQ has a vector and the descriptor is made.  The
registered IRQs are as many as the open descriptors exactly if no connect got an
IRQ but no descriptor. -/
theorem v3_console_connect_all_or_nothing {start : State} (initial : Initial start) :
    (∀ state enclave vmId consBufPa outcome,
      AllOrNothing state consBufPa outcome.chipData (v3ConsoleConnect state enclave vmId consBufPa outcome) ↔
        outcome.kmalloc.isSome = true ∧
          (outcome.granted = false ∨ (outcome.hasVector = true ∧ 0 ≤ outcome.getFd))) ∧
    ∀ schedule state, system.run Allocates start schedule = some state →
      (state.registered.length = state.descriptors.length ↔
        ∀ operation ∈ schedule, operation.leaks = false) := by
  refine ⟨fun _ _ _ _ outcome => v3ConsoleConnect_allOrNothing outcome, ?_⟩
  intro schedule state executed
  have counted := run_registered initial.backed executed
  rw [initial.registered, initial.descriptors] at counted
  have none : schedule.countP Operation.leaks = 0 ↔ ∀ operation ∈ schedule, operation.leaks = false := by
    simp [List.countP_eq_zero]
  rw [← none]
  simp only [List.length_nil] at counted
  omega

def State.none : State where
  consoles := []
  hwirqs := []
  registered := []
  descriptors := []
  rings := fun _ => { kickIpiVec := 0, kickApic := 0 }
  disconnects := []

/-- Vectors of the IRQs 40 to 49; no other IRQ has chip data. -/
def vectors (irq : Int) : Option Nat :=
  if 40 ≤ irq ∧ irq < 50 then some (irq.toNat + 0x30) else none

def connected (allocIrq getFd : Int) : Outcome :=
  { kmalloc := some allocIrq.toNat, apicid := 0, allocIrq, requestIrq := 0, chipData := vectors, getFd }

theorem State.none_initial : Initial State.none :=
  ⟨rfl, rfl, rfl⟩

/-- Two consoles are connected, and the first of them is released. -/
theorem v3_console_connect_all_or_nothing_reuse :
    ((system.run Allocates State.none
        [.connect 0 1 0x1000 (connected 41 5), .connect 0 2 0x2000 (connected 42 6), .release 5]).map
          fun state => (state.registered, state.descriptors)) = some ([(42, 42)], [(6, 42)]) ∧
      ∃ state, system.run Allocates State.none
          [.connect 0 1 0x1000 (connected 41 5), .connect 0 2 0x2000 (connected 42 6), .release 5] = some state ∧
        (state.registered.length = state.descriptors.length ↔
          ∀ operation ∈ [Operation.connect 0 1 0x1000 (connected 41 5),
            .connect 0 2 0x2000 (connected 42 6), .release 5], operation.leaks = false) :=
  ⟨rfl, _, rfl, (v3_console_connect_all_or_nothing State.none_initial).2 _ _ rfl⟩

/-- An IRQ without chip data is stored as vector 65535 under a valid descriptor,
and a failed descriptor leaves its IRQ registered. -/
theorem v3_console_connect_keeps_failures :
    ¬ AllOrNothing State.none 0x1000 vectors (v3ConsoleConnect State.none 0 1 0x1000 (connected 50 5)) ∧
    ((v3ConsoleConnect State.none 0 1 0x1000 (connected 50 5)).map
      fun result => (result.1, (result.2.rings 0x1000).kickIpiVec)) = some (5, 65535) ∧
    ((system.run Allocates State.none [.connect 0 1 0x1000 (connected 41 (-24))]).map
      fun state => (state.registered.length, state.descriptors.length)) = some (1, 0) := by
  refine ⟨fun all => ?_, rfl, rfl⟩
  have delivered := (v3ConsoleConnect_allOrNothing (connected 50 5)).mp all
  revert delivered
  decide

end Pisces.Enclave.VmConsole
