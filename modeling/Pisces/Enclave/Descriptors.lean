import Mathlib.Data.List.Count
import Pisces.Enclave.Lifecycle

/-! # The descriptors that refer to an enclave

Which requests create and release descriptors of the enclave device, its control
channel, its consoles and its proc files, and what they do to the reference
count and to the console's `connected` flag.  FREE and RESET stop the long-call
thread; if there is none to stop they do not come back from `kthread_stop`.
-/

namespace Pisces.Enclave.Descriptors

open Transition

inductive ProcFile where
  | memory
  | cpus
  | pci
  deriving DecidableEq

inductive Kind where
  | device
  | ctrl
  | cons
  | vmCons
  | proc (file : ProcFile)
  deriving DecidableEq

/-- `lcall_state.kern_thread` -/
inductive KernThread where
  | null
  | live
  /-- The pointer is left when the thread has been stopped. -/
  | stopped
  deriving DecidableEq

structure State where
  status : Status
  /-- `kref_get` and `kref_put` count without a bound. -/
  refcount : Int
  /-- How often `enclave_last_put` has run. -/
  lastPuts : Nat
  /-- `cons.connected` -/
  connected : Bool
  /-- `pisces_enclave_free` has not run: the map holds the enclave, and its
  device node and proc files exist. -/
  mapped : Bool
  kernThread : KernThread
  /-- A RESET that does not come back keeps `op_lock`. -/
  opLocked : Bool
  opened : List Kind
  deriving DecidableEq

def create : State where
  status := .loaded
  refcount := 1
  lastPuts := 0
  connected := false
  mapped := true
  kernThread := .null
  opLocked := false
  opened := []

namespace State

def enclaveGet (state : State) : State :=
  { state with refcount := state.refcount + 1 }

def enclavePut (state : State) : State :=
  { state with
    refcount := state.refcount - 1
    lastPuts := if state.refcount - 1 = 0 then state.lastPuts + 1 else state.lastPuts }

def install (state : State) (kind : Kind) : State :=
  { state with opened := kind :: state.opened }

/-- `pisces_ctrl_connect`, with the success of `anon_inode_getfd` -/
def piscesCtrlConnect (state : State) (fd : Bool) : State :=
  if fd then state.enclaveGet.install .ctrl else state.enclaveGet.enclavePut

/-- `pisces_cons_connect` -/
def piscesConsConnect (state : State) (fd : Bool) : State :=
  if state.connected then state
  else
    let claimed := { state with connected := true }
    if fd then claimed.install .cons else claimed

/-- `v3_console_connect` stores the enclave without a reference. -/
def v3ConsoleConnect (state : State) (fd : Bool) : State :=
  if fd then state.install .vmCons else state

/-- `proc_mem_open` and its siblings, with the success of `single_open` -/
def procOpen (state : State) (file : ProcFile) (opened : Bool) : State :=
  if opened then state.enclaveGet.install (.proc file) else state.enclaveGet

/-- The release function of each kind. -/
def release (state : State) : Kind → State
  | .device => state.enclavePut
  | .ctrl => state.enclavePut
  | .cons => { state with connected := false }
  | .vmCons => state
  | .proc _ => state.enclavePut

/-- `pisces_enclave_launch`: whether `pisces_cons_init` is reached, whether
`pisces_lcall_init` then succeeds, and whether the rest does. -/
def launch (state : State) (consInit lcallInit launched : Bool) : State :=
  if consInit then
    { state with
      connected := false
      kernThread := if lcallInit then .live else state.kernThread
      status := if lcallInit && launched then .running else state.status }
  else state

/-- `PISCES_ENCLAVE_RESET` -/
def reset (state : State) (consInit lcallInit launched : Bool) : State :=
  match state.kernThread with
  | .live => { state with kernThread := .stopped }.launch consInit lcallInit launched
  | .null | .stopped => { state with opLocked := true }

/-- `pisces_enclave_free`; `enclave_put` comes after `pisces_lcall_deinit`. -/
def free (state : State) : State :=
  match state.kernThread with
  | .live => { state with status := .dead, mapped := false, kernThread := .stopped }.enclavePut
  | .null | .stopped => { state with status := .dead, mapped := false }

end State

inductive Operation where
  | openDevice
  | ctrlConnect (fd : Bool)
  | consConnect (fd : Bool)
  | vmConsConnect (fd : Bool)
  | openProc (file : ProcFile) (opened : Bool)
  | close (kind : Kind)
  | launch (consInit lcallInit launched : Bool)
  | reset (consInit lcallInit launched : Bool)
  | free
  deriving DecidableEq

/-- An ioctl on a descriptor of the device comes to `op_lock`. -/
def State.served (state : State) : Prop :=
  .device ∈ state.opened ∧ state.opLocked = false

instance (state : State) : Decidable state.served :=
  inferInstanceAs (Decidable (.device ∈ state.opened ∧ state.opLocked = false))

/-- One request.  The connect, launch and reset ioctls are made on a descriptor
of the device, and a VM console is connected through a control descriptor of a
running enclave. -/
def step (state : State) : Operation → Option State
  | .openDevice => if state.mapped then some (state.enclaveGet.install .device) else none
  | .ctrlConnect fd => if state.served then some (state.piscesCtrlConnect fd) else none
  | .consConnect fd => if state.served then some (state.piscesConsConnect fd) else none
  | .vmConsConnect fd =>
      if .ctrl ∈ state.opened ∧ state.status = .running then some (state.v3ConsoleConnect fd) else none
  | .openProc file opened => if state.mapped then some (state.procOpen file opened) else none
  | .close kind =>
      if kind ∈ state.opened then
        some ({ state with opened := state.opened.erase kind }.release kind)
      else none
  | .launch consInit lcallInit launched =>
      if state.served then some (state.launch consInit lcallInit launched) else none
  | .reset consInit lcallInit launched =>
      if state.served then some (state.reset consInit lcallInit launched) else none
  | .free => if state.mapped then some state.free else none

def system : System State Operation where
  initial state := state = create
  step := step

def anyOperation (_ : State) (_ : Operation) : Prop :=
  True

/-- No console descriptor is created, no proc file fails to open after the
reference was taken, and FREE finds a long-call thread to stop. -/
def Counted (state : State) : Operation → Prop
  | .consConnect fd => fd = true → state.connected = true
  | .vmConsConnect fd => fd = false
  | .openProc _ opened => opened = true
  | .free => state.kernThread = .live
  | _ => True

instance decidableCounted (state : State) : (operation : Operation) → Decidable (Counted state operation)
  | .consConnect fd => inferInstanceAs (Decidable (fd = true → state.connected = true))
  | .vmConsConnect fd => inferInstanceAs (Decidable (fd = false))
  | .openProc _ opened => inferInstanceAs (Decidable (opened = true))
  | .free => inferInstanceAs (Decidable (state.kernThread = .live))
  | .openDevice | .ctrlConnect _ | .close _ | .launch .. | .reset .. => .isTrue trivial

/-- The reference count is one for the map and one for each descriptor, and the
enclave is given up once, with the last of them. -/
structure Referenced (state : State) : Prop where
  refcount : state.refcount = (if state.mapped then 1 else 0) + state.opened.length
  lastPuts : state.lastPuts = if state.mapped = false ∧ state.opened = [] then 1 else 0
  counting : ∀ kind ∈ state.opened, kind ≠ .cons ∧ kind ≠ .vmCons

variable {state next : State}

theorem Referenced.install (referenced : Referenced state) {kind : Kind}
    (opened : state.mapped = true ∨ state.opened ≠ [])
    (counting : kind ≠ .cons ∧ kind ≠ .vmCons) : Referenced (state.enclaveGet.install kind) := by
  constructor
  · simp only [State.enclaveGet, State.install, List.length_cons, referenced.refcount]
    omega
  · have none : state.lastPuts = 0 := by
      rw [referenced.lastPuts, if_neg]
      rintro ⟨gone, empty⟩
      rcases opened with mapped | some
      · rw [mapped] at gone
        cases gone
      · exact some empty
    simpa [State.enclaveGet, State.install] using none
  · intro other member
    rcases List.mem_cons.mp member with rfl | older
    · exact counting
    · exact referenced.counting other older

theorem Referenced.getPut (referenced : Referenced state) (opened : state.opened ≠ []) :
    Referenced state.enclaveGet.enclavePut := by
  have positive : 0 < state.opened.length := List.length_pos_iff.mpr opened
  have count := referenced.refcount
  have held : state.refcount ≠ 0 := by
    rw [count]
    split <;> omega
  constructor
  · simpa [State.enclaveGet, State.enclavePut] using count
  · simpa [State.enclaveGet, State.enclavePut, held] using referenced.lastPuts
  · exact referenced.counting

theorem Referenced.close (referenced : Referenced state) {kind : Kind} (member : kind ∈ state.opened) :
    Referenced ({ state with opened := state.opened.erase kind }.release kind) := by
  obtain ⟨notCons, notVmCons⟩ := referenced.counting kind member
  have put : State.release { state with opened := state.opened.erase kind } kind =
      State.enclavePut { state with opened := state.opened.erase kind } := by
    cases kind with
    | cons => exact absurd rfl notCons
    | vmCons => exact absurd rfl notVmCons
    | _ => rfl
  have length := List.length_erase_of_mem member
  have positive := List.length_pos_of_mem member
  have count := referenced.refcount
  have none : state.lastPuts = 0 := by
    rw [referenced.lastPuts, if_neg]
    rintro ⟨_, empty⟩
    rw [empty] at member
    cases member
  rw [put]
  constructor
  · simp only [State.enclavePut, count, length]
    split <;> omega
  · have empty : state.opened.erase kind = [] ↔ state.opened.length = 1 := by
      rw [← List.length_eq_zero_iff, length]
      omega
    simp only [State.enclavePut, none, count, empty]
    cases state.mapped with
    | true =>
        rw [if_neg (by simp only [if_true]; omega), if_neg (by simp)]
    | false =>
        by_cases last : state.opened.length = 1
        · rw [if_pos (by simp [last]), if_pos ⟨rfl, last⟩]
        · rw [if_neg (by simp only [Bool.false_eq_true, if_false]; omega), if_neg fun gone => last gone.2]
  · intro other remains
    exact referenced.counting other (List.mem_of_mem_erase remains)

theorem State.free_live (live : state.kernThread = .live) : state.free =
    { state with status := .dead, mapped := false, kernThread := .stopped }.enclavePut := by
  rw [State.free, live]

theorem Referenced.free (referenced : Referenced state) (mapped : state.mapped = true)
    (live : state.kernThread = .live) : Referenced state.free := by
  have count := referenced.refcount
  have none := referenced.lastPuts
  simp only [mapped, if_true] at count
  simp only [mapped, Bool.true_eq_false, false_and, if_false] at none
  have rest : state.refcount - 1 = state.opened.length := by omega
  rw [State.free_live live]
  constructor
  · simp [State.enclavePut, rest]
  · simp [State.enclavePut, none, rest]
  · exact referenced.counting

theorem Referenced.of_same (referenced : Referenced state) (refcount : next.refcount = state.refcount)
    (lastPuts : next.lastPuts = state.lastPuts) (mapped : next.mapped = state.mapped)
    (opened : next.opened = state.opened) : Referenced next := by
  constructor
  · rw [refcount, mapped, opened]
    exact referenced.refcount
  · rw [lastPuts, mapped, opened]
    exact referenced.lastPuts
  · rw [opened]
    exact referenced.counting

theorem Referenced.launch (referenced : Referenced state) (consInit lcallInit launched : Bool) :
    Referenced (state.launch consInit lcallInit launched) := by
  unfold State.launch
  split
  · exact referenced.of_same rfl rfl rfl rfl
  · exact referenced

theorem Referenced.reset (referenced : Referenced state) (consInit lcallInit launched : Bool) :
    Referenced (state.reset consInit lcallInit launched) := by
  unfold State.reset
  split
  · have stopped : Referenced { state with kernThread := .stopped } := referenced.of_same rfl rfl rfl rfl
    exact stopped.launch consInit lcallInit launched
  · exact referenced.of_same rfl rfl rfl rfl
  · exact referenced.of_same rfl rfl rfl rfl

theorem consConnect_same {fd : Bool} (counted : fd = true → state.connected = true) :
    (state.piscesConsConnect fd).refcount = state.refcount ∧
      (state.piscesConsConnect fd).lastPuts = state.lastPuts ∧
      (state.piscesConsConnect fd).mapped = state.mapped ∧
      (state.piscesConsConnect fd).opened = state.opened := by
  unfold State.piscesConsConnect
  split
  · exact ⟨rfl, rfl, rfl, rfl⟩
  · rename_i free
    have failed : fd = false := by
      cases fd with
      | false => rfl
      | true => exact absurd (counted rfl) free
    rw [failed]
    exact ⟨rfl, rfl, rfl, rfl⟩

theorem Referenced.step (referenced : Referenced state) {operation : Operation}
    (counted : Counted state operation) (stepped : Descriptors.step state operation = some next) :
    Referenced next := by
  cases operation with
  | openDevice =>
      simp only [Descriptors.step, Option.ite_none_right_eq_some, Option.some.injEq] at stepped
      obtain ⟨mapped, rfl⟩ := stepped
      exact referenced.install (.inl mapped) ⟨by simp, by simp⟩
  | ctrlConnect fd =>
      simp only [Descriptors.step, Option.ite_none_right_eq_some, Option.some.injEq] at stepped
      obtain ⟨⟨device, _⟩, rfl⟩ := stepped
      cases fd with
      | true => exact referenced.install (.inr (List.ne_nil_of_mem device)) ⟨by simp, by simp⟩
      | false => exact referenced.getPut (List.ne_nil_of_mem device)
  | consConnect fd =>
      simp only [Descriptors.step, Option.ite_none_right_eq_some, Option.some.injEq] at stepped
      obtain ⟨_, rfl⟩ := stepped
      obtain ⟨refcount, lastPuts, mapped, opened⟩ := consConnect_same counted
      exact referenced.of_same refcount lastPuts mapped opened
  | vmConsConnect fd =>
      simp only [Descriptors.step, Option.ite_none_right_eq_some, Option.some.injEq] at stepped
      obtain ⟨_, rfl⟩ := stepped
      cases counted
      exact referenced
  | openProc file opened =>
      simp only [Descriptors.step, Option.ite_none_right_eq_some, Option.some.injEq] at stepped
      obtain ⟨mapped, rfl⟩ := stepped
      cases counted
      exact referenced.install (.inl mapped) ⟨by simp, by simp⟩
  | close kind =>
      simp only [Descriptors.step, Option.ite_none_right_eq_some, Option.some.injEq] at stepped
      obtain ⟨member, rfl⟩ := stepped
      exact referenced.close member
  | launch consInit lcallInit launched =>
      simp only [Descriptors.step, Option.ite_none_right_eq_some, Option.some.injEq] at stepped
      obtain ⟨_, rfl⟩ := stepped
      exact referenced.launch consInit lcallInit launched
  | reset consInit lcallInit launched =>
      simp only [Descriptors.step, Option.ite_none_right_eq_some, Option.some.injEq] at stepped
      obtain ⟨_, rfl⟩ := stepped
      exact referenced.reset consInit lcallInit launched
  | free =>
      simp only [Descriptors.step, Option.ite_none_right_eq_some, Option.some.injEq] at stepped
      obtain ⟨mapped, rfl⟩ := stepped
      exact referenced.free mapped counted

end Pisces.Enclave.Descriptors
