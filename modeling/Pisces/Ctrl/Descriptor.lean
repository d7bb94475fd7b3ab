import Mathlib.Logic.Function.Basic
import Pisces.Enclave.Lifecycle

/-! # The descriptor that control commands are sent on

`ctrl_ioctl` on any number of control descriptors against the places where
LAUNCH, RESET and FREE replace and release `ctrl.xbuf_desc`, one statement that
touches shared state at a time.
-/

namespace Pisces.Ctrl.Descriptor

open Enclave (Status)
open Transition

/-- Where a `ctrl_ioctl` stands, with the pointer that it has read; `adds` says that
`ctrl_add_mem`, `ctrl_add_cpu` or `ctrl_add_pci` will read another one. -/
inductive Phase where
  | idle
  /-- `ctrl->xbuf_desc` has been read. -/
  | entered (adds : Bool) (xbufDesc : Option Nat)
  /-- `ctrl->lock` taken. -/
  | locked (adds : Bool) (xbufDesc : Option Nat)
  /-- The enclave was found running, and the pointer is still to be read again. -/
  | adding
  /-- The enclave was found running, and the pointer is the one to send on. -/
  | ready (xbufDesc : Option Nat)
  /-- Inside `pisces_xbuf_sync_send`. -/
  | sending (xbufDesc : Option Nat)
  /-- After it; no command is sent twice. -/
  | answered
  deriving DecidableEq

/-- LAUNCH and RESET, which hold `op_lock`. -/
inductive Relaunch where
  | idle
  /-- RESET, before `pisces_ctrl_deinit`. -/
  | stopping
  /-- `pisces_enclave_launch`, before `pisces_ctrl_init`. -/
  | launching
  /-- After `pisces_ctrl_init`. -/
  | booting
  deriving DecidableEq

/-- `pisces_enclave_free`, which holds no lock. -/
inductive Free where
  | idle
  | dead
  | released
  deriving DecidableEq

structure State where
  status : Status
  /-- Descriptors are numbered in the order of their allocation. -/
  xbufDesc : Option Nat
  allocated : Nat
  released : List Nat
  /-- The holder of `ctrl->lock`. -/
  lock : Option Nat
  phase : Nat → Phase
  relaunch : Relaunch
  free : Free

inductive Action where
  | enter (id : Nat) (adds : Bool)
  | lock (id : Nat)
  /-- The test of `enclave->state`. -/
  | check (id : Nat)
  /-- `ctrl_add_mem`, `ctrl_add_cpu` or `ctrl_add_pci` reads the pointer again. -/
  | reread (id : Nat)
  | send (id : Nat)
  | sent (id : Nat)
  | finish (id : Nat)
  | launch
  | reset
  | ctrlDeinit
  | ctrlInit (allocated : Bool)
  /-- A failure before `pisces_ctrl_init`. -/
  | abort
  | boot (succeeds : Bool)
  | free
  | freeDeinit
  deriving DecidableEq

namespace State

def moveTo (state : State) (id : Nat) (phase : Phase) : State :=
  { state with phase := Function.update state.phase id phase }

/-- `pisces_ctrl_init` -/
def piscesCtrlInit (state : State) (allocated : Bool) : State :=
  if allocated then
    { state with lock := none, xbufDesc := some state.allocated, allocated := state.allocated + 1 }
  else { state with lock := none, xbufDesc := none }

/-- `pisces_ctrl_deinit` -/
def piscesCtrlDeinit (state : State) : State :=
  { state with released := state.xbufDesc.toList ++ state.released }

/-- The enclave has a descriptor that is not released. -/
def Live (state : State) : Prop :=
  ∃ desc, state.xbufDesc = some desc ∧ desc ∉ state.released

end State

/-- The ioctl will not send on a pointer that it has read already. -/
def Phase.detached : Phase → Bool
  | .idle | .entered true _ | .locked true _ | .adding | .answered => true
  | .entered false _ | .locked false _ | .ready _ | .sending _ => false

/-- No control ioctl will send on a pointer that it has read already. -/
def State.Quiet (state : State) : Prop :=
  ∀ id, (state.phase id).detached = true

def step (state : State) : Action → Option State
  | .enter id adds => if state.phase id = .idle then some (state.moveTo id (.entered adds state.xbufDesc)) else none
  | .lock id =>
      match state.phase id with
      | .entered adds desc =>
          if state.lock = none then some ({ state with lock := some id }.moveTo id (.locked adds desc)) else none
      | _ => none
  | .check id =>
      match state.phase id with
      | .locked adds desc =>
          if state.status = .running then some (state.moveTo id (if adds then .adding else .ready desc))
          else some ({ state with lock := none }.moveTo id .idle)
      | _ => none
  | .reread id =>
      match state.phase id with
      | .adding => some (state.moveTo id (.ready state.xbufDesc))
      | _ => none
  | .send id =>
      match state.phase id with
      | .ready desc => some (state.moveTo id (.sending desc))
      | _ => none
  | .sent id =>
      match state.phase id with
      | .sending _ => some (state.moveTo id .answered)
      | _ => none
  | .finish id =>
      match state.phase id with
      | .adding | .ready _ | .answered => some ({ state with lock := none }.moveTo id .idle)
      | _ => none
  | .launch => if state.relaunch = .idle then some { state with relaunch := .launching } else none
  | .reset => if state.relaunch = .idle then some { state with relaunch := .stopping } else none
  | .ctrlDeinit =>
      if state.relaunch = .stopping then some { state.piscesCtrlDeinit with relaunch := .launching } else none
  | .ctrlInit allocated =>
      if state.relaunch = .launching then some { state.piscesCtrlInit allocated with relaunch := .booting } else none
  | .abort => if state.relaunch = .launching then some { state with relaunch := .idle } else none
  | .boot succeeds =>
      if state.relaunch = .booting then
        some { state with relaunch := .idle, status := if succeeds then .running else state.status }
      else none
  | .free => if state.free = .idle then some { state with free := .dead, status := .dead } else none
  | .freeDeinit =>
      if state.free = .dead then some { state.piscesCtrlDeinit with free := .released } else none

def create : State where
  status := .loaded
  xbufDesc := none
  allocated := 0
  released := []
  lock := none
  phase := fun _ => .idle
  relaunch := .idle
  free := .idle

def system : System State Action where
  initial state := state = create
  step := step

def anyAction (_ : State) (_ : Action) : Prop :=
  True

/-- Every command in flight is sent on the enclave's descriptor, which is not released. -/
def SendsLive (state : State) : Prop :=
  ∀ id pointer, state.phase id = .sending pointer →
    ∃ desc, pointer = some desc ∧ state.xbufDesc = some desc ∧ desc ∉ state.released

/-- The descriptor changes only while no control ioctl will send on what it has read,
and none reads the descriptor of a running enclave that is missing or released. -/
def Undisturbed (state : State) : Action → Prop
  | .enter _ adds => adds = false → state.status = .running → state.Live
  | .reread _ => state.Live
  | .ctrlDeinit | .ctrlInit _ | .freeDeinit => state.Quiet
  | .boot succeeds => succeeds = true → state.Quiet ∨ state.Live
  | _ => True

/-- What an ioctl that is not yet through the test, or is, relies on. -/
def Phase.Valid (state : State) : Phase → Prop
  | .idle | .entered true _ | .locked true _ | .adding | .answered => True
  | .entered false pointer | .locked false pointer =>
      pointer = state.xbufDesc ∧ (state.status = .running → state.Live)
  | .ready pointer | .sending pointer => pointer = state.xbufDesc ∧ state.Live

def Valid (state : State) : Prop :=
  ∀ id, (state.phase id).Valid state

variable {state next : State} {id : Nat} {phase : Phase}

theorem Phase.Valid.of_detached (detached : phase.detached = true) : phase.Valid state := by
  cases phase with
  | idle | adding | answered => trivial
  | entered adds | locked adds =>
      cases adds with
      | true => trivial
      | false => cases detached
  | ready | sending => cases detached

/-- What `Phase.Valid` looks at -/
theorem Phase.Valid.congr {other : State} (valid : phase.Valid state) (pointer : other.xbufDesc = state.xbufDesc)
    (released : other.released = state.released)
    (running : phase.detached = false → other.status = .running → state.status = .running ∨ state.Live) :
    phase.Valid other := by
  have live : other.Live ↔ state.Live := by rw [State.Live, State.Live, pointer, released]
  cases phase with
  | idle | adding | answered => trivial
  | entered adds | locked adds =>
      cases adds with
      | true => trivial
      | false =>
          refine ⟨valid.1.trans pointer.symm, fun nowRunning => live.mpr ?_⟩
          exact (running rfl nowRunning).elim valid.2 id
  | ready | sending => exact ⟨valid.1.trans pointer.symm, live.mpr valid.2⟩

theorem Valid.moveTo (valid : Valid state) (lock : Option Nat) (placed : phase.Valid state) :
    Valid { state with lock := lock, phase := Function.update state.phase id phase } := by
  intro other
  by_cases moved : other = id
  · subst moved
    simp only [Function.update_self]
    exact placed.congr rfl rfl fun _ => Or.inl
  · simp only [Function.update_of_ne moved]
    exact (valid other).congr rfl rfl fun _ => Or.inl

theorem valid_of_quiet (quiet : state.Quiet) : Valid state :=
  fun id => .of_detached (quiet id)

theorem Valid.of_status (valid : Valid state) {status : Status} {relaunch : Relaunch} {free : Free}
    (running : status = .running → state.status ≠ .running → state.Quiet ∨ state.Live) :
    Valid { state with status := status, relaunch := relaunch, free := free } := by
  intro id
  refine (valid id).congr rfl rfl fun busy nowRunning => ?_
  by_cases wasRunning : state.status = .running
  · exact Or.inl wasRunning
  · rcases running nowRunning wasRunning with quiet | live
    · rw [quiet id] at busy
      cases busy
    · exact Or.inr live

theorem Valid.step {action : Action} (valid : Valid state) (undisturbed : Undisturbed state action)
    (stepped : Descriptor.step state action = some next) : Valid next := by
  cases action with
  | enter id adds =>
      simp only [Descriptor.step, Option.ite_none_right_eq_some, Option.some.injEq] at stepped
      obtain ⟨_, rfl⟩ := stepped
      cases adds with
      | true => exact valid.moveTo state.lock trivial
      | false => exact valid.moveTo state.lock ⟨rfl, undisturbed rfl⟩
  | lock id =>
      have kept := valid id
      cases current : state.phase id <;> simp only [Descriptor.step, current, reduceCtorEq] at stepped
      rename_i adds pointer
      rw [current] at kept
      simp only [Option.ite_none_right_eq_some, Option.some.injEq] at stepped
      obtain ⟨_, rfl⟩ := stepped
      cases adds with
      | true => exact valid.moveTo (some id) trivial
      | false => exact valid.moveTo (some id) kept
  | check id =>
      have kept := valid id
      cases current : state.phase id <;> simp only [Descriptor.step, current, reduceCtorEq] at stepped
      rename_i adds pointer
      rw [current] at kept
      split at stepped
      · rename_i running
        cases stepped
        cases adds with
        | true => exact valid.moveTo state.lock trivial
        | false => exact valid.moveTo state.lock ⟨kept.1, kept.2 running⟩
      · cases stepped
        exact valid.moveTo none trivial
  | reread id =>
      cases current : state.phase id <;> simp only [Descriptor.step, current, reduceCtorEq] at stepped
      cases stepped
      exact valid.moveTo state.lock ⟨rfl, undisturbed⟩
  | send id =>
      have kept := valid id
      cases current : state.phase id <;> simp only [Descriptor.step, current, reduceCtorEq] at stepped
      rw [current] at kept
      cases stepped
      exact valid.moveTo state.lock kept
  | sent id =>
      cases current : state.phase id <;> simp only [Descriptor.step, current, reduceCtorEq] at stepped
      cases stepped
      exact valid.moveTo state.lock trivial
  | finish id =>
      cases current : state.phase id <;> simp only [Descriptor.step, current, reduceCtorEq] at stepped
      all_goals
        cases stepped
        exact valid.moveTo none trivial
  | launch | reset | abort =>
      simp only [Descriptor.step, Option.ite_none_right_eq_some, Option.some.injEq] at stepped
      obtain ⟨_, rfl⟩ := stepped
      exact valid.of_status fun running before => absurd running before
  | boot succeeds =>
      simp only [Descriptor.step, Option.ite_none_right_eq_some, Option.some.injEq] at stepped
      obtain ⟨_, rfl⟩ := stepped
      cases succeeds with
      | true => exact valid.of_status fun _ _ => undisturbed rfl
      | false => exact valid.of_status fun running before => absurd running before
  | free =>
      simp only [Descriptor.step, Option.ite_none_right_eq_some, Option.some.injEq] at stepped
      obtain ⟨_, rfl⟩ := stepped
      exact valid.of_status fun running => by cases running
  | ctrlDeinit | freeDeinit =>
      simp only [Descriptor.step, Option.ite_none_right_eq_some, Option.some.injEq] at stepped
      obtain ⟨_, rfl⟩ := stepped
      exact valid_of_quiet undisturbed
  | ctrlInit allocated =>
      simp only [Descriptor.step, Option.ite_none_right_eq_some, Option.some.injEq] at stepped
      obtain ⟨_, rfl⟩ := stepped
      apply valid_of_quiet
      cases allocated <;> exact undisturbed

/-- If the descriptor only changes while no control ioctl will send on the one it has
read, every command is sent on the enclave's own descriptor. -/
theorem sends_live_of_undisturbed (reached : system.Reachable Undisturbed state) : SendsLive state := by
  have valid : Valid state := by
    apply reached.invariant
    · rintro start rfl
      exact valid_of_quiet fun _ => rfl
    · intro state action next valid undisturbed stepped
      exact valid.step undisturbed stepped
  intro id pointer sending
  have sends := valid id
  rw [sending] at sends
  obtain ⟨same, desc, current, unreleased⟩ := sends
  exact ⟨desc, same.trans current, current, unreleased⟩

/-- A launched enclave, with its first descriptor. -/
def launched : State :=
  { create with status := .running, xbufDesc := some 0, allocated := 1 }

theorem launched_reachable : system.Reachable Undisturbed launched := by
  have entered : system.Path Undisturbed create { create with relaunch := .launching } :=
    .single (show Undisturbed create .launch from trivial) rfl
  have initialised : system.Path Undisturbed create { launched with status := .loaded, relaunch := .booting } :=
    entered.snoc (show Undisturbed _ (.ctrlInit true) from fun _ => rfl) rfl
  have booted : system.Path Undisturbed create launched :=
    initialised.snoc (show Undisturbed _ (.boot true) from fun _ => .inl fun _ => rfl) rfl
  exact ⟨create, rfl, booted⟩

/-- An ADD command that entered before a reset is sent on the new descriptor. -/
theorem sends_live_launched :
    ∃ state, system.Reachable Undisturbed state ∧ state.phase 1 = .sending (some 1) ∧ SendsLive state := by
  have quiet : ∀ id, (Function.update (fun _ => Phase.idle) 1 (.entered true (some 0)) id).detached = true := by
    intro id
    by_cases adding : id = 1 <;> simp [adding, Phase.detached]
  obtain ⟨_, initial, path⟩ := launched_reachable
  have entered := path.snoc (show Undisturbed launched (.enter 1 true) from fun adds => Bool.noConfusion adds) rfl
  have stopping := entered.snoc (show Undisturbed _ .reset from trivial) rfl
  have released := stopping.snoc (show Undisturbed _ .ctrlDeinit from quiet) rfl
  have initialised := released.snoc (show Undisturbed _ (.ctrlInit true) from quiet) rfl
  have booted := initialised.snoc (show Undisturbed _ (.boot true) from fun _ => .inl quiet) rfl
  have locked := booted.snoc (show Undisturbed _ (.lock 1) from trivial) rfl
  have checked := locked.snoc (show Undisturbed _ (.check 1) from trivial) rfl
  have reread := checked.snoc (show Undisturbed _ (.reread 1) from
    ⟨1, rfl, by simp [State.piscesCtrlInit, State.piscesCtrlDeinit, State.moveTo, launched, create]⟩) rfl
  have sending := reread.snoc (show Undisturbed _ (.send 1) from trivial) rfl
  exact ⟨_, ⟨_, initial, sending⟩, rfl, sends_live_of_undisturbed ⟨_, initial, sending⟩⟩

/-- A pointer read before a reset is still used after it. -/
theorem sends_on_released :
    ∃ state, system.Reachable anyAction state ∧ state.phase 0 = .sending (some 0) ∧ 0 ∈ state.released ∧
      state.xbufDesc = some 1 ∧ ¬ SendsLive state := by
  obtain ⟨state, executed, observed⟩ := Option.map_eq_some_iff.mp
    (show (system.run (fun _ _ => true) create
      [.launch, .ctrlInit true, .boot true, .enter 0 false, .reset, .ctrlDeinit, .ctrlInit true, .boot true, .lock 0,
        .check 0, .send 0]).map (fun state => (state.phase 0, state.released, state.xbufDesc)) =
          some (.sending (some 0), [0], some 1) by decide)
  simp only [Prod.mk.injEq] at observed
  obtain ⟨sending, released, current⟩ := observed
  refine ⟨state, ⟨create, rfl, System.run_path (fun _ => trivial) executed⟩, sending, by simp [released], current, ?_⟩
  intro live
  obtain ⟨desc, same, own, _⟩ := live 0 _ sending
  rw [current, ← same] at own
  cases own

end Pisces.Ctrl.Descriptor
