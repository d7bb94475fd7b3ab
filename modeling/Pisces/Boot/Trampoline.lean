import Pisces.Mutex
import Pisces.Transition

/-! # Borrowing Linux's trampoline

`pisces_setup_trampoline` and `pisces_restore_trampoline` as `boot_enclave` and
`ctrl_add_cpu` call them, in the build with `trampoline_3`.  Any number of
operations run at once, one statement that touches shared state at a time.
-/

namespace Pisces.Boot.Trampoline

open Transition

variable {Page : Type*}

inductive Caller where
  | bootEnclave
  | ctrlAddCpu
  deriving DecidableEq

/-- What the LAUNCH ioctl stores in the enclave -/
structure Bootmem where
  bootmemAddr : UInt64
  bootmemSize : UInt64
  deriving DecidableEq

/-- An operation on an enclave -/
structure Request where
  caller : Caller
  enclave : Nat
  deriving DecidableEq

/-- Where an operation stands. -/
inductive Phase where
  | idle
  /-- At the head of `pisces_setup_trampoline`. -/
  | entered (request : Request)
  /-- `trampoline_lock` taken and the tables built. -/
  | locked (request : Request)
  /-- The Linux lock of `__cpu_maps_update_begin` taken. -/
  | exclusive (request : Request)
  /-- The set-up has succeeded, and the CPU is being started. -/
  | borrowed (request : Request)
  /-- The set-up has failed, and `ctrl_add_cpu` goes on. -/
  | refused (request : Request)
  /-- PGD and target written back from the cache; `up` if the set-up succeeded and
  the CPU came up. -/
  | restored (request : Request) (up : Bool)
  /-- `__cpu_maps_update_done` called. -/
  | released (request : Request) (up : Bool)
  deriving DecidableEq

/-- Who takes the Linux lock. -/
inductive Party where
  | operation (id : Nat)
  | linux
  deriving DecidableEq

structure State (Page : Type*) where
  stored : Nat → Bootmem
  /-- The enclaves that `pisces_enclave_launch` has made RUNNING -/
  booted : Nat → Bool
  trampolineLock : Option Nat
  cpuMapsLock : Option Party
  /-- The tables of `trampoline_state` -/
  pml : Page
  trampolinePgd : Page
  trampolineTarget : UInt64
  cachedPgd : Page
  cachedTrampolineTarget : UInt64
  phase : Nat → Phase
  /-- What Linux had there before the first set-up. -/
  linuxPgd : Page
  linuxTarget : UInt64
  /-- Locks released by an operation that does not hold them. -/
  strayReleases : Nat
  /-- Restores by an operation without a successful set-up. -/
  strayRestores : Nat

inductive Action where
  /-- What LAUNCH stores before it boots the enclave -/
  | launch (enclave : Nat) (baseAddr numPages : UInt64)
  /-- A call of `boot_enclave` or `ctrl_add_cpu`. -/
  | call (id : Nat) (request : Request)
  /-- The next statement, with whether the CPU comes up in time -/
  | advance (id : Nat) (initialized : Bool)
  | linuxBegin
  | linuxDone
  deriving DecidableEq

namespace State

def moveTo (state : State Page) (id : Nat) (phase : Phase) : State Page :=
  { state with phase := Function.update state.phase id phase }

/-- `setup_enclave_trampoline` after it has the lock -/
def setupEnclaveTrampoline (state : State Page) (enclave : Nat) : State Page :=
  { state with
    cachedPgd := state.trampolinePgd
    trampolinePgd := state.pml
    cachedTrampolineTarget := state.trampolineTarget
    trampolineTarget := (state.stored enclave).bootmemAddr }

/-- `restore_enclave_trampoline` up to the release of the lock -/
def restoreEnclaveTrampoline (state : State Page) : State Page :=
  { state with trampolinePgd := state.cachedPgd, trampolineTarget := state.cachedTrampolineTarget }

def cpuMapsUpdateDone (state : State Page) (id : Nat) : State Page :=
  { state with
    cpuMapsLock := none
    strayReleases := state.strayReleases + if state.cpuMapsLock = some (.operation id) then 0 else 1 }

def unlockTrampoline (state : State Page) (id : Nat) : State Page :=
  { state with
    trampolineLock := none
    strayReleases := state.strayReleases + if state.trampolineLock = some id then 0 else 1 }

/-- `boot_enclave` has returned, and `pisces_enclave_launch` sets the state after a
success. -/
def finish (state : State Page) (request : Request) (up : Bool) : State Page :=
  { state with
    booted := if request.caller = .bootEnclave ∧ up = true then Function.update state.booted request.enclave true
      else state.booted }

end State

/-- The test at the head of `pisces_setup_trampoline` -/
def Bootmem.granular (bootmem : Bootmem) : Bool :=
  bootmem.bootmemSize % 0x200000 == 0

/-- One statement of an operation; `build` gives the tables for an enclave's boot
memory. -/
def advance (build : Bootmem → Page) (state : State Page) (id : Nat) (initialized : Bool) : Option (State Page) :=
  match state.phase id with
  | .idle => none
  | .entered request =>
      if (state.stored request.enclave).granular then
        if state.trampolineLock = none then
          some ({ state with
            trampolineLock := some id
            pml := build (state.stored request.enclave) }.moveTo id (.locked request))
        else none
      else
        match request.caller with
        | .bootEnclave => some (state.moveTo id .idle)
        | .ctrlAddCpu => some (state.moveTo id (.refused request))
  | .locked request =>
      if state.cpuMapsLock = none then
        some ({ state with cpuMapsLock := some (.operation id) }.moveTo id (.exclusive request))
      else none
  | .exclusive request => some ((state.setupEnclaveTrampoline request.enclave).moveTo id (.borrowed request))
  | .borrowed request => some (state.restoreEnclaveTrampoline.moveTo id (.restored request initialized))
  | .refused request =>
      some ({ state.restoreEnclaveTrampoline with
        strayRestores := state.strayRestores + 1 }.moveTo id (.restored request false))
  | .restored request up => some ((state.cpuMapsUpdateDone id).moveTo id (.released request up))
  | .released request up => some (((state.unlockTrampoline id).finish request up).moveTo id .idle)

/-- `ctrl_ioctl` goes on to `ctrl_add_cpu` for a RUNNING enclave only, and RESET calls
it after a boot that succeeded. -/
def State.admits (state : State Page) (request : Request) : Bool :=
  match request.caller with
  | .bootEnclave => true
  | .ctrlAddCpu => state.booted request.enclave

def step (build : Bootmem → Page) (state : State Page) : Action → Option (State Page)
  | .launch enclave baseAddr numPages =>
      some { state with
        stored := Function.update state.stored enclave ⟨baseAddr, numPages * 0x1000⟩ }
  | .call id request =>
      if state.phase id = .idle ∧ state.admits request = true then some (state.moveTo id (.entered request)) else none
  | .advance id initialized => advance build state id initialized
  | .linuxBegin => if state.cpuMapsLock = none then some { state with cpuMapsLock := some .linux } else none
  | .linuxDone => if state.cpuMapsLock = some .linux then some { state with cpuMapsLock := none } else none

/-- Nothing has been set up; tables and cache are empty. -/
def start (linuxPgd emptyPage : Page) (linuxTarget : UInt64) : State Page where
  stored := fun _ => ⟨0, 0⟩
  booted := fun _ => false
  trampolineLock := none
  cpuMapsLock := none
  pml := emptyPage
  trampolinePgd := linuxPgd
  trampolineTarget := linuxTarget
  cachedPgd := emptyPage
  cachedTrampolineTarget := 0
  phase := fun _ => .idle
  linuxPgd := linuxPgd
  linuxTarget := linuxTarget
  strayReleases := 0
  strayRestores := 0

def system (build : Bootmem → Page) : System (State Page) Action where
  initial state := ∃ linuxPgd emptyPage linuxTarget, state = start linuxPgd emptyPage linuxTarget
  step := step build

def anyAction (_ : State Page) (_ : Action) : Prop :=
  True

/-- When `ctrl_add_cpu` comes to the test, whole 2MB of boot memory are stored for its
enclave. -/
def granular (state : State Page) : Action → Bool
  | .advance id _ =>
      match state.phase id with
      | .entered ⟨.ctrlAddCpu, enclave⟩ => (state.stored enclave).granular
      | _ => true
  | _ => true

def Granular (state : State Page) (action : Action) : Prop :=
  granular state action = true

namespace Phase

def locks : Phase → Bool
  | .locked _ | .exclusive _ | .borrowed _ | .restored .. | .released .. => true
  | _ => false

def locksMaps : Phase → Bool
  | .exclusive _ | .borrowed _ | .restored .. => true
  | _ => false

def borrows : Phase → Bool
  | .borrowed _ => true
  | _ => false

/-- An operation that goes on without a set-up. -/
def unprepared : Phase → Bool
  | .refused _ => true
  | _ => false

end Phase

open Phase Mutex

structure Balanced (state : State Page) : Prop where
  trampolineLock : Tracks id locks state.phase state.trampolineLock
  cpuMapsLock : Tracks Party.operation locksMaps state.phase state.cpuMapsLock
  prepared : ∀ id, (state.phase id).unprepared = false
  /-- Either nobody has borrowed the trampoline, or the cache has Linux's. -/
  ours : ∀ id, (state.phase id).borrows = true →
    state.cachedPgd = state.linuxPgd ∧ state.cachedTrampolineTarget = state.linuxTarget
  theirs : (∀ id, (state.phase id).borrows = false) →
    state.trampolinePgd = state.linuxPgd ∧ state.trampolineTarget = state.linuxTarget
  strayReleases : state.strayReleases = 0
  strayRestores : state.strayRestores = 0

variable {build : Bootmem → Page} {state after : State Page} {op : Nat} {next : Phase} {request : Request}
  {up : Bool}

theorem update_borrows {phase : Nat → Phase} (same : next.borrows = (phase op).borrows) (other : Nat) :
    (Function.update phase op next other).borrows = (phase other).borrows := by
  by_cases moved : other = op
  · rw [moved, Function.update_self, same]
  · rw [Function.update_of_ne moved]

theorem update_prepared {phase : Nat → Phase} (prepared : ∀ other, (phase other).unprepared = false)
    (ready : next.unprepared = false) (other : Nat) :
    (Function.update phase op next other).unprepared = false := by
  by_cases moved : other = op
  · rw [moved, Function.update_self, ready]
  · rw [Function.update_of_ne moved]
    exact prepared other

/-- Balance says nothing of what is stored, of who was booted and of the tables. -/
theorem Balanced.kept (balanced : Balanced state) (stored : Nat → Bootmem) (booted : Nat → Bool) (pml : Page) :
    Balanced { state with stored, booted, pml } := by
  constructor
  · exact balanced.trampolineLock
  · exact balanced.cpuMapsLock
  · exact balanced.prepared
  · exact balanced.ours
  · exact balanced.theirs
  · exact balanced.strayReleases
  · exact balanced.strayRestores

theorem Balanced.moved (balanced : Balanced state) {trampolineLock : Option Nat} {cpuMapsLock : Option Party}
    (ready : next.unprepared = false) (same : next.borrows = (state.phase op).borrows)
    (locked : Tracks id locks (Function.update state.phase op next) trampolineLock)
    (mapsLocked : Tracks Party.operation locksMaps (Function.update state.phase op next) cpuMapsLock) :
    Balanced { state with
      phase := Function.update state.phase op next
      trampolineLock := trampolineLock
      cpuMapsLock := cpuMapsLock } := by
  have borrows := update_borrows same
  constructor
  · exact locked
  · exact mapsLocked
  · exact update_prepared balanced.prepared ready
  · intro other borrowed
    rw [borrows] at borrowed
    exact balanced.ours other borrowed
  · intro unborrowed
    apply balanced.theirs
    intro other
    rw [← borrows]
    exact unborrowed other
  · exact balanced.strayReleases
  · exact balanced.strayRestores

theorem operation_injective : Function.Injective Party.operation := by
  intro left right same
  cases same
  rfl

/-- While an operation holds the lock and has not borrowed, nobody has. -/
theorem Balanced.unborrowed (balanced : Balanced state) (holds : (state.phase op).locks = true)
    (not : (state.phase op).borrows = false) (other : Nat) : (state.phase other).borrows = false := by
  cases borrows : (state.phase other).borrows with
  | false => rfl
  | true =>
      have locks : (state.phase other).locks = true := by
        cases phase : state.phase other with
        | borrowed request => rfl
        | _ => simp [phase, Phase.borrows] at borrows
      have same : op = other := balanced.trampolineLock.unique Function.injective_id holds locks
      rw [same] at not
      rw [not] at borrows
      cases borrows

theorem Balanced.setup (balanced : Balanced state) (phase : state.phase op = .exclusive request) :
    Balanced ((state.setupEnclaveTrampoline request.enclave).moveTo op (.borrowed request)) := by
  have nobody := balanced.unborrowed (by rw [phase]; rfl) (by rw [phase]; rfl)
  have linux := balanced.theirs nobody
  constructor
  · exact balanced.trampolineLock.keep (by rw [phase]; rfl)
  · exact balanced.cpuMapsLock.keep (by rw [phase]; rfl)
  · exact update_prepared balanced.prepared rfl
  · intro _ _
    exact linux
  · intro unborrowed
    have borrowed := unborrowed op
    simp [State.moveTo, Phase.borrows] at borrowed
  · exact balanced.strayReleases
  · exact balanced.strayRestores

theorem Balanced.restore (balanced : Balanced state) (phase : state.phase op = .borrowed request) :
    Balanced (state.restoreEnclaveTrampoline.moveTo op (.restored request up)) := by
  have linux := balanced.ours op (by rw [phase]; rfl)
  constructor
  · exact balanced.trampolineLock.keep (by rw [phase]; rfl)
  · exact balanced.cpuMapsLock.keep (by rw [phase]; rfl)
  · exact update_prepared balanced.prepared rfl
  · intro _ _
    exact linux
  · intro _
    exact linux
  · exact balanced.strayReleases
  · exact balanced.strayRestores

theorem Balanced.updateDone (balanced : Balanced state) (phase : state.phase op = .restored request up) :
    Balanced ((state.cpuMapsUpdateDone op).moveTo op (.released request up)) := by
  have held : state.cpuMapsLock = some (.operation op) := (balanced.cpuMapsLock op).mp (by rw [phase]; rfl)
  simp only [State.cpuMapsUpdateDone, held, if_true, Nat.add_zero]
  exact balanced.moved rfl (by rw [phase]; rfl) (balanced.trampolineLock.keep (by rw [phase]; rfl))
    (balanced.cpuMapsLock.give operation_injective (by rw [phase]; rfl) rfl)

theorem Balanced.unlock (balanced : Balanced state) (phase : state.phase op = .released request up) :
    Balanced (((state.unlockTrampoline op).finish request up).moveTo op .idle) := by
  have held : state.trampolineLock = some op := (balanced.trampolineLock op).mp (by rw [phase]; rfl)
  have unlocked := balanced.moved (show Phase.idle.unprepared = false from rfl) (by rw [phase]; rfl)
    (balanced.trampolineLock.give Function.injective_id (by rw [phase]; rfl) rfl)
    (balanced.cpuMapsLock.keep (by rw [phase]; rfl))
  simp only [State.unlockTrampoline, held, if_true, Nat.add_zero]
  exact unlocked.kept _ _ _

theorem Balanced.advance (balanced : Balanced state) {initialized : Bool}
    (granular : Granular state (.advance op initialized))
    (stepped : Trampoline.advance build state op initialized = some after) : Balanced after := by
  unfold Trampoline.advance at stepped
  cases phase : state.phase op with
  | idle => simp [phase] at stepped
  | entered request =>
      simp only [phase] at stepped
      split at stepped
      · simp only [Option.ite_none_right_eq_some, Option.some.injEq] at stepped
        obtain ⟨free, rfl⟩ := stepped
        have taken := balanced.moved (show (Phase.locked request).unprepared = false from rfl) (by rw [phase]; rfl)
          (balanced.trampolineLock.take Function.injective_id free rfl)
          (balanced.cpuMapsLock.keep (by rw [phase]; rfl))
        exact taken.kept _ _ _
      · rename_i coarse
        cases caller : request.caller with
        | bootEnclave =>
            simp only [caller] at stepped
            cases stepped
            exact balanced.moved rfl (by rw [phase]; rfl) (balanced.trampolineLock.keep (by rw [phase]; rfl))
              (balanced.cpuMapsLock.keep (by rw [phase]; rfl))
        | ctrlAddCpu =>
            obtain ⟨_, enclave⟩ := request
            cases caller
            simp only [Granular, Trampoline.granular, phase] at granular
            exact absurd granular coarse
  | locked request =>
      simp only [phase, Option.ite_none_right_eq_some, Option.some.injEq] at stepped
      obtain ⟨free, rfl⟩ := stepped
      exact balanced.moved rfl (by rw [phase]; rfl) (balanced.trampolineLock.keep (by rw [phase]; rfl))
        (balanced.cpuMapsLock.take operation_injective free rfl)
  | exclusive request =>
      simp only [phase] at stepped
      cases stepped
      exact balanced.setup phase
  | borrowed request =>
      simp only [phase] at stepped
      cases stepped
      exact balanced.restore phase
  | refused request =>
      have prepared := balanced.prepared op
      rw [phase] at prepared
      cases prepared
  | restored request up =>
      simp only [phase] at stepped
      cases stepped
      exact balanced.updateDone phase
  | released request up =>
      simp only [phase] at stepped
      cases stepped
      exact balanced.unlock phase

theorem Balanced.linux (balanced : Balanced state) {lock : Option Party}
    (others : ∀ id, state.cpuMapsLock ≠ some (.operation id)) (free : ∀ id, lock ≠ some (.operation id)) :
    Balanced { state with cpuMapsLock := lock } := by
  constructor
  · exact balanced.trampolineLock
  · intro id
    exact iff_of_false (fun holds => others id ((balanced.cpuMapsLock id).mp holds)) (free id)
  · exact balanced.prepared
  · exact balanced.ours
  · exact balanced.theirs
  · exact balanced.strayReleases
  · exact balanced.strayRestores

theorem Balanced.step (balanced : Balanced state) {action : Action} (granular : Granular state action)
    (stepped : Trampoline.step build state action = some after) : Balanced after := by
  cases action with
  | launch =>
      cases stepped
      exact balanced.kept _ _ _
  | call op request =>
      simp only [Trampoline.step, Option.ite_none_right_eq_some, Option.some.injEq] at stepped
      obtain ⟨⟨idle, _⟩, rfl⟩ := stepped
      exact balanced.moved rfl (by rw [idle]; rfl) (balanced.trampolineLock.keep (by rw [idle]; rfl))
        (balanced.cpuMapsLock.keep (by rw [idle]; rfl))
  | advance op => exact balanced.advance granular stepped
  | linuxBegin =>
      simp only [Trampoline.step, Option.ite_none_right_eq_some, Option.some.injEq] at stepped
      obtain ⟨free, rfl⟩ := stepped
      exact balanced.linux (by simp [free]) (by simp)
  | linuxDone =>
      simp only [Trampoline.step, Option.ite_none_right_eq_some, Option.some.injEq] at stepped
      obtain ⟨held, rfl⟩ := stepped
      exact balanced.linux (by simp [held]) (by simp)

theorem balanced_start (linuxPgd emptyPage : Page) (linuxTarget : UInt64) :
    Balanced (start linuxPgd emptyPage linuxTarget) := by
  constructor
  · intro id
    simp [start, Phase.locks]
  · intro id
    simp [start, Phase.locksMaps]
  · intro id
    rfl
  · intro id borrows
    cases borrows
  · intro _
    exact ⟨rfl, rfl⟩
  · rfl
  · rfl

/-- As long as CPUs are only added to enclaves with whole 2MB of boot memory, every
restore and release is due, and with no operation in progress Linux has its
trampoline and the locks back. -/
theorem trampoline_returned_of_granular (reached : (system build).Reachable Granular state) :
    state.strayRestores = 0 ∧ state.strayReleases = 0 ∧
      (∀ op, (state.phase op).locks = true ↔ state.trampolineLock = some op) ∧
      (∀ op, (state.phase op).locksMaps = true ↔ state.cpuMapsLock = some (.operation op)) ∧
      ((∀ op, state.phase op = .idle) →
        state.trampolinePgd = state.linuxPgd ∧ state.trampolineTarget = state.linuxTarget ∧
          state.trampolineLock = none ∧ ∀ op, state.cpuMapsLock ≠ some (.operation op)) := by
  have balanced : Balanced state := by
    apply reached.invariant
    · rintro state ⟨linuxPgd, emptyPage, linuxTarget, rfl⟩
      exact balanced_start linuxPgd emptyPage linuxTarget
    · intro state action next balanced granular stepped
      exact balanced.step granular stepped
  refine ⟨balanced.strayRestores, balanced.strayReleases, balanced.trampolineLock, balanced.cpuMapsLock, ?_⟩
  intro idle
  have nobody : ∀ op, (state.phase op).borrows = false := fun op => by rw [idle]; rfl
  obtain ⟨pgd, target⟩ := balanced.theirs nobody
  refine ⟨pgd, target, ?_, ?_⟩
  · cases lock : state.trampolineLock with
    | none => rfl
    | some op =>
        have holds := (balanced.trampolineLock op).mpr lock
        rw [idle] at holds
        cases holds
  · intro op lock
    have holds := (balanced.cpuMapsLock op).mpr lock
    rw [idle] at holds
    cases holds

/-- LAUNCH of an enclave on 2MB of boot memory, with a CPU that comes up -/
def launched : List Action :=
  [.launch 0 0x100000000 512, .call 0 ⟨.bootEnclave, 0⟩, .advance 0 true, .advance 0 true, .advance 0 true,
    .advance 0 true, .advance 0 true, .advance 0 true]

theorem trampoline_returned_borrowed :
    ∃ state, (system (fun _ => 7)).Reachable Granular state ∧ state.phase 1 = .borrowed ⟨.ctrlAddCpu, 0⟩ ∧
      state.trampolineLock = some 1 := by
  obtain ⟨state, executed, observed⟩ := Option.map_eq_some_iff.mp
    (show ((system fun _ => 7).run granular (start 1 0 5)
      (launched ++ [.call 1 ⟨.ctrlAddCpu, 0⟩, .advance 1 true, .advance 1 true, .advance 1 true])).map (·.phase 1) =
        some (.borrowed ⟨.ctrlAddCpu, 0⟩) by decide)
  have reached : (system fun _ => 7).Reachable Granular state :=
    ⟨_, ⟨_, _, _, rfl⟩, System.run_path (fun checked => checked) executed⟩
  refine ⟨state, reached, observed, ?_⟩
  apply ((trampoline_returned_of_granular reached).2.2.1 1).mp
  rw [observed]
  rfl

/-- A second LAUNCH with one page of boot memory is refused and leaves the enclave
RUNNING.  Adding a CPU then restores a trampoline that the operation has not set
up, and releases two locks that it does not hold. -/
theorem trampoline_lost :
    ∃ state, (system (fun _ => 7)).Reachable anyAction state ∧ state.phase 0 = .idle ∧ state.strayRestores = 1 ∧
      state.strayReleases = 2 := by
  obtain ⟨state, executed, observed⟩ := Option.map_eq_some_iff.mp
    (show ((system fun _ => 7).run (fun _ _ => true) (start 1 0 5)
      (launched ++ [.launch 0 0x100000000 1, .call 0 ⟨.bootEnclave, 0⟩, .advance 0 true, .call 0 ⟨.ctrlAddCpu, 0⟩,
        .advance 0 true, .advance 0 true, .advance 0 true, .advance 0 true])).map
        (fun state => (state.phase 0, state.strayRestores, state.strayReleases)) = some (.idle, 1, 2) by decide)
  have reached : (system fun _ => 7).Reachable anyAction state :=
    ⟨_, ⟨_, _, _, rfl⟩, System.run_path (fun _ => trivial) executed⟩
  simp only [Prod.mk.injEq] at observed
  exact ⟨state, reached, observed⟩

end Pisces.Boot.Trampoline
